import Swpasskey.Store.Durability
import Swpasskey.Store.Load
import Swpasskey.Store.Rows

/-!
# What holds of every store

The rows of a store are valid, have distinct ids and are at most `kMaxCredentials`
(`Table`). Every mutator keeps this, whatever the persister answers: `put` replaces a row or
appends one when there is room, and a failed flush rolls it back; a failed `erase` puts the row
back at the end. Loading does not go through `put`, so it keeps the invariant only because the
plaintext of a store reads back as that store (`Swpasskey/Store/Load.lean`), which in turn
needs the rows to be valid. The two are proved together over the stores that can be reached.
-/

namespace Swpasskey.Store

open Proc

/-- `count_by_backend`: one count for each value of `BackendKind`. -/
def countByBackend (s : Store) : List ℕ :=
  s.creds.foldl (fun out c => out.modify c.backend.code.toNat (· + 1)) [0, 0, 0]

/-- What `validate` accepts. -/
theorem validate_eq_ok {c : Credential} (h : validate c = .ok ()) :
    1 ≤ c.rpId.length ∧ c.rpId.length ≤ 255 ∧ c.userId.length ≤ 64 ∧
      if c.backend = .software then c.handle = [] ∧ c.priv.length = 32
      else c.priv = [] ∧ c.handle ≠ [] := by
  unfold validate at h
  split_ifs at h with hrp huser hsoft hrow hrow
  all_goals
    simp only [Bool.or_eq_true, not_or, Bool.not_eq_true', List.isEmpty_iff,
      List.isEmpty_eq_false_iff, decide_eq_true_eq, not_lt, not_not, ne_eq, gt_iff_lt] at hrp hrow
    refine ⟨List.length_pos_iff.mpr hrp.1, hrp.2, not_lt.mp huser, ?_⟩
    simpa [hsoft] using hrow

/-! ### The table -/

/-- What holds of the rows of a store. -/
structure Table (l : List Credential) : Prop where
  valid : ∀ c ∈ l, validate c = .ok ()
  nodup : (ids l).Nodup
  length_le : l.length ≤ kMaxCredentials
  sized : ∀ c ∈ l, Sized c

namespace Table

variable {l l' : List Credential} {c : Credential} {credId : Bytes}

theorem empty : Table [] where
  valid := by simp
  nodup := List.nodup_nil
  length_le := Nat.zero_le _
  sized := by simp

theorem perm (h : Table l) (hperm : l.Perm l') : Table l' where
  valid c hc := h.valid c (hperm.mem_iff.mpr hc)
  nodup := (hperm.map _).nodup_iff.mp h.nodup
  length_le := hperm.length_eq ▸ h.length_le
  sized c hc := h.sized c (hperm.mem_iff.mpr hc)

theorem sublist (h : Table l) (hsub : l'.Sublist l) : Table l' where
  valid c hc := h.valid c (hsub.subset hc)
  nodup := (hsub.map _).nodup h.nodup
  length_le := hsub.length_le.trans h.length_le
  sized c hc := h.sized c (hsub.subset hc)

theorem cons (h : Table l) (hvalid : validate c = .ok ()) (hsized : Sized c)
    (hnew : c.credId ∉ ids l) (hroom : l.length < kMaxCredentials) : Table (c :: l) where
  valid := List.forall_mem_cons.mpr ⟨hvalid, h.valid⟩
  nodup := List.nodup_cons.mpr ⟨hnew, h.nodup⟩
  length_le := hroom
  sized := List.forall_mem_cons.mpr ⟨hsized, h.sized⟩

theorem put {s : Store} (h : Table s.creds) (hvalid : validate c = .ok ()) (hsized : Sized c)
    (hroom : s.full c = false) : Table (putRows c s.creds) := by
  obtain ⟨l', hsub, hperm, hnew⟩ := putRows_perm h.nodup c
  refine ((h.sublist hsub).cons hvalid hsized hnew ?_).perm hperm.symm
  by_contra hmany
  -- then no row went, so the id is new and the table full
  obtain rfl : l' = s.creds :=
    hsub.eq_of_length_le (h.length_le.trans (not_lt.mp hmany))
  have hfull : s.full c = true := by
    rw [full, Bool.and_eq_true, Bool.not_eq_true', List.any_eq_false]
    refine ⟨fun e he hid => hnew ?_, decide_eq_true (not_lt.mp hmany)⟩
    exact List.mem_map.mpr ⟨e, he, of_decide_eq_true hid⟩
  rw [hroom] at hfull
  cases hfull

theorem erase (h : Table l) : Table (eraseRows credId l) := h.sublist eraseRows_sublist

/-- The row that could not be erased goes to the end. -/
theorem unerase (h : Table l) (hc : l.find? (fun c => c.credId.bytes == credId) = some c) :
    Table (eraseRows credId l ++ [c]) :=
  h.perm ((eraseRows_perm hc).trans (List.perm_append_singleton _ _).symm)

/-- The use of a row. -/
theorem used (h : Table l) (hc : l.find? (fun c => c.credId.bytes == credId) = some c) (n : UInt32)
    (t : UInt64) : Table (replaceFirst (c.used n t) l) := by
  obtain ⟨l₁, l₂, rfl, hreplace⟩ := replaceFirst_used_split hc n t
  rw [hreplace]
  have hmem : ∀ e ∈ l₁ ++ c.used n t :: l₂, e = c.used n t ∨ e ∈ l₁ ++ c :: l₂ := by
    intro e he
    simp only [List.mem_append, List.mem_cons] at he ⊢
    tauto
  have hcmem : c ∈ l₁ ++ c :: l₂ := by simp
  have hids : ids (l₁ ++ c.used n t :: l₂) = ids (l₁ ++ c :: l₂) := by simp [ids, Credential.used]
  constructor
  · intro e he
    rcases hmem e he with rfl | he
    · exact h.valid c hcmem
    · exact h.valid e he
  · rw [hids]
    exact h.nodup
  · have := h.length_le
    simpa using this
  · intro e he
    rcases hmem e he with rfl | he
    · obtain ⟨h1, h2, h3, h4, h5, h6, h7, h8⟩ := h.sized c hcmem
      exact ⟨h1, h2, h3, h4, h5, h6, h7, h8⟩
    · exact h.sized e he

end Table

/-! ### The store -/

/-- What holds of a store. -/
structure Sound (s : Store) : Prop where
  table : Table s.creds
  serial : s.serial.length < 2 ^ 64
  u2f : ∀ a, s.u2f = some a → a.priv.length < 2 ^ 64 ∧ a.certDer.length < 2 ^ 64

/-- A store that is sound is read back from its own plaintext. -/
theorem Sound.openWith {s : Store} (h : Sound s) : openWith s.serialize = .ok s.reopened := by
  refine openWith_serialize ⟨h.table.sized, h.serial, h.u2f⟩ ?_ h.table.valid
  exact h.table.length_le.trans_lt (by decide)

/-- The arguments of a call are C++ objects: the size of a string is a `std::size_t`, and the
callback of `factory_reset`, which is called under the store's lock, leaves the store alone. -/
def Op.Lawful : Op → Prop
  | .put c => Sized c
  | .setU2fAttestation a => a.priv.length < 2 ^ 64 ∧ a.certDer.length < 2 ^ 64
  | .setSerial serial => serial.length < 2 ^ 64
  | .factoryReset destroy => ∀ c, Guarantees (Frame.keeps World.store) (destroy c)
  | _ => True

section Keeps

variable {w : World}

theorem store_flushed (m : Mutator) (e : Env) (ok : Bool) : (w.flushed m e ok).store = w.store := by
  cases ok <;> rfl

/-- **Every mutator keeps the store sound**, whether it succeeds or fails. -/
theorem exec_sound {op : Op} (hop : op.Lawful) (h : Sound w.store) :
    op.exec.Run w (fun _ w' => Sound w'.store) (fun _ w' => Sound w'.store) fun _ => True := by
  have hflushed : ∀ {w : World} (m : Mutator) (e : Env) (ok : Bool), Sound w.store →
      Sound (w.flushed m e ok).store := fun m e ok hw => by rwa [store_flushed]
  cases op with
  | put c =>
    refine run_put (fun _ => h) (fun e hvalid hroom => hflushed _ e true ?_)
      (fun e => hflushed _ e false h)
      fun _ => trivial
    exact { h with table := h.table.put hvalid hop hroom }
  | erase credId =>
    refine run_erase (fun _ => h) (fun c e _ => hflushed _ e true ?_)
      (fun c e hc => hflushed _ e false ?_) fun _ _ _ => trivial
    · exact { h with table := h.table.erase }
    · exact { h with table := h.table.unerase hc }
  | updateCountAndUsed credId n t =>
    refine run_updateCountAndUsed h (fun c e hc => hflushed _ e true ?_)
      (fun c e hc => hflushed _ e false ?_) fun _ _ _ => trivial
    · exact { h with table := h.table.used hc n t }
    · exact { h with table := h.table.used hc n t }
  | setPin p =>
    have hpin : Sound (w.withPin p).store := { h with }
    exact run_setPin (fun e => hflushed _ e true hpin) (fun e => hflushed _ e false hpin)
      fun _ => trivial
  | tpmStateOrCreate =>
    have htpm : ∀ t, Sound (w.withTpm t).store := fun t => { h with }
    exact run_bind.mpr (run_tpmStateOrCreate (fun _ => h) (fun t e => hflushed _ e true (htpm t))
      (fun _ t _ => htpm t) (fun t e => hflushed _ e false (htpm t)) fun _ _ => trivial)
  | clearTpmState =>
    have htpm : Sound { w.store with tpm := {} } := { h with }
    exact run_bind.mpr (run_flush (fun e => hflushed _ e true htpm)
      (fun e => hflushed _ e false htpm)
      fun _ => trivial)
  | setU2fAttestation a =>
    have hu2f : Sound { w.store with u2f := some a } :=
      { h with u2f := fun b hb => Option.some.inj hb ▸ hop }
    exact run_bind.mpr (run_flush (fun e => hflushed _ e true hu2f)
      (fun e => hflushed _ e false hu2f)
      fun _ => trivial)
  | setSerial serial =>
    have hserial : Sound { w.store with serial := serial } := { h with serial := hop }
    exact run_setSerial (fun _ => h) (fun e _ => hflushed _ e true hserial)
      (fun e => hflushed _ e false hserial) fun _ => trivial
  | factoryReset destroy =>
    rw [Op.exec, Store.factoryReset, run_bind, run_gets, run_bind]
    refine ((Guarantees.forEach hop w.store.creds).run w).mono (fun _ w' hw' => ?_)
      (fun _ w' hw' => ?_) fun _ _ => trivial
    · have hw' : w'.store = w.store := hw'
      have hwiped : Sound w'.wiped.store := by
        have hsame : w'.wiped.store =
            { w.store with creds := [], pin := {}, tpm := {}, u2f := none } := by
          rw [← hw']
          rfl
        rw [hsame]
        exact { h with table := .empty, u2f := fun a ha => by cases ha }
      exact run_wipe (fun _ e _ => hflushed _ e true hwiped)
        (fun _ e _ => hflushed _ e false hwiped)
        (fun _ _ => hwiped) (fun _ => trivial) fun _ _ _ => trivial
    · have hw' : w'.store = w.store := hw'
      rwa [hw']

end Keeps

/-! ### Every store that can be reached -/

/-- The stores that the store's operations can make: from the empty one, by any call with any
answers of the persister and of the random generator, and by reopening a plaintext that such a
store has serialised. -/
inductive Reached : Store → Prop
  | empty : Reached {}
  | exec {w w' : World} {op : Op} {r : Outcome Status Unit} (h : Reached w.store) (hop : op.Lawful)
      (hexec : op.exec w = (r, w')) (halive : r ≠ .died) : Reached w'.store
  | setInstallId {s : Store} (h : Reached s) (id : Block 16) : Reached { s with installId := id }
  | reopen {s s' : Store} (h : Reached s) (hopen : openWith s.serialize = .ok s') : Reached s'

theorem Sound.reopened {s : Store} (h : Sound s) : Sound s.reopened := { h with }

theorem Reached.sound {s : Store} (h : Reached s) : Sound s := by
  induction h with
  | empty => exact ⟨.empty, by decide, fun a ha => by cases ha⟩
  | @exec w w' op r _ hop hexec halive ih =>
    rcases r with ⟨⟩ | e | _
    · exact (exec_sound hop ih).ok hexec
    · exact (exec_sound hop ih).err hexec
    · exact absurd rfl halive
  | setInstallId _ id ih => exact { ih with }
  | reopen _ hopen ih =>
    rw [ih.openWith] at hopen
    cases hopen
    exact ih.reopened

/-- A row of the software backend. -/
def sampleRow : Credential := { Credential.blank with rpId := [0x61], priv := List.replicate 32 7 }

/-- The row is put into an empty store. -/
theorem reached_sample : Reached { creds := [sampleRow] } := by
  have hput : (Op.put sampleRow).exec { env := .calm 0 } =
      (.ok (), ((Op.put sampleRow).exec { env := .calm 0 }).2) := Prod.ext rfl rfl
  have hstore : ((Op.put sampleRow).exec { env := .calm 0 }).2.store =
    { creds := [sampleRow] } := rfl
  rw [← hstore]
  exact .exec .empty (by constructor <;> decide) hput (by simp)

/-- **Round trip.** Every store that can be reached opens again from its own plaintext, with the
same rows in the same order, PIN, TPM seeds when present, attestation key, serial and install
id, and is written again as the same bytes. -/
theorem reopens {s : Store} (h : Reached s) :
    ∃ s', openWith s.serialize = .ok s' ∧ s'.creds = s.creds ∧ s'.pin = s.pin ∧
      (s.tpm.present = true → s'.tpm = s.tpm) ∧ s'.tpm.present = s.tpm.present ∧ s'.u2f = s.u2f ∧
        s'.serial = s.serial ∧ s'.installId = s.installId ∧ s'.serialize = s.serialize := by
  refine ⟨s.reopened, h.sound.openWith, rfl, rfl, fun hp => ?_, ?_, rfl, rfl, rfl,
    serialize_reopened s⟩
  · rw [reopened, if_pos hp]
  · rw [reopened]
    split_ifs with hp
    · rfl
    · exact (Bool.eq_false_iff.mpr hp).symm

theorem reopens_sample : ∃ s', openWith ({ creds := [sampleRow] } : Store).serialize = .ok s' ∧
    s'.creds = [sampleRow] ∧
      s'.serialize = ({ creds := [sampleRow] } : Store).serialize := by
  obtain ⟨s', hopen, hcreds, -, -, -, -, -, -, hsame⟩ := reopens reached_sample
  exact ⟨s', hopen, hcreds, hsame⟩

theorem sum_modify_succ (l : List ℕ) (i : ℕ) (hi : i < l.length) :
    (l.modify i (· + 1)).sum = l.sum + 1 := by
  induction l generalizing i with
  | nil => cases hi
  | cons a l ih =>
    cases i with
    | zero => simp; omega
    | succ i => simp [ih i (by simpa using hi)]; omega

/-- Every row is counted once. -/
theorem sum_countByBackend (s : Store) : s.countByBackend.sum = s.creds.length := by
  have hfold : ∀ (l : List Credential) (out : List ℕ), out.length = 3 →
      (l.foldl (fun out c => out.modify c.backend.code.toNat (· + 1)) out).sum =
        out.sum + l.length := by
    intro l
    induction l with
    | nil => simp
    | cons c l ih =>
      intro out hout
      have hlt : c.backend.code.toNat < out.length := by
        rw [hout]
        cases c.backend <;> decide
      rw [List.foldl_cons, ih _ (by rw [List.length_modify, hout]), sum_modify_succ out _ hlt,
        List.length_cons]
      omega
  rw [countByBackend, hfold s.creds [0, 0, 0] rfl]
  simp

/-- **The table.** In every store that can be reached every row is valid, the ids are distinct
and there are at most `kMaxCredentials` rows; so `remaining` does not wrap and the counts by
backend add up to `size`. -/
theorem table_of_reached {s : Store} (h : Reached s) :
    (∀ c ∈ s.creds, validate c = .ok () ∧ 1 ≤ c.rpId.length ∧ c.rpId.length ≤ 255 ∧
      c.userId.length ≤ 64 ∧ if c.backend = .software then c.handle = [] ∧ c.priv.length = 32
        else c.priv = [] ∧ c.handle ≠ []) ∧
    (s.creds.map Credential.credId).Nodup ∧ s.creds.length ≤ kMaxCredentials ∧
      s.remaining = kMaxCredentials - s.creds.length ∧ s.countByBackend.sum = s.creds.length := by
  have htable := h.sound.table
  have hle := htable.length_le
  refine ⟨fun c hc => ⟨htable.valid c hc, validate_eq_ok (htable.valid c hc)⟩,
    htable.nodup, hle, ?_,
    sum_countByBackend s⟩
  rw [kMaxCredentials] at hle
  rw [remaining, kMaxCredentials]
  omega

theorem table_of_reached_sample : validate sampleRow = .ok () ∧
    ({ creds := [sampleRow] } : Store).remaining = 99 ∧
      ({ creds := [sampleRow] } : Store).countByBackend.sum = 1 := by
  obtain ⟨hvalid, -, -, hremaining, hcount⟩ := table_of_reached reached_sample
  exact ⟨(hvalid sampleRow (by simp)).1, hremaining, hcount⟩

end Swpasskey.Store
