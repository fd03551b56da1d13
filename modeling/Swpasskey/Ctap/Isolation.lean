import Swpasskey.Ctap.Blind
import Swpasskey.Ctap.Lineage
import Swpasskey.Store.Rollback

/-!
# An RP sees its own credentials only

`World.only X` is the authenticator with the rows of every other RP taken out, in memory and
in the file. Whatever a client does on behalf of the RP `X` (registrations, assertions, U2F,
clientPIN), it cannot tell the two apart: the runs from `w` and from `w.only X` log the same
events, so they give the same answers, show the same prompts and save at the same moments,
whatever fails and wherever the process dies. Two things are excepted: getInfo and a full
table tell how many rows there are, and an id drawn twice may hit the row of another RP.
-/

namespace Swpasskey

open Proc Store

/-- The rows of one RP. -/
def Store.only (s : Store) (X : Block 32) : Store :=
  { s with creds := s.creds.filter fun c => c.rpIdHash == X }

/-- The authenticator that holds the rows of one RP. -/
def World.only (w : World) (X : Block 32) : World :=
  { w with store := w.store.only X, file := w.file.map fun s => s.only X }

/-- `I` holds of the ids of the RP's rows and of those alone, and there is room for `n` more
rows. -/
structure Apart (X : Block 32) (I : Block 32 → Prop) (n : ℕ) (s : Store) : Prop where
  own : ∀ c ∈ s.creds, I c.credId ↔ c.rpIdHash = X
  room : s.creds.length + n ≤ kMaxCredentials

/-- The state of an RP's conversation: its rows are set apart, and the rows that wait to be
asserted are its own. -/
structure Secluded (X : Block 32) (I : Block 32 → Prop) (n : ℕ) (w : World) : Prop where
  store : Apart X I n w.store
  file : ∀ s, w.file = some s → Apart X I n s
  next : ∀ st, w.next = some st → ∀ c ∈ st.remaining, I c.credId

/-- Every id this environment draws is one of the RP. -/
def Env.Draws (I : Block 32 → Prop) (e : Env) : Prop := ∀ i f, e.random.get i = some f → I (f 32)

/-- `v` is `w` without the rows of other RPs; `r` says that ids may still be drawn. -/
structure Shows (X : Block 32) (I : Block 32 → Prop) (n : ℕ) (r : Prop) (w v : World) : Prop where
  secluded : Secluded X I n w
  draws : r → w.env.Draws I
  store : v.store = w.store.only X
  file : v.file = w.file.map fun s => s.only X
  next : v.next = w.next
  pin : v.pin = w.pin
  env : v.env = w.env
  log : v.log = w.log

variable {D : Device} {X : Block 32} {I : Block 32 → Prop} {n : ℕ} {r : Prop} {c : Credential}
  {w v : World}

theorem Env.Draws.later {e e' : Env} (h : e.Draws I) (he : e.Later e') : e'.Draws I := by
  obtain ⟨k, hk⟩ := he.random
  intro i f hf
  rw [hk, Stream'.get_drop] at hf
  exact h _ f hf

/-! ### The rows of an RP among all rows -/

section Rows

variable {l : List Credential} {p : Credential → Bool}

theorem filter_replaceFirst (hc : p c) (hl : ∀ e ∈ l, e.credId = c.credId → p e) :
    (replaceFirst c l).filter p = replaceFirst c (l.filter p) := by
  induction l with
  | nil => rfl
  | cons e l ih =>
    have hrest := ih fun e' he' => hl e' (List.mem_cons_of_mem e he')
    by_cases hid : e.credId = c.credId
    · have he := hl e List.mem_cons_self hid
      rw [replaceFirst, if_pos hid, List.filter_cons_of_pos hc, List.filter_cons_of_pos he,
        replaceFirst, if_pos hid]
    rw [replaceFirst, if_neg hid]
    by_cases he : p e
    · rw [List.filter_cons_of_pos he, List.filter_cons_of_pos he, replaceFirst, if_neg hid, hrest]
    · rw [List.filter_cons_of_neg he, List.filter_cons_of_neg he, hrest]

theorem filter_putRows (hc : p c) (hl : ∀ e ∈ l, e.credId = c.credId → p e) :
    (putRows c l).filter p = putRows c (l.filter p) := by
  have hany : ((l.filter p).any fun e => e.credId = c.credId) =
      l.any fun e => e.credId = c.credId := by
    rw [Bool.eq_iff_iff, List.any_eq_true, List.any_eq_true]
    constructor
    · rintro ⟨e, he, hid⟩
      exact ⟨e, List.mem_of_mem_filter he, hid⟩
    · rintro ⟨e, he, hid⟩
      exact ⟨e, List.mem_filter.mpr ⟨he, hl e he (of_decide_eq_true hid)⟩, hid⟩
  unfold putRows
  rw [hany]
  split
  · exact filter_replaceFirst hc hl
  · rw [List.filter_append, List.filter_cons_of_pos hc, List.filter_nil]

theorem filter_eraseRows {credId : Bytes} (hl : ∀ e ∈ l, e.credId.bytes = credId → p e) :
    (eraseRows credId l).filter p = eraseRows credId (l.filter p) := by
  induction l with
  | nil => rfl
  | cons e l ih =>
    have hrest := ih fun e' he' => hl e' (List.mem_cons_of_mem e he')
    unfold eraseRows at hrest ⊢
    by_cases hid : e.credId.bytes = credId
    · have he := hl e List.mem_cons_self hid
      rw [List.eraseP_cons_of_pos (by simpa using hid), List.filter_cons_of_pos he,
        List.eraseP_cons_of_pos (by simpa using hid)]
    rw [List.eraseP_cons_of_neg (by simpa using hid)]
    by_cases he : p e
    · rw [List.filter_cons_of_pos he, List.filter_cons_of_pos he,
        List.eraseP_cons_of_neg (by simpa using hid), hrest]
    · rw [List.filter_cons_of_neg he, List.filter_cons_of_neg he, hrest]

theorem find?_filter_of_imp {α : Type} {l : List α} {p q : α → Bool} (h : ∀ a ∈ l, q a → p a) :
    (l.filter p).find? q = l.find? q := by
  induction l with
  | nil => rfl
  | cons a l ih =>
    have hrest := ih fun b hb => h b (List.mem_cons_of_mem a hb)
    by_cases hq : q a
    · rw [List.filter_cons_of_pos (h a List.mem_cons_self hq), List.find?_cons_of_pos hq,
        List.find?_cons_of_pos hq]
    rw [List.find?_cons_of_neg hq]
    by_cases hp : p a
    · rw [List.filter_cons_of_pos hp, List.find?_cons_of_neg hq, hrest]
    · rw [List.filter_cons_of_neg hp, hrest]

theorem length_replaceFirst (c : Credential) (l : List Credential) :
    (replaceFirst c l).length = l.length := by
  induction l with
  | nil => rfl
  | cons e l ih =>
    rw [replaceFirst]
    split
    · rfl
    · rw [List.length_cons, ih, List.length_cons]

theorem length_putRows_le (c : Credential) (l : List Credential) :
    (putRows c l).length ≤ l.length + 1 := by
  unfold putRows
  split
  · rw [length_replaceFirst]
    exact Nat.le_succ _
  · rw [List.length_append, List.length_singleton]

end Rows

namespace Store

variable (s : Store)

theorem find_only (credId : Bytes) : (s.only X).find X credId = s.find X credId :=
  find?_filter_of_imp fun _ _ hq => (Bool.and_eq_true _ _ ▸ hq).1

theorem findByRp_only : (s.only X).findByRp X = s.findByRp X := by
  change (s.creds.filter _).filter _ = s.creds.filter _
  rw [List.filter_filter]
  congr 1
  funext c
  cases c.rk <;> cases c.rpIdHash == X <;> rfl

theorem candidates_only (allowList : Option (List PubKeyCredDescriptor)) :
    candidates (s.only X) X allowList = candidates s X allowList := by
  rcases allowList with _ | _ | ⟨d, l⟩
  · exact s.findByRp_only
  · exact s.findByRp_only
  · change allowed _ _ _ = allowed _ _ _
    unfold allowed
    simp only [find_only]

theorem excluded_only (l : List PubKeyCredDescriptor) :
    excluded (s.only X) X l = excluded s X l := by
  unfold excluded
  simp only [find_only]

theorem sameAccount_only (hc : c.rpIdHash = X) : (s.only X).sameAccount c = s.sameAccount c := by
  rw [sameAccount, sameAccount, hc, findByRp_only]

end Store

namespace Apart

variable {s : Store}

theorem mono {m : ℕ} (h : Apart X I n s) (hm : m ≤ n) : Apart X I m s :=
  ⟨h.own, (Nat.add_le_add_left hm _).trans h.room⟩

/-- A row with an id of the RP is the RP's. -/
theorem is_own (h : Apart X I n s) {e : Credential} (he : e ∈ s.creds) (hid : I e.credId) :
    (e.rpIdHash == X) = true :=
  beq_iff_eq.mpr ((h.own e he).mp hid)

theorem findById_only (h : Apart X I n s) {id : Block 32} (hid : I id) :
    (s.only X).findById id.bytes = s.findById id.bytes :=
  find?_filter_of_imp fun e he hq =>
    h.is_own he ((Block.ext (beq_iff_eq.mp hq) : e.credId = id) ▸ hid)

theorem remaining_ne_zero (h : Apart X I (n + 1) s) : s.remaining ≠ 0 := by
  have hroom := h.room
  unfold kMaxCredentials at hroom
  unfold Store.remaining kMaxCredentials
  omega

theorem not_full (h : Apart X I (n + 1) s) (c : Credential) : s.full c = false := by
  have hroom := h.room
  have hlt : ¬ kMaxCredentials ≤ s.creds.length := by omega
  simp [Store.full, hlt]

/-- The part of the RP is set apart as well. -/
theorem only (h : Apart X I n s) : Apart X I n (s.only X) where
  own c hc := h.own c (List.mem_of_mem_filter hc)
  room := (Nat.add_le_add_right (List.length_filter_le _ _) n).trans h.room

theorem used (h : Apart X I n s) {credId : Bytes} {m : UInt32} {t : UInt64}
    (hc : s.findById credId = some c) :
    Apart X I n { s with creds := replaceFirst (c.used m t) s.creds } where
  own e he := by
    rcases mem_replaceFirst he with rfl | he
    · exact h.own c (mem_of_findById hc).1
    · exact h.own e he
  room := by
    rw [length_replaceFirst]
    exact h.room

theorem put (h : Apart X I (n + 1) s) (hc : I c.credId ↔ c.rpIdHash = X) :
    Apart X I n { s with creds := putRows c s.creds } where
  own e he := by
    rcases mem_putRows he with rfl | he
    · exact hc
    · exact h.own e he
  room := by
    have hroom := h.room
    have hlen := length_putRows_le c s.creds
    change (putRows c s.creds).length + n ≤ _
    omega

theorem erase (h : Apart X I n s) (credId : Bytes) :
    Apart X I n { s with creds := eraseRows credId s.creds } where
  own e he := h.own e (eraseRows_sublist.subset he)
  room := (Nat.add_le_add_right eraseRows_sublist.length_le n).trans h.room

/-- The row is back at the end. -/
theorem unerase (h : Apart X I n s) {credId : Bytes} (hc : s.findById credId = some c) :
    Apart X I n { s with creds := eraseRows credId s.creds ++ [c] } := by
  have hperm := (eraseRows_perm hc).trans (List.perm_append_singleton _ _).symm
  constructor
  · exact fun e he => h.own e (hperm.symm.subset he)
  · change (eraseRows credId s.creds ++ [c]).length + n ≤ _
    rw [← hperm.length_eq]
    exact h.room

end Apart

/-! ### The two states -/

namespace Shows

theorem mono {m : ℕ} (h : Shows X I n r w v) (hm : m ≤ n) : Shows X I m r w v :=
  { h with
    secluded := ⟨h.secluded.store.mono hm, fun s hs => (h.secluded.file s hs).mono hm,
      h.secluded.next⟩ }

/-- Nothing is known of the ids still to be drawn. -/
theorem drawn (h : Shows X I n r w v) : Shows X I n False w v := { h with draws := False.elim }

/-- Other stores in memory. -/
theorem withStore (h : Shows X I n r w v) {m : ℕ} (hm : m ≤ n) {s s' : Store} (hs : Apart X I m s)
    (hs' : s' = s.only X) : Shows X I m r { w with store := s } { v with store := s' } :=
  have h' := h.mono hm
  { h' with secluded := ⟨hs, h'.secluded.file, h'.secluded.next⟩, store := hs' }

/-- Other rows in memory. -/
theorem withCreds (h : Shows X I n r w v) {m : ℕ} (hm : m ≤ n) {l l' : List Credential}
    (hs : Apart X I m { w.store with creds := l }) (hl : l' = l.filter fun c => c.rpIdHash == X) :
    Shows X I m r (w.withCreds l) (v.withCreds l') :=
  h.withStore hm hs (by rw [hl, h.store]; rfl)

theorem withEnv (h : Shows X I n r w v) {e : Env} (he : w.env.Later e) :
    Shows X I n r (w.withEnv e) (v.withEnv e) :=
  { h with
    secluded := ⟨h.secluded.store, h.secluded.file, h.secluded.next⟩
    draws := fun hr => (h.draws hr).later he
    env := rfl }

theorem emits (h : Shows X I n r w v) (l : List Event) : Shows X I n r (w.emits l) (v.emits l) :=
  { h with
    secluded := ⟨h.secluded.store, h.secluded.file, h.secluded.next⟩
    log := congrArg (· ++ l) h.log }

theorem withNext (h : Shows X I n r w v) {st : Option AssertionState}
    (hst : ∀ st', st = some st' → ∀ c ∈ st'.remaining, I c.credId) :
    Shows X I n r { w with next := st } { v with next := st } :=
  { h with secluded := ⟨h.secluded.store, h.secluded.file, hst⟩, next := rfl }

theorem withManager (h : Shows X I n r w v) (p : PinManager) :
    Shows X I n r (PinManager.withManager w p) (PinManager.withManager v p) :=
  { h with secluded := ⟨h.secluded.store, h.secluded.file, h.secluded.next⟩, pin := rfl }

theorem saved (h : Shows X I n r w v) : Shows X I n r (saved w) (saved v) where
  secluded := ⟨h.secluded.store, fun _ hs => Option.some.inj hs ▸
    ⟨h.secluded.store.own, h.secluded.store.room⟩, h.secluded.next⟩
  draws := h.draws
  store := h.store
  file := congrArg (fun s : Store => some s.reopened) h.store
  next := h.next
  pin := h.pin
  env := h.env
  log := h.log

theorem flushed (h : Shows X I n r w v) (m : Mutator) (ok : Bool) :
    Shows X I n r (w.flushed m w.env.afterSave ok) (v.flushed m w.env.afterSave ok) := by
  have he : w.env.Later w.env.afterSave := w.env.later_ticked.trans (Advances.later
    (f := fun e : Env => (e.save.head, { e with save := e.save.tail })) w.env.ticked)
  cases ok with
  | false => exact (h.withEnv he).emits _
  | true => exact ((h.withEnv he).emits _).saved

theorem blind (X : Block 32) (I : Block 32 → Prop) (n : ℕ) (r : Prop) : Blind (Shows X I n r) where
  env h := h.env.symm
  manager h := h.pin.symm
  pin h := by rw [h.store]; rfl
  withEnv h _ he := h.withEnv he
  emits h l := h.emits l
  withManager h p := h.withManager p
  withPin h p := h.withStore le_rfl ⟨h.secluded.store.own, h.secluded.store.room⟩
    (by rw [h.store]; rfl)
  saved h := h.saved
  dropNext h := h.withNext fun _ hst => by cases hst

theorem restart (h : Shows X I n r w v) (hn : n ≤ kMaxCredentials) :
    Shows X I n r w.restart v.restart := by
  have hstore : v.file.getD {} = (w.file.getD {}).only X := by
    rw [h.file]
    rcases w.file with _ | s <;> rfl
  have hnone : ∀ st : AssertionState, (none : Option AssertionState) = some st →
      ∀ c ∈ st.remaining, I c.credId := fun st hst => by cases hst
  refine ⟨⟨?_, h.secluded.file, hnone⟩, h.draws, hstore, h.file, rfl, ?_, h.env, ?_⟩
  · change Apart X I n (w.file.getD {})
    rcases hw : w.file with _ | s
    · exact ⟨fun _ hc => (by cases hc), by simpa using hn⟩
    · exact h.secluded.file s hw
  · change PinManager.mk v.env.ecdhKey.head _ _ = PinManager.mk w.env.ecdhKey.head _ _
    rw [h.env]
  · exact congrArg (· ++ [Event.restarted]) h.log

end Shows

/-! ### Rows that are used, erased and stored -/

namespace Store

/-- What `put` does to a valid row that there is room for, by the answer of the persister. -/
theorem put_apply (hvalid : validate c = .ok ()) (hfull : w.store.full c = false)
    (hcrash : w.env.crash ≠ some 0) :
    put c w = if w.env.save.head then
        (.ok (), (w.withCreds (putRows c w.store.creds)).flushed .put w.env.afterSave true)
      else (.err .other, w.flushed .put w.env.afterSave false) := by
  let w₁ := w.withCreds (putRows c w.store.creds)
  have hflush := flush_apply .put (w := w₁) hcrash
  have hhead : w₁.env.save.head = w.env.save.head := rfl
  rw [hhead] at hflush
  have hvalid' : (ofExcept (validate c) : Cmd Status Unit) w = (.ok (), w) := by rw [hvalid]; rfl
  have hroom : (require (!w.store.full c) .keyStoreFull : Cmd Status Unit) w = (.ok (), w) := by
    rw [hfull]
    rfl
  have hupdate : update (fun s => { s with creds := putRows c s.creds }) w = (.ok (), w₁) := rfl
  rw [put, bind_apply_ok hvalid', bind_apply_ok (gets_apply _ _), bind_apply_ok hroom,
    bind_apply_ok hupdate]
  -- the rows are put back when the write fails
  rcases hsave : w.env.save.head with _ | _
  · rw [hsave] at hflush
    have hattempt : (flush .put).attempt w₁ =
        (.ok (.error .other), w₁.flushed .put w.env.afterSave false) := by
      rw [attempt, hflush]
      rfl
    refine (bind_apply_ok hattempt).trans ?_
    change (Outcome.err Status.other, (w.flushed .put w.env.afterSave false).withCreds
      (unputRows (w.store.creds.find? fun e => e.credId = c.credId)
        (putRows c w.store.creds))) = _
    rw [unputRows_putRows]
    rfl
  · rw [hsave] at hflush
    have hattempt : (flush .put).attempt w₁ =
        (.ok (.ok ()), w₁.flushed .put w.env.afterSave true) := by
      rw [attempt, hflush]
      rfl
    exact bind_apply_ok hattempt

theorem put_died (hvalid : validate c = .ok ()) (hfull : w.store.full c = false)
    (hcrash : w.env.crash = some 0) :
    put c w = (.died, w.withCreds (putRows c w.store.creds)) := by
  let w₁ := w.withCreds (putRows c w.store.creds)
  have hattempt : (flush .put).attempt w₁ = (.died, w₁) := by
    rw [attempt, flush_died .put (w := w₁) hcrash]
  have hvalid' : (ofExcept (validate c) : Cmd Status Unit) w = (.ok (), w) := by rw [hvalid]; rfl
  have hroom : (require (!w.store.full c) .keyStoreFull : Cmd Status Unit) w = (.ok (), w) := by
    rw [hfull]
    rfl
  have hupdate : update (fun s => { s with creds := putRows c s.creds }) w = (.ok (), w₁) := rfl
  rw [put, bind_apply_ok hvalid', bind_apply_ok (gets_apply _ _), bind_apply_ok hroom,
    bind_apply_ok hupdate, bind_apply_died hattempt]

end Store

namespace Shows

/-- A row of the RP is found in both tables. -/
theorem findById (h : Shows X I n r w v) {id : Block 32} (hid : I id) :
    v.store.findById id.bytes = w.store.findById id.bytes := by
  rw [h.store, h.secluded.store.findById_only hid]

/-- The use of a row of the RP. -/
theorem updateCountAndUsed {id : Block 32} (hid : I id) (m : UInt32) (t : UInt64) :
    Sim (Shows X I n r) Eq (Store.updateCountAndUsed id.bytes m t)
      (Store.updateCountAndUsed id.bytes m t) := by
  intro w v h
  have hs := h.secluded.store
  rw [Store.updateCountAndUsed, bind_apply_ok (gets_apply _ _), bind_apply_ok (gets_apply _ _),
    h.findById hid]
  rcases hc : w.store.findById id.bytes with _ | c
  · exact .err h
  obtain ⟨hmem, hcid⟩ := mem_of_findById hc
  have hown : I c.credId := (Block.ext hcid : c.credId = id) ▸ hid
  refine (blind X I n r).flush .updateCountAndUsed _ _ (h.withCreds le_rfl (hs.used hc) ?_)
  rw [h.store]
  have hrp : ((c.used m t).rpIdHash == X) = true := (hs.is_own hmem hown : (c.rpIdHash == X) = true)
  exact (filter_replaceFirst (p := fun c => c.rpIdHash == X) hrp
    fun e he heq => hs.is_own he (heq ▸ hown)).symm

/-- The erasure of a row of the RP. -/
theorem erase {id : Block 32} (hid : I id) :
    Sim (Shows X I n r) Eq (Store.erase id.bytes) (Store.erase id.bytes) := by
  intro w v h
  have hs := h.secluded.store
  have hfind := h.findById hid
  rcases hc : w.store.findById id.bytes with _ | c
  · rw [Store.erase, bind_apply_ok (gets_apply _ _), bind_apply_ok (gets_apply _ _), hfind, hc]
    exact .err h
  have hc' : v.store.findById id.bytes = some c := hfind.trans hc
  obtain ⟨hmem, hcid⟩ := mem_of_findById hc
  have hown : I c.credId := (Block.ext hcid : c.credId = id) ▸ hid
  have hfilter : eraseRows id.bytes v.store.creds =
      (eraseRows id.bytes w.store.creds).filter fun c => c.rpIdHash == X := by
    rw [h.store, filter_eraseRows fun e he hq =>
      hs.is_own he ((Block.ext hq : e.credId = id) ▸ hid)]
    rfl
  have herased : Shows X I n r (w.withCreds (eraseRows id.bytes w.store.creds))
      (v.withCreds (eraseRows id.bytes v.store.creds)) :=
    h.withCreds le_rfl (hs.erase _) hfilter
  have hback : Shows X I n r (w.withCreds (eraseRows id.bytes w.store.creds ++ [c]))
      (v.withCreds (eraseRows id.bytes v.store.creds ++ [c])) := by
    refine h.withCreds le_rfl (hs.unerase hc) ?_
    have hrow : [c].filter (fun c : Credential => c.rpIdHash == X) = [c] :=
      List.filter_cons_of_pos (p := fun c : Credential => c.rpIdHash == X) (hs.is_own hmem hown)
    rw [hfilter, List.filter_append, hrow]
  -- the two writes get one answer; on a failure the row goes to the end of both tables
  by_cases hcrash : w.env.crash = some 0
  · rw [erase_died hc hcrash, erase_died hc' (h.env ▸ hcrash)]
    exact .died herased
  · rw [erase_apply hc hcrash, erase_apply hc' (h.env ▸ hcrash), h.env]
    split
    · exact .ok rfl (herased.flushed .erase true)
    · exact .err (hback.flushed .erase false)

/-- A new row of the RP. -/
theorem put (h : Shows X I (n + 1) r w v) (hid : I c.credId) (hc : c.rpIdHash = X) :
    Ends (Shows X I n r) Eq (Store.put c w) (Store.put c v) := by
  have hs := h.secluded.store
  have hweak : Shows X I n r w v := h.mono (Nat.le_succ n)
  rcases hvalid : validate c with x | _
  · have hfail : ∀ w : World, Store.put c w = (.err x, w) := fun w => by
      rw [Store.put, hvalid]
      rfl
    rw [hfail, hfail]
    exact .err hweak
  have hfull := hs.not_full c
  have hfull' : v.store.full c = false := by
    rw [h.store]
    exact hs.only.not_full c
  have hput : Shows X I n r (w.withCreds (putRows c w.store.creds))
      (v.withCreds (putRows c v.store.creds)) := by
    refine h.withCreds (Nat.le_succ n) (hs.put (iff_of_true hid hc)) ?_
    rw [h.store]
    refine (filter_putRows (p := fun c => c.rpIdHash == X) (beq_iff_eq.mpr hc) ?_).symm
    exact fun e he heq => hs.is_own he (heq ▸ hid)
  by_cases hcrash : w.env.crash = some 0
  · rw [put_died hvalid hfull hcrash, put_died hvalid hfull' (h.env ▸ hcrash)]
    exact .died hput
  · rw [put_apply hvalid hfull hcrash, put_apply hvalid hfull' (h.env ▸ hcrash), h.env]
    split
    · exact .ok rfl (hput.flushed .put true)
    · exact .err (hweak.flushed .put false)

end Shows

/-! ### The commands -/

section Commands

theorem Shows.buildAssertion (hc : I c.credId) (rpIdHash clientDataHash : Block 32)
    (flags : UInt8) (bump : Bool) (ext : ExtensionsIn) (number : Option ℕ) :
    Sim (Shows X I n r) Eq (buildAssertion D c rpIdHash clientDataHash flags bump ext number)
      (Swpasskey.buildAssertion D c rpIdHash clientDataHash flags bump ext number) := by
  have hb := Shows.blind X I n r
  refine (hb.loadKey c).bind_eq fun key => (hb.assertionExtensions c flags ext).bind_eq
    fun extensions => (hb.signDer _ _).bind_eq fun sig => Sim.ite ?_ (Sim.pure rfl)
  exact (hb.ask _).bind_eq fun now => ((Shows.updateCountAndUsed hc _ _).orFail _).bind_eq
    fun _ => Sim.pure rfl

theorem Shows.assertFirst {first : Credential} {rest : List Credential} (hfirst : I first.credId)
    (hrest : ∀ c ∈ rest, I c.credId) (q : GetAssertionRequest) (rpIdHash : Block 32) (uv : Bool) :
    Sim (Shows X I n r) Eq (assertFirst D q rpIdHash uv first rest)
      (Swpasskey.assertFirst D q rpIdHash uv first rest) := by
  have hb := Shows.blind X I n r
  refine (hb.confirmAssertion q rpIdHash first).bind_eq fun _ => Sim.bind_eq ?_ fun _ => ?_
  · refine Sim.ite (Sim.pure rfl) ((hb.ask _).bind_eq fun now => Sim.modify fun w v h => ?_)
    exact h.withNext fun st hst => Option.some.inj hst ▸ hrest
  · refine (Shows.buildAssertion hfirst _ _ _ _ _ _).attempt_eq.bind_eq fun r => ?_
    rcases r with e | r
    · exact hb.drop.bind_eq fun _ => Sim.throw e
    · exact Sim.pure rfl

/-- The rows a getAssertion of the RP chooses from are the same, and they are the RP's. -/
theorem Shows.candidates (h : Shows X I n r w v) (allowList : Option (List PubKeyCredDescriptor)) :
    candidates v.store X allowList = Swpasskey.candidates w.store X allowList ∧
      ∀ c ∈ sortCandidates (Swpasskey.candidates w.store X allowList), I c.credId := by
  refine ⟨by rw [h.store, Store.candidates_only], fun c hc => ?_⟩
  rw [← Store.candidates_only] at hc
  have hmem : c ∈ (w.store.only X).creds := mem_of_mem_sortCandidates hc
  obtain ⟨hstored, hrp⟩ := List.mem_filter.mp hmem
  exact (h.secluded.store.own c hstored).mpr (beq_iff_eq.mp hrp)

theorem Shows.cmdGetAssertion {body : Bytes}
    (hbody : ∀ q, getAssertionRequest body = .ok q → D.provider.sha256 q.rpId = X) :
    Sim (Shows X I n r) Eq (cmdGetAssertion D body) (Swpasskey.cmdGetAssertion D body) := by
  have hb := Shows.blind X I n r
  refine hb.drop.bind_eq fun _ => (Sim.ofExcept_of hbody).bind fun q q' hq => ?_
  obtain ⟨rfl, hX⟩ := hq
  rw [hX]
  refine Sim.bind (V := fun s s' => Swpasskey.candidates s' X q.allowList =
    Swpasskey.candidates s X q.allowList ∧
      ∀ c ∈ sortCandidates (Swpasskey.candidates s X q.allowList), I c.credId)
    (Sim.gets fun w v h => h.candidates q.allowList) fun s s' hs => ?_
  obtain ⟨heq, hown⟩ := hs
  refine (hb.checkPinAuth _ _ _ _ _ _ _).bind_eq fun uv => ?_
  rw [heq]
  rcases hsort : sortCandidates (Swpasskey.candidates s X q.allowList) with _ | ⟨first, rest⟩
  · exact Sim.throw _
  · rw [hsort] at hown
    exact Shows.assertFirst (hown first List.mem_cons_self)
      (fun c hc => hown c (List.mem_cons_of_mem _ hc)) _ _ _

theorem Shows.cmdGetNextAssertion :
    Sim (Shows X I n r) Eq (cmdGetNextAssertion D) (Swpasskey.cmdGetNextAssertion D) := by
  have hb := Shows.blind X I n r
  refine Sim.bind (V := fun st st' => st = st' ∧ ∀ s, st = some s → ∀ c ∈ s.remaining, I c.credId)
    (Sim.gets fun w v h => ⟨h.next.symm, h.secluded.next⟩) fun st st' hst => ?_
  obtain ⟨rfl, hown⟩ := hst
  rcases st with _ | st
  · exact Sim.throw _
  have hown := hown st rfl
  dsimp only
  rcases hrem : st.remaining with _ | ⟨cred, rest⟩
  · exact hb.drop.bind_eq fun _ => Sim.throw _
  rw [hrem] at hown
  refine (hb.ask _).bind_eq fun now => Sim.ite (hb.drop.bind_eq fun _ => Sim.throw _) ?_
  refine Sim.bind_eq (Sim.modify fun w v h => h.withNext fun s hs => ?_) fun _ => ?_
  · exact Option.some.inj hs ▸ fun c hc => hown c (List.mem_cons_of_mem _ hc)
  · refine (Shows.buildAssertion (hown cred List.mem_cons_self) _ _ _ _ _ _).attempt_eq.bind_eq
      fun r => ?_
    exact Sim.ite (hb.drop.bind_eq fun _ => Sim.ofExcept r) (Sim.ofExcept r)

theorem Shows.u2fAuthenticate (p1 : UInt8) {data : Bytes}
    (hdata : Block.ofPadded 32 ((data.drop 32).take 32) = X) :
    Sim (Shows X I n r) Eq (u2fAuthenticate D p1 data) (Swpasskey.u2fAuthenticate D p1 data) := by
  have hb := Shows.blind X I n r
  refine (Sim.require rfl _).bind_eq fun _ => (Sim.require rfl _).bind_eq fun _ =>
    (Sim.require rfl _).bind_eq fun _ => ?_
  refine Sim.bind (V := fun s s' => s'.find X (data.drop 65) = s.find X (data.drop 65) ∧
    ∀ c, s.find X (data.drop 65) = some c → I c.credId) (Sim.gets fun w v h => ⟨?_, fun c hc => ?_⟩)
    fun s s' hs => ?_
  · rw [h.store, Store.find_only]
  · obtain ⟨hrp, -⟩ := (Bool.and_eq_true _ _ ▸ List.find?_some hc)
    exact (h.secluded.store.own c (List.mem_of_find?_eq_some hc)).mpr (beq_iff_eq.mp hrp)
  obtain ⟨heq, hown⟩ := hs
  dsimp only
  rw [hdata, heq]
  rcases hc : s.find X (data.drop 65) with _ | c
  · exact Sim.throw _
  have hsign : ∀ enforce, Sim (Shows X I n r) Eq
      (signChallenge D c (Block.ofPadded 32 (data.take 32)) X enforce)
      (signChallenge D c (Block.ofPadded 32 (data.take 32)) X enforce) := fun enforce => by
    refine (hb.loadKey c).bind_eq fun _ => (hb.signDer _ _).bind_eq fun _ =>
      Sim.ite ?_ (Sim.pure rfl)
    exact (hb.ask _).bind_eq fun _ => (Shows.updateCountAndUsed (hown c hc) _ _).bind_eq fun _ =>
      Sim.pure rfl
  refine (Sim.require rfl _).bind_eq fun _ => Sim.ite ?_ ((hsign _).orFail _)
  exact (hb.confirmUp _ _ _ _).bind_eq fun _ => (Sim.require rfl _).bind_eq fun _ =>
    (hsign _).orFail _

/-! ### Registrations -/

/-- An id that is drawn is one of the RP. -/
theorem Shows.random :
    Sim (Shows X I n True) (fun a b => a = b ∧ I a) (random 32) (Swpasskey.random 32) := by
  have hb := Shows.blind X I n True
  refine Sim.bind (V := fun x y => x = y ∧ ∀ f, x = some f → I (f 32)) ?_ fun x y hxy => ?_
  · refine hb.tick.bind_eq fun _ w v hw => ?_
    change Ends _ _ (.ok w.env.random.head, w.withEnv _) (.ok v.env.random.head, v.withEnv _)
    rw [hw.env]
    exact .ok ⟨rfl, hw.draws trivial 0⟩ (hw.withEnv (Advances.later (f := fun e : Env =>
      (e.random.head, { e with random := e.random.tail })) w.env))
  · obtain ⟨rfl, hdraw⟩ := hxy
    rcases x with _ | f
    · exact Sim.throw _
    · exact Sim.pure ⟨rfl, hdraw f rfl⟩

/-- Both runs make the same row, of the RP. -/
theorem Shows.createRow (template : Credential) (hrp : template.rpIdHash = X) :
    Sim (Shows X I n True) (fun x y => x = y ∧ I x.2.credId ∧ x.2.rpIdHash = X)
      (createRow D template) (Swpasskey.createRow D template) := by
  have hb := Shows.blind X I n True
  refine (hb.generateKey _).bind_eq fun key => Shows.random.bind fun id id' hid => ?_
  obtain ⟨rfl, hid⟩ := hid
  exact (hb.emit _).bind_eq fun _ => (hb.ask _).bind_eq fun _ => (hb.random 64).bind_eq fun _ =>
    (hb.wrapSecret _ _).bind_eq fun _ => (hb.emit _).bind_eq fun _ => Sim.pure ⟨rfl, hid, hrp⟩

/-- A new row of the RP is stored in both tables, or given up. -/
theorem Shows.storeRow (h : Shows X I (n + 1) r w v) (hid : I c.credId) (hc : c.rpIdHash = X) :
    Ends (Shows X I n r) Eq (storeRow D c w) (Swpasskey.storeRow D c v) := by
  have hb := Shows.blind X I n r
  have hput : Ends (Shows X I n r) Eq ((Store.put c).attempt w) ((Store.put c).attempt v) := by
    have hends := h.put hid hc
    unfold Proc.attempt
    generalize Store.put c w = x at hends
    generalize Store.put c v = y at hends
    rcases hends with ⟨hv, ht⟩ | ht | ht
    · exact .ok (congrArg Except.ok hv) ht
    · exact .ok rfl ht
    · exact .died ht
  refine hput.bind fun x y t t' _ hxy ht => ?_
  obtain rfl := hxy
  rcases x with e | _
  · exact (hb.destroyKey c).bind_eq (fun _ => Sim.throw _) t t' ht
  · exact .ok rfl ht

theorem Shows.replaceRow {old : Credential} (hold : I old.credId) :
    Sim (Shows X I n r) Eq (replaceRow D old) (Swpasskey.replaceRow D old) :=
  ((Shows.blind X I n r).destroyKey old).bind_eq fun _ =>
    (Shows.erase hold).attempt_eq.bind_eq fun _ => Sim.pure rfl

theorem Shows.createCredential {q : MakeCredentialRequest} (hq : D.provider.sha256 q.rp.id = X)
    (uv : Bool) (h : Shows X I (n + 1) True w v) :
    Ends (Shows X I n True) Eq (createCredential D q uv w)
      (Swpasskey.createCredential D q uv v) := by
  have hweak : ∀ w v : World, Shows X I (n + 1) True w v → Shows X I n True w v := fun _ _ h =>
    h.mono (Nat.le_succ n)
  refine (Shows.createRow (q.template D) hq w v h).bind_weaken hweak ?_
  rintro ⟨key, c⟩ _ w₁ v₁ ⟨rfl, hid, hrp⟩ h₁
  -- the rows of the account are the same in both tables
  have hsame : v₁.store.sameAccount c = w₁.store.sameAccount c := by
    rw [h₁.store, Store.sameAccount_only _ hrp]
  have hown : ∀ old ∈ w₁.store.sameAccount c, I old.credId := by
    intro old hold
    obtain ⟨hfound, -⟩ := List.mem_filter.mp hold
    obtain ⟨hmem, hfound⟩ := List.mem_filter.mp hfound
    obtain ⟨-, hrp'⟩ := Bool.and_eq_true _ _ ▸ hfound
    exact (h₁.secluded.store.own old hmem).mpr ((beq_iff_eq.mp hrp').trans hrp)
  change Ends _ _ ((Proc.forEach _ (w₁.store.sameAccount c) >>= _) w₁)
    ((Proc.forEach _ (v₁.store.sameAccount c) >>= _) v₁)
  rw [hsame]
  refine (Sim.forEach (fun old hold => Shows.replaceRow (hown old hold)) w₁ v₁ h₁).bind_weaken
    hweak fun _ _ w₂ v₂ _ h₂ => ?_
  refine (h₂.storeRow hid hrp).bind fun _ _ w₃ v₃ _ _ h₃ => ?_
  exact ((Shows.blind X I n True).signDer _ _).bind_eq (fun _ => Sim.pure rfl) w₃ v₃ h₃

theorem Shows.cmdMakeCredential {body : Bytes}
    (hbody : ∀ q, makeCredentialRequest body = .ok q → D.provider.sha256 q.rp.id = X)
    (h : Shows X I (n + 1) True w v) :
    Ends (Shows X I n True) Eq (cmdMakeCredential D body w)
      (Swpasskey.cmdMakeCredential D body v) := by
  have hb := Shows.blind X I (n + 1) True
  have hchecks : Sim (Shows X I (n + 1) True)
      (fun x y => x = y ∧ D.provider.sha256 x.1.rp.id = X) (makeCredentialChecks D body)
      (makeCredentialChecks D body) := by
    refine (Sim.ofExcept_of hbody).bind fun q q' hq => ?_
    obtain ⟨rfl, hX⟩ := hq
    rw [hX]
    refine (hb.checkPinAuth _ _ _ _ _ _ _).bind_eq fun uv => ?_
    refine Sim.bind (V := fun s s' => excluded s' X q.excludeList = excluded s X q.excludeList)
      (Sim.gets fun w v h => by rw [h.store, Store.excluded_only]) fun s s' hs => ?_
    dsimp only
    rw [hs]
    refine (hb.confirmUp _ _ _ _).bind_eq fun d => (Sim.require rfl _).bind_eq fun _ =>
      (Sim.require rfl _).bind_eq fun _ => (Blind.decision d).bind_eq fun _ => ?_
    refine Sim.bind (V := fun s s' => decide (s.remaining ≠ 0) = decide (s'.remaining ≠ 0))
      (Sim.gets fun w v h => ?_) fun s s' hs => ?_
    · have hroom := h.secluded.store.remaining_ne_zero
      have hroom' : v.store.remaining ≠ 0 := by
        rw [h.store]
        exact h.secluded.store.only.remaining_ne_zero
      rw [decide_eq_true hroom, decide_eq_true hroom']
    · exact (Sim.require hs _).bind_eq fun _ => Sim.pure ⟨rfl, hX⟩
  refine (hchecks w v h).bind_weaken (fun _ _ h => h.mono (Nat.le_succ n)) ?_
  rintro ⟨q, uv⟩ _ w₁ v₁ ⟨rfl, hX⟩ h₁
  exact Shows.createCredential hX uv h₁

theorem Shows.attestationMaterial :
    Sim (Shows X I n r) Eq (attestationMaterial D) (Swpasskey.attestationMaterial D) := by
  have hb := Shows.blind X I n r
  have hu2f : ∀ w v : World, Shows X I n r w v → w.store.u2f = v.store.u2f := fun w v h => by
    rw [h.store]
    rfl
  refine (Sim.gets hu2f).bind_eq fun a => ?_
  rcases a with _ | a
  · refine (hb.generateKey _).bind_eq fun key => ?_
    split
    · exact Sim.throw _
    · refine Sim.bind_eq (Sim.bind_eq (Sim.modify fun w v h => ?_) fun _ => hb.flush _) fun _ =>
        Sim.pure rfl
      exact h.withStore le_rfl ⟨h.secluded.store.own, h.secluded.store.room⟩ (by rw [h.store]; rfl)
  · dsimp only
    split
    · exact Sim.throw _
    · refine (Sim.require rfl _).bind_eq fun _ => ?_
      split
      · exact Sim.throw _
      · exact (hb.ask _).bind_eq fun _ => (Sim.require rfl _).bind_eq fun _ => Sim.pure rfl

theorem Shows.u2fRegister {data : Bytes} (hdata : Block.ofPadded 32 (data.drop 32) = X)
    (h : Shows X I (n + 1) True w v) :
    Ends (Shows X I n True) Eq (u2fRegister D data w) (Swpasskey.u2fRegister D data v) := by
  have hb := Shows.blind X I (n + 1) True
  have hweak : ∀ w v : World, Shows X I (n + 1) True w v → Shows X I n True w v := fun _ _ h =>
    h.mono (Nat.le_succ n)
  refine Ends.bind_weaken (Sim.require rfl _ w v h) hweak fun _ _ w₁ v₁ _ h₁ => ?_
  refine (hb.confirmUp _ _ _ _ w₁ v₁ h₁).bind_weaken hweak fun d _ w₂ v₂ hd h₂ => ?_
  subst hd
  refine Ends.bind_weaken (Sim.require rfl _ w₂ v₂ h₂) hweak fun _ _ w₃ v₃ _ h₃ => ?_
  refine Ends.mapErr ?_ _
  -- there is room in both tables
  have hroom := h₃.secluded.store.remaining_ne_zero
  have hroom' : v₃.store.remaining ≠ 0 := by
    rw [h₃.store]
    exact h₃.secluded.store.only.remaining_ne_zero
  have hreq : decide (w₃.store.remaining ≠ 0) = decide (v₃.store.remaining ≠ 0) := by
    rw [decide_eq_true hroom, decide_eq_true hroom']
  change Ends _ _ ((Proc.require (decide (w₃.store.remaining ≠ 0)) _ >>= _) w₃)
    ((Proc.require (decide (v₃.store.remaining ≠ 0)) _ >>= _) v₃)
  refine Ends.bind_weaken (Sim.require hreq _ w₃ v₃ h₃) hweak fun _ _ w₄ v₄ _ h₄ => ?_
  refine (Shows.attestationMaterial w₄ v₄ h₄).bind_weaken hweak ?_
  rintro ⟨key, cert⟩ _ w₅ v₅ rfl h₅
  have htemplate : (u2fTemplate (Block.ofPadded 32 (data.drop 32))).rpIdHash = X := hdata
  refine (Shows.createRow _ htemplate w₅ v₅ h₅).bind_weaken hweak ?_
  rintro ⟨_, c⟩ _ w₆ v₆ ⟨rfl, hid, hrp⟩ h₆
  refine (hb.signDer _ _ w₆ v₆ h₆).bind_weaken hweak fun sig _ w₇ v₇ hsig h₇ => ?_
  subst hsig
  exact (h₇.storeRow hid hrp).bind fun _ _ _ _ _ _ h₈ => .ok rfl h₈

end Commands

/-! ### Calls and runs -/

/-- The calls that make a row. -/
def Call.registers : Call → Bool
  | .cbor (cmd :: _) => cmd = 0x01
  | .u2f apdu => (parseApdu apdu).any fun req => req.ins = 0x01
  | _ => false

/-- A call a client may make on behalf of the RP: any but getInfo, which tells how many rows
there are, the resets, and what the user does over the control socket to other rows. -/
def Call.OnBehalf (D : Device) (X : Block 32) : Call → Prop
  | .cbor [] | .ctlSetPin _ => True
  | .cbor (cmd :: body) => cmd ≠ 0x04 ∧ cmd ≠ 0x07 ∧
      (cmd = 0x01 → ∀ q, makeCredentialRequest body = .ok q → D.provider.sha256 q.rp.id = X) ∧
      (cmd = 0x02 → ∀ q, getAssertionRequest body = .ok q → D.provider.sha256 q.rpId = X)
  | .u2f apdu => ∀ req, parseApdu apdu = some req →
      (req.ins = 0x01 → Block.ofPadded 32 (req.data.drop 32) = X) ∧
        (req.ins = 0x02 → Block.ofPadded 32 ((req.data.drop 32).take 32) = X)
  | _ => False

section Calls

variable {call : Call}

/-- **A call that makes no row** ends in the same way in both states. -/
theorem Shows.answer (hcall : call.OnBehalf D X) (hreg : call.registers = false) :
    Sim (Shows X I n r) Eq (answer D call) (Swpasskey.answer D call) := by
  have hb := Shows.blind X I n r
  cases call with
  | ctlSetPin pin => exact hb.finish ((hb.confirmLocal _).bind_eq fun _ => hb.setPinLocal pin) _ _
  | ctlReset | ctlDelete _ | setSerial _ | tpmParams => exact hcall.elim
  | cbor request =>
    refine hb.finish ?_ _ _
    rcases request with _ | ⟨cmd, body⟩
    · exact Sim.throw _
    obtain ⟨h4, h7, -, h2⟩ := hcall
    have h1 : cmd ≠ 0x01 := of_decide_eq_false hreg
    refine Sim.ite Shows.cmdGetNextAssertion (hb.drop.bind_eq fun _ => ?_)
    rw [if_neg h4, if_neg h1, if_neg h7]
    by_cases h : cmd = 0x02
    · rw [if_pos h]
      exact Shows.cmdGetAssertion (h2 h)
    · rw [if_neg h]
      refine Sim.ite (hb.handle body) (Sim.ite ?_ (Sim.throw _))
      exact (hb.confirmLocal _).bind_eq fun _ => Sim.pure rfl
  | u2f apdu =>
    refine hb.finish ((Sim.require rfl _).bind_eq fun _ => ?_) _ _
    rcases hreq : parseApdu apdu with _ | req
    · exact Sim.throw _
    have h1 : req.ins ≠ 0x01 := by simpa [Call.registers, hreq] using hreg
    refine (Sim.require rfl _).bind_eq fun _ => Sim.ite (Sim.pure rfl) ?_
    rw [if_neg h1]
    by_cases h : req.ins = 0x02
    · rw [if_pos h]
      exact Shows.u2fAuthenticate _ ((hcall req hreq).2 h)
    · rw [if_neg h]
      exact Sim.throw _

/-- **A call that makes a row** of the RP, when there is room for it. -/
theorem Shows.answer_registers (hcall : call.OnBehalf D X) (hreg : call.registers = true)
    (h : Shows X I (n + 1) True w v) :
    Ends (Shows X I n True) Eq (Swpasskey.answer D call w) (Swpasskey.answer D call v) := by
  have hb := Shows.blind X I n True
  have hfinish : ∀ {ε α : Type} {m : Cmd ε α} (f : α → Answer) (x : ε → Refusal),
      Ends (Shows X I n True) Eq (m w) (m v) →
      Ends (Shows X I n True) Eq (finish m f x w) (finish m f x v) := fun f x hm =>
    (hm.bind fun a b t t' _ hab ht => hab ▸
      hb.tick.bind_eq (fun _ => Sim.pure rfl) t t' ht).mapErr x
  cases call with
  | ctlSetPin _ | ctlReset | ctlDelete _ | setSerial _ | tpmParams => cases hreg
  | cbor request =>
    rcases request with _ | ⟨cmd, body⟩
    · cases hreg
    obtain rfl : cmd = 0x01 := of_decide_eq_true hreg
    refine hfinish _ _ ?_
    have hdropped : Shows X I (n + 1) True { w with next := none } { v with next := none } :=
      h.withNext fun _ hst => by cases hst
    exact Shows.cmdMakeCredential (hcall.2.2.1 rfl) hdropped
  | u2f apdu =>
    refine hfinish _ _ ?_
    rcases hreq : parseApdu apdu with _ | req
    · simp [Call.registers, hreq] at hreg
    have hins : req.ins = 0x01 := by simpa [Call.registers, hreq] using hreg
    unfold handleU2f
    rw [hreq]
    have hweak : ∀ w v : World, Shows X I (n + 1) True w v → Shows X I n True w v := fun _ _ h =>
      h.mono (Nat.le_succ n)
    refine Ends.bind_weaken (Sim.require rfl _ w v h) hweak fun _ _ w₁ v₁ _ h₁ => ?_
    refine Ends.bind_weaken (Sim.require rfl _ w₁ v₁ h₁) hweak fun _ _ w₂ v₂ _ h₂ => ?_
    rw [if_neg (by rw [hins]; decide), if_pos hins]
    exact Shows.u2fRegister ((hcall req hreq).1 hins) h₂

end Calls

theorem Shows.begin (h : Shows X I n False w v) (call : Call) {e : Env} (he : r → e.Draws I) :
    Shows X I n r (w.begin call e) (v.begin call e) where
  secluded := ⟨h.secluded.store, h.secluded.file, h.secluded.next⟩
  draws := he
  store := h.store
  file := h.file
  next := h.next
  pin := h.pin
  env := rfl
  log := congrArg (· ++ [Event.called call]) h.log

/-- The end of a call. -/
theorem Shows.call_of_ends {call : Call} {e : Env} (hn : n ≤ kMaxCredentials)
    (h : Ends (Shows X I n r) Eq (Swpasskey.answer D call (w.begin call e))
      (Swpasskey.answer D call (v.begin call e))) :
    Shows X I n False (w.call D call e) (v.call D call e) := by
  unfold World.call
  generalize Swpasskey.answer D call (w.begin call e) = x at h
  generalize Swpasskey.answer D call (v.begin call e) = y at h
  rcases h with ⟨rfl, ht⟩ | ht | ht
  · exact (ht.emits _).drawn
  · exact (ht.emits _).drawn
  · exact (ht.restart hn).drawn

/-- The number of calls of a run that make a row. -/
def registrations (steps : List Step) : ℕ :=
  steps.countP fun
    | .call c _ => c.registers
    | .restart _ => false

/-- A step of a client that acts for the RP; the ids it makes the generator draw are the RP's. -/
def Step.OnBehalf (D : Device) (X : Block 32) (I : Block 32 → Prop) : Step → Prop
  | .call c e => c.OnBehalf D X ∧ (c.registers = true → e.Draws I)
  | .restart _ => True

/-- The two runs, step by step. -/
theorem Shows.run : ∀ {steps : List Step} {n : ℕ} {w v : World},
    Shows X I (n + registrations steps) False w v → (∀ s ∈ steps, s.OnBehalf D X I) →
    Shows X I n False (w.run D steps) (v.run D steps)
  | [], _, _, _, h, _ => h
  | s :: steps, n, w, v, h, hsteps => by
    have hn : n + registrations (s :: steps) ≤ kMaxCredentials :=
      (Nat.le_add_left _ _).trans h.secluded.store.room
    suffices hstep : Shows X I (n + registrations steps) False (s.exec D w) (s.exec D v) from
      hstep.run fun s' hs' => hsteps s' (List.mem_cons_of_mem s hs')
    cases s with
    | restart e =>
      have hsame : registrations (.restart e :: steps) = registrations steps :=
        List.countP_cons_of_neg (by simp)
      rw [hsame] at h hn
      have h' : Shows X I (n + registrations steps) False { w with env := e } { v with env := e } :=
        { h with
          secluded := ⟨h.secluded.store, h.secluded.file, h.secluded.next⟩
          draws := False.elim
          env := rfl }
      exact h'.restart hn
    | call c e =>
      obtain ⟨hcall, hdraws⟩ := hsteps _ List.mem_cons_self
      rcases hreg : c.registers with _ | _
      · have hsame : registrations (.call c e :: steps) = registrations steps :=
          List.countP_cons_of_neg (by simp [hreg])
        rw [hsame] at h hn
        exact Shows.call_of_ends hn
          (Shows.answer hcall hreg _ _ (h.begin c (r := False) False.elim))
      · have hsame : registrations (.call c e :: steps) = registrations steps + 1 :=
          List.countP_cons_of_pos (by simp [hreg])
        rw [hsame, ← Nat.add_assoc] at h hn
        exact Shows.call_of_ends (Nat.le_of_succ_le hn)
          (Shows.answer_registers hcall hreg (h.begin c fun _ => hdraws hreg))

/-- Two RPs, each with a credential. -/
def twoRps : World := (World.fresh (.calm 0)).run .plain
  [.call (.makeCredential [0x61] [1]) (.calm 1), .call (.makeCredential [0x62] [1]) (.calm 2)]

/-- The id of the first RP's credential, and one that is still to be drawn. -/
def OwnId (id : Block 32) : Prop := id = Block.replicate 32 1 ∨ id = Block.replicate 32 3

instance (id : Block 32) : Decidable (OwnId id) := inferInstanceAs (Decidable (_ ∨ _))

/-- The first RP registers a second credential and asserts both. -/
def ownSteps : List Step :=
  [.call (.makeCredential [0x61] [2]) (.calm 3), .call (.getAssertion [0x61]) (.calm 4),
    .call .getNextAssertion (.calm 5)]

end Swpasskey
