import Swpasskey.Store.Durability
import Swpasskey.Store.Rows

/-!
# Rolling back

`put` and `erase` change the rows, flush, and take the change back when the flush fails. `put`
writes the old row over the new one, or pops the new one: the rows are as they were. `erase`
**appends** the removed row, so the rows are as they were only when nothing else comes after it.
The order is visible: it is the order of `find_by_rp`, which breaks ties in getAssertion, and of
the serialised rows.
-/

namespace Swpasskey.Store

open Proc

/-- The store is as it was, and so is all that can be seen of it. -/
structure Unchanged (s s' : Store) : Prop where
  store : s' = s
  serialize : s'.serialize = s.serialize
  findByRp : ∀ rpIdHash, s'.findByRp rpIdHash = s.findByRp rpIdHash

theorem unchanged_iff {s s' : Store} : Unchanged s s' ↔ s' = s :=
  ⟨Unchanged.store, fun h => h ▸ ⟨rfl, rfl, fun _ => rfl⟩⟩

namespace Op

/-- A call that returns an error leaves the store in memory unchanged. -/
def RollsBack (w : World) (op : Op) : Prop :=
  ∀ e w', op.exec w = (.err e, w') → Unchanged w.store w'.store

/-- The call is one of those that roll back. -/
def OfRow : Op → Prop
  | put _ | erase _ => True
  | _ => False

/-- An `erase` whose flush fails finds a row that a different one comes after. -/
def Misplaces (w : World) : Op → Prop
  | erase credId => w.env.crash ≠ some 0 ∧ w.env.save.head = false ∧
      ∃ l₁ c l₂, w.store.creds = l₁ ++ c :: l₂ ∧ c.credId.bytes = credId ∧
        (∀ e ∈ l₁, e.credId.bytes ≠ credId) ∧ ∃ e ∈ l₂, e ≠ c
  | _ => False

end Op

theorem append_singleton_eq_cons {α : Type} {a : α} {l : List α} :
    l ++ [a] = a :: l ↔ ∀ b ∈ l, b = a := by
  induction l with
  | nil => simp
  | cons b l ih =>
    rw [List.cons_append, List.cons.injEq, List.forall_mem_cons]
    constructor
    · rintro ⟨rfl, h⟩
      exact ⟨rfl, ih.mp h⟩
    · rintro ⟨rfl, h⟩
      exact ⟨rfl, ih.mpr h⟩

/-- The row is put back where it was exactly when only copies of it come after it. -/
theorem eraseRows_concat_eq {credId : Bytes} {l₁ l₂ : List Credential} {c : Credential}
    (hid : c.credId.bytes = credId) (hne : ∀ e ∈ l₁, e.credId.bytes ≠ credId) :
    eraseRows credId (l₁ ++ c :: l₂) ++ [c] = l₁ ++ c :: l₂ ↔ ∀ e ∈ l₂, e = c := by
  rw [eraseRows_split hid hne, List.append_assoc, List.append_cancel_left_eq,
    append_singleton_eq_cons]

variable {w : World}

/-- What `erase` does to a row that is found, by the answer of the persister. -/
theorem erase_apply {credId : Bytes} {c : Credential} (hc : w.store.findById credId = some c)
    (hcrash : w.env.crash ≠ some 0) :
    erase credId w = if w.env.save.head then
        (.ok (), (w.withCreds (eraseRows credId w.store.creds)).flushed .erase w.env.afterSave true)
      else (.err .other, (w.withCreds (eraseRows credId w.store.creds ++ [c])).flushed .erase
        w.env.afterSave false) := by
  let w₁ := w.withCreds (eraseRows credId w.store.creds)
  have hflush := flush_apply .erase (w := w₁) hcrash
  have hhead : w₁.env.save.head = w.env.save.head := rfl
  rw [hhead] at hflush
  have hupdate : update (fun s => { s with creds := eraseRows credId s.creds }) w = (.ok (), w₁) :=
    rfl
  rw [erase, bind_apply_ok (gets_apply _ _), hc]
  dsimp only
  rw [bind_apply_ok hupdate]
  -- the row comes back at the end when the write fails
  rcases hsave : w.env.save.head with _ | _
  · rw [hsave] at hflush
    have hattempt : (flush .erase).attempt w₁ =
        (.ok (.error .other), w₁.flushed .erase w.env.afterSave false) := by
      rw [attempt, hflush]
      rfl
    exact bind_apply_ok hattempt
  · rw [hsave] at hflush
    have hattempt : (flush .erase).attempt w₁ =
        (.ok (.ok ()), w₁.flushed .erase w.env.afterSave true) := by
      rw [attempt, hflush]
      rfl
    exact bind_apply_ok hattempt

theorem erase_died {credId : Bytes} {c : Credential} (hc : w.store.findById credId = some c)
    (hcrash : w.env.crash = some 0) :
    erase credId w = (.died, w.withCreds (eraseRows credId w.store.creds)) := by
  let w₁ := w.withCreds (eraseRows credId w.store.creds)
  have hattempt : (flush .erase).attempt w₁ = (.died, w₁) := by
    rw [attempt, flush_died .erase (w := w₁) hcrash]
  have hupdate : update (fun s => { s with creds := eraseRows credId s.creds }) w = (.ok (), w₁) :=
    rfl
  rw [erase, bind_apply_ok (gets_apply _ _), hc]
  dsimp only
  rw [bind_apply_ok hupdate, bind_apply_died hattempt]

theorem put_rollsBack (c : Credential) : (Op.put c).RollsBack w := by
  intro e w' hw'
  refine unchanged_iff.mpr ?_
  have hrun : (Op.put c).exec.Run w (fun _ _ => True) (fun _ w' => w'.store = w.store)
      fun _ => True :=
    run_put (fun _ => rfl) (fun _ _ _ => trivial) (fun _ => rfl) fun _ => trivial
  exact hrun.err hw'

theorem erase_rollsBack_iff (credId : Bytes) :
    (Op.erase credId).RollsBack w ↔ ¬ (Op.erase credId).Misplaces w := by
  constructor
  · rintro h ⟨hcrash, hsave, l₁, c, l₂, hl, hid, hne, e, he, hec⟩
    have hc : w.store.findById credId = some c := by
      rw [findById, hl]
      exact find?_of_split hid hne
    have herase := erase_apply hc hcrash
    rw [hsave] at herase
    have hsame : eraseRows credId w.store.creds ++ [c] = w.store.creds :=
      congrArg Store.creds (h _ _ herase).store
    rw [hl] at hsame
    exact hec ((eraseRows_concat_eq hid hne).mp hsame e he)
  · intro h e w' hw'
    refine unchanged_iff.mpr ?_
    rcases hc : w.store.findById credId with _ | c
    · have hnone : erase credId w = (.err .invalidCredential, w) := by
        rw [erase, bind_apply_ok (gets_apply _ _), hc]
        rfl
      cases hnone.symm.trans hw'
      rfl
    -- the row is there, so it is the flush that has failed
    have hcrash : w.env.crash ≠ some 0 :=
      fun hcrash => by cases (erase_died hc hcrash).symm.trans hw'
    have herase := (erase_apply hc hcrash).symm.trans hw'
    rcases hsave : w.env.save.head with _ | _
    · rw [hsave] at herase
      obtain ⟨l₁, l₂, hl, hid, hne⟩ := find?_split hc
      have hlast : ∀ e ∈ l₂, e = c := by
        intro e he
        by_contra hec
        exact h ⟨hcrash, hsave, l₁, c, l₂, hl, hid, hne, e, he, hec⟩
      have hback : eraseRows credId w.store.creds ++ [c] = w.store.creds := by
        rw [hl]
        exact (eraseRows_concat_eq hid hne).mpr hlast
      cases herase
      change ({ w.store with creds := eraseRows credId w.store.creds ++ [c] } : Store) = w.store
      rw [hback]
    · rw [hsave] at herase
      cases herase

/-- **Rolling back, exactly.** From every state, a `put` or `erase` that returns an error leaves
the store in memory as it was, order included, iff it is not an `erase` that finds its row in
front of a different one and cannot save. -/
theorem rollsBack_iff (w : World) (op : Op) (hop : op.OfRow) :
    op.RollsBack w ↔ ¬ op.Misplaces w := by
  cases op with
  | put c => exact ⟨fun _ => id, fun _ => put_rollsBack c⟩
  | erase credId => exact erase_rollsBack_iff credId
  | _ => exact hop.elim

/-- A `put` that cannot be saved. -/
theorem rollsBack_put :
    let row : Credential := { rpId := [0x61], rpIdHash := Block.replicate 32 0
                              credId := Block.replicate 32 1, priv := List.replicate 32 7
                              pub := ⟨Block.replicate 32 0, Block.replicate 32 0⟩ }
    let w : World := { env := { Env.calm 0 with save := Stream'.const false } }
    ((Op.put row).exec w).1 = .err .other ∧ (Op.put row).RollsBack w := by
  intro row w
  exact ⟨rfl, (rollsBack_iff w (.put row) trivial).mpr id⟩

/-- Two rows; the first is erased and cannot be saved: it is the second now. -/
theorem not_rollsBack_erase : ¬ ∀ (w : World) (op : Op), op.OfRow → op.RollsBack w := by
  intro h
  let row (b : UInt8) : Credential := { rpId := [0x61], rpIdHash := Block.replicate 32 0
                                        credId := Block.replicate 32 b
                                        pub := ⟨Block.replicate 32 0, Block.replicate 32 0⟩ }
  let w : World := { env := { Env.calm 0 with save := Stream'.const false }
                     store := { creds := [row 1, row 2] } }
  have hsame := h w (.erase (row 1).credId.bytes) trivial .other _ (Prod.ext rfl rfl)
  have hcreds := congrArg Store.creds hsame.store
  exact absurd hcreds (by decide +kernel)

end Swpasskey.Store
