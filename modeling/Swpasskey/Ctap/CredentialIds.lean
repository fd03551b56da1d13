import Swpasskey.Ctap.Lineage

/-!
# Every credential id is stored once

`put` replaces the row with the id of the new one, `update_count_and_used` the row it has found,
and nothing else adds a row. So in every state of every run, whatever fails and wherever the
process dies, no two stored rows have one id, and the row that `find_by_id` finds **is** the
credential's.
-/

namespace Swpasskey

open Proc Store

variable {D : Device} {w : World}

/-- No id is saved twice. -/
def DistinctFileIds (w : World) : Prop := ∀ s, w.file = some s → (ids s.creds).Nodup

/-- No id is stored twice, in memory or in the file. -/
def DistinctIds (w : World) : Prop := (ids w.store.creds).Nodup ∧ DistinctFileIds w

/-- The frame of `DistinctIds`. -/
def distinctIds : Frame World := Frame.invariantOr DistinctIds DistinctFileIds fun _ h => h.2

namespace DistinctIds

theorem withCreds (h : DistinctIds w) {l : List Credential} (hl : (ids l).Nodup) :
    DistinctIds (w.withCreds l) := ⟨hl, h.2⟩

theorem flushed (h : DistinctIds w) (m : Mutator) (e : Env) (ok : Bool) :
    DistinctIds (w.flushed m e ok) := by
  cases ok with
  | false => exact h
  | true => exact ⟨h.1, fun s hs => Option.some.inj hs ▸ h.1⟩

/-! ### The mutators -/

theorem erase (h : DistinctIds w) (credId : Bytes) :
    (Store.erase credId).Run w (fun _ => DistinctIds) (fun _ => DistinctIds) DistinctFileIds := by
  refine run_erase (fun _ => h) (fun c e _ => ?_) (fun c e hc => ?_) fun _ _ _ => h.2
  · exact (h.withCreds ((eraseRows_sublist.map _).nodup h.1)).flushed _ e _
  · have hperm := (eraseRows_perm hc).trans (List.perm_append_singleton _ _).symm
    exact (h.withCreds ((hperm.map _).nodup_iff.mp h.1)).flushed _ e _

theorem updateCountAndUsed (h : DistinctIds w) (credId : Bytes) (n : UInt32) (t : UInt64) :
    (Store.updateCountAndUsed credId n t).Run w (fun _ => DistinctIds) (fun _ => DistinctIds)
      DistinctFileIds := by
  have hused : ∀ c e ok, w.store.findById credId = some c →
      DistinctIds ((w.withCreds (replaceFirst (c.used n t) w.store.creds)).flushed
        .updateCountAndUsed e ok) := fun c e ok hc => by
    have hids : ids (replaceFirst (c.used n t) w.store.creds) = ids w.store.creds :=
      map_replaceFirst_used _ hc rfl
    exact (h.withCreds (hids ▸ h.1)).flushed _ e ok
  exact run_updateCountAndUsed h (fun c e hc => hused c e true hc)
    (fun c e hc => hused c e false hc)
    fun _ _ _ => h.2

theorem wipe (h : DistinctIds w) :
    Store.wipe.Run w (fun _ => DistinctIds) (fun _ => DistinctIds) DistinctFileIds := by
  have hreset : ∀ e ok gone, DistinctIds (w.wiped.persisterReset e ok gone) := by
    intro e ok gone
    refine ⟨List.nodup_nil, fun s hs => ?_⟩
    cases gone
    · exact h.2 s hs
    · cases hs
  exact run_wipe (fun e e' gone => (hreset e true gone).flushed _ e' _)
    (fun e e' gone => (hreset e true gone).flushed _ e' _) (fun e gone => hreset e false gone)
    (fun _ => h.2) fun e _ gone => (hreset e true gone).2

/-! ### The commands -/

theorem destroyKey (h : DistinctIds w) (c : Credential) :
    (destroyKey D c).Run w (fun _ => DistinctIds) (fun _ => DistinctIds) DistinctFileIds :=
  run_destroyKey (fun _ => h) (fun _ _ => h) (fun _ => h.2) fun _ => h.2

theorem replaceRow (h : DistinctIds w) (old : Credential) :
    (replaceRow D old).Run w (fun _ => DistinctIds) (fun _ => DistinctIds) DistinctFileIds :=
  run_bind.mpr ((h.destroyKey old).weaken fun _ _ h' => run_bind.mpr (run_attempt.mpr
    ((h'.erase _).mono (fun _ _ h'' => h'') (fun _ _ h'' => h'') fun _ h'' => h'')))

theorem storeRow (h : DistinctIds w) (c : Credential) :
    (storeRow D c).Run w (fun _ => DistinctIds) (fun _ => DistinctIds) DistinctFileIds :=
  run_storeRow (fun e _ => (h.withCreds (ids_putRows h.1 c)).flushed _ e _)
    (fun _ => h.destroyKey c) (fun _ e => (h.flushed .put e false).destroyKey c) fun _ => h.2

theorem createCredential (h : DistinctIds w) (q : MakeCredentialRequest) (uv : Bool) :
    (createCredential D q uv).Run w (fun _ => DistinctIds) (fun _ => DistinctIds)
      DistinctFileIds := by
  refine run_bind.mpr (run_createRow (fun m credId now secret wrapped e _ _ => ?_)
    (fun _ _ _ => h) (fun _ => h.2) fun _ _ _ _ _ _ => ⟨h, h.2⟩)
  have h₁ : DistinctIds ((w.withEnv e).emits (creation D m credId secret wrapped)) := h
  refine run_bind.mpr (run_gets.mpr (run_bind.mpr ?_))
  refine (Run.forEach (I := fun _ => DistinctIds) (E := fun _ => DistinctIds)
    (C := DistinctFileIds) (fun old _ _ h' => h'.replaceRow old) _ _ h₁).weaken fun _ w₂ h₂ => ?_
  refine run_bind.mpr ((h₂.storeRow _).weaken fun _ w₃ h₃ => run_bind.mpr ?_)
  exact (quiet_signDer _ _).run_of (fun _ _ => h₃) (fun _ _ => h₃) fun _ => h₃.2

theorem registerWith (h : DistinctIds w) (challenge application : Block 32) (key : SigningKey)
    (cert : Bytes) : (registerWith D challenge application key cert).Run w (fun _ => DistinctIds)
      (fun _ => DistinctIds) DistinctFileIds := by
  refine run_bind.mpr (run_createRow (fun m credId now secret wrapped e _ _ => ?_)
    (fun _ _ _ => h) (fun _ => h.2) fun _ _ _ _ _ _ => ⟨h, h.2⟩)
  refine run_bind.mpr ((quiet_signDer _ _).run_of (fun sig e' => ?_) (fun _ _ => h) fun _ => h.2)
  have h₁ : DistinctIds (((w.withEnv e).emits (creation D m credId secret wrapped)).withEnv e') := h
  exact run_bind.mpr ((h₁.storeRow _).weaken fun _ _ h₂ => h₂)

/-! ### Runs -/

theorem rowOps (D : Device) : RowOps D distinctIds where
  env _ _ h := h
  store w s hs h := ⟨by rw [hs]; exact h.1, h.2⟩
  manager _ _ h := h
  dropNext _ h := h
  flushed _ m e ok _ h := h.flushed m e ok
  event _ _ _ h := h
  createCredential q uv := Guarantees.of_invariantOr fun _ h => h.createCredential q uv
  registerWith _ _ _ _ := Guarantees.of_invariantOr fun _ h => h.registerWith _ _ _ _
  ctlDelete credId := by
    refine Guarantees.of_invariantOr fun w h => run_bind.mpr (run_gets.mpr ?_)
    rcases w.store.findById credId with _ | row
    · exact h
    refine run_bind.mpr ((h.destroyKey row).weaken fun _ w' h' => run_bind.mpr (run_modify.mpr ?_))
    exact erase (w := { w' with next := none }) h' credId
  factoryReset := by
    refine Guarantees.of_invariantOr fun w h => run_bind.mpr (run_gets.mpr (run_bind.mpr ?_))
    exact (Run.forEach (I := fun _ => DistinctIds) (E := fun _ => DistinctIds)
      (C := DistinctFileIds) (fun c _ _ h' => h'.destroyKey c) w.store.creds w h).weaken
        fun _ _ h' => h'.wipe

/-- **The ids of the stored rows are distinct**, in every run. -/
theorem run (D : Device) (env : Env) (steps : List Step) :
    DistinctIds ((World.fresh env).run D steps) := by
  have hpieces := (rowOps D).pieces
    (fun credId n t => Guarantees.of_invariantOr fun _ h => h.updateCountAndUsed credId n t)
    fun _ _ h => h
  have hrestart : ∀ w : World, DistinctFileIds w → DistinctIds w.restart := by
    intro w h
    refine ⟨?_, h⟩
    rcases hfile : w.file with _ | s
    · simp [World.restart, hfile, ids]
    · simpa [World.restart, hfile] using h s hfile
  refine World.run_induction (fun w c e h => World.call_of_run ?_) (fun w e h => ?_) steps ?_
  · have hbegin : DistinctIds (w.begin c e) := h
    exact ((hpieces.answer c).run _).mono (fun _ _ h' => h' hbegin) (fun _ _ h' => h' hbegin)
      fun w' h' => hrestart w' (h' hbegin)
  · exact hrestart { w with env := e } h.2
  · exact ⟨List.nodup_nil, fun _ hs => (by cases hs)⟩

end DistinctIds

end Swpasskey
