import Swpasskey.Ctap.Frames
import Swpasskey.Store.Rows

/-!
# One discoverable credential per account

makeCredential erases the rows of the same RP and user before it stores the new one, but
goes on when the erasure could not be saved. So the store has one discoverable row per
account (`accounts_nodup`) in every run in which no failed save of such an erasure is followed
by a successful save of the new row.
-/

namespace Swpasskey

open Proc Store

/-- The account of a discoverable row. -/
def Credential.account (c : Credential) : Option (Block 32 × Bytes) :=
  if c.rk then some (c.rpIdHash, c.userId) else none

/-- The accounts of the discoverable rows, row by row. -/
def accounts (l : List Credential) : List (Block 32 × Bytes) := l.filterMap Credential.account

/-- A new row was saved right after the erasure of its account's old row was not. -/
def Doubled (log : List Event) : Prop :=
  [.flushed .erase false, .flushed .put true] <:+: log

/-- Rows with distinct ids and distinct accounts. -/
structure Unambiguous (l : List Credential) : Prop where
  ids : (ids l).Nodup
  accounts : (accounts l).Nodup

namespace Unambiguous

variable {l l' : List Credential} {c old : Credential}

theorem nil : Unambiguous [] := ⟨List.nodup_nil, List.nodup_nil⟩

theorem sublist (h : Unambiguous l) (hl : l'.Sublist l) : Unambiguous l' :=
  ⟨(hl.map _).nodup h.ids, (hl.filterMap _).nodup h.accounts⟩

theorem perm (h : Unambiguous l) (hl : l.Perm l') : Unambiguous l' :=
  ⟨(hl.map _).nodup_iff.mp h.ids, (hl.filterMap _).nodup_iff.mp h.accounts⟩

theorem used (h : Unambiguous l) {credId : Bytes} {n : UInt32} {t : UInt64}
    (hc : l.find? (fun c => c.credId.bytes == credId) = some c) :
    Unambiguous (replaceFirst (c.used n t) l) := by
  constructor
  · have hids : Store.ids (replaceFirst (c.used n t) l) = Store.ids l :=
      map_replaceFirst_used _ hc rfl
    rw [hids]
    exact h.ids
  · have haccounts : Swpasskey.accounts (replaceFirst (c.used n t) l) = Swpasskey.accounts l :=
      filterMap_replaceFirst_used _ hc rfl
    rw [haccounts]
    exact h.accounts

/-- A row of a new account, or of none. -/
theorem put (h : Unambiguous l) (hnew : ∀ a, c.account = some a → a ∉ Swpasskey.accounts l) :
    Unambiguous (putRows c l) := by
  refine ⟨ids_putRows h.ids c, ?_⟩
  obtain ⟨l', hsub, hperm, -⟩ := putRows_perm h.ids c
  have hl' : (Swpasskey.accounts l').Nodup := (h.sublist hsub).accounts
  refine (hperm.filterMap _).nodup_iff.mpr ?_
  rcases ha : c.account with _ | a
  · rwa [List.filterMap_cons_none ha]
  · rw [List.filterMap_cons_some ha]
    exact List.nodup_cons.mpr ⟨fun hmem => hnew a ha ((hsub.filterMap _).subset hmem), hl'⟩

end Unambiguous

/-! ### The rows of an account -/

section SameAccount

variable {s : Store} {c old : Credential}

theorem mem_sameAccount : old ∈ s.sameAccount c ↔
    old ∈ s.creds ∧ old.account = some (c.rpIdHash, c.userId) := by
  simp only [Store.sameAccount, Store.findByRp, List.mem_filter, Bool.and_eq_true, beq_iff_eq,
    decide_eq_true_eq, Credential.account]
  constructor
  · rintro ⟨⟨hmem, hrk, hrp⟩, huser⟩
    exact ⟨hmem, by rw [if_pos hrk, hrp, huser]⟩
  · rintro ⟨hmem, ha⟩
    split at ha
    · rename_i hrk
      obtain ⟨hrp, huser⟩ := Prod.mk.inj (Option.some.inj ha)
      exact ⟨⟨hmem, hrk, hrp⟩, huser⟩
    · cases ha

/-- At most one row is replaced. -/
theorem sameAccount_cases (h : Unambiguous s.creds) :
    s.sameAccount c = [] ∨ ∃ old, s.sameAccount c = [old] := by
  have hsub : (s.sameAccount c).Sublist s.creds := List.filter_sublist.trans List.filter_sublist
  have hacc := (h.sublist hsub).accounts
  have hall : ∀ old ∈ s.sameAccount c, old.account = some (c.rpIdHash, c.userId) :=
    fun old hold => (mem_sameAccount.mp hold).2
  rcases hl : s.sameAccount c with _ | ⟨a, _ | ⟨b, l⟩⟩
  · exact .inl rfl
  · exact .inr ⟨a, rfl⟩
  · -- two rows of one account
    rw [hl] at hacc hall
    have ha := hall a List.mem_cons_self
    have hb := hall b (List.mem_cons_of_mem _ List.mem_cons_self)
    rw [accounts, List.filterMap_cons_some ha, List.filterMap_cons_some hb] at hacc
    exact absurd List.mem_cons_self (List.nodup_cons.mp hacc).1

end SameAccount

/-! ### The invariant -/

/-- What is saved is unambiguous. -/
def FileUnambiguous (w : World) : Prop := ∀ s, w.file = some s → Unambiguous s.creds

/-- What is in memory and what is saved is unambiguous. -/
def AllUnambiguous (w : World) : Prop := Unambiguous w.store.creds ∧ FileUnambiguous w

/-- The frame of `AllUnambiguous` while no row is doubled. -/
def unambiguousFrame : Frame World :=
  whileOk (fun log => ¬ Doubled log) AllUnambiguous FileUnambiguous fun _ h => h.2

theorem Doubled.mono {l l' : List Event} (h : l <+: l') (hd : ¬ Doubled l') : ¬ Doubled l :=
  fun hl => hd (hl.trans h.isInfix)

namespace AllUnambiguous

variable {D : Device} {w : World}

/-- A flush copies memory into the file, or leaves the file alone. -/
theorem flushed (h : AllUnambiguous w) (m : Mutator) (e : Env) (ok : Bool) :
    AllUnambiguous (w.flushed m e ok) := by
  cases ok with
  | false => exact h
  | true => exact ⟨h.1, fun s hs => Option.some.inj hs ▸ h.1⟩

theorem withCreds (h : AllUnambiguous w) {l : List Credential} (hl : Unambiguous l) :
    AllUnambiguous (w.withCreds l) := ⟨hl, h.2⟩

theorem destroyKey (h : AllUnambiguous w) (c : Credential) :
    (destroyKey D c).Run w (fun _ => AllUnambiguous) (fun _ => AllUnambiguous) FileUnambiguous :=
  run_destroyKey (fun _ => h) (fun _ _ => h) (fun _ => h.2) fun _ => h.2

/-- A row of a new account is stored. -/
theorem storeRow (h : AllUnambiguous w) {c : Credential}
    (hnew : ∀ a, c.account = some a → a ∉ accounts w.store.creds) :
    (storeRow D c).Run w (fun _ => AllUnambiguous) (fun _ => AllUnambiguous) FileUnambiguous :=
  run_storeRow (fun e _ => (h.withCreds (h.1.put hnew)).flushed _ e _) (fun _ => h.destroyKey c)
    (fun _ e => (h.flushed .put e false).destroyKey c) fun _ => h.2

/-- A row stored after the erasure of its account's old row failed is doubled. -/
theorem storeRow_of_failed (h : AllUnambiguous w) {c : Credential}
    (hlog : [.flushed .erase false] <:+ w.log) :
    (Swpasskey.storeRow D c).Run w (fun _ w' => Doubled w'.log) (fun _ => AllUnambiguous)
      FileUnambiguous := by
  refine run_storeRow (fun e _ => ?_) (fun _ => h.destroyKey c)
    (fun _ e => (h.flushed .put e false).destroyKey c) fun _ => h.2
  obtain ⟨l, hl⟩ := hlog
  refine ⟨l, [], ?_⟩
  change l ++ [.flushed .erase false, .flushed .put true] ++ [] = w.log ++ [.flushed .put true]
  rw [← hl]
  simp

/-- What replacing the row of an account leads to: the account is free, or its old row is
still there and the log ends with the failed erasure. -/
theorem replaceRow (h : AllUnambiguous w) {old c : Credential}
    (hold : old ∈ w.store.sameAccount c) :
    (replaceRow D old).Run w
      (fun _ w' => AllUnambiguous w' ∧ ((c.rpIdHash, c.userId) ∉ accounts w'.store.creds ∨
        [.flushed .erase false] <:+ w'.log))
      (fun _ => AllUnambiguous) FileUnambiguous := by
  obtain ⟨hmem, haccount⟩ := mem_sameAccount.mp hold
  have hfound := findById_of_mem h.1.ids hmem
  have hperm := eraseRows_perm hfound
  -- erased, or back at the end of the rows when the write failed
  refine run_replaceRow hfound (fun e l _ e' => ⟨⟨?_, .inl ?_⟩, ⟨?_, .inr ?_⟩, h.2⟩)
    fun _ => ⟨h.2, h.2⟩
  · exact AllUnambiguous.flushed (w := ((w.withEnv e).emits l).withCreds _)
      (h.withCreds (h.1.sublist eraseRows_sublist)) _ e' true
  · have hacc := (h.1.perm hperm).accounts
    rw [accounts, List.filterMap_cons_some haccount] at hacc
    exact (List.nodup_cons.mp hacc).1
  · exact AllUnambiguous.flushed (w := ((w.withEnv e).emits l).withCreds _)
      (h.withCreds (h.1.perm (hperm.trans (List.perm_append_singleton _ _).symm))) _ e' false
  · exact List.suffix_append _ _

/-- From here on a procedure keeps the rows unambiguous, unless a row is doubled. -/
def Kept {α : Type} (m : Cmd Status α) (w : World) : Prop :=
  m.Run w (fun _ w' => ¬ Doubled w'.log → AllUnambiguous w')
    (fun _ w' => ¬ Doubled w'.log → AllUnambiguous w') fun w' => ¬ Doubled w'.log →
      FileUnambiguous w'

theorem storeRow_attest (h : AllUnambiguous w) (q : MakeCredentialRequest) (uv : Bool)
    (key : SigningKey) {c : Credential} (hc : c.account = some (c.rpIdHash, c.userId))
    (hfree : (c.rpIdHash, c.userId) ∉ accounts w.store.creds ∨ [.flushed .erase false] <:+ w.log) :
    Kept (Swpasskey.storeRow D c >>= fun _ => attest D q uv key c) w := by
  have hattest : ∀ w' : World, (¬ Doubled w'.log → AllUnambiguous w') →
      Kept (attest D q uv key c) w' := fun w' hw' =>
    run_bind.mpr ((quiet_signDer _ _).run_of (fun _ _ => hw') (fun _ _ => hw')
      fun _ hd => (hw' hd).2)
  refine run_bind.mpr ?_
  rcases hfree with hfree | hfailed
  · refine (h.storeRow fun a ha => ?_).mono (fun _ w' hw' => hattest w' fun _ => hw')
      (fun _ _ hw' _ => hw') fun _ hw' _ => hw'
    rwa [← Option.some.inj (hc.symm.trans ha)]
  · exact (h.storeRow_of_failed hfailed).mono (fun _ w' hw' => hattest w' fun hd => absurd hw' hd)
      (fun _ _ hw' _ => hw') fun _ hw' _ => hw'

/-- makeCredential, from the key on. -/
theorem createCredential (h : AllUnambiguous w) (q : MakeCredentialRequest) (uv : Bool) :
    Kept (createCredential D q uv) w := by
  refine run_bind.mpr (run_createRow (fun m credId now secret wrapped e _ _ => ?_)
    (fun _ _ _ _ => h) (fun _ _ => h.2) fun _ _ _ _ _ _ => ⟨fun _ => h, fun _ => h.2⟩)
  set c := (q.template D).keyed (m.key D.primaryKind) credId now wrapped
  have hc : c.account = some (c.rpIdHash, c.userId) := rfl
  set w₁ := (w.withEnv e).emits (creation D m credId secret wrapped)
  have h₁ : AllUnambiguous w₁ := h
  refine run_bind.mpr (run_gets.mpr (run_bind.mpr ?_))
  -- the account has no row yet, or exactly one, which is replaced
  rcases sameAccount_cases (c := c) h₁.1 with hnone | ⟨old, hold⟩
  · rw [hnone]
    refine h₁.storeRow_attest q uv _ hc (.inl fun hmem => ?_)
    obtain ⟨old, hmem, ha⟩ := List.mem_filterMap.mp hmem
    have hold : old ∈ w₁.store.sameAccount c := mem_sameAccount.mpr ⟨hmem, ha⟩
    rw [hnone] at hold
    cases hold
  · have hmem : old ∈ w₁.store.sameAccount c := by rw [hold]; exact List.mem_cons_self
    rw [hold]
    exact run_bind.mpr ((h₁.replaceRow hmem).mono
      (fun _ w₂ hw₂ => hw₂.1.storeRow_attest q uv _ hc hw₂.2) (fun _ _ hw _ => hw) fun _ hw _ => hw)

/-- A U2F row is not discoverable. -/
theorem registerWith (h : AllUnambiguous w) (challenge application : Block 32) (key : SigningKey)
    (cert : Bytes) : Kept (registerWith D challenge application key cert) w := by
  refine run_bind.mpr (run_createRow (fun m credId now secret wrapped e _ _ => ?_)
    (fun _ _ _ _ => h) (fun _ _ => h.2) fun _ _ _ _ _ _ => ⟨fun _ => h, fun _ => h.2⟩)
  refine run_bind.mpr ((quiet_signDer _ _).run_of (fun sig e' => ?_) (fun _ _ _ => h)
    fun _ _ => h.2)
  have h₁ : AllUnambiguous
      (((w.withEnv e).emits (creation D m credId secret wrapped)).withEnv e') := h
  refine run_bind.mpr ((h₁.storeRow fun a ha => ?_).mono (fun _ _ hw => run_pure.mpr fun _ => hw)
    (fun _ _ hw _ => hw) fun _ hw _ => hw)
  cases ha

/-- The one store operation on rows that is not followed by a new row. -/
theorem erase (h : AllUnambiguous w) (credId : Bytes) :
    (Store.erase credId).Run w (fun _ => AllUnambiguous) (fun _ => AllUnambiguous)
      FileUnambiguous := by
  refine Store.run_erase (fun _ => h) (fun c e _ => ?_) (fun c e hc => ?_) fun _ _ _ => h.2
  · exact (h.withCreds (h.1.sublist eraseRows_sublist)).flushed _ e _
  · exact (h.withCreds (h.1.perm ((eraseRows_perm hc).trans
      (List.perm_append_singleton _ _).symm))).flushed _ e _

theorem wipe (h : FileUnambiguous w) :
    Store.wipe.Run w (fun _ => AllUnambiguous) (fun _ => AllUnambiguous) FileUnambiguous := by
  have hwiped : ∀ e ok gone, AllUnambiguous (w.wiped.persisterReset e ok gone) := by
    refine fun e ok gone => ⟨.nil, fun s hs => ?_⟩
    cases gone
    · exact h s hs
    · cases hs
  exact Store.run_wipe (fun e e' gone => (hwiped e true gone).flushed _ e' _)
    (fun e e' gone => (hwiped e true gone).flushed _ e' _) (fun e gone => hwiped e false gone)
    (fun _ => h) fun e _ gone => (hwiped e true gone).2

theorem rowOps (D : Device) : RowOps D unambiguousFrame where
  env w e h := h
  store w s hs h hd := ⟨by rw [hs]; exact (h hd).1, (h hd).2⟩
  manager w p h := h
  dropNext w h := h
  flushed w m e ok _ := whileOk_rel (fun _ _ => Doubled.mono) (w.log_prefix_flushed m e ok)
    fun _ h => h.flushed m e ok
  event w ev _ := whileOk_rel (fun _ _ => Doubled.mono) (List.prefix_append _ _) fun _ h => h
  createCredential q uv := guarantees_whileOk (fun _ _ => Doubled.mono)
    ((logGrows_pieces D).createCredential q uv) fun w _ h => h.createCredential q uv
  registerWith _ _ _ _ := guarantees_whileOk (fun _ _ => Doubled.mono)
    ((logGrows_pieces D).registerWith _ _ _ _) fun w _ h => h.registerWith _ _ _ _
  ctlDelete credId := by
    -- the key is destroyed first, and that leaves the rows alone
    refine guarantees_whileOk (fun _ _ => Doubled.mono) ((logGrows_pieces D).ctlDelete _)
      fun w _ h => ?_
    refine run_bind.mpr (run_gets.mpr ?_)
    rcases w.store.findById credId with _ | row
    · exact fun _ => h
    · refine run_bind.mpr ((h.destroyKey row).mono (fun _ w' h' => ?_) (fun _ _ h' _ => h')
        fun _ h' _ => h')
      have hdropped : AllUnambiguous { w' with next := none } := h'
      exact run_bind.mpr (run_modify.mpr ((hdropped.erase credId).mono (fun _ _ h' _ => h')
        (fun _ _ h' _ => h') fun _ h' _ => h'))
  factoryReset := by
    refine guarantees_whileOk (fun _ _ => Doubled.mono) (logGrows_factoryReset D)
      fun w _ h => ?_
    refine run_bind.mpr (run_gets.mpr (run_bind.mpr ?_))
    refine (Run.forEach (I := fun _ => AllUnambiguous) (E := fun _ w' => _ → AllUnambiguous w')
      (C := fun w' => _ → FileUnambiguous w') (fun c _ w' h' => ?_) w.store.creds w h).weaken ?_
    · exact (h'.destroyKey c).mono (fun _ _ h' => h') (fun _ _ h' _ => h') fun _ h' _ => h'
    · exact fun _ w' h' => (wipe h'.2).mono (fun _ _ h' _ => h') (fun _ _ h' _ => h')
        fun _ h' _ => h'

theorem used (D : Device) (credId : Bytes) (n : UInt32) (t : UInt64) :
    Guarantees unambiguousFrame (Store.updateCountAndUsed credId n t) := by
  refine guarantees_whileOk (fun _ _ => Doubled.mono)
    ((logGrows_pieces D).updateCountAndUsed _ _ _) fun w _ h => ?_
  exact Store.run_updateCountAndUsed (fun _ => h)
    (fun c e hc _ => (h.withCreds (h.1.used hc)).flushed _ e _)
    (fun c e hc _ => (h.withCreds (h.1.used hc)).flushed _ e _) fun _ _ _ _ => h.2

end AllUnambiguous

/-- **One discoverable credential per account.** In every run of a fresh installation in which
no saved new row follows the failed erasure of an old row of its account, whatever else fails
and wherever the process dies and restarts, no two stored rows have the same account. -/
theorem accounts_nodup (D : Device) (env : Env) (steps : List Step)
    (h : ¬ Doubled ((World.fresh env).run D steps).log) :
    (accounts ((World.fresh env).run D steps).store.creds).Nodup := by
  have hfresh : AllUnambiguous (World.fresh env) := ⟨.nil, fun s hs => by cases hs⟩
  have hpieces := (AllUnambiguous.rowOps D).pieces (AllUnambiguous.used D) fun _ _ h => h
  refine (World.run_whileOk (fun _ _ => Doubled.mono) hpieces
    (fun _ _ hw => hw) (fun _ _ _ hw => hw) (fun w _ hw => ⟨?_, hw⟩) hfresh steps h).1.accounts
  rcases hf : w.file with _ | s
  · simpa [World.restart, hf] using Unambiguous.nil
  · simpa [World.restart, hf] using hw s hf

/-- A credential is replaced. -/
theorem accounts_nodup_replaced :
    let steps := [Step.call (.makeCredential [0x61] [1]) (.calm 1),
      .call (.makeCredential [0x61] [1]) (.calm 2)]
    ¬ Doubled ((World.fresh (.calm 0)).run .plain steps).log ∧
      (accounts ((World.fresh (.calm 0)).run .plain steps).store.creds).Nodup := by
  intro steps
  have h : ¬ Doubled ((World.fresh (.calm 0)).run .plain steps).log := by
    unfold Doubled
    decide +kernel
  exact ⟨h, accounts_nodup _ _ _ h⟩

/-- A credential is replaced, the erasure of the old row cannot be saved, and the new row
can: both are stored. -/
theorem not_accounts_nodup : ¬ ∀ (D : Device) (env : Env) (steps : List Step),
    (accounts ((World.fresh env).run D steps).store.creds).Nodup := by
  intro h
  have hrun := h .plain (.calm 0) [.call (.makeCredential [0x61] [1]) (.calm 1),
    .call (.makeCredential [0x61] [1])
      { Env.calm 2 with save := Stream'.cons false (Stream'.const true) }]
  revert hrun
  decide +kernel

end Swpasskey
