import Swpasskey.Ctap.Counters

/-!
# What every row carries

A row is made by `createRow`, passes the validation of `put`, and from then on only its
counter and its time of use change, wherever it goes: into the file and out of it by a
restart, or into the pending list. So a property of rows that new rows have, that the use
of a row keeps and that a longer log keeps, holds of **every** row at every time: in
memory, in the file and in the list.
-/

namespace Swpasskey

open Proc Store

variable {D : Device}

/-- A property of rows, given the log, that the life of a row keeps. -/
structure RowLaw (D : Device) (P : List Event → Credential → Prop) : Prop where
  grow : ∀ {l l' : List Event} {c : Credential}, l <+: l' → P l c → P l' c
  used : ∀ {l : List Event} {c : Credential} (n : UInt32) (t : UInt64), P l c → P l (c.used n t)
  new : ∀ (l : List Event) (template : Credential) (m : KeyMaterial) (credId : Block 32)
    (now : UInt64) (secret : Block 64) (wrapped : Bytes),
    (D.primaryKind = .software → wrapped = secret.bytes) →
    validate (template.keyed (m.key D.primaryKind) credId now wrapped) = .ok () →
    P (l ++ creation D m credId secret wrapped)
      (template.keyed (m.key D.primaryKind) credId now wrapped)

section Rows

variable (P : List Event → Credential → Prop)

/-- The property holds of all these rows. -/
def Rows (l : List Event) (creds : List Credential) : Prop := ∀ c ∈ creds, P l c

/-- The property holds of the saved rows. -/
def FileRows (w : World) : Prop := ∀ s, w.file = some s → Rows P w.log s.creds

/-- The property holds of the rows that wait in the list. -/
def ListRows (w : World) : Prop := ∀ st, w.next = some st → Rows P w.log st.remaining

/-- The property holds of every row. -/
def EveryRow (w : World) : Prop := (Rows P w.log w.store.creds ∧ ListRows P w) ∧ FileRows P w

/-- The frame of `EveryRow`. -/
def everyRow : Frame World := Frame.invariantOr (EveryRow P) (FileRows P) fun _ h => h.2

end Rows

variable {P : List Event → Credential → Prop} {w : World}

/-! ### The rows -/

theorem Rows.grow (law : RowLaw D P) {l l' : List Event} {creds : List Credential}
    (h : Rows P l creds) (hl : l <+: l') : Rows P l' creds :=
  fun c hc => law.grow hl (h c hc)

theorem Rows.put {l : List Event} {creds : List Credential} {c : Credential}
    (h : Rows P l creds) (hc : P l c) : Rows P l (putRows c creds) := by
  intro e he
  rcases mem_putRows he with rfl | he
  · exact hc
  · exact h e he

theorem Rows.used (law : RowLaw D P) {l : List Event} {creds : List Credential} {c : Credential}
    (h : Rows P l creds) (hc : c ∈ creds) (n : UInt32) (t : UInt64) :
    Rows P l (replaceFirst (c.used n t) creds) := by
  intro e he
  rcases mem_replaceFirst he with rfl | he
  · exact law.used n t (h c hc)
  · exact h e he

namespace EveryRow

theorem withCreds (h : EveryRow P w) {l : List Credential} (hl : Rows P w.log l) :
    EveryRow P (w.withCreds l) := ⟨⟨hl, h.1.2⟩, h.2⟩

theorem dropNext (h : EveryRow P w) : EveryRow P { w with next := none } :=
  ⟨⟨h.1.1, fun st hst => by cases hst⟩, h.2⟩

variable (law : RowLaw D P)

include law

theorem emits (h : EveryRow P w) (l : List Event) : EveryRow P (w.emits l) := by
  obtain ⟨⟨hrows, hlist⟩, hfile⟩ := h
  have hl : w.log <+: w.log ++ l := List.prefix_append _ _
  exact ⟨⟨hrows.grow law hl, fun st hst => (hlist st hst).grow law hl⟩,
    fun s hs => (hfile s hs).grow law hl⟩

theorem flushed (h : EveryRow P w) (m : Mutator) (e : Env) (ok : Bool) :
    EveryRow P (w.flushed m e ok) := by
  have hlog := h.emits law [.flushed m ok]
  cases ok with
  | false => exact hlog
  | true => exact ⟨hlog.1, fun s hs => Option.some.inj hs ▸ hlog.1.1⟩

theorem erase (h : EveryRow P w) (credId : Bytes) :
    (Store.erase credId).Run w (fun _ => EveryRow P) (fun _ => EveryRow P) (FileRows P) := by
  refine run_erase (fun _ => h) (fun c e _ => ?_) (fun c e hc => ?_) fun _ _ _ => h.2
  · refine (h.withCreds fun c hc => ?_).flushed law _ e _
    exact h.1.1 c (eraseRows_sublist.subset hc)
  · refine (h.withCreds fun c' hc' => ?_).flushed law _ e _
    rcases List.mem_append.mp hc' with hc' | hc'
    · exact h.1.1 c' (eraseRows_sublist.subset hc')
    · exact List.mem_singleton.mp hc' ▸ h.1.1 c (mem_of_findById hc).1

theorem destroyKey (h : EveryRow P w) (c : Credential) :
    (destroyKey D c).Run w (fun _ => EveryRow P) (fun _ => EveryRow P) (FileRows P) :=
  run_destroyKey (fun _ => h) (fun e _ => emits law (w := w.withEnv e) h _) (fun _ => h.2)
    fun e => (emits law (w := w.withEnv e) h _).2

theorem replaceRow (h : EveryRow P w) (old : Credential) :
    (replaceRow D old).Run w (fun _ => EveryRow P) (fun _ => EveryRow P) (FileRows P) :=
  run_bind.mpr ((h.destroyKey law old).weaken fun _ _ h' => run_bind.mpr (run_attempt.mpr
    ((h'.erase law _).mono (fun _ _ h'' => h'') (fun _ _ h'' => h'') fun _ h'' => h'')))

theorem updateCountAndUsed (h : EveryRow P w) (credId : Bytes) (n : UInt32) (t : UInt64) :
    (Store.updateCountAndUsed credId n t).Run w (fun _ => EveryRow P) (fun _ => EveryRow P)
      (FileRows P) := by
  have hused : ∀ c e ok, w.store.findById credId = some c →
      EveryRow P ((w.withCreds (replaceFirst (c.used n t) w.store.creds)).flushed
        .updateCountAndUsed e ok) := fun c e ok hc =>
    (h.withCreds (h.1.1.used law (mem_of_findById hc).1 n t)).flushed law _ e ok
  exact run_updateCountAndUsed h (fun c e hc => hused c e true hc)
    (fun c e hc => hused c e false hc)
    fun _ _ _ => h.2

theorem wipe (h : EveryRow P w) :
    Store.wipe.Run w (fun _ => EveryRow P) (fun _ => EveryRow P) (FileRows P) := by
  have hwiped : EveryRow P w.wiped :=
    (h.withCreds (l := []) fun _ hc => by cases hc).emits law [.pinWiped]
  have hreset : ∀ e ok gone, EveryRow P (w.wiped.persisterReset e ok gone) := by
    intro e ok gone
    obtain ⟨hmem, hfile⟩ := emits law (w := w.wiped.withEnv e) hwiped [.persisterReset ok gone]
    refine ⟨hmem, fun s hs => ?_⟩
    cases gone
    · exact hfile s hs
    · cases hs
  exact run_wipe (fun e e' gone => (hreset e true gone).flushed law _ e' _)
    (fun e e' gone => (hreset e true gone).flushed law _ e' _) (fun e gone => hreset e false gone)
    (fun _ => hwiped.2) fun e _ gone => (hreset e true gone).2

/-! ### New rows -/

/-- A new row is stored if it is valid, or given up. -/
theorem storeRow (h : EveryRow P w) {c : Credential} (hc : validate c = .ok () → P w.log c) :
    (storeRow D c).Run w (fun _ => EveryRow P) (fun _ => EveryRow P) (FileRows P) :=
  run_storeRow (fun e hvalid => (h.withCreds (h.1.1.put (hc hvalid))).flushed law _ e _)
    (fun _ => h.destroyKey law c) (fun _ e => (h.flushed law .put e false).destroyKey law c)
    fun _ => h.2

/-- The replacement of old rows goes on with a row that is still to be stored. -/
theorem replaceRows (h : EveryRow P w) {c : Credential} (hc : validate c = .ok () → P w.log c)
    (l : List Credential) : (forEach (Swpasskey.replaceRow D) l).Run w
      (fun _ w' => EveryRow P w' ∧ (validate c = .ok () → P w'.log c)) (fun _ => EveryRow P)
      (FileRows P) := by
  refine Run.forEach (I := fun _ w => EveryRow P w ∧ (validate c = .ok () → P w.log c))
    (fun old _ w' h' => ?_) l w ⟨h, hc⟩
  refine ((h'.1.replaceRow law old).and (((logGrows_credNeutral D).replaceRow old).run w')).mono ?_
    (fun _ _ h'' => h''.1) fun _ h'' => h''.1
  rintro _ w'' ⟨hrows, hlog⟩
  exact ⟨hrows, fun hvalid => law.grow (log_isPrefix hlog) (h'.2 hvalid)⟩

theorem createCredential (h : EveryRow P w) (q : MakeCredentialRequest) (uv : Bool) :
    (createCredential D q uv).Run w (fun _ => EveryRow P) (fun _ => EveryRow P) (FileRows P) := by
  refine run_bind.mpr (run_createRow (fun m credId now secret wrapped e _ hwrapped => ?_)
    (fun _ _ _ => h) (fun _ => h.2) fun m l _ _ r e => ?_)
  · have h₁ := emits law (w := w.withEnv e) h (creation D m credId secret wrapped)
    refine run_bind.mpr (run_gets.mpr (run_bind.mpr ?_))
    have hnew := law.new w.log (q.template D) m credId now secret wrapped hwrapped
    refine (h₁.replaceRows law hnew _).weaken fun _ w₂ ⟨h₂, hc⟩ => run_bind.mpr ?_
    refine (h₂.storeRow law hc).weaken fun _ w₃ h₃ => run_bind.mpr ?_
    exact (quiet_signDer _ _).run_of (fun _ _ => h₃) (fun _ _ => h₃) fun _ => h₃.2
  · have h₁ := emits law (w := w.withEnv e) h l
    exact ⟨h₁, h₁.2⟩

theorem registerWith (h : EveryRow P w) (challenge application : Block 32) (key : SigningKey)
    (cert : Bytes) : (registerWith D challenge application key cert).Run w (fun _ => EveryRow P)
      (fun _ => EveryRow P) (FileRows P) := by
  refine run_bind.mpr (run_createRow (fun m credId now secret wrapped e _ hwrapped => ?_)
    (fun _ _ _ => h) (fun _ => h.2) fun m l _ _ r e => ?_)
  · have h₁ : ∀ e, EveryRow P ((w.withEnv e).emits (creation D m credId secret wrapped)) :=
      fun e => emits law (w := w.withEnv e) h _
    refine run_bind.mpr ((quiet_signDer _ _).run_of (fun sig e' => ?_) (fun _ e' => h₁ e')
      fun e' => (h₁ e').2)
    refine run_bind.mpr (((h₁ e').storeRow law ?_).weaken fun _ _ h' => h')
    exact law.new _ _ m credId now secret wrapped hwrapped
  · have h₁ := emits law (w := w.withEnv e) h l
    exact ⟨h₁, h₁.2⟩

end EveryRow

/-! ### The calls -/

/-- The candidates of a getAssertion are stored rows. -/
theorem mem_of_mem_sortCandidates {s : Store} {rpIdHash : Block 32}
    {allowList : Option (List PubKeyCredDescriptor)} {c : Credential}
    (hc : c ∈ sortCandidates (candidates s rpIdHash allowList)) : c ∈ s.creds := by
  have hc' : c ∈ candidates s rpIdHash allowList := (List.perm_insertionSort _ _).subset hc
  rcases allowList with _ | _ | ⟨d, l⟩
  · exact List.mem_of_mem_filter hc'
  · exact List.mem_of_mem_filter hc'
  · exact (allowed_rows s rpIdHash (d :: l)).2 c hc'

section Calls

variable (law : RowLaw D P)

include law

theorem everyRow_rowOps : RowOps D (everyRow P) where
  env _ _ h := h
  store w s hs h := ⟨⟨by rw [hs]; exact h.1.1, h.1.2⟩, h.2⟩
  manager _ _ h := h
  dropNext _ h := h.dropNext
  flushed _ m e ok _ h := h.flushed law m e ok
  event _ ev _ h := h.emits law [ev]
  createCredential q uv := Guarantees.of_invariantOr fun _ h => h.createCredential law q uv
  registerWith _ _ _ _ := Guarantees.of_invariantOr fun _ h => h.registerWith law _ _ _ _
  ctlDelete credId := by
    refine Guarantees.of_invariantOr fun w h => run_bind.mpr (run_gets.mpr ?_)
    rcases w.store.findById credId with _ | row
    · exact h
    refine run_bind.mpr ((h.destroyKey law row).weaken fun _ w' h' => ?_)
    exact run_bind.mpr (run_modify.mpr (h'.dropNext.erase law credId))
  factoryReset := by
    refine Guarantees.of_invariantOr fun w h => run_bind.mpr (run_gets.mpr (run_bind.mpr ?_))
    exact (Run.forEach (I := fun _ => EveryRow P) (E := fun _ => EveryRow P) (C := FileRows P)
      (fun c _ _ h' => h'.destroyKey law c) w.store.creds w h).weaken fun _ _ h' => h'.wipe law

theorem everyRow_assertOps : AssertOps (everyRow P) where
  env _ _ h := h
  updateCountAndUsed credId n t := Guarantees.of_invariantOr fun _ h =>
    h.updateCountAndUsed law credId n t

theorem everyRow_u2fOps : U2fOps D (everyRow P) where
  toCallOps := (everyRow_rowOps law).callOps
  updateCountAndUsed := (everyRow_assertOps law).updateCountAndUsed

theorem EveryRow.cmdGetAssertion (h : EveryRow P w) (body : Bytes) :
    (cmdGetAssertion D body).Run w (fun _ => EveryRow P) (fun _ => EveryRow P) (FileRows P) := by
  have hcheck : CheckOps D ((everyRow P).and logGrows) :=
    (everyRow_rowOps law).callOps.toCheckOps.and (logGrows_pieces D).toCheckOps
  have h₀ := h.dropNext
  refine run_bind.mpr (run_modify.mpr (run_bind.mpr
    (run_ofExcept.mpr ⟨fun q _ => ?_, fun _ _ => h₀⟩)))
  refine run_bind.mpr (run_gets.mpr (run_bind.mpr ?_))
  refine ((hcheck.checkPinAuth _ _ _ _ _ _ _).run _).mono ?_ (fun _ _ h₁ => h₁.1 h₀)
    fun _ h₁ => h₁.1 h₀
  rintro uv w₁ ⟨hrows₁, hlog₁⟩
  have h₁ := hrows₁ h₀
  have hstored : Rows P w.log
      (sortCandidates (candidates w.store (D.provider.sha256 q.rpId) q.allowList)) := fun c hc =>
    h.1.1 c (mem_of_mem_sortCandidates hc)
  dsimp only
  generalize sortCandidates (candidates w.store (D.provider.sha256 q.rpId) q.allowList) = l
    at hstored ⊢
  rcases l with _ | ⟨first, rest⟩
  · exact h₁
  refine run_assertFirst (M := fun w₂ => EveryRow P w₂ ∧ Rows P w₂.log (first :: rest)) ?_
    (fun w₂ w₃ ⟨h₂, hrows₂⟩ hopened => ?_) fun _ _ h₂ => h₂.1.2
  · refine ((hcheck.confirmAssertion q _ first).run w₁).mono ?_ (fun _ _ h₂ => h₂.1 h₁)
      fun _ h₂ => h₂.1 h₁
    rintro _ w₂ ⟨hrows₂, hlog₂⟩
    exact ⟨hrows₂ h₁, hstored.grow law (log_isPrefix (logGrows.trans hlog₁ hlog₂))⟩
  · -- the rows that are left in the list are stored rows too
    have h₃ : EveryRow P w₃ := by
      rcases hopened with ⟨-, rfl⟩ | ⟨-, e, -, rfl⟩
      · exact h₂
      · refine ⟨⟨h₂.1.1, fun st hst c hc => ?_⟩, h₂.2⟩
        obtain rfl := Option.some.inj hst
        exact hrows₂ c (List.mem_cons_of_mem _ hc)
    exact (((everyRow_assertOps law).buildAssertion _ _ _ _ _ _ _).run w₃).mono
      (fun _ _ h₄ => h₄ h₃) (fun _ _ h₄ => (h₄ h₃).dropNext) fun _ h₄ => h₄ h₃

theorem EveryRow.cmdGetNextAssertion (h : EveryRow P w) :
    (cmdGetNextAssertion D).Run w (fun _ => EveryRow P) (fun _ => EveryRow P) (FileRows P) := by
  refine run_cmdGetNextAssertion (fun _ => h.dropNext) (fun st cred rest e hst hrem _ _ => ?_)
    fun _ => h.2
  have hshort : EveryRow P { w.withEnv e with next := some { st with remaining := rest } } := by
    refine ⟨⟨h.1.1, fun st' hst' c hc => ?_⟩, h.2⟩
    obtain rfl := Option.some.inj hst'
    exact h.1.2 st hst c (hrem ▸ List.mem_cons_of_mem _ hc)
  refine (((everyRow_assertOps law).buildAssertion _ _ _ _ _ _ _).run _).mono
    (fun _ _ h' => ⟨h' hshort, (h' hshort).dropNext⟩)
    (fun _ _ h' => ⟨h' hshort, (h' hshort).dropNext⟩) fun _ h' => h' hshort

/-- A call keeps the property of every row, whatever it answers. -/
theorem EveryRow.answer (h : EveryRow P w) (c : Call) :
    (answer D c).Run w (fun _ => EveryRow P) (fun _ => EveryRow P) (FileRows P) := by
  have hops := everyRow_u2fOps law
  -- a CTAP command other than getNextAssertion drops the list first
  have hentered : EveryRow P (w.entered c) := by
    unfold World.entered
    split
    · split
      · exact h
      · exact h.dropNext
    · exact h
  refine run_answer hops.toCallOps (fun _ _ _ h' => h' hentered) (fun _ _ h' => h' hentered)
    (fun _ h' => h' hentered) ?_ ?_ ?_ ?_
  · rintro body -
    exact ((hops.toCallOps.cmdMakeCredential body).run _).mono
      (fun _ _ h' _ => ⟨h' h.dropNext, (h' h.dropNext).2⟩) (fun _ _ h' => h' h.dropNext)
      fun _ h' => h' h.dropNext
  · rintro body -
    exact (h.dropNext.cmdGetAssertion law body).weaken fun _ _ h' _ => ⟨h', h'.2⟩
  · rintro rest -
    exact (h.cmdGetNextAssertion law).weaken fun _ _ h' _ => ⟨h', h'.2⟩
  · rintro apdu req - - - -
    exact ((hops.signOps.u2fAuthenticate _ _).run w).mono (fun _ _ h' _ => ⟨h' h, (h' h).2⟩)
      (fun _ _ h' => h' h) fun _ h' => h' h

/-- A new process finds its rows in the file. -/
theorem FileRows.restart (h : FileRows P w) : EveryRow P w.restart := by
  have hlog : w.log <+: w.log ++ [.restarted] := List.prefix_append _ _
  refine ⟨⟨?_, fun st hst => by cases hst⟩, fun s hs => (h s hs).grow law hlog⟩
  rcases hfile : w.file with _ | s
  · intro c hc
    rw [World.restart, hfile] at hc
    cases hc
  · intro c hc
    rw [World.restart, hfile] at hc
    exact law.grow hlog (h s hfile c hc)

/-- **Every row of every run.** -/
theorem RowLaw.run (env : Env) (steps : List Step) :
    EveryRow P ((World.fresh env).run D steps) := by
  refine World.run_induction (fun w c e h => World.call_of_run ?_) (fun w e h => ?_) steps ?_
  · exact (EveryRow.answer law (EveryRow.emits law (w := w.withEnv e) h [.called c]) c).mono
      (fun _ _ h' => h'.emits law _) (fun _ _ h' => h'.emits law _) fun _ h' => h'.restart law
  · exact FileRows.restart law (w := w.withEnv e) h.2
  · exact ⟨⟨fun _ hc => (by cases hc), fun _ hst => (by cases hst)⟩, fun _ hs => (by cases hs)⟩

end Calls

end Swpasskey
