import Swpasskey.Ctap.Frames

/-!
# The pending assertion list

getNextAssertion answers from the list that a getAssertion left behind, with the flags of
that call. `OpenedBy P log` says that the last getAssertion succeeded, with `P` true of it,
and that the list it may have left has not been dropped since by another CBOR command or a
restart.
-/

namespace Swpasskey

open Proc

/-- A call that does not open or drop the list as a CBOR command. -/
def Call.KeepsList (c : Call) : Prop := ∀ r, c = .cbor r → r = [] ∨ ∃ rest, r = 0x08 :: rest

/-- The last CBOR command that is not a getNextAssertion is a getAssertion that succeeded,
and `P` holds of the log before it, its parameters and its events. -/
def OpenedBy (P : List Event → Bytes → List Event → Prop) (log : List Event) : Prop :=
  ∃ pre body evs a post,
    log = pre ++ .called (.cbor (0x02 :: body)) ::
      (evs ++ .answered (.cbor (0x02 :: body)) a :: post) ∧
    (∀ ev ∈ evs, ev.Inner) ∧ P pre body evs ∧
    (∀ c, .called c ∈ post → c.KeepsList) ∧ .restarted ∉ post

theorem OpenedBy.call {P : List Event → Bytes → List Event → Prop} {log evs : List Event}
    {c : Call} {last : Event} (h : OpenedBy P log) (hc : c.KeepsList)
    (hevs : ∀ ev ∈ evs, ev.Inner) (hlast : last.Boundary) (hend : ∀ c, last ≠ .called c) :
    OpenedBy P (log ++ .called c :: (evs ++ [last])) := by
  obtain ⟨pre, body, evs₀, a, post, rfl, hinner, hP, hpost, hrestart⟩ := h
  refine ⟨pre, body, evs₀, a, post ++ .called c :: (evs ++ [last]), by simp, hinner, hP, ?_, ?_⟩
  · -- the calls since the list was opened, and this one, keep it
    intro c' hr
    rcases List.mem_append.mp hr with hr | hr
    · exact hpost c' hr
    rcases List.mem_cons.mp hr with hr | hr
    · exact Event.called.inj hr ▸ hc
    rcases List.mem_append.mp hr with hr | hr
    · exact absurd (hevs _ hr) id
    · exact absurd (List.mem_singleton.mp hr).symm (hend _)
  · intro hr
    rcases List.mem_append.mp hr with hr | hr
    · exact hrestart hr
    rcases List.mem_cons.mp hr with hr | hr
    · cases hr
    rcases List.mem_append.mp hr with hr | hr
    · exact absurd (hevs _ hr) id
    · rw [List.mem_singleton] at hr
      subst hr
      exact hlast

/-! ### The calls that do not open a list -/

/-- The frame of everything but getAssertion and getNextAssertion: the list is left alone or
dropped. -/
def listKept : Frame World :=
  Frame.ofRel (fun w w' => w'.next = w.next ∨ w'.next = none) (fun _ => .inl rfl) <| by
    rintro w w' w'' (h | h) (h' | h')
    · exact .inl (h'.trans h)
    · exact .inr h'
    · exact .inr (h'.trans h)
    · exact .inr h'

theorem listKept_flushed (w : World) (m : Mutator) (e : Env) (ok : Bool) :
    (w.flushed m e ok).next = w.next := by
  cases ok
  · rfl
  · rfl

theorem listKept_credNeutral (D : Device) : CredNeutral D listKept where
  env _ _ := .inl rfl
  store _ _ _ := .inl rfl
  dropNext _ := .inr rfl
  flushed w m e ok := .inl (listKept_flushed w m e ok)
  event _ _ _ := .inl rfl
  verify _ _ _ _ _ := Guarantees.of_run fun _ => PinManager.run_verify
    (fun _ _ => .inl rfl) (fun _ _ => .inl rfl) (fun _ _ _ _ _ _ _ _ _ => .inl rfl)
    fun _ => .inl rfl

theorem listKept_u2fOps (D : Device) : U2fOps D listKept := by
  have hcred := listKept_credNeutral D
  have hneutral : PinNeutral listKept := {
    env := fun _ _ => .inl rfl
    pin := fun _ _ => .inl rfl
    manager := fun _ _ => .inl rfl
    flushed := fun w e ok => .inl (listKept_flushed w _ e ok)
    event := fun _ _ _ => .inl rfl
    installed := fun _ _ => .inl rfl
    compared := fun _ _ _ => .inl rfl }
  have hwipe : Guarantees listKept Store.wipe := Guarantees.of_run fun _ => Store.run_wipe
    (fun _ _ _ => .inl rfl) (fun _ _ _ => .inl rfl) (fun _ _ => .inl rfl) (fun _ => .inl rfl)
    fun _ _ _ => .inl rfl
  exact { hcred.workOps_of_pinOps hwipe (hneutral.pinOps D) with
    prompted := fun _ _ _ => .inl rfl
    verify := hcred.verify
    updateCountAndUsed := hcred.updateCountAndUsed }

/-! ### The assertions -/

section Assertions

variable {D : Device} {w : World}

/-- The frame of work that leaves the list alone. -/
def workBeside : Frame World := (logs Event.Work).and (Frame.keeps World.next)

theorem workBeside_assertOps : AssertOps workBeside where
  env _ _ := ⟨logs_of_eq rfl, rfl⟩
  updateCountAndUsed credId n t := Guarantees.and
    ((logs_credNeutral (fun _ h => h) Device.plain).updateCountAndUsed credId n t)
    (Guarantees.of_run fun _ => Store.run_updateCountAndUsed rfl (fun _ _ _ => rfl)
      (fun _ _ _ => rfl) fun _ _ _ => rfl)

theorem buildAssertion_isAssertion (cred : Credential) (rpIdHash clientDataHash : Block 32)
    (flags : UInt8) (bump : Bool) (ext : ExtensionsIn) (number : Option ℕ) :
    (buildAssertion D cred rpIdHash clientDataHash flags bump ext number).Run w
      (fun r _ => IsAssertion cred rpIdHash flags bump r) (fun _ _ => True) fun _ => True :=
  run_buildAssertion (fun _ _ => trivial) (fun _ _ _ h => h)
    (fun _ _ _ => Store.run_updateCountAndUsed trivial (fun _ _ _ _ h => h) (fun _ _ _ => trivial)
      fun _ _ _ => trivial) fun _ => trivial

/-- The same list, perhaps with fewer rows. -/
def SameList (st st' : AssertionState) : Prop :=
  ∃ rest, rest <:+ st.remaining ∧ st' = { st with remaining := rest }

theorem SameList.refl (st : AssertionState) : SameList st st :=
  ⟨st.remaining, List.suffix_refl _, rfl⟩

theorem SameList.trans {st st' st'' : AssertionState} (h : SameList st st')
    (h' : SameList st' st'') : SameList st st'' := by
  obtain ⟨rest, hrest, rfl⟩ := h
  obtain ⟨rest', hrest', rfl⟩ := h'
  exact ⟨rest', hrest'.trans hrest, rfl⟩

/-- The list after a call: gone, or the same one with fewer rows. -/
def ListShrunk (w w' : World) : Prop :=
  w'.next = none ∨ ∃ st st', w.next = some st ∧ SameList st st' ∧ w'.next = some st'

/-- **What getNextAssertion can do.** It answers for a row of the list, with the flags of the
list, or fails; what is left of the list has the same flags. -/
theorem cmdGetNextAssertion_spec (w : World) : (cmdGetNextAssertion D).Run w
    (fun r w' => ∃ st cred, w.next = some st ∧
      IsAssertion cred st.rpIdHash st.flags st.bumpCounter r ∧ (logs Event.Work).rel w w' ∧
        ListShrunk w w')
    (fun _ w' => (logs Event.Work).rel w w' ∧ ListShrunk w w') fun w' =>
        (logs Event.Work).rel w w' := by
  refine run_cmdGetNextAssertion (fun _ => ⟨logs_of_eq rfl, .inl rfl⟩) ?_ fun _ => logs_of_eq rfl
  intro st cred rest e hst hrem _ _
  have hsame : SameList st { st with remaining := rest } :=
    ⟨rest, hrem ▸ List.suffix_cons cred rest, rfl⟩
  refine (((workBeside_assertOps.buildAssertion (D := D) cred st.rpIdHash st.clientDataHash st.flags
    st.bumpCounter st.ext none).run _).and (buildAssertion_isAssertion cred st.rpIdHash
      st.clientDataHash st.flags st.bumpCounter st.ext none)).mono ?_ ?_ ?_
  · rintro r w' ⟨⟨hlog, hnext⟩, his⟩
    exact ⟨⟨st, cred, hst, his, hlog, .inr ⟨st, _, hst, hsame, hnext⟩⟩, st, cred, hst, his,
      hlog, .inl rfl⟩
  · rintro r w' ⟨⟨hlog, hnext⟩, -⟩
    exact ⟨⟨hlog, .inr ⟨st, _, hst, hsame, hnext⟩⟩, hlog, .inl rfl⟩
  · rintro w' ⟨⟨hlog, -⟩, -⟩
    exact hlog

/-- **What the last part of getAssertion can do.** After the prompt it only works, and the
list it leaves has the flags of its answer. -/
theorem run_assertFirst_of_work {q : GetAssertionRequest} {rpIdHash : Block 32} {uv : Bool}
    {first : Credential} {rest : List Credential} {M : World → Prop} {Q : Reply → World → Prop}
    {E : Status → World → Prop} {C : World → Prop}
    (hconfirm : (confirmAssertion q rpIdHash first).Run w (fun _ w₁ => w₁.next = none ∧ M w₁) E C)
    (hok : ∀ w₁ r w', M w₁ → (logs Event.Work).rel w₁ w' →
      IsAssertion first rpIdHash (assertionFlags uv q.up) q.up r →
      (∀ st, w'.next = some st → st.flags = assertionFlags uv q.up) → Q r w')
    (herr : ∀ w₁ r w', M w₁ → (logs Event.Work).rel w₁ w' → w'.next = none → E r w')
    (hC : ∀ w₁ w', M w₁ → (logs Event.Work).rel w₁ w' → C w') :
    (assertFirst D q rpIdHash uv first rest).Run w Q E C := by
  refine run_assertFirst hconfirm (fun w₁ w₂ ⟨hnone, hM⟩ hopened => ?_) fun w₁ _ h => hC w₁ _ h.2
    (logs_of_eq rfl)
  have hlog₂ : (logs Event.Work).rel w₁ w₂ ∧
      ∀ st, w₂.next = some st → st.flags = assertionFlags uv q.up := by
    rcases hopened with ⟨-, rfl⟩ | ⟨-, e, -, rfl⟩
    · exact ⟨logs_of_eq rfl, fun st hst => by rw [hnone] at hst; cases hst⟩
    · exact ⟨logs_of_eq rfl, fun st' hst => Option.some.inj hst ▸ rfl⟩
  refine (((workBeside_assertOps.buildAssertion (D := D) first rpIdHash q.clientDataHash
    (assertionFlags uv q.up) q.up q.ext (some (rest.length + 1))).run w₂).and
      (buildAssertion_isAssertion first rpIdHash q.clientDataHash
        (assertionFlags uv q.up) q.up q.ext
        (some (rest.length + 1)))).mono ?_ ?_ ?_
  · rintro r w' ⟨⟨hlog, hnext⟩, his⟩
    have hnext' : w'.next = w₂.next := hnext
    exact hok w₁ r w' hM ((logs _).trans hlog₂.1 hlog) his fun st hst => hlog₂.2 st (hnext' ▸ hst)
  · rintro r w' ⟨⟨hlog, -⟩, -⟩
    have hdropped : (logs Event.Work).rel w' { w' with next := none } := logs_of_eq rfl
    exact herr w₁ r _ hM ((logs _).trans hlog₂.1 ((logs _).trans hlog hdropped)) rfl
  · rintro w' ⟨⟨hlog, -⟩, -⟩
    exact hC w₁ w' hM ((logs _).trans hlog₂.1 hlog)

end Assertions

/-! ### The list over a run -/

/-- Since the state `b`, events for which `P` holds have happened inside a call. -/
def Reached (P : List Event → Prop) (b w : World) : Prop :=
  ∃ evs, w.log = b.log ++ evs ∧ (∀ ev ∈ evs, ev.Inner) ∧ P evs

/-- If the flags of the pending list have a certain property, then so does the call that
opened it. -/
def ListInv (F : UInt8 → Prop) (P : List Event → Bytes → List Event → Prop) (w : World) : Prop :=
  ∀ st, w.next = some st → F st.flags → OpenedBy P w.log

section Run

variable {D : Device} {w b : World} {c : Call}

/-- What a call that opens no list leaves of the list: nothing, or the same one. -/
def ListAfter (c : Call) (b w : World) : Prop :=
  ∀ st', w.next = some st' → c.KeepsList ∧ ∃ st, b.next = some st ∧ SameList st st'

theorem ListAfter.of_none (h : w.next = none) : ListAfter c b w := fun st hst => by
  rw [h] at hst
  cases hst

theorem ListAfter.of_kept (hc : c.KeepsList) (h : listKept.rel b w) : ListAfter c b w := by
  rcases h with h | h
  · exact fun st hst => ⟨hc, st, h ▸ hst, .refl st⟩
  · exact .of_none h

theorem ListAfter.of_shrunk (hc : c.KeepsList) (h : ListShrunk b w) : ListAfter c b w := by
  rcases h with h | ⟨st, st₁, hb, hsame, hw⟩
  · exact .of_none h
  · intro st' hst'
    obtain rfl : st₁ = st' := Option.some.inj (hw.symm.trans hst')
    exact ⟨hc, st, hb, hsame⟩

/-- A command that leaves the list it begins with alone, or drops it. -/
theorem ListAfter.of_entered (h : listKept.rel (b.entered c) w) : ListAfter c b w := by
  have hother : (∀ r, c ≠ .cbor r) → c.KeepsList := fun hc r hr => absurd hr (hc r)
  cases c with
  | cbor request =>
    rcases request with _ | ⟨cmd, rest⟩
    · exact .of_kept (fun r hr => .inl (Call.cbor.inj hr).symm) h
    -- of the CTAP commands only getNextAssertion keeps the list
    by_cases h8 : cmd = 0x08
    · subst h8
      exact .of_kept (fun r hr => .inr ⟨rest, (Call.cbor.inj hr).symm⟩) h
    · refine .of_none ?_
      rw [World.entered, if_neg h8] at h
      exact h.elim id id
  | u2f _ => exact .of_kept (hother fun _ => Call.noConfusion) h
  | ctlReset => exact .of_kept (hother fun _ => Call.noConfusion) h
  | ctlSetPin _ => exact .of_kept (hother fun _ => Call.noConfusion) h
  | ctlDelete _ => exact .of_kept (hother fun _ => Call.noConfusion) h
  | setSerial _ => exact .of_kept (hother fun _ => Call.noConfusion) h
  | tpmParams => exact .of_kept (hother fun _ => Call.noConfusion) h

/-- **The list after a call.** A getAssertion may open a list; every other call leaves the
list alone, shortens or drops it. -/
theorem answer_list {G : AssertionState → List Event → Prop}
    (hopen : ∀ body, c = .cbor (0x02 :: body) → (cmdGetAssertion D body).Run { b with next := none }
      (fun _ w' => ∀ st, w'.next = some st → G st w'.log) (fun _ w' => w'.next = none)
      fun _ => True) :
    (answer D c).Run b
      (fun _ w' => ListAfter c b w' ∨
        ∃ body, c = .cbor (0x02 :: body) ∧ ∀ st, w'.next = some st → G st w'.log)
      (fun _ w' => ListAfter c b w') fun _ => True := by
  have hops := listKept_u2fOps D
  refine run_answer hops.toCallOps (fun _ _ _ hw => .inl (.of_entered hw))
    (fun _ _ hw => .of_entered hw) (fun _ _ => trivial) ?_ ?_ ?_ ?_
  · rintro body rfl
    exact ((hops.cmdMakeCredential body).run _).mono
      (fun _ w' hw _ => ⟨.inl (.of_entered (w := w') hw), trivial⟩) (fun _ _ hw => .of_entered hw)
      fun _ _ => trivial
  · rintro body rfl
    exact (hopen body rfl).mono (fun _ w' h e => ⟨.inr ⟨body, rfl, h⟩, trivial⟩)
      (fun _ w' h => .of_none h) fun _ _ => trivial
  · rintro rest rfl
    have hc : (Call.cbor (0x08 :: rest)).KeepsList :=
      fun r hr => .inr ⟨rest, (Call.cbor.inj hr).symm⟩
    refine (cmdGetNextAssertion_spec b).mono ?_ (fun r w' h => .of_shrunk hc h.2) fun _ _ => trivial
    rintro r w' ⟨st, cred, hst, his, hlog, hshrunk⟩ e
    exact ⟨.inl (.of_shrunk (w := w') hc hshrunk), trivial⟩
  · rintro apdu req rfl - - -
    exact ((hops.signOps.u2fAuthenticate req.p1 req.data).run b).mono
      (fun _ w' hw _ => ⟨.inl (.of_entered (w := w') hw), trivial⟩) (fun _ _ hw => .of_entered hw)
      fun _ _ => trivial

/-- **A call keeps the invariant of the list**, if a list that a getAssertion leaves was
opened as it should. -/
theorem ListInv.call {F : UInt8 → Prop} {P : List Event → Bytes → List Event → Prop} {env : Env}
    (h : ListInv F P w)
    (hopen : ∀ body, c = .cbor (0x02 :: body) →
      (cmdGetAssertion D body).Run { w.begin c env with next := none }
        (fun _ w' => ∀ st, w'.next = some st → F st.flags →
          Reached (P w.log body) (w.begin c env) w') (fun _ w' => w'.next = none) fun _ => True) :
    ListInv F P (w.call D c env) := by
  have hgrow := ((logGrows_pieces D).answer c).run (w.begin c env)
  have hlist := answer_list (D := D) (b := w.begin c env) (c := c)
    (G := fun st log => ∀ body, c = .cbor (0x02 :: body) → F st.flags →
      ∃ evs, log = (w.begin c env).log ++ evs ∧ (∀ ev ∈ evs, ev.Inner) ∧ P w.log body evs)
    fun body hbody => (hopen body hbody).weaken fun _ w' hw' st hst body' hbody' hF => by
      obtain rfl : body = body' := (List.cons.inj (Call.cbor.inj (hbody.symm.trans hbody'))).2
      exact hw' st hst hF
  -- a list that was there before is still opened by the same call
  have hkept : ∀ (w' : World) (last : Event), last.Boundary → (∀ c, last ≠ .called c) →
      logGrows.rel (w.begin c env) w' → ListAfter c (w.begin c env) w' →
      ListInv F P (w'.emits [last]) := by
    intro w' last hlast hend hlog hafter st' hst' hF
    obtain ⟨hc, st, hst, rest, -, rfl⟩ := hafter st' hst'
    obtain ⟨evs, hevs, hinner⟩ := hlog
    have hopened := (h st hst hF).call hc hinner hlast hend
    have heq : (w'.emits [last]).log = w.log ++ .called c :: (evs ++ [last]) := by
      simp [World.emits, hevs, World.begin]
    rwa [heq]
  refine World.call_of_run ((hgrow.and hlist).mono ?_ ?_ ?_)
  · rintro a w' ⟨hlog, hafter | ⟨body, rfl, hnew⟩⟩
    · exact hkept w' _ trivial (fun _ => Event.noConfusion) hlog hafter
    · intro st hst hF
      obtain ⟨evs, hevs, hinner, hP⟩ := hnew st hst body rfl hF
      refine ⟨w.log, body, evs, a, [], ?_, hinner, hP, fun _ => List.not_mem_nil.elim,
        List.not_mem_nil⟩
      simp [World.emits, hevs, World.begin]
  · rintro r w' ⟨hlog, hafter⟩
    exact hkept w' _ trivial (fun _ => Event.noConfusion) hlog hafter
  · rintro w' -
    intro st hst
    cases hst

theorem ListInv.restart {F : UInt8 → Prop}
    {P : List Event → Bytes → List Event → Prop} (w : World) :
    ListInv F P w.restart := fun st hst => by cases hst

end Run

end Swpasskey
