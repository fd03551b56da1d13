import Swpasskey.Ctap.Answers
import Swpasskey.Ctap.Pending

/-!
# The pending list as one conversation

getNextAssertion is meant to go on from the command before it: a getAssertion that left
rows to come, or a getNextAssertion of the same list, within 30 s of the getAssertion. The
dispatcher of `handle_cbor` drops the list for every other command, as its comment says.
Two ways past it are left: `handle_u2f` does not look at the list, and an **empty** CBOR
request is refused before the dispatcher. So the list is one conversation along a run in
which neither of these comes while a list is pending.
-/

namespace Swpasskey

open Proc

variable {D : Device}

/-! ### Conversations -/

/-- A step that goes on with a conversation: a getNextAssertion, or a call that does not come
over HID. -/
def Step.Continues : Step → Prop
  | .call (.cbor (cmd :: _)) _ => cmd = 0x08
  | .call (.cbor []) _ | .call (.u2f _) _ | .restart _ => False
  | .call _ _ => True

/-- A successful getAssertion that leaves the list `st`, to expire 30 s after a reading of the
clock. -/
structure Opens (D : Device) (w : World) (body : Bytes) (e : Env) (st : AssertionState) : Prop where
  answered : ∃ a w', answer D (.cbor (0x02 :: body)) (w.begin (.cbor (0x02 :: body)) e) =
    (.ok a, w') ∧ w'.next = some st
  expiry : ∃ i, st.expiry = e.steadyClock.get i + kUserActionTimeout

/-- The steps end in a conversation about the list `st`: a getAssertion has opened it, and
everything since has gone on with it. -/
def Conversation (D : Device) (w : World) (steps : List Step) (st : AssertionState) : Prop :=
  ∃ pre body e since st₀, steps = pre ++ .call (.cbor (0x02 :: body)) e :: since ∧
    Opens D (w.run D pre) body e st₀ ∧ (∀ s ∈ since, s.Continues) ∧ SameList st₀ st

/-- No U2F command and no empty CBOR request comes while a list is pending. -/
def World.Undisturbed (w : World) : Step → Prop
  | .call (.cbor []) _ | .call (.u2f _) _ => w.next = none
  | _ => True

/-! ### Runs, one step at the end -/

theorem World.run_concat (w : World) (steps : List Step) (s : Step) :
    w.run D (steps ++ [s]) = s.exec D (w.run D steps) := by
  simp [World.run]

theorem World.along_concat {P : World → Step → Prop} {w : World} {steps : List Step} {s : Step} :
    w.Along D P (steps ++ [s]) ↔ w.Along D P steps ∧ P (w.run D steps) s := by
  induction steps generalizing w with
  | nil => simp [World.Along, World.run]
  | cons t steps ih =>
    rw [List.cons_append, World.Along, World.Along, ih, and_assoc]
    rfl

/-! ### The list a getAssertion leaves -/

/-- The list of a getAssertion with this request, made at a reading of the clock. -/
def ListOf (D : Device) (body : Bytes) (e : Env) (st : AssertionState) : Prop :=
  ∃ q uv rest i, getAssertionRequest body = .ok q ∧
    st = q.list (D.provider.sha256 q.rpId) (assertionFlags uv q.up) rest (e.steadyClock.get i)

section List

variable {b : World}

/-- The list a getAssertion leaves is that of its request, and a failed getAssertion leaves
none. -/
theorem cmdGetAssertion_listOf (body : Bytes) :
    (cmdGetAssertion D body).Run b (fun _ w' => ∀ st, w'.next = some st → ListOf D body b.env st)
      (fun _ w' => w'.next = none) fun _ => True := by
  refine run_bind.mpr (run_modify.mpr (run_bind.mpr
    (run_ofExcept.mpr ⟨fun q hq => ?_, fun _ _ => rfl⟩)))
  refine run_bind.mpr (run_gets.mpr (run_bind.mpr ?_))
  refine ((onward_askOps.checkPinAuth _ _ _ _ _ _ _).run _).mono ?_ (fun _ _ h => h.2)
    fun _ _ => trivial
  rintro uv w₁ ⟨hlater₁, hnone₁⟩
  dsimp only
  rcases sortCandidates (candidates b.store (D.provider.sha256 q.rpId) q.allowList) with
    _ | ⟨first, rest⟩
  · exact hnone₁
  refine run_assertFirst (M := fun w₂ => b.env.Later w₂.env ∧ w₂.next = none) ?_
    (fun w₂ w₃ ⟨hlater₂, hnone₂⟩ hopened => ?_) fun _ _ _ => trivial
  · refine ((onward_askOps.confirmAssertion q _ first).run w₁).mono ?_
      (fun _ _ h => h.2.trans hnone₁) fun _ _ => trivial
    rintro _ w₂ ⟨hlater₂, hnone₂⟩
    exact ⟨hlater₁.trans hlater₂, hnone₂.trans hnone₁⟩
  · refine ((onward_askOps.buildAssertion first _ _ _ _ _ _).run w₃).mono ?_ (fun _ _ _ => rfl)
      fun _ _ => trivial
    rintro r w' ⟨-, hnext⟩ st hst
    rcases hopened with ⟨-, rfl⟩ | ⟨-, e, -, rfl⟩
    · rw [hnext, hnone₂] at hst
      cases hst
    · obtain rfl := Option.some.inj (hnext.symm.trans hst)
      obtain ⟨k, hk⟩ := hlater₂.steadyClock
      exact ⟨q, uv, rest, k, hq, by rw [hk, Stream'.head_drop]⟩

end List

theorem ListOf.expiry {body : Bytes} {e : Env} {st : AssertionState} (h : ListOf D body e st) :
    ∃ i, st.expiry = e.steadyClock.get i + kUserActionTimeout := by
  obtain ⟨q, uv, rest, i, -, rfl⟩ := h
  exact ⟨i, rfl⟩

/-! ### The list over a run -/

/-- **The list after a step.** The call has kept a list that was there before, or it is a
getAssertion and the list is its own. -/
theorem Step.next_exec {w : World} {s : Step} {st' : AssertionState}
    (h : (s.exec D w).next = some st') : ∃ c e, s = .call c e ∧
      ((c.KeepsList ∧ ∃ st, w.next = some st ∧ SameList st st') ∨
        ∃ body a w', c = .cbor (0x02 :: body) ∧ answer D c (w.begin c e) = (.ok a, w') ∧
          w'.next = some st' ∧ ListOf D body e st') := by
  cases s with
  | restart e => cases h
  | call c e =>
    refine ⟨c, e, rfl, ?_⟩
    have hlist := answer_list (D := D) (b := w.begin c e) (c := c)
      (G := fun st _ => ∀ body, c = .cbor (0x02 :: body) → ListOf D body e st)
      fun body hbody => (cmdGetAssertion_listOf body).weaken fun _ _ hw st hst body' hbody' =>
        (List.cons.inj (Call.cbor.inj (hbody.symm.trans hbody'))).2 ▸ hw st hst
    rcases hout : answer D c (w.begin c e) with ⟨a | r | _, w'⟩
    all_goals
      simp only [Step.exec, World.call, hout] at h
    · rcases hlist.ok hout with hafter | ⟨body, hc, hnew⟩
      · exact .inl (hafter st' h)
      · exact .inr ⟨body, a, w', hc, rfl, h, hnew st' h body hc⟩
    · exact .inl (hlist.err hout st' h)
    · cases h

/-- While a list is pending, an undisturbed call that keeps the list goes on with it. -/
theorem Step.continues_of_keepsList {w : World} {c : Call} {e : Env} {st : AssertionState}
    (hkeep : c.KeepsList) (h : w.Undisturbed (.call c e)) (hst : w.next = some st) :
    (Step.call c e).Continues := by
  cases c with
  | cbor request =>
    rcases request with _ | ⟨cmd, body⟩
    · exact absurd (hst.symm.trans h) (by simp)
    · rcases hkeep _ rfl with hnil | ⟨rest, hrest⟩
      · exact absurd hnil (List.cons_ne_nil _ _)
      · exact (List.cons.inj hrest).1
  | u2f apdu => exact absurd (hst.symm.trans h) (by simp)
  | ctlReset => trivial
  | ctlSetPin _ => trivial
  | ctlDelete _ => trivial
  | setSerial _ => trivial
  | tpmParams => trivial

/-- A conversation goes on. -/
theorem Conversation.concat {w : World} {steps : List Step} {st st' : AssertionState} {s : Step}
    (h : Conversation D w steps st) (hs : s.Continues) (hsame : SameList st st') :
    Conversation D w (steps ++ [s]) st' := by
  obtain ⟨pre, body, e, since, st₀, rfl, hopens, hsince, hsame₀⟩ := h
  refine ⟨pre, body, e, since ++ [s], st₀, by simp, hopens, fun t ht => ?_, hsame₀.trans hsame⟩
  rcases List.mem_append.mp ht with ht | ht
  · exact hsince t ht
  · exact List.mem_singleton.mp ht ▸ hs

/-- The step lemma: the list after one more step is still a conversation. -/
theorem Conversation.step {w : World} {steps : List Step} {s : Step}
    (ih : ∀ st, (w.run D steps).next = some st → Conversation D w steps st)
    (hs : (w.run D steps).Undisturbed s) {st' : AssertionState}
    (hst' : (s.exec D (w.run D steps)).next = some st') :
    Conversation D w (steps ++ [s]) st' := by
  obtain ⟨c, e, rfl, ⟨hkeep, st, hst, hsame⟩ | ⟨body, a, w', rfl, hout, hw', hlist⟩⟩ :=
    Step.next_exec hst'
  · exact (ih st hst).concat (Step.continues_of_keepsList hkeep hs hst) hsame
  · exact ⟨steps, body, e, [], st', rfl, ⟨⟨a, w', hout, hw'⟩, hlist.expiry⟩,
      fun _ => List.not_mem_nil.elim, .refl st'⟩

/-- **A pending list is a conversation.** -/
theorem conversation_of_pending {env : Env} {steps : List Step}
    (h : (World.fresh env).Along D World.Undisturbed steps) :
    ∀ st, ((World.fresh env).run D steps).next = some st →
      Conversation D (World.fresh env) steps st := by
  induction steps using List.reverseRecOn with
  | nil =>
    intro st hst
    cases hst
  | append_singleton steps s ih =>
    obtain ⟨hsteps, hs⟩ := World.along_concat.mp h
    intro st hst
    rw [World.run_concat] at hst
    exact Conversation.step (ih hsteps) hs hst

/-! ### getNextAssertion -/

/-- getNextAssertion answers NotAllowed unless there is a list that has not expired. -/
theorem cmdGetNextAssertion_live (w : World) : (cmdGetNextAssertion D).Run w
    (fun _ _ => ∃ st, w.next = some st ∧ w.env.steadyClock.head ≤ st.expiry)
    (fun r _ => r = .notAllowed ∨ ∃ st, w.next = some st ∧ w.env.steadyClock.head ≤ st.expiry)
    fun _ => True := by
  refine run_cmdGetNextAssertion (fun _ => .inl rfl) (fun st cred rest e hst hrem hlive _ => ?_)
    fun _ => trivial
  have h : ∃ st, w.next = some st ∧ w.env.steadyClock.head ≤ st.expiry := ⟨st, hst, hlive⟩
  exact run_iff.mpr ⟨fun _ _ _ => ⟨h, h⟩, fun _ _ _ => ⟨.inr h, .inr h⟩, fun _ _ => trivial⟩

/-- **One conversation.** In a run along which no U2F command and no empty CBOR request comes
while a list is pending, a getNextAssertion comes within the 30 s of a list that the commands
before it are about, or it is answered with NotAllowed. -/
theorem getNextAssertion_conversation {env : Env} {steps : List Step}
    (h : (World.fresh env).Along D World.Undisturbed steps) (rest : Bytes) (e : Env) :
    (∃ st, Conversation D (World.fresh env) steps st ∧ e.steadyClock.head ≤ st.expiry) ∨
      (answer D (.cbor (0x08 :: rest)) (((World.fresh env).run D steps).begin
        (.cbor (0x08 :: rest)) e)).1 = .err (.status .notAllowed) ∨
      (answer D (.cbor (0x08 :: rest)) (((World.fresh env).run D steps).begin
        (.cbor (0x08 :: rest)) e)).1 = .died := by
  set w := (World.fresh env).run D steps
  by_cases hlive : ∃ st, w.next = some st ∧ e.steadyClock.head ≤ st.expiry
  · obtain ⟨st, hst, hexpiry⟩ := hlive
    exact .inl ⟨st, conversation_of_pending h st hst, hexpiry⟩
  · right
    have hrun : (answer D (.cbor (0x08 :: rest))).Run (w.begin (.cbor (0x08 :: rest)) e)
        (fun _ _ => False) (fun r _ => r = .status .notAllowed) fun _ => True := by
      refine run_finish ((cmdGetNextAssertion_live _).mono (fun _ _ hl => absurd hl hlive) ?_
        fun _ _ => trivial)
      rintro r _ (rfl | hl)
      · rfl
      · exact absurd hl hlive
    generalize answer D (.cbor (0x08 :: rest)) = m at hrun
    rcases hout : m (w.begin (.cbor (0x08 :: rest)) e) with ⟨a | r | _, w'⟩
    · exact (hrun.ok hout).elim
    · exact .inl (congrArg _ (hrun.err hout))
    · exact .inr rfl

/-- Two credentials are made for one RP, and an assertion is asked for. -/
def twoAccounts : List Step :=
  [.call (.makeCredential (ascii "a") [1]) (.calm 1), .call (.makeCredential (ascii "a") [2])
    (.calm 2), .call (.getAssertion (ascii "a")) (.calm 3)]

/-- With a getAssertion of two rows just before it, a getNextAssertion is answered. -/
theorem getNextAssertion_conversation_twoAccounts :
    (World.fresh (.calm 0)).Along Device.plain World.Undisturbed twoAccounts ∧
      ∃ st, Conversation Device.plain (World.fresh (.calm 0)) twoAccounts st ∧
        (Env.calm 4).steadyClock.head ≤ st.expiry := by
  have h : (World.fresh (.calm 0)).Along Device.plain World.Undisturbed twoAccounts :=
    ⟨trivial, trivial, trivial, trivial⟩
  refine ⟨h, ?_⟩
  rcases getNextAssertion_conversation h [] (.calm 4) with hconv | herr | hdied
  · exact hconv
  · exact absurd herr (by decide +kernel)
  · exact absurd hdied (by decide +kernel)

/-- A conversation does not end in a U2F command. -/
theorem not_conversation_u2f {w : World} {steps : List Step} {apdu : Bytes} {e : Env}
    {st : AssertionState} : ¬ Conversation D w (steps ++ [.call (.u2f apdu) e]) st := by
  rintro ⟨pre, body, e', since, st₀, heq, -, hsince, -⟩
  rcases List.eq_nil_or_concat since with rfl | ⟨since', s, rfl⟩
  · have hlast := (List.append_inj' heq rfl).2
    cases hlast
  · rw [List.concat_eq_append, ← List.cons_append, ← List.append_assoc] at heq
    have hlast := (List.append_inj' heq rfl).2
    obtain rfl := List.singleton_inj.mp hlast
    exact hsince (.call (.u2f apdu) e) (by simp)

/-- A U2F version request between a getAssertion and a getNextAssertion leaves the list: the
getNextAssertion is answered with the second row. -/
theorem not_getNextAssertion_conversation : ¬ ∀ (D : Device) (env : Env) (steps : List Step)
    (rest : Bytes) (e : Env),
    (∃ st, Conversation D (World.fresh env) steps st ∧ e.steadyClock.head ≤ st.expiry) ∨
      (answer D (.cbor (0x08 :: rest)) (((World.fresh env).run D steps).begin
        (.cbor (0x08 :: rest)) e)).1 = .err (.status .notAllowed) ∨
      (answer D (.cbor (0x08 :: rest)) (((World.fresh env).run D steps).begin
        (.cbor (0x08 :: rest)) e)).1 = .died := by
  intro h
  rcases h .plain (.calm 0) (twoAccounts ++ [.call (.u2f [0x00, 0x03, 0x00, 0x00]) (.calm 4)]) []
    (.calm 5) with ⟨st, hconv, -⟩ | herr | hdied
  · exact not_conversation_u2f hconv
  · exact absurd herr (by decide +kernel)
  · exact absurd hdied (by decide +kernel)

end Swpasskey
