import Swpasskey.Lib.Machine
import Swpasskey.World

/-!
# The two prompts

`AlertPresence` (macOS) and `NotifyPresence` (Linux): `confirm()` on the authenticator's
worker against the blocks and callbacks of the user interface thread. Each is a machine whose
actions are the sections under the lock and the steps between them, of either thread, and
what the user does, so a run is any order of them. The waits may end at any time: a poll
finds a cancel or a deadline whenever the action says so, and the wait for the teardown may
run out.

A request is known by the number its `confirm()` call got. A call while another one is busy
is denied at once and has no number. `approved` and `returned` are there for the statements
only: the requests whose panel or notification the user has approved, and what the calls have
returned.

Both were meant to be safe against late answers: the macOS prompt counts generations, "so it
can never show old text or decide a newer request", the Linux one latches the answer, as "a
late action/closed callback must not mutate the next request". Neither covers an answer that
comes when the **next** request has already begun: the last section of the alert block does
not look at the generation, and the next `confirm()` takes the latch off. So an old panel
that is still on screen then decides the new request. Along runs in which no request begins
while a panel is on screen, or on its way to it, this cannot happen.
-/

namespace Swpasskey

/-- Where `confirm()` is, with the answer once it is latched. -/
inductive Caller
  | idle
  /-- The state is set up and the prompt not yet posted. -/
  | posting
  | waiting
  /-- The answer is latched. -/
  | latched (out : Decision)
  /-- The teardown is posted and waited for. -/
  | tearingDown (out : Decision)
  /-- The wait is over, or there was none. -/
  | leaving (out : Decision)
  deriving DecidableEq, Repr

/-- The answer of a call, once it is latched. -/
def Caller.answer? : Caller → Option Decision
  | latched out | tearingDown out | leaving out => some out
  | _ => none

/-- The answer of one round of the waiting loop: a decision that has come, else a cancel, else
the deadline. -/
def pollAnswer (decided : Option Decision) (cancelled late : Bool) : Option Decision :=
  match decided with
  | some d => some d
  | none => if cancelled then some .cancelled else if late then some .timeout else none

/-- Only a decision that has come allows. -/
theorem pollAnswer_allow {decided : Option Decision} {cancelled late : Bool}
    (h : pollAnswer decided cancelled late = some .allow) : decided = some .allow := by
  cases decided with
  | some d => exact h
  | none => cases cancelled <;> cases late <;> cases h

/-- What an Allow that has come needs, an Allow of a round of the waiting loop needs too. -/
theorem earned_of_pollAnswer {decided cancelled late : Bool} {decision : Decision} {P : Prop}
    (h : decided = true → decision = .allow → P)
    (hout : pollAnswer (if decided then some decision else none) cancelled late = some .allow) :
    P := by
  have hd := pollAnswer_allow hout
  split_ifs at hd with hdecided
  exact h hdecided (Option.some.inj hd)

/-- One more call returns, with an Allow only if its prompt was approved. -/
theorem returned_concat {returned : List (ℕ × Decision)} {approved : List ℕ} {gen : ℕ}
    {out : Decision} (h : ∀ k, (k, .allow) ∈ returned → k ∈ approved)
    (hout : out = .allow → gen ∈ approved) :
    ∀ k, (k, .allow) ∈ returned ++ [(gen, out)] → k ∈ approved := by
  intro k hk
  rcases List.mem_append.mp hk with hk | hk
  · exact h k hk
  · obtain ⟨rfl, hallow⟩ := Prod.mk.inj (List.mem_singleton.mp hk)
    exact hout hallow.symm

theorem mem_approved {approved : List ℕ} {k : ℕ} (hk : k ∈ approved) (p : Prop) [Decidable p]
    (gen : ℕ) : k ∈ if p then gen :: approved else approved := by
  split_ifs
  · exact List.mem_cons_of_mem _ hk
  · exact hk

/-! ### macOS -/

namespace AlertPresence

/-- A block on the main queue, with the generation it was made for. -/
inductive MainBlock
  | alert (gen : ℕ)
  | abort (gen : ℕ)
  deriving DecidableEq, Repr

/-- A block that the main thread is in. -/
inductive ModalFrame
  /-- The alert block between its sections under the lock: it runs its panel or not, and has
  the response of the panel (`true`: OK) or still waits for it. -/
  | alert (gen : ℕ) (runIt : Bool) (response : Option Bool)
  /-- The abort block between its section and `abortModal`. -/
  | abort (running : Bool)
  deriving DecidableEq, Repr

end AlertPresence

open AlertPresence in
/-- The members of `AlertPresence`, the worker in `confirm()` and the main thread. The
generation is a 64-bit counter; it counts as unbounded. -/
structure AlertPresence where
  busy : Bool := false
  decided : Bool := false
  modalRunning : Bool := false
  abortRequested : Bool := false
  finished : Bool := true
  decision : Decision := .deny
  generation : ℕ := 0
  caller : Caller := .idle
  /-- The main queue. -/
  queue : List MainBlock := []
  /-- The blocks the main thread is in, the innermost first: a modal loop may service the
  queue. -/
  frames : List ModalFrame := []
  approved : List ℕ := []
  returned : List (ℕ × Decision) := []
  deriving DecidableEq

namespace AlertPresence

/-- One step of one thread, or of the user. -/
inductive Action
  | begin
  | post
  | poll (cancelled late : Bool)
  | tearDown
  /-- The wait for the teardown ends, with the block finished or not. -/
  | stopWaiting (late : Bool)
  | leave
  | runBlock
  | click (approve : Bool)
  /-- The shutdown timer aborts a running modal loop. -/
  | shutdown
  | finishBlock
  deriving DecidableEq, Repr

/-- `-[NSApp abortModal]`: the innermost panel that waits gets no OK. -/
def abortModal : List ModalFrame → List ModalFrame
  | .alert gen runIt none :: fs => .alert gen runIt (some false) :: fs
  | f :: fs => f :: abortModal fs
  | [] => []

/-- The main thread can take a block from the queue: it is in no block, or spins in the modal
loop of a panel. -/
def services : List ModalFrame → Bool
  | [] | .alert _ _ none :: _ => true
  | _ => false

/-- The first section of a block that the main thread takes. -/
def enter (s : AlertPresence) : MainBlock → AlertPresence
  | .alert gen =>
    if gen ≠ s.generation then s  -- stale: a newer confirm() owns the state now
    else
      let runIt := !s.decided && !s.abortRequested
      { s with
        modalRunning := runIt
        frames := .alert gen runIt (if runIt then none else some false) :: s.frames }
  | .abort gen => { s with frames := .abort (s.modalRunning && gen = s.generation) :: s.frames }

/-- The last section of an alert block. It does **not** compare generations. -/
def decide (s : AlertPresence) (runIt ok : Bool) : AlertPresence :=
  if runIt && !s.decided then
    { s with
      modalRunning := false
      decided := true
      decision := if ok then .allow else .deny
      finished := true }
  else { s with modalRunning := false, finished := true }

/-- What an action does, if it is enabled. -/
def step (s : AlertPresence) : Action → Option AlertPresence
  | .begin =>
    if s.busy then some s  -- denied at once
    else some { s with
      busy := true
      decided := false
      modalRunning := false
      abortRequested := false
      finished := false
      decision := .deny
      generation := s.generation + 1
      caller := .posting }
  | .post =>
    if s.caller = .posting then
      some { s with queue := s.queue ++ [.alert s.generation], caller := .waiting }
    else none
  | .poll cancelled late =>
    if s.caller = .waiting then
      match pollAnswer (if s.decided then some s.decision else none) cancelled late with
      | none => some s
      | some out => some { s with
          decided := true
          decision := out
          abortRequested := true
          -- nothing to tear down when the block has finished
          caller := if s.finished then .leaving out else .latched out }
    else none
  | .tearDown =>
    match s.caller with
    | .latched out =>
      some { s with queue := s.queue ++ [.abort s.generation], caller := .tearingDown out }
    | _ => none
  | .stopWaiting late =>
    match s.caller with
    | .tearingDown out =>
      if s.finished || late then some { s with caller := .leaving out } else none
    | _ => none
  | .leave =>
    match s.caller with
    | .leaving out =>
      some { s with
        busy := false
        caller := .idle
        returned := s.returned ++ [(s.generation, out)] }
    | _ => none
  | .runBlock =>
    match s.queue with
    | b :: queue => if services s.frames then some ({ s with queue }.enter b) else none
    | [] => none
  | .click approve =>
    match s.frames with
    | .alert gen true none :: fs =>
      some { s with
        frames := .alert gen true (some approve) :: fs
        approved := if approve then gen :: s.approved else s.approved }
    | _ => none
  | .shutdown =>
    if s.modalRunning then some { s with frames := abortModal s.frames } else none
  | .finishBlock =>
    match s.frames with
    | .alert _ runIt (some ok) :: fs => some ({ s with frames := fs }.decide runIt ok)
    | .abort running :: fs => some { s with frames := if running then abortModal fs else fs }
    | _ => none

/-- A frame whose panel is on screen, on its way there, or just answered. -/
def ModalFrame.shows : ModalFrame → Bool
  | .alert _ runIt _ => runIt
  | .abort _ => false

/-- A request begins only when no panel is on screen. -/
def Clear (s : AlertPresence) : Action → Prop
  | .begin => s.busy = false → ∀ f ∈ s.frames, f.shows = false
  | _ => True

/-! #### The invariant -/

variable {s s' : AlertPresence} {a : Action}

theorem mem_abortModal {f : ModalFrame} {fs : List ModalFrame} (h : f ∈ abortModal fs) :
    f ∈ fs ∨ ∃ gen runIt, f = .alert gen runIt (some false) ∧ .alert gen runIt none ∈ fs := by
  fun_induction abortModal fs with
  | case1 gen runIt fs =>
    rcases List.mem_cons.mp h with rfl | h
    · exact .inr ⟨gen, runIt, rfl, List.mem_cons_self⟩
    · exact .inl (List.mem_cons_of_mem _ h)
  | case2 g fs hne ih =>
    rcases List.mem_cons.mp h with rfl | h
    · exact .inl List.mem_cons_self
    · rcases ih h with h | ⟨gen, runIt, rfl, hmem⟩
      · exact .inl (List.mem_cons_of_mem _ h)
      · exact .inr ⟨gen, runIt, rfl, List.mem_cons_of_mem _ hmem⟩
  | case3 => cases h

/-- Every panel on screen is that of the current request, and an OK or an Allow is the user's
approval of it. -/
structure Inv (s : AlertPresence) : Prop where
  current : ∀ gen response, .alert gen true response ∈ s.frames → gen = s.generation
  answered : ∀ gen, .alert gen true (some true) ∈ s.frames → gen ∈ s.approved
  decided : s.decided = true → s.decision = .allow → s.generation ∈ s.approved
  latched : s.caller.answer? = some .allow → s.generation ∈ s.approved
  returned : ∀ k, (k, .allow) ∈ s.returned → k ∈ s.approved

theorem Inv.abortModal (h : Inv s) {fs : List ModalFrame} (hfs : fs ⊆ s.frames) :
    Inv { s with frames := abortModal fs } where
  current gen response hmem := by
    rcases mem_abortModal hmem with hold | ⟨gen', runIt, heq, hold⟩
    · exact h.current gen response (hfs hold)
    · cases heq
      exact h.current gen none (hfs hold)
  answered gen hmem := by
    rcases mem_abortModal hmem with hmem | ⟨gen', runIt, heq, -⟩
    · exact h.answered gen (hfs hmem)
    · cases heq
  decided := h.decided
  latched := h.latched
  returned := h.returned

theorem Inv.frames (h : Inv s) {fs : List ModalFrame} (hfs : fs ⊆ s.frames) :
    Inv { s with frames := fs } where
  current gen response hmem := h.current gen response (hfs hmem)
  answered gen hmem := h.answered gen (hfs hmem)
  decided := h.decided
  latched := h.latched
  returned := h.returned

/-- A new request: no panel is on screen, so none is that of an older one. -/
theorem Inv.begin (h : Inv s) (hclear : ∀ f ∈ s.frames, f.shows = false) :
    Inv { s with
      busy := true
      decided := false
      modalRunning := false
      abortRequested := false
      finished := false
      decision := .deny
      generation := s.generation + 1
      caller := .posting } where
  current _ _ hmem := absurd (hclear _ hmem) (by simp [ModalFrame.shows])
  answered _ hmem := absurd (hclear _ hmem) (by simp [ModalFrame.shows])
  decided hd := by cases hd
  latched hout := by cases hout
  returned := h.returned

/-- The waiting loop latches an Allow only when the panel was approved. -/
theorem Inv.latch (h : Inv s) {out : Decision} {cancelled late : Bool}
    (hout : pollAnswer (if s.decided then some s.decision else none) cancelled late = some out)
    (caller : Caller) (hcaller : caller.answer? = some out) :
    Inv { s with decided := true, decision := out, abortRequested := true, caller } := by
  have hallow : out = .allow → s.generation ∈ s.approved := by
    rintro rfl
    exact earned_of_pollAnswer h.decided hout
  refine ⟨h.current, h.answered, fun _ => hallow, fun hal => hallow ?_, h.returned⟩
  exact Option.some.inj (hcaller.symm.trans hal)

/-- The first section of a block. -/
theorem Inv.enter (h : Inv s) (b : MainBlock) : Inv (s.enter b) := by
  cases b with
  | abort gen =>
    refine ⟨fun gen' response hmem => ?_, fun gen' hmem => ?_, h.decided, h.latched, h.returned⟩
    · rcases List.mem_cons.mp hmem with hmem | hmem
      · cases hmem
      · exact h.current gen' response hmem
    · rcases List.mem_cons.mp hmem with hmem | hmem
      · cases hmem
      · exact h.answered gen' hmem
  | alert gen =>
    unfold AlertPresence.enter
    dsimp only
    by_cases hgen : gen = s.generation
    · rw [if_neg (not_not.mpr hgen)]
      refine ⟨fun gen' response hmem => ?_, fun gen' hmem => ?_, h.decided, h.latched, h.returned⟩
      · rcases List.mem_cons.mp hmem with hmem | hmem
        · injection hmem with hsame
          exact hsame.trans hgen
        · exact h.current gen' response hmem
      · rcases List.mem_cons.mp hmem with hmem | hmem
        · injection hmem with _ hrun hresponse
          rw [← hrun] at hresponse
          cases hresponse
        · exact h.answered gen' hmem
    · rw [if_pos hgen]
      exact h

/-- The last section of an alert block decides for the panel of the current request. -/
theorem Inv.decide (h : Inv s) {runIt ok : Bool}
    (hok : runIt = true → ok = true → s.generation ∈ s.approved) : Inv (s.decide runIt ok) := by
  unfold AlertPresence.decide
  by_cases hrun : (runIt && !s.decided) = true
  · rw [if_pos hrun]
    refine ⟨h.current, h.answered, fun _ hallow => hok ?_ ?_, h.latched, h.returned⟩
    · rw [Bool.and_eq_true] at hrun
      exact hrun.1
    · by_contra hno
      rw [if_neg hno] at hallow
      cases hallow
  · rw [if_neg hrun]
    exact ⟨h.current, h.answered, h.decided, h.latched, h.returned⟩

/-- The call returns what it has latched. -/
theorem Inv.leave (h : Inv s) {out : Decision} (hcaller : s.caller = .leaving out) :
    Inv { s with
      busy := false
      caller := .idle
      returned := s.returned ++ [(s.generation, out)] } := by
  refine ⟨h.current, h.answered, h.decided, fun hal => (by cases hal), ?_⟩
  refine returned_concat h.returned fun hallow => h.latched ?_
  rw [hcaller, ← hallow]
  rfl

/-- The user answers the innermost panel. -/
theorem Inv.click (h : Inv s) {gen : ℕ} {fs : List ModalFrame}
    (hframes : s.frames = .alert gen true none :: fs) (approve : Bool) :
    Inv { s with
      frames := .alert gen true (some approve) :: fs
      approved := if approve then gen :: s.approved else s.approved } := by
  have htop : .alert gen true none ∈ s.frames := hframes ▸ List.mem_cons_self
  have hsub : ∀ f ∈ fs, f ∈ s.frames := fun f hf => hframes ▸ List.mem_cons_of_mem _ hf
  have hgrow : ∀ k ∈ s.approved, k ∈ if approve then gen :: s.approved else s.approved :=
    fun k hk => mem_approved hk _ gen
  refine ⟨fun gen' response hmem => ?_, fun gen' hmem => ?_, fun hd hal => hgrow _
    (h.decided hd hal), fun hal => hgrow _ (h.latched hal),
    fun k hk => hgrow k (h.returned k hk)⟩
  · rcases List.mem_cons.mp hmem with hmem | hmem
    · cases hmem
      exact h.current gen none htop
    · exact h.current gen' response (hsub _ hmem)
  · rcases List.mem_cons.mp hmem with hmem | hmem
    · -- an OK on the panel is the approval itself
      cases hmem
      exact List.mem_cons_self
    · exact hgrow gen' (h.answered gen' (hsub _ hmem))

/-- The step lemma. -/
theorem Inv.step (h : Inv s) (hclear : Clear s a) (hs : step s a = some s') : Inv s' := by
  cases a with
  | begin =>
    dsimp only [AlertPresence.step] at hs
    by_cases hbusy : s.busy = true
    · rw [if_pos hbusy] at hs
      cases hs
      exact h
    · rw [if_neg hbusy] at hs
      cases hs
      exact h.begin (hclear (Bool.eq_false_iff.mpr hbusy))
  | post =>
    dsimp only [AlertPresence.step] at hs
    by_cases hcaller : s.caller = .posting
    · rw [if_pos hcaller] at hs
      cases hs
      exact ⟨h.current, h.answered, h.decided, fun hal => (by cases hal), h.returned⟩
    · rw [if_neg hcaller] at hs
      cases hs
  | poll cancelled late =>
    dsimp only [AlertPresence.step] at hs
    by_cases hcaller : s.caller = .waiting
    · rw [if_pos hcaller] at hs
      rcases hout : pollAnswer (if s.decided then some s.decision else none) cancelled late with
        _ | out
      · rw [hout] at hs
        cases hs
        exact h
      · rw [hout] at hs
        cases hs
        refine h.latch hout _ ?_
        cases s.finished
        · rfl
        · rfl
    · rw [if_neg hcaller] at hs
      cases hs
  | tearDown =>
    dsimp only [AlertPresence.step] at hs
    split at hs
    · rename_i out hcaller
      cases hs
      exact ⟨h.current, h.answered, h.decided, fun hal => h.latched (hcaller ▸ hal), h.returned⟩
    · cases hs
  | stopWaiting late =>
    dsimp only [AlertPresence.step] at hs
    split at hs
    · rename_i out hcaller
      split_ifs at hs
      cases hs
      exact ⟨h.current, h.answered, h.decided, fun hal => h.latched (hcaller ▸ hal), h.returned⟩
    · cases hs
  | leave =>
    dsimp only [AlertPresence.step] at hs
    split at hs
    · rename_i out hcaller
      cases hs
      exact h.leave hcaller
    · cases hs
  | runBlock =>
    dsimp only [AlertPresence.step] at hs
    rcases hqueue : s.queue with _ | ⟨b, queue⟩ <;> rw [hqueue] at hs
    · cases hs
    · dsimp only at hs
      split_ifs at hs
      cases hs
      exact Inv.enter (s := { s with queue }) ⟨h.current, h.answered, h.decided, h.latched,
        h.returned⟩ b
  | click approve =>
    dsimp only [AlertPresence.step] at hs
    split at hs
    · rename_i gen fs hframes
      cases hs
      exact h.click hframes approve
    · cases hs
  | shutdown =>
    dsimp only [AlertPresence.step] at hs
    by_cases hmodal : s.modalRunning = true
    · rw [if_pos hmodal] at hs
      cases hs
      exact h.abortModal (List.Subset.refl _)
    · rw [if_neg hmodal] at hs
      cases hs
  | finishBlock =>
    dsimp only [AlertPresence.step] at hs
    split at hs
    · rename_i gen runIt ok fs hframes
      cases hs
      have htop : .alert gen runIt (some ok) ∈ s.frames := hframes ▸ List.mem_cons_self
      -- the block does not compare generations: that its panel is the current one is invariant
      refine (h.frames fun f hf => hframes ▸ List.mem_cons_of_mem _ hf).decide ?_
      rintro rfl rfl
      rw [← h.current gen _ htop]
      exact h.answered gen htop
    · rename_i running fs hframes
      cases hs
      have hsub : fs ⊆ s.frames := fun f hf => hframes ▸ List.mem_cons_of_mem _ hf
      cases running
      · exact h.frames hsub
      · exact h.abortModal hsub
    · cases hs

theorem inv_new : Inv {} where
  current _ _ hmem := by cases hmem
  answered _ hmem := by cases hmem
  decided hd := by cases hd
  latched hout := by cases hout
  returned _ hk := by cases hk

end AlertPresence

/-! ### Linux -/

namespace NotifyPresence

/-- An idle source on the loop thread's context. -/
inductive Source
  | show | close
  deriving DecidableEq, Repr

/-- Where the loop thread is. -/
inductive LoopThread
  | idle
  /-- `show_cb` with the text of a request, before its notification is shown. -/
  | showing (text : ℕ)
  /-- `show_cb` before it stores the notification. -/
  | storing (text : ℕ)
  /-- `close_cb` with the notification it took. -/
  | closing (notif : Option ℕ)
  deriving DecidableEq, Repr

/-- What the user does with a notification. -/
inductive Press
  | approve | deny
  /-- It is dismissed without a button, or expired by the server. -/
  | dismiss
  deriving DecidableEq, Repr

end NotifyPresence

open NotifyPresence in
/-- The members of `NotifyPresence`, the worker in `confirm()` and the loop thread. A
notification is known by the request whose text it shows. -/
structure NotifyPresence where
  busy : Bool := false
  decided : Bool := false
  tornDown : Bool := true
  decision : Decision := .deny
  /-- `body_`: the request it is the text of. -/
  body : ℕ := 0
  notif : Option ℕ := none
  caller : Caller := .idle
  /-- The idle sources, which run in order. -/
  sources : List Source := []
  loop : LoopThread := .idle
  /-- The notifications that are shown and not yet destroyed. -/
  live : List ℕ := []
  /-- Signals of live notifications that the loop thread has not dispatched. -/
  signals : List (ℕ × Press) := []
  approved : List ℕ := []
  returned : List (ℕ × Decision) := []
  deriving DecidableEq

namespace NotifyPresence

/-- One step of one thread, or of the user. -/
inductive Action
  | begin
  | post
  | poll (cancelled late : Bool)
  | tearDown
  /-- The wait for the teardown ends, in time or not, and the call returns. -/
  | leave (late : Bool)
  | runSource
  /-- `notify_notification_new` and `_show` return. -/
  | shown (ok : Bool)
  | store
  | closed
  | press (text : ℕ) (p : Press)
  /-- `action_cb` or `closed_cb`. -/
  | dispatch (text : ℕ) (p : Press)
  deriving DecidableEq, Repr

/-- `decide`: the first answer wins. -/
def decide (s : NotifyPresence) (d : Decision) : NotifyPresence :=
  if s.decided then s else { s with decided := true, decision := d }

/-- The decision of a signal. -/
def Press.decision : Press → Decision
  | approve => .allow
  | deny | dismiss => .deny

/-- What an action does, if it is enabled. -/
def step (s : NotifyPresence) : Action → Option NotifyPresence
  | .begin =>
    if s.busy then some s  -- denied at once
    else some { s with
      busy := true
      decided := false
      tornDown := false
      decision := .deny
      body := s.body + 1
      caller := .posting }
  | .post =>
    if s.caller = .posting then
      some { s with sources := s.sources ++ [.show], caller := .waiting }
    else none
  | .poll cancelled late =>
    if s.caller = .waiting then
      match pollAnswer (if s.decided then some s.decision else none) cancelled late with
      | none => some s
      | some out => some { s with decided := true, decision := out, caller := .latched out }
    else none
  | .tearDown =>
    match s.caller with
    | .latched out =>
      some { s with sources := s.sources ++ [.close], caller := .tearingDown out }
    | _ => none
  | .leave late =>
    match s.caller with
    | .tearingDown out =>
      if s.tornDown || late then
        some { s with
          busy := false
          caller := .idle
          returned := s.returned ++ [(s.body, out)] }
      else none
    | _ => none
  | .runSource =>
    match s.loop, s.sources with
    | .idle, .show :: sources =>
      some { s with sources, loop := if s.decided then .idle else .showing s.body }
    | .idle, .close :: sources =>
      some { s with sources, loop := .closing s.notif, notif := none }
    | _, _ => none
  | .shown ok =>
    match s.loop with
    | .showing text =>
      if ok then some { s with loop := .storing text, live := text :: s.live }
      else some ({ s with loop := .idle }.decide .deny)  -- fail closed
    | _ => none
  | .store =>
    match s.loop with
    | .storing text => some { s with loop := .idle, notif := some text }
    | _ => none
  | .closed =>
    match s.loop with
    | .closing notif =>
      some { s with
        loop := .idle
        live := s.live.filter fun text => notif ≠ some text
        signals := s.signals.filter fun p => notif ≠ some p.1
        tornDown := true }
    | _ => none
  | .press text p =>
    if text ∈ s.live then
      some { s with
        signals := s.signals ++ [(text, p)]
        approved := if p = .approve then text :: s.approved else s.approved }
    else none
  | .dispatch text p =>
    if s.loop = .idle ∧ (text, p) ∈ s.signals then
      some ({ s with signals := s.signals.erase (text, p) }.decide p.decision)
    else none

/-- The notification the loop thread is about to show. -/
def LoopThread.text? : LoopThread → Option ℕ
  | showing text => some text
  | _ => none

/-- A request begins only when no notification is on screen or on its way to it. -/
def Clear (s : NotifyPresence) : Action → Prop
  | .begin => s.busy = false → s.live = [] ∧ s.loop.text? = none
  | _ => True

/-! #### The invariant -/

variable {s s' : NotifyPresence} {a : Action}

/-- Every notification on screen shows the current request, and an Allow is the user's
approval of it. -/
structure Inv (s : NotifyPresence) : Prop where
  live : ∀ text ∈ s.live, text = s.body
  showing : ∀ text, s.loop.text? = some text → text = s.body
  signals : ∀ p ∈ s.signals, p.1 ∈ s.live ∧ (p.2 = .approve → p.1 ∈ s.approved)
  decided : s.decided = true → s.decision = .allow → s.body ∈ s.approved
  latched : s.caller.answer? = some .allow → s.body ∈ s.approved
  returned : ∀ k, (k, .allow) ∈ s.returned → k ∈ s.approved

theorem inv_new : Inv {} where
  live _ h := by cases h
  showing _ h := by cases h
  signals _ h := by cases h
  decided h := by cases h
  latched h := by cases h
  returned _ h := by cases h

/-- An answer decides only the request whose notification it came from. -/
theorem Inv.decide (h : Inv s) {d : Decision} (hd : d = .allow → s.body ∈ s.approved) :
    Inv (s.decide d) := by
  unfold NotifyPresence.decide
  split_ifs
  · exact h
  · exact ⟨h.live, h.showing, h.signals, fun _ => hd, h.latched, h.returned⟩

/-- A new request: nothing is on screen, so nothing shows an older one. -/
theorem Inv.begin (h : Inv s) (hlive : s.live = []) (hloop : s.loop.text? = none) :
    Inv { s with
      busy := true
      decided := false
      tornDown := false
      decision := .deny
      body := s.body + 1
      caller := .posting } where
  live text ht := absurd ht (hlive ▸ List.not_mem_nil)
  showing text ht := absurd (hloop.symm.trans ht) (by simp)
  signals := h.signals
  decided hd := by cases hd
  latched hal := by cases hal
  returned := h.returned

/-- The waiting loop latches an Allow only when the notification was approved. -/
theorem Inv.latch (h : Inv s) {out : Decision} {cancelled late : Bool}
    (hout : pollAnswer (if s.decided then some s.decision else none) cancelled late = some out) :
    Inv { s with decided := true, decision := out, caller := .latched out } := by
  have hallow : out = .allow → s.body ∈ s.approved := by
    rintro rfl
    exact earned_of_pollAnswer h.decided hout
  exact ⟨h.live, h.showing, h.signals, fun _ => hallow, fun hal => hallow (Option.some.inj hal),
    h.returned⟩

/-- The call returns what it has latched. -/
theorem Inv.leave (h : Inv s) {out : Decision} (hcaller : s.caller = .tearingDown out) :
    Inv { s with
      busy := false
      caller := .idle
      returned := s.returned ++ [(s.body, out)] } := by
  refine ⟨h.live, h.showing, h.signals, h.decided, fun hal => (by cases hal), ?_⟩
  refine returned_concat h.returned fun hallow => h.latched ?_
  rw [hcaller, ← hallow]
  rfl

/-- The notification of the current request is shown. -/
theorem Inv.shown (h : Inv s) {text : ℕ} (htext : text = s.body) :
    Inv { s with loop := .storing text, live := text :: s.live } := by
  refine ⟨fun t ht => ?_, fun t ht => (by cases ht), fun p hp => ?_, h.decided, h.latched,
    h.returned⟩
  · rcases List.mem_cons.mp ht with rfl | ht
    · exact htext
    · exact h.live t ht
  · exact ⟨List.mem_cons_of_mem _ (h.signals p hp).1, (h.signals p hp).2⟩

/-- The user answers a notification on screen. -/
theorem Inv.press (h : Inv s) {text : ℕ} (hlive : text ∈ s.live) (p : Press) :
    Inv { s with
      signals := s.signals ++ [(text, p)]
      approved := if p = .approve then text :: s.approved else s.approved } := by
  have hgrow : ∀ k ∈ s.approved, k ∈ if p = .approve then text :: s.approved else s.approved :=
    fun k hk => mem_approved hk _ text
  refine ⟨h.live, h.showing, fun p' hp' => ?_, fun hd hal => hgrow _ (h.decided hd hal),
    fun hal => hgrow _ (h.latched hal), fun k hk => hgrow k (h.returned k hk)⟩
  rcases List.mem_append.mp hp' with hp' | hp'
  · exact ⟨(h.signals p' hp').1, fun hap => hgrow _ ((h.signals p' hp').2 hap)⟩
  · obtain rfl := List.mem_singleton.mp hp'
    refine ⟨hlive, fun hap => ?_⟩
    rw [if_pos hap]
    exact List.mem_cons_self

theorem Press.eq_approve {p : Press} (h : p.decision = .allow) : p = .approve := by
  cases p with
  | approve => rfl
  | deny => cases h
  | dismiss => cases h

/-- A signal of a notification on screen decides. -/
theorem Inv.dispatch (h : Inv s) {text : ℕ} {p : Press} (hsignal : (text, p) ∈ s.signals) :
    Inv ({ s with signals := s.signals.erase (text, p) }.decide p.decision) := by
  obtain ⟨hlive, happroved⟩ := h.signals _ hsignal
  refine Inv.decide (s := { s with signals := s.signals.erase (text, p) }) ?_ fun hal => ?_
  · exact ⟨h.live, h.showing, fun p' hp' => h.signals p' (List.mem_of_mem_erase hp'),
      h.decided, h.latched, h.returned⟩
  · -- what is on screen is the current request's
    exact h.live text hlive ▸ happroved (Press.eq_approve hal)

/-- The step lemma. -/
theorem Inv.step (h : Inv s) (hclear : Clear s a) (hs : step s a = some s') : Inv s' := by
  cases a with
  | begin =>
    dsimp only [NotifyPresence.step] at hs
    by_cases hbusy : s.busy = true
    · rw [if_pos hbusy] at hs
      cases hs
      exact h
    · rw [if_neg hbusy] at hs
      cases hs
      obtain ⟨hlive, hloop⟩ := hclear (Bool.eq_false_iff.mpr hbusy)
      exact h.begin hlive hloop
  | post =>
    dsimp only [NotifyPresence.step] at hs
    split_ifs at hs
    cases hs
    exact ⟨h.live, h.showing, h.signals, h.decided, fun hal => (by cases hal), h.returned⟩
  | poll cancelled late =>
    dsimp only [NotifyPresence.step] at hs
    by_cases hcaller : s.caller = .waiting
    · rw [if_pos hcaller] at hs
      rcases hout : pollAnswer (if s.decided then some s.decision else none) cancelled late with
        _ | out
      · rw [hout] at hs
        cases hs
        exact h
      · rw [hout] at hs
        cases hs
        exact h.latch hout
    · rw [if_neg hcaller] at hs
      cases hs
  | tearDown =>
    dsimp only [NotifyPresence.step] at hs
    split at hs
    · rename_i out hcaller
      cases hs
      exact ⟨h.live, h.showing, h.signals, h.decided, fun hal => h.latched (hcaller ▸ hal),
        h.returned⟩
    · cases hs
  | leave late =>
    dsimp only [NotifyPresence.step] at hs
    split at hs
    · rename_i out hcaller
      split_ifs at hs
      cases hs
      exact h.leave hcaller
    · cases hs
  | runSource =>
    dsimp only [NotifyPresence.step] at hs
    split at hs
    · cases hs
      refine ⟨h.live, fun text ht => ?_, h.signals, h.decided, h.latched, h.returned⟩
      split_ifs at ht
      · cases ht
      · exact (Option.some.inj ht).symm
    · cases hs
      exact ⟨h.live, fun text ht => (by cases ht), h.signals, h.decided, h.latched, h.returned⟩
    · cases hs
  | shown ok =>
    dsimp only [NotifyPresence.step] at hs
    split at hs
    · rename_i text hloop
      have htext : text = s.body := h.showing text (by rw [hloop]; rfl)
      cases ok
      · cases hs
        refine Inv.decide (s := { s with loop := .idle }) ?_ fun hal => (by cases hal)
        exact ⟨h.live, fun text ht => (by cases ht), h.signals, h.decided, h.latched, h.returned⟩
      · cases hs
        exact h.shown htext
    · cases hs
  | store =>
    dsimp only [NotifyPresence.step] at hs
    split at hs
    · cases hs
      exact ⟨h.live, fun text ht => (by cases ht), h.signals, h.decided, h.latched, h.returned⟩
    · cases hs
  | closed =>
    dsimp only [NotifyPresence.step] at hs
    split at hs
    · cases hs
      refine ⟨fun t ht => h.live t (List.mem_of_mem_filter ht), fun text ht => (by cases ht),
        fun p hp => ?_, h.decided, h.latched, h.returned⟩
      obtain ⟨hp, hne⟩ := List.mem_filter.mp hp
      exact ⟨List.mem_filter.mpr ⟨(h.signals p hp).1, hne⟩, (h.signals p hp).2⟩
    · cases hs
  | press text p =>
    dsimp only [NotifyPresence.step] at hs
    by_cases hlive : text ∈ s.live
    · rw [if_pos hlive] at hs
      cases hs
      exact h.press hlive p
    · rw [if_neg hlive] at hs
      cases hs
  | dispatch text p =>
    dsimp only [NotifyPresence.step] at hs
    by_cases hsignal : s.loop = .idle ∧ (text, p) ∈ s.signals
    · rw [if_pos hsignal] at hs
      cases hs
      exact h.dispatch hsignal.2
    · rw [if_neg hsignal] at hs
      cases hs

end NotifyPresence

/-! ### Answers and requests -/

/-- **An old prompt does not decide a new request**, of either kind, along every run in which
a request begins only when no panel or notification is on screen or on its way to it: a call
that returned Allow returned it for a prompt that the user has approved. -/
theorem allow_of_approved (as : List AlertPresence.Action) (s : AlertPresence)
    (bs : List NotifyPresence.Action) (t : NotifyPresence) :
    (Machine.Along AlertPresence.step AlertPresence.Clear {} as →
      Machine.run AlertPresence.step {} as = some s →
        ∀ k, (k, .allow) ∈ s.returned → k ∈ s.approved) ∧
    (Machine.Along NotifyPresence.step NotifyPresence.Clear {} bs →
      Machine.run NotifyPresence.step {} bs = some t →
        ∀ k, (k, .allow) ∈ t.returned → k ∈ t.approved) := by
  constructor
  · intro hclear hrun
    have hinv := Machine.run_induction (I := fun _ s => AlertPresence.Inv s) AlertPresence.inv_new
      (fun _ _ _ _ _ hc hs hi => hi.step hc hs) hclear hrun
    exact hinv.returned
  · intro hclear hrun
    have hinv := Machine.run_induction (I := fun _ s => NotifyPresence.Inv s) NotifyPresence.inv_new
      (fun _ _ _ _ _ hc hs hi => hi.step hc hs) hclear hrun
    exact hinv.returned

instance (s : AlertPresence) : (a : AlertPresence.Action) → Decidable (AlertPresence.Clear s a)
  | .begin => inferInstanceAs (Decidable (s.busy = false → ∀ f ∈ s.frames, f.shows = false))
  | .post | .poll _ _ | .tearDown | .stopWaiting _ | .leave | .runBlock | .click _ | .shutdown
  | .finishBlock => .isTrue trivial

instance (s : NotifyPresence) : (a : NotifyPresence.Action) → Decidable (NotifyPresence.Clear s a)
  | .begin => inferInstanceAs (Decidable (s.busy = false → s.live = [] ∧ s.loop.text? = none))
  | .post | .poll _ _ | .tearDown | .leave _ | .runSource | .shown _ | .store | .closed
  | .press _ _ | .dispatch _ _ => .isTrue trivial

/-- One request on macOS, approved. -/
def AlertPresence.oneRequest : List AlertPresence.Action :=
  [.begin, .post, .runBlock, .click true, .finishBlock, .poll false false, .leave]

/-- One request on Linux, approved and torn down. -/
def NotifyPresence.oneRequest : List NotifyPresence.Action :=
  [.begin, .post, .runSource, .shown true, .store, .press 1 .approve, .dispatch 1 .approve,
    .poll false false, .tearDown, .runSource, .closed, .leave false]

theorem allow_of_approved_oneRequest :
    (∃ s, Machine.run AlertPresence.step {} AlertPresence.oneRequest = some s ∧
      (1, .allow) ∈ s.returned ∧ 1 ∈ s.approved) ∧
    ∃ s, Machine.run NotifyPresence.step {} NotifyPresence.oneRequest = some s ∧
      (1, .allow) ∈ s.returned ∧ 1 ∈ s.approved := by
  constructor
  · have hclear : Machine.Along AlertPresence.step AlertPresence.Clear {}
        AlertPresence.oneRequest := by
      decide +kernel
    obtain ⟨s, hrun, hallow⟩ := Machine.exists_run_of_any AlertPresence.step {}
      AlertPresence.oneRequest (fun s => (1, .allow) ∈ s.returned) (by decide +kernel)
    exact ⟨s, hrun, hallow, (allow_of_approved _ s [] {}).1 hclear hrun 1 hallow⟩
  · have hclear : Machine.Along NotifyPresence.step NotifyPresence.Clear {}
        NotifyPresence.oneRequest := by
      decide +kernel
    obtain ⟨s, hrun, hallow⟩ := Machine.exists_run_of_any NotifyPresence.step {}
      NotifyPresence.oneRequest (fun s => (1, .allow) ∈ s.returned) (by decide +kernel)
    exact ⟨s, hrun, hallow, (allow_of_approved [] {} _ s).2 hclear hrun 1 hallow⟩

/-- On both systems there is a run in which the first request times out, the wait for its
teardown too, and the approval of its prompt then allows the second request. -/
theorem not_allow_of_approved :
    (∃ as s, Machine.run AlertPresence.step {} as = some s ∧ (2, .allow) ∈ s.returned ∧
      2 ∉ s.approved) ∧
    ∃ as s, Machine.run NotifyPresence.step {} as = some s ∧ (2, .allow) ∈ s.returned ∧
      2 ∉ s.approved := by
  constructor
  · exact ⟨_, Machine.exists_run_of_any AlertPresence.step {}
      [.begin, .post, .runBlock, .poll false true, .tearDown, .stopWaiting true, .leave, .begin,
        .post, .click true, .finishBlock, .poll false false, .leave]
      (fun s => (2, .allow) ∈ s.returned ∧ 2 ∉ s.approved) (by decide +kernel)⟩
  · exact ⟨_, Machine.exists_run_of_any NotifyPresence.step {}
      [.begin, .post, .runSource, .shown true, .store, .poll false true, .tearDown, .leave true,
        .begin, .post, .press 1 .approve, .dispatch 1 .approve, .poll false false, .tearDown,
        .leave true]
      (fun s => (2, .allow) ∈ s.returned ∧ 2 ∉ s.approved) (by decide +kernel)⟩

end Swpasskey
