import Swpasskey.Ctap.Enumeration
import Swpasskey.Daemon.Host

/-!
# The daemon

The two threads of the loop with the authenticator behind them, and the control thread that
calls the same authenticator. Every entry point takes the authenticator's lock for the whole
call, so a call is one action: `handle` is the handler of the worker, `control` a request of
the control socket. There is no process death.

An abstract server stands beside it: an authenticator that is asked one thing after the
other (`sequential`). The daemon implements it: whatever the interleaving of the three
threads, its calls can be put in one order, which is the order of their commands' admission,
such that the authenticator is in the state of that sequence of calls and hosts read the
responses of that sequence, in order, each with the channel and the command of its request.
-/

namespace Swpasskey

open HidFramer HidDevice

variable (D : Device)

/-! ### The abstract server -/

/-- One thing the authenticator is asked. -/
structure Invocation where
  /-- The message it came in; `none`: it came over the control socket. -/
  command : Option Message
  call : Call
  env : Env

/-- The entry point a message is for. -/
def Message.toCall (msg : Message) : Call :=
  if msg.cmd = kCmdCbor then .cbor msg.payload else .u2f msg.payload

namespace Server

/-- The state of an authenticator that was asked these things one after the other. -/
def after (w : World) (l : List Invocation) : World :=
  w.run D (l.map fun i => .call i.call i.env)

/-- The response to one of them, if it came in a message. -/
def response (w : World) (i : Invocation) : Option Message := do
  let msg ← i.command
  let p ← payload (answer D i.call (w.begin i.call i.env)).1
  return ⟨msg.cid, msg.cmd, p⟩

/-- Its responses, in order. -/
def sequential : World → List Invocation → List Message
  | _, [] => []
  | w, i :: l => (response D w i).toList ++ sequential (w.call D i.call i.env) l

variable {D} {w : World} {l : List Invocation} {i : Invocation}

theorem after_concat : after D w (l ++ [i]) = (after D w l).call D i.call i.env := by
  simp [after, World.run, Step.exec]

theorem sequential_concat :
    sequential D w (l ++ [i]) = sequential D w l ++ (response D (after D w l) i).toList := by
  induction l generalizing w with
  | nil => exact List.append_nil _
  | cons j l ih =>
    rw [List.cons_append, sequential, sequential, ih, List.append_assoc]
    rfl

end Server

/-! ### The daemon -/

/-- The daemon; `history` is what the authenticator was asked, in order, and no step reads
it. -/
structure Daemon where
  loop : Loop
  world : World
  history : List Invocation := []

/-- What the handler returns when a call ends so; `none`: it does not return, or the call was
not its. -/
def handlerResult : Outcome Refusal Answer → Option HandlerResult
  | .ok (.cbor r) => some (.cbor (.ok r.encode))
  | .err (.status s) => some (.cbor (.error s))
  | .ok (.u2f r) => some (.u2f r.encode)
  | .err (.sw w) => some (.u2f (respond [] w))
  | .ok .done | .died => none

theorem payload_of_handlerResult {o : Outcome Refusal Answer} {result : HandlerResult}
    (h : handlerResult o = some result) : payload o = some result.payload := by
  rcases o with ((_ | _) | _) | (_ | _) | _ <;> cases h <;> rfl

namespace Daemon

/-- One step of one of the three threads. -/
inductive Act
  /-- The HID thread, or the worker around its handler. -/
  | loop (a : Action)
  /-- The handler of the worker. -/
  | handle (e : Env)
  /-- The control thread. -/
  | control (c : Call) (e : Env)

/-- The calls of the control thread. -/
def FromSocket : Call → Bool
  | .ctlReset | .ctlSetPin _ | .ctlDelete _ => true
  | _ => false

/-- What the authenticator is left with after a call. -/
def called (s : Daemon) (loop : Loop) (i : Invocation) : Daemon where
  loop
  world := s.world.call D i.call i.env
  history := s.history ++ [i]

/-- What an act does, if it is enabled. -/
def step (s : Daemon) : Act → Option Daemon
  | .loop (.finish _) => none
  | .loop a => (s.loop.step a).map fun loop => { s with loop }
  | .handle e =>
    match s.loop.worker with
    | .working _ msg => do
      let result ← handlerResult (answer D msg.toCall (s.world.begin msg.toCall e)).1
      let loop ← s.loop.step (.finish result)
      return s.called D loop ⟨some msg, msg.toCall, e⟩
    | _ => none
  | .control c e =>
    if FromSocket c ∧ (answer D c (s.world.begin c e)).1 ≠ .died then
      some (s.called D s.loop ⟨none, c, e⟩)
    else none

/-- A daemon over an authenticator. -/
def new (w : World) : Daemon where
  loop := Loop.new D.u2fEnabled
  world := w

/-- Everything an act may do. -/
inductive Stepped (s : Daemon) : Daemon → Prop
  | loop (a : Action) (loop : Loop) (hnot : ∀ result, a ≠ .finish result)
      (h : s.loop.step a = some loop) : Stepped s { s with loop }
  | handle (n : ℕ) (msg : Message) (e : Env) (result : HandlerResult)
      (hworker : s.loop.worker = .working n msg)
      (h : payload (answer D msg.toCall (s.world.begin msg.toCall e)).1 = some result.payload) :
      Stepped s (s.called D
        { s.loop with worker := .publishing n ⟨msg.cid, msg.cmd, result.payload⟩ }
        ⟨some msg, msg.toCall, e⟩)
  | control (c : Call) (e : Env) : Stepped s (s.called D s.loop ⟨none, c, e⟩)

variable {D} {s s' : Daemon}

theorem step_stepped {a : Act} (h : step D s a = some s') : Stepped D s s' := by
  cases a with
  | loop a =>
    by_cases hfin : ∃ result, a = .finish result
    · obtain ⟨result, rfl⟩ := hfin
      cases h
    · have hnot : ∀ result, a ≠ .finish result := fun result heq => hfin ⟨result, heq⟩
      have hmap : (s.loop.step a).map (fun loop => { s with loop }) = some s' := by
        cases a <;> first | exact h | exact absurd rfl (hnot _)
      obtain ⟨loop, hloop, rfl⟩ := Option.map_eq_some_iff.mp hmap
      exact .loop a loop hnot hloop
  | handle e =>
    rw [step] at h
    split at h
    · rename_i n msg hworker
      obtain ⟨result, hresult, h⟩ := Option.bind_eq_some_iff.mp h
      obtain ⟨loop, hloop, h⟩ := Option.bind_eq_some_iff.mp h
      cases h
      rw [Loop.step, hworker] at hloop
      dsimp only at hloop
      split_ifs at hloop
      cases hloop
      exact .handle n msg e result hworker (payload_of_handlerResult hresult)
    · cases h
  | control c e =>
    rw [step] at h
    split_ifs at h
    cases h
    exact .control c e

/-! ### What holds of every state -/

/-- The response that waits for the lock. -/
def unpublished (s : Loop) : List Message :=
  match s.worker with
  | .publishing _ resp => [resp]
  | _ => []

/-- The daemon is where its history leads: so is the authenticator, and the responses,
published or not, are those of the history, which is about the commands admitted. -/
structure Follows (D : Device) (w : World) (s : Daemon) : Prop where
  world : s.world = Server.after D w s.history
  calls : ∀ i ∈ s.history, ∀ msg ∈ i.command, i.call = msg.toCall
  responses : Server.sequential D w s.history = s.loop.answers ++ unpublished s.loop
  commands : s.history.filterMap Invocation.command <+: s.loop.admitted
  length : (s.history.filterMap Invocation.command).length =
    (s.loop.answers ++ unpublished s.loop).length

variable {w : World}

theorem follows_new (w : World) : Follows D w (new D w) :=
  ⟨rfl, fun _ hi => absurd hi List.not_mem_nil, rfl, List.nil_prefix, rfl⟩

/-- A step of the loop that is not the handler's. -/
theorem Follows.loop (h : Follows D w s) {a : Action} {loop : Loop}
    (hnot : ∀ result, a ≠ .finish result) (hstep : s.loop.step a = some loop) :
    Follows D w { s with loop } := by
  have hsame : loop.answers ++ unpublished loop = s.loop.answers ++ unpublished s.loop ∧
      s.loop.admitted <+: loop.admitted := by
    rcases Loop.step_stepped hstep with ⟨p⟩ | ⟨now⟩ | ⟨now⟩ | ⟨r⟩ | ⟨r⟩ | ⟨msg, hworker⟩ |
      ⟨up⟩ | ⟨result⟩ | ⟨n, resp, hworker⟩
    · exact ⟨rfl, List.prefix_refl _⟩
    · unfold Loop.drained
      split_ifs
      · exact ⟨rfl, List.prefix_refl _⟩
      · exact ⟨rfl, List.prefix_refl _⟩
    · exact ⟨rfl, List.prefix_refl _⟩
    · exact ⟨rfl, List.prefix_refl _⟩
    · exact ⟨rfl, List.prefix_append _ _⟩
    · refine ⟨?_, List.prefix_refl _⟩
      rw [unpublished, unpublished, hworker]
    · exact ⟨rfl, List.prefix_refl _⟩
    · exact absurd rfl (hnot result)
    · -- what waited for the lock is published
      refine ⟨?_, List.prefix_refl _⟩
      rw [unpublished, unpublished, hworker]
      exact List.append_nil _
  obtain ⟨hanswers, hadmitted⟩ := hsame
  exact ⟨h.world, h.calls, h.responses.trans hanswers.symm, h.commands.trans hadmitted,
    h.length.trans (congrArg List.length hanswers.symm)⟩

/-- A call is one more thing the authenticator is asked. -/
theorem Follows.called (h : Follows D w s) (i : Invocation) (loop : Loop)
    (hcall : ∀ msg ∈ i.command, i.call = msg.toCall) :
    (s.called D loop i).world = Server.after D w (s.called D loop i).history ∧
      (∀ j ∈ (s.called D loop i).history, ∀ msg ∈ j.command, j.call = msg.toCall) ∧
      Server.sequential D w (s.called D loop i).history =
        s.loop.answers ++ unpublished s.loop ++ (Server.response D s.world i).toList := by
  refine ⟨?_, fun j hj => ?_, ?_⟩
  · rw [Daemon.called, Server.after_concat, ← h.world]
  · rcases List.mem_append.mp hj with hj | hj
    · exact h.calls j hj
    · exact List.mem_singleton.mp hj ▸ hcall
  · rw [Daemon.called, Server.sequential_concat, h.responses, ← h.world]

/-- The handler of the command in the slot. -/
theorem Follows.handle (h : Follows D w s) (hslot : s.loop.Slot) {n : ℕ} {msg : Message} {e : Env}
    {result : HandlerResult} (hworker : s.loop.worker = .working n msg)
    (hpay : payload (answer D msg.toCall (s.world.begin msg.toCall e)).1 = some result.payload) :
    Follows D w (s.called D
      { s.loop with worker := .publishing n ⟨msg.cid, msg.cmd, result.payload⟩ }
      ⟨some msg, msg.toCall, e⟩) := by
  have hnone : unpublished s.loop = [] := by rw [unpublished, hworker]
  obtain ⟨hworld, hcalls, hresponses⟩ := h.called ⟨some msg, msg.toCall, e⟩
    { s.loop with worker := .publishing n ⟨msg.cid, msg.cmd, result.payload⟩ }
    fun m hm => Option.some.inj hm ▸ rfl
  have hresponse : Server.response D s.world ⟨some msg, msg.toCall, e⟩ =
      some ⟨msg.cid, msg.cmd, result.payload⟩ := by
    rw [Server.response, hpay]
    rfl
  rw [hnone, List.append_nil, hresponse] at hresponses
  have hlen := h.length
  rw [hnone, List.append_nil] at hlen
  -- the command in the slot is the first that has not been answered
  obtain ⟨hcmd, -⟩ := hslot.working n msg hworker
  obtain ⟨-, -, hadmitted, -⟩ := hslot.busy msg hcmd
  refine ⟨hworld, hcalls, hresponses, ?_, ?_⟩
  · have htake := List.prefix_iff_eq_take.mp h.commands
    have hmore : (s.history ++ [(⟨some msg, msg.toCall, e⟩ : Invocation)]).filterMap
        Invocation.command = s.loop.admitted.take (s.loop.answers.length + 1) := by
      rw [List.filterMap_append, htake, hlen, List.take_add_one, hadmitted]
      rfl
    exact hmore ▸ List.take_prefix _ _
  · rw [Daemon.called, List.filterMap_append, List.length_append, hlen, List.length_append]
    rfl

/-- A call of the control thread. -/
theorem Follows.control (h : Follows D w s) (c : Call) (e : Env) :
    Follows D w (s.called D s.loop ⟨none, c, e⟩) := by
  obtain ⟨hworld, hcalls, hresponses⟩ := h.called ⟨none, c, e⟩ s.loop
    fun m hm => (Option.some_ne_none m hm.symm).elim
  have hsame : (s.called D s.loop ⟨none, c, e⟩).history.filterMap Invocation.command =
      s.history.filterMap Invocation.command := by
    rw [Daemon.called, List.filterMap_append]
    exact List.append_nil _
  refine ⟨hworld, hcalls, hresponses.trans (List.append_nil _), ?_, ?_⟩
  · rw [hsame]
    exact h.commands
  · rw [hsame]
    exact h.length

/-! ### One order of the calls -/

/-- Nothing is in flight, and nothing waits to be written. -/
structure Quiet (s : Daemon) : Prop where
  slot : s.loop.inflight.cmd = none
  batch : s.loop.batch = []
  outbox : s.loop.outbox = []

/-- The daemon is an authenticator that is asked one thing after the other. -/
structure Linearized (D : Device) (w : World) (s : Daemon) (history : List Invocation) : Prop where
  /-- The authenticator is where the history leads. -/
  world : s.world = Server.after D w history
  /-- Each command is put to its entry point. -/
  calls : ∀ i ∈ history, ∀ msg ∈ i.command, i.call = msg.toCall
  /-- The commands of the history are those admitted, in the order of their admission. -/
  commands : history.filterMap Invocation.command <+: s.loop.admitted
  /-- What hosts have read of responses are the responses of the history, in order. -/
  reads : (Host.messages (s.loop.written.map Packet.report)).filter ForWorker <+:
    (Server.sequential D w history).filter Host.Fits
  /-- When nothing is under way, every command admitted is in the history, and all its responses
  have been read. -/
  settled : Quiet s → history.filterMap Invocation.command = s.loop.admitted ∧
    (Host.messages (s.loop.written.map Packet.report)).filter ForWorker =
      (Server.sequential D w history).filter Host.Fits

/-- The invariant of the daemon. -/
structure Sound (D : Device) (w : World) (s : Daemon) : Prop where
  slot : s.loop.Slot
  commands : s.loop.Commands
  speaks : ∃ sent queued, s.loop.Speaks sent queued
  follows : Follows D w s

theorem sound_new (w : World) : Sound D w (new D w) where
  slot := Loop.slot_new _
  commands := fun _ hm => absurd hm List.not_mem_nil
  speaks := ⟨[], [], rfl, rfl, fun _ hm => absurd hm List.not_mem_nil, rfl⟩
  follows := follows_new w

theorem Sound.step (h : Sound D w s) {a : Act} (hstep : step D s a = some s') : Sound D w s' := by
  obtain ⟨sent, queued, hspeaks⟩ := h.speaks
  rcases step_stepped hstep with ⟨a, loop, hnot, hloop⟩ | ⟨n, msg, e, result, hworker, hpay⟩ |
    ⟨c, e⟩
  · exact ⟨h.slot.step hloop, h.commands.step hloop, hspeaks.step h.slot h.commands hloop,
      h.follows.loop hnot hloop⟩
  · have hslot : Loop.Slot { s.loop with
        worker := .publishing n ⟨msg.cid, msg.cmd, result.payload⟩ } := by
      obtain ⟨hcmd, hn⟩ := h.slot.working n msg hworker
      refine ⟨fun hnone => ?_, h.slot.busy, fun _ _ hw => (by cases hw), ?_, h.slot.answered⟩
      · cases hcmd.symm.trans hnone
      · rintro _ _ ⟨⟩
        exact ⟨msg, hcmd, hn, rfl, rfl⟩
    exact ⟨hslot, h.commands, ⟨sent, queued, hspeaks.written, hspeaks.outbox, hspeaks.cmd,
      hspeaks.answers⟩, h.follows.handle h.slot hworker hpay⟩
  · exact ⟨h.slot, h.commands, h.speaks, h.follows.control c e⟩

theorem Sound.linearized (h : Sound D w s) : Linearized D w s s.history := by
  obtain ⟨sent, queued, hspeaks⟩ := h.speaks
  obtain ⟨hreads, hall⟩ := hspeaks.messages
  refine ⟨h.follows.world, h.follows.calls, h.follows.commands, ?_, fun hquiet => ?_⟩
  · rw [h.follows.responses, List.filter_append]
    exact hreads.trans (List.prefix_append _ _)
  · obtain ⟨hwaiting, hlen⟩ := h.slot.free hquiet.slot
    have hnone : unpublished s.loop = [] := by rw [unpublished, hwaiting]
    refine ⟨h.follows.commands.eq_of_length ?_, ?_⟩
    · rw [h.follows.length, hnone, List.append_nil, hlen]
    · rw [h.follows.responses, hnone, List.append_nil]
      exact hall hquiet.batch hquiet.outbox

/-- A getInfo arrives, and before its handler gets the lock the control thread resets the
authenticator. -/
def getInfoAndReset : List Act :=
  (Loop.opening 1 ++ Loop.getInfo 1 ++ [Action.take]).map Act.loop ++
    [.control .ctlReset (.calm 1), .handle (.calm 2)] ++
    ([.publish, .drain 0, .write] : List Action).map Act.loop

end Daemon

end Swpasskey
