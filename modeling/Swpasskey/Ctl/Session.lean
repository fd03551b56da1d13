import Swpasskey.Lib.Machine
import Swpasskey.Ctl.CommandLines

/-!
# A session on the control socket

`request` on one end of a stream and `UnixServer::run` on the other, with everybody else at the
authenticator in between. Each end writes and reads as many bytes as it happens to, and may give
up at any time. Yet the command of the tool happens at most once and as a whole, in one of the
moments of the session, and an exit code of 0 says that it succeeded (`session_atomic`).
-/

namespace Swpasskey

open Proc Server Cli

namespace Ctl

/-! ### The two ends -/

/-- `request`: what it has left to write, what it has read of the reply, and its result. -/
inductive ClientPhase
  | writing (msg : Bytes)
  | reading (reply : Bytes)
  | done (result : Except Status Bytes)
  deriving DecidableEq

/-- `UnixServer::run` with a connection: what it has read, the line it handles, and what it has
left to write. -/
inductive ServerPhase
  | reading (line : Bytes)
  | handling (line : Bytes)
  | writing (reply : Bytes)
  | closed

/-- The line up to its newline, if it has one. -/
def upToNewline (l : Bytes) : Bytes := l.takeWhile (· ≠ 0x0A)

/-- The bound of `UnixServer::run` on a line. -/
def kMaxLine : ℕ := 65536

namespace ClientPhase

/-- `write` has taken `n` bytes. -/
def wrote (msg : Bytes) (n : ℕ) : ClientPhase :=
  if n = msg.length then reading [] else writing (msg.drop n)

/-- `read` has given so much by now. -/
def received (reply : Bytes) : ClientPhase :=
  if 0x0A ∈ reply then done (.ok (upToNewline reply)) else reading reply

end ClientPhase

namespace ServerPhase

/-- `read` has given so much by now. -/
def received (line : Bytes) : ServerPhase :=
  if 0x0A ∈ line ∨ kMaxLine ≤ line.length then handling (upToNewline line) else reading line

/-- `write` has taken `n` bytes. -/
def wrote (reply : Bytes) (n : ℕ) : ServerPhase :=
  if n = reply.length then closed else writing (reply.drop n)

end ServerPhase

/-- A connection: its ends, what is on the way in both directions, and the authenticator. -/
structure Session where
  world : World
  client : ClientPhase
  server : ServerPhase
  request : Bytes := []
  reply : Bytes := []

/-- The tool has connected. -/
def Session.start (w : World) (line : Bytes) : Session where
  world := w
  client := .writing (line ++ [0x0A])
  server := .reading []

/-- What may happen next. -/
inductive Action
  | clientWrite (n : ℕ)
  | clientWriteFails
  | clientRead (n : ℕ)
  /-- `poll` runs out of time, or `read` fails or finds the end. -/
  | clientStops
  | serverRead (n : ℕ)
  | serverStops
  | handle (env : Env)
  | serverWrite (n : ℕ)
  | serverWriteFails
  /-- Somebody else at the authenticator. -/
  | other (s : Step)
  /-- The daemon is killed and started again. -/
  | killed (env : Env)

variable (D : Device) (deps : ServerDeps)

/-- The request is handled. The environment is that of the operation alone. -/
def Session.handle (s : Session) (line : Bytes) (env : Env) : Session :=
  match handleRequest D deps line (s.world.withEnv env) with
  | (.ok r, w) =>
    { s with world := w.withEnv s.world.env, server := .writing (r ++ [0x0A]) }
  | (.err _, w) => { s with world := w.withEnv s.world.env, server := .closed }
  | (.died, w) => { s with world := w.restart.withEnv s.world.env, server := .closed }

/-- What happens to the session. -/
def Session.step (s : Session) : Action → Option Session
  | .clientWrite n =>
    match s.client with
    | .writing msg =>
      if 0 < n ∧ n ≤ msg.length then
        some { s with client := .wrote msg n, request := s.request ++ msg.take n }
      else none
    | _ => none
  | .clientWriteFails =>
    match s.client with
    | .writing _ => some { s with client := .done (.error .other) }
    | _ => none
  | .clientRead n =>
    match s.client with
    | .reading r =>
      if 0 < n ∧ n ≤ min 4096 s.reply.length then
        some { s with client := .received (r ++ s.reply.take n), reply := s.reply.drop n }
      else none
    | _ => none
  | .clientStops =>
    match s.client with
    | .reading r => some { s with client := .done (.ok (upToNewline r)) }
    | _ => none
  | .serverRead n =>
    match s.server with
    | .reading l =>
      if 0 < n ∧ n ≤ min 512 s.request.length then
        some { s with server := .received (l ++ s.request.take n), request := s.request.drop n }
      else none
    | _ => none
  | .serverStops =>
    match s.server with
    | .reading l => some { s with server := .handling (upToNewline l) }
    | _ => none
  | .handle env =>
    match s.server with
    | .handling l => some (s.handle D deps l env)
    | _ => none
  | .serverWrite n =>
    match s.server with
    | .writing r =>
      if 0 < n ∧ n ≤ r.length then
        some { s with server := .wrote r n, reply := s.reply ++ r.take n }
      else none
    | _ => none
  | .serverWriteFails =>
    match s.server with
    | .writing _ => some { s with server := .closed }
    | _ => none
  | .other st => some { s with world := st.exec D s.world }
  | .killed env => some { s with world := (Step.restart env).exec D s.world, server := .closed }

/-- Everything a step may do. -/
inductive Stepped (s : Session) : Action → Session → Prop
  | clientWrite (n : ℕ) (msg : Bytes) (hclient : s.client = .writing msg)
      (hn : 0 < n ∧ n ≤ msg.length) : Stepped s (.clientWrite n)
        { s with client := .wrote msg n, request := s.request ++ msg.take n }
  | clientWriteFails (msg : Bytes) (hclient : s.client = .writing msg) :
      Stepped s .clientWriteFails { s with client := .done (.error .other) }
  | clientRead (n : ℕ) (r : Bytes) (hclient : s.client = .reading r)
      (hn : 0 < n ∧ n ≤ min 4096 s.reply.length) : Stepped s (.clientRead n)
        { s with client := .received (r ++ s.reply.take n), reply := s.reply.drop n }
  | clientStops (r : Bytes) (hclient : s.client = .reading r) :
      Stepped s .clientStops { s with client := .done (.ok (upToNewline r)) }
  | serverRead (n : ℕ) (l : Bytes) (hserver : s.server = .reading l)
      (hn : 0 < n ∧ n ≤ min 512 s.request.length) : Stepped s (.serverRead n)
        { s with server := .received (l ++ s.request.take n), request := s.request.drop n }
  | serverStops (l : Bytes) (hserver : s.server = .reading l) :
      Stepped s .serverStops { s with server := .handling (upToNewline l) }
  | handle (env : Env) (l : Bytes) (hserver : s.server = .handling l) :
      Stepped s (.handle env) (s.handle D deps l env)
  | serverWrite (n : ℕ) (r : Bytes) (hserver : s.server = .writing r)
      (hn : 0 < n ∧ n ≤ r.length) : Stepped s (.serverWrite n)
        { s with server := .wrote r n, reply := s.reply ++ r.take n }
  | serverWriteFails (r : Bytes) (hserver : s.server = .writing r) :
      Stepped s .serverWriteFails { s with server := .closed }
  | other (st : Step) : Stepped s (.other st) { s with world := st.exec D s.world }
  | killed (env : Env) : Stepped s (.killed env)
      { s with world := (Step.restart env).exec D s.world, server := .closed }

variable {D deps} in
theorem step_stepped {s s' : Session} {a : Action} (h : s.step D deps a = some s') :
    Stepped D deps s a s' := by
  cases a with
  | clientWrite n =>
    rw [Session.step] at h
    split at h
    next msg hclient =>
      split_ifs at h with hn
      cases h
      exact .clientWrite n msg hclient hn
    next => cases h
  | clientWriteFails =>
    rw [Session.step] at h
    split at h
    next msg hclient =>
      cases h
      exact .clientWriteFails msg hclient
    next => cases h
  | clientRead n =>
    rw [Session.step] at h
    split at h
    next r hclient =>
      split_ifs at h with hn
      cases h
      exact .clientRead n r hclient hn
    next => cases h
  | clientStops =>
    rw [Session.step] at h
    split at h
    next r hclient =>
      cases h
      exact .clientStops r hclient
    next => cases h
  | serverRead n =>
    rw [Session.step] at h
    split at h
    next l hserver =>
      split_ifs at h with hn
      cases h
      exact .serverRead n l hserver hn
    next => cases h
  | serverStops =>
    rw [Session.step] at h
    split at h
    next l hserver =>
      cases h
      exact .serverStops l hserver
    next => cases h
  | handle env =>
    rw [Session.step] at h
    split at h
    next l hserver =>
      cases h
      exact .handle env l hserver
    next => cases h
  | serverWrite n =>
    rw [Session.step] at h
    split at h
    next r hserver =>
      split_ifs at h with hn
      cases h
      exact .serverWrite n r hserver hn
    next => cases h
  | serverWriteFails =>
    rw [Session.step] at h
    split at h
    next r hserver =>
      cases h
      exact .serverWriteFails r hserver
    next => cases h
  | other st =>
    cases h
    exact .other st
  | killed env =>
    cases h
    exact .killed env

/-! ### The command as one step -/

/-- The authenticator, and how the command ended each time it was tried. -/
structure Ledger where
  world : World
  results : List Bool := []

/-- What happens at the authenticator. -/
inductive Effect
  | other (s : Step)
  | command (env : Env)

/-- The command happens at one moment. -/
def Ledger.exec (c : Command) (l : Ledger) : Effect → Ledger
  | .other s => { l with world := s.exec D l.world }
  | .command env =>
    match c.operation D deps (l.world.withEnv env) with
    | (.ok _, w) => ⟨w.withEnv l.world.env, l.results ++ [true]⟩
    | (.err _, w) => ⟨w.withEnv l.world.env, l.results ++ [false]⟩
    | (.died, w) => ⟨w.restart.withEnv l.world.env, l.results ++ [false]⟩

/-- A history at the authenticator. -/
def Ledger.run (c : Command) (l : Ledger) (es : List Effect) : Ledger :=
  es.foldl (Ledger.exec D deps c) l

/-- What the others do. -/
def Effect.step : Effect → Option Step
  | other s => some s
  | command _ => none

def Action.step : Action → Option Step
  | other s => some s
  | killed env => some (.restart env)
  | _ => none

/-- What a step does at the authenticator: the request is the command, or it is rejected. -/
def Action.effects (c : Command) (s : Session) : Action → List Effect
  | handle env =>
    match s.server with
    | .handling l => if l = c.line then [.command env] else []
    | _ => []
  | other st => [.other st]
  | killed env => [.other (.restart env)]
  | _ => []

theorem Action.effects_steps (c : Command) (s : Session) (a : Action) :
    (a.effects c s).filterMap Effect.step = a.step.toList := by
  cases a with
  | handle env =>
    rw [effects]
    split
    · split_ifs <;> rfl
    · rfl
  | _ => rfl

/-- Something goes wrong that does not come from the command. -/
def Action.Fails : Action → Prop
  | clientWriteFails | clientStops | serverStops | serverWriteFails | killed _ => True
  | _ => False

/-! ### What the ends hold -/

namespace ClientPhase

/-- What it has left to write. -/
def left : ClientPhase → Bytes
  | writing msg => msg
  | _ => []

/-- What it has of the reply. -/
def got : ClientPhase → Bytes
  | reading reply => reply
  | done (.ok reply) => reply
  | _ => []

def isDone : ClientPhase → Bool
  | done _ => true
  | _ => false

theorem wrote_spec (msg : Bytes) (n : ℕ) : (wrote msg n).left = msg.drop n ∧
    (wrote msg n).got = [] ∧ (wrote msg n).isDone = false := by
  rw [wrote]
  split_ifs with h
  · exact ⟨by rw [h, List.drop_length]; rfl, rfl, rfl⟩
  · exact ⟨rfl, rfl, rfl⟩

theorem received_spec (reply : Bytes) : (received reply).left = [] ∧
    (received reply).got <+: reply ∧
    ((received reply).isDone = false → (received reply).got = reply) := by
  rw [received]
  split_ifs
  · exact ⟨rfl, List.takeWhile_prefix _, nofun⟩
  · exact ⟨rfl, List.prefix_refl _, fun _ => rfl⟩

end ClientPhase

namespace ServerPhase

/-- What it has left to write. -/
def left : ServerPhase → Bytes
  | writing reply => reply
  | _ => []

/-- The request has not been handled. -/
def isOpen : ServerPhase → Bool
  | reading _ => true
  | handling _ => true
  | _ => false

theorem wrote_spec (reply : Bytes) (n : ℕ) :
    (wrote reply n).left = reply.drop n ∧ (wrote reply n).isOpen = false := by
  rw [wrote]
  split_ifs with h
  · exact ⟨by rw [h, List.drop_length]; rfl, rfl⟩
  · exact ⟨rfl, rfl⟩

end ServerPhase

section Lines

variable {l x : Bytes}

theorem upToNewline_isPrefix (l : Bytes) : upToNewline l <+: l := List.takeWhile_prefix _

theorem newline_notMem_upToNewline (l : Bytes) : (0x0A : UInt8) ∉ upToNewline l := fun h => by
  simpa using List.mem_takeWhile_imp h

/-- Up to its newline, what has come of a line is the line or less. -/
theorem upToNewline_of_isPrefix (h : l <+: x ++ [0x0A]) : upToNewline l <+: x := by
  have hcut := (upToNewline_isPrefix l).trans h
  refine (List.prefix_concat_iff.mp hcut).resolve_left fun heq => ?_
  exact newline_notMem_upToNewline l (heq ▸ by simp)

/-- A line that has come with its newline is the line. -/
theorem upToNewline_of_mem (h : l <+: x ++ [0x0A]) (hx : (0x0A : UInt8) ∉ x)
    (hl : (0x0A : UInt8) ∈ l) : upToNewline l = x := by
  obtain rfl : l = x ++ [0x0A] :=
    (List.prefix_concat_iff.mp h).resolve_right fun hshort => hx (hshort.subset hl)
  rw [upToNewline, List.takeWhile_append_of_pos fun b hb => by
    simpa using ne_of_mem_of_not_mem hb hx]
  simp

end Lines

/-! ### Every session -/

/-- What holds of a session with the command `c` at every moment. -/
structure Linked (c : Command) (s : Session) (l : Ledger) : Prop where
  world : s.world = l.world
  once : l.results.length ≤ 1
  request : ∀ x, s.server = .reading x → x ++ (s.request ++ s.client.left) <+: c.line ++ [0x0A]
  line : ∀ x, s.server = .handling x → x <+: c.line
  /-- Before the request is handled, there is no reply. -/
  unhandled : s.server.isOpen = true → l.results = [] ∧ s.client.got = [] ∧ s.reply = []
  /-- What the tool has is a part of a reply that tells the truth. -/
  reply : ∃ r, (SaysOk r → l.results = [true]) ∧ s.client.got <+: r ++ [0x0A] ∧
    (s.client.isDone = false → s.client.got ++ (s.reply ++ s.server.left) <+: r ++ [0x0A])

section Sessions

variable {D deps} {c : Command} {s s' : Session} {l : Ledger} {a : Action}

theorem linked_start (w : World) (c : Command) : Linked c (.start w c.line) ⟨w, []⟩ where
  world := rfl
  once := Nat.zero_le 1
  request x hx := by
    obtain rfl := ServerPhase.reading.inj hx
    exact List.prefix_refl _
  line x hx := nomatch hx
  unhandled _ := ⟨rfl, rfl, rfl⟩
  reply := ⟨[], fun h => absurd h (by rw [SaysOk]; decide), List.nil_prefix, fun _ =>
    List.nil_prefix⟩

/-- The client writes, reads, or gives up. -/
theorem Linked.client (h : Linked c s l) {p : ClientPhase} {u v : Bytes}
    (hclient : s.client.isDone = false) (hreq : u ++ p.left <+: s.request ++ s.client.left)
    (hgot : p.got <+: s.client.got ++ s.reply) (hrep : v <:+ s.reply)
    (hdone : p.isDone = false → p.got ++ v = s.client.got ++ s.reply) :
    Linked c { s with client := p, request := u, reply := v } l where
  world := h.world
  once := h.once
  request x hx := ((List.prefix_append_right_inj x).mpr hreq).trans (h.request x hx)
  line := h.line
  unhandled hopen := by
    obtain ⟨hresults, hnone, hempty⟩ := h.unhandled hopen
    rw [hnone, hempty] at hgot
    rw [hempty] at hrep
    exact ⟨hresults, List.prefix_nil.mp hgot, List.suffix_nil.mp hrep⟩
  reply := by
    obtain ⟨r, hr, -, hpart⟩ := h.reply
    have hall := hpart hclient
    rw [← List.append_assoc] at hall
    refine ⟨r, hr, hgot.trans ((List.prefix_append _ _).trans hall), fun hp => ?_⟩
    rwa [← List.append_assoc, hdone hp]

/-- The server has read more, or stops reading. -/
theorem Linked.read (h : Linked c s l) {x y u : Bytes} {p : ServerPhase}
    (hserver : s.server = .reading x) (hy : y ++ u = x ++ s.request)
    (hp : p = .reading y ∨ p = .handling (upToNewline y)) :
    Linked c { s with server := p, request := u } l := by
  have hopen : s.server.isOpen = true := by rw [hserver]; rfl
  obtain ⟨hresults, hgot, hempty⟩ := h.unhandled hopen
  have hall : y ++ (u ++ s.client.left) <+: c.line ++ [0x0A] := by
    rw [← List.append_assoc, hy, List.append_assoc]
    exact h.request x hserver
  have hreply : ∃ r, (SaysOk r → l.results = [true]) ∧ s.client.got <+: r ++ [0x0A] ∧
      (s.client.isDone = false → s.client.got ++ (s.reply ++ p.left) <+: r ++ [0x0A]) := by
    obtain ⟨r, hr, hpart, -⟩ := h.reply
    refine ⟨r, hr, hpart, fun _ => ?_⟩
    have hleft : p.left = [] := by rcases hp with rfl | rfl <;> rfl
    rw [hgot, hempty, hleft]
    exact List.nil_prefix
  refine ⟨h.world, h.once, fun z hz => ?_, fun z hz => ?_, fun _ => ⟨hresults, hgot, hempty⟩,
    hreply⟩
  · rcases hp with rfl | rfl
    · obtain rfl := ServerPhase.reading.inj hz
      exact hall
    · cases hz
  · rcases hp with rfl | rfl
    · cases hz
    · obtain rfl := ServerPhase.handling.inj hz
      exact upToNewline_of_isPrefix ((List.prefix_append _ _).trans hall)

/-- The server writes, or gives up. -/
theorem Linked.write (h : Linked c s l) {p : ServerPhase} {v : Bytes} (hp : p.isOpen = false)
    (hrep : v ++ p.left <+: s.reply ++ s.server.left) :
    Linked c { s with server := p, reply := v } l where
  world := h.world
  once := h.once
  request x hx := by
    rw [show p = .reading x from hx] at hp
    cases hp
  line x hx := by
    rw [show p = .handling x from hx] at hp
    cases hp
  unhandled hopen := by
    rw [show p.isOpen = true from hopen] at hp
    cases hp
  reply := by
    obtain ⟨r, hr, hgot, hpart⟩ := h.reply
    exact ⟨r, hr, hgot, fun hdone =>
      ((List.prefix_append_right_inj _).mpr hrep).trans (hpart hdone)⟩

/-- Somebody else is at the authenticator. -/
theorem Linked.other (h : Linked c s l) (st : Step) :
    Linked c { s with world := st.exec D s.world } (l.run D deps c [.other st]) where
  world := congrArg (st.exec D) h.world
  once := h.once
  request := h.request
  line := h.line
  unhandled := h.unhandled
  reply := h.reply

/-- The server is closed. -/
theorem Linked.closed (h : Linked c s l) : Linked c { s with server := .closed } l where
  world := h.world
  once := h.once
  request x hx := nomatch hx
  line x hx := nomatch hx
  unhandled hopen := nomatch hopen
  reply := by
    obtain ⟨r, hr, hgot, hpart⟩ := h.reply
    refine ⟨r, hr, hgot, fun hdone => ?_⟩
    refine ((List.prefix_append_right_inj _).mpr ?_).trans (hpart hdone)
    exact (List.append_nil s.reply).symm ▸ List.prefix_append _ _

/-- The line of the command is handled at one moment, and the reply reports how it ended, unless
the daemon dies. -/
theorem handle_line (hstats : deps.Prints) (hworld : s.world = l.world) (env : Env) :
    ∃ w b, l.exec D deps c (.command env) = ⟨w, l.results ++ [b]⟩ ∧
      ((∃ r, Reports r (b = true) ∧
        s.handle D deps c.line env = { s with world := w, server := .writing (r ++ [0x0A]) }) ∨
      s.handle D deps c.line env = { s with world := w, server := .closed }) := by
  have hserves : Serves D deps c.line (c.operation D deps) (s.world.withEnv env) :=
    serves_line hstats c
  rw [Ledger.exec, Session.handle, ← hworld]
  rcases hop : c.operation D deps (s.world.withEnv env) with ⟨u | st | _, w⟩
  · obtain ⟨r, hr, hreport⟩ := hserves.ok hop
    rw [hr]
    exact ⟨_, true, rfl, .inl ⟨r, ⟨hreport.1, by simp [hreport.2]⟩, rfl⟩⟩
  · obtain ⟨r, hr, hreport⟩ := hserves.err hop
    rw [hr]
    exact ⟨_, false, rfl, .inl ⟨r, ⟨hreport.1, by simp [hreport.2]⟩, rfl⟩⟩
  · rw [hserves.died hop]
    exact ⟨_, false, rfl, .inr rfl⟩

/-- The server has handled the request and will write this. -/
theorem Linked.handled (h : Linked c s l) (hopen : s.server.isOpen = true) (l' : Ledger)
    (p : ServerPhase) (r : Bytes) (hp : p.isOpen = false) (hleft : p.left <+: r ++ [0x0A])
    (hr : SaysOk r → l'.results = [true]) (honce : l'.results.length ≤ 1) :
    Linked c { s with world := l'.world, server := p } l' where
  world := rfl
  once := honce
  request x hx := by
    rw [show p = .reading x from hx] at hp
    cases hp
  line x hx := by
    rw [show p = .handling x from hx] at hp
    cases hp
  unhandled hopen' := by
    rw [show p.isOpen = true from hopen'] at hp
    cases hp
  reply := by
    obtain ⟨-, hgot, hempty⟩ := h.unhandled hopen
    refine ⟨r, hr, ?_, fun _ => ?_⟩
    · rw [hgot]
      exact List.nil_prefix
    · rwa [hgot, hempty]

/-- **The request is handled**: as a whole, or not at all. -/
theorem Linked.handle (hstats : deps.Prints) (h : Linked c s l) {x : Bytes}
    (hserver : s.server = .handling x) (env : Env) :
    Linked c (s.handle D deps x env)
      (l.run D deps c (if x = c.line then [.command env] else [])) := by
  have hopen : s.server.isOpen = true := by rw [hserver]; rfl
  have hresults := (h.unhandled hopen).1
  by_cases hx : x = c.line
  · obtain ⟨w, b, hexec, hend⟩ := handle_line (D := D) hstats h.world env (c := c)
    rw [hresults, List.nil_append] at hexec
    rw [hx, if_pos rfl, Ledger.run, List.foldl_cons, List.foldl_nil, hexec]
    rcases hend with ⟨r, hreport, hend⟩ | hend <;> rw [hend]
    · refine h.handled hopen ⟨w, [b]⟩ (.writing _) r rfl (List.prefix_refl _) (fun hsays => ?_)
        (Nat.le_refl 1)
      rw [hreport.saysOk_iff.mp hsays]
    · have hno : ¬ SaysOk [] := by
        rw [SaysOk]
        decide
      exact h.handled hopen ⟨w, [b]⟩ .closed [] rfl List.nil_prefix
        (fun hsays => absurd hsays hno) (Nat.le_refl 1)
  · obtain ⟨r, hr, hreport⟩ : ∃ r, handleRequest D deps x (s.world.withEnv env) =
        (.ok r, s.world.withEnv env) ∧ Reports r False :=
      handleRequest_of_isPrefix (h.line x hserver) hx
    rw [if_neg hx, Session.handle, hr]
    have hdone := h.handled hopen l (.writing (r ++ [0x0A])) r rfl (List.prefix_refl _)
      (fun hsays => (hreport.saysOk_iff.mp hsays).elim) h.once
    rw [← h.world] at hdone
    exact hdone

theorem Linked.step (hstats : deps.Prints) (h : Linked c s l)
    (hstep : Stepped D deps s a s') : Linked c s' (l.run D deps c (a.effects c s)) := by
  cases hstep with
  | clientWrite n msg hclient hn =>
    obtain ⟨hleft, hgot, hdone⟩ := ClientPhase.wrote_spec msg n
    have hold : s.client.left = msg ∧ s.client.got = [] ∧ s.client.isDone = false := by
      rw [hclient]
      exact ⟨rfl, rfl, rfl⟩
    refine h.client hold.2.2 ?_ ?_ (List.suffix_refl _) fun _ => ?_
    · rw [hleft, hold.1, List.append_assoc, List.take_append_drop]
    · rw [hgot]
      exact List.nil_prefix
    · rw [hgot, hold.2.1]
  | clientWriteFails msg hclient =>
    have hold : s.client.isDone = false := by rw [hclient]; rfl
    refine h.client hold ?_ List.nil_prefix (List.suffix_refl _) nofun
    exact (List.append_nil s.request).symm ▸ List.prefix_append _ _
  | clientRead n r hclient hn =>
    have hold : s.client.left = [] ∧ s.client.got = r ∧ s.client.isDone = false := by
      rw [hclient]
      exact ⟨rfl, rfl, rfl⟩
    have hsplit : r ++ s.reply.take n ++ s.reply.drop n = r ++ s.reply := by
      rw [List.append_assoc, List.take_append_drop]
    obtain ⟨hleft, hgot, hdone⟩ := ClientPhase.received_spec (r ++ s.reply.take n)
    refine h.client hold.2.2 ?_ ?_ (List.drop_suffix _ _) fun hopen => ?_
    · rw [hleft, hold.1]
    · rw [hold.2.1, ← hsplit]
      exact hgot.trans (List.prefix_append _ _)
    · rw [hdone hopen, hold.2.1, hsplit]
  | clientStops r hclient =>
    have hold : s.client.got = r ∧ s.client.isDone = false := by
      rw [hclient]
      exact ⟨rfl, rfl⟩
    refine h.client hold.2 ?_ ?_ (List.suffix_refl _) nofun
    · exact (List.append_nil s.request).symm ▸ List.prefix_append _ _
    · rw [hold.1]
      exact (upToNewline_isPrefix r).trans (List.prefix_append _ _)
  | serverRead n x hserver hn =>
    have hsplit : x ++ s.request.take n ++ s.request.drop n = x ++ s.request := by
      rw [List.append_assoc, List.take_append_drop]
    refine h.read hserver hsplit ?_
    rw [ServerPhase.received]
    split_ifs
    · exact .inr rfl
    · exact .inl rfl
  | serverStops x hserver => exact h.read hserver rfl (.inr rfl)
  | handle env x hserver =>
    rw [Action.effects, hserver]
    exact h.handle hstats hserver env
  | serverWrite n r hserver hn =>
    obtain ⟨hleft, hopen⟩ := ServerPhase.wrote_spec r n
    refine h.write hopen ?_
    rw [hleft, hserver, List.append_assoc, List.take_append_drop]
    exact List.prefix_refl _
  | serverWriteFails r hserver => exact h.closed
  | other st => exact h.other st
  | killed env =>
    have hrestart : Linked c { s with world := (Step.restart env).exec D s.world }
        (l.run D deps c [.other (.restart env)]) := h.other (.restart env)
    exact hrestart.closed

/-! ### Sessions in which nothing fails -/

/-- What holds at every moment when so far nothing has failed. -/
structure Exact (c : Command) (s : Session) (l : Ledger) : Prop where
  request : ∀ x, s.server = .reading x → (0x0A : UInt8) ∉ x ∧
    x ++ (s.request ++ s.client.left) = c.line ++ [0x0A]
  line : ∀ x, s.server = .handling x → x = c.line
  waiting : s.server.isOpen = true → s.client.isDone = false
  /-- The request is handled; then the reply is on its way, or the daemon died. -/
  reply : s.server.isOpen = false → ∃ b, l.results = [b] ∧
    ((∃ r, Reports r (b = true) ∧ (s.client.isDone = false →
        s.client.got ++ (s.reply ++ s.server.left) = r ++ [0x0A]) ∧
      ∀ x, s.client = .done x → x = .ok r) ∨
    (s.server = .closed ∧ s.reply = [] ∧ s.client.isDone = false))

theorem exact_start (w : World) (c : Command) : Exact c (.start w c.line) ⟨w, []⟩ where
  request x hx := by
    obtain rfl := ServerPhase.reading.inj hx
    exact ⟨List.not_mem_nil, rfl⟩
  line x hx := nomatch hx
  waiting _ := rfl
  reply hopen := nomatch hopen

/-- The line fits into the bound of the server, and is one line. -/
structure Fits (line : Bytes) : Prop where
  length : line.length < kMaxLine
  newline_notMem : (0x0A : UInt8) ∉ line

theorem Exact.clientWrite (h : Exact c s l) {n : ℕ} {msg : Bytes}
    (hclient : s.client = .writing msg) :
    Exact c { s with client := .wrote msg n, request := s.request ++ msg.take n } l := by
  obtain ⟨hleft, hgot, hdone⟩ := ClientPhase.wrote_spec msg n
  have hold : s.client.left = msg ∧ s.client.got = [] ∧ s.client.isDone = false := by
    rw [hclient]
    exact ⟨rfl, rfl, rfl⟩
  refine ⟨fun x hx => ?_, h.line, fun _ => hdone, fun hopen => ?_⟩
  · obtain ⟨hno, hall⟩ := h.request x hx
    refine ⟨hno, ?_⟩
    rw [hold.1] at hall
    rw [hleft, List.append_assoc, List.take_append_drop]
    exact hall
  · obtain ⟨b, hb, ⟨r, hr, hall, -⟩ | ⟨hclosed, hempty, -⟩⟩ := h.reply hopen
    · refine ⟨b, hb, .inl ⟨r, hr, fun _ => ?_, fun x hx => ?_⟩⟩
      · rw [← hall hold.2.2, hgot, hold.2.1]
      · rw [show ClientPhase.wrote msg n = .done x from hx] at hdone
        cases hdone
    · exact ⟨b, hb, .inr ⟨hclosed, hempty, hdone⟩⟩

theorem Exact.clientRead (h : Exact c s l) (hl : Linked c s l) {n : ℕ} {r : Bytes}
    (hclient : s.client = .reading r) (hn : 0 < n ∧ n ≤ min 4096 s.reply.length) :
    Exact c { s with client := .received (r ++ s.reply.take n), reply := s.reply.drop n } l := by
  have hpos : 0 < s.reply.length := by omega
  have hreply : s.reply ≠ [] := List.length_pos_iff.mp hpos
  have hclosed : s.server.isOpen = false := by
    by_contra hopen
    exact hreply (hl.unhandled (Bool.eq_true_of_not_eq_false hopen)).2.2
  refine ⟨fun x hx => ?_, h.line, fun hopen => ?_, fun _ => ?_⟩
  · rw [show s.server = .reading x from hx] at hclosed
    cases hclosed
  · rw [show s.server.isOpen = true from hopen] at hclosed
    cases hclosed
  · have hold : s.client.got = r ∧ s.client.isDone = false := by
      rw [hclient]
      exact ⟨rfl, rfl⟩
    obtain ⟨b, hb, ⟨r', hr', hall, -⟩ | ⟨-, hempty, -⟩⟩ := h.reply hclosed
    · have hsplit : r ++ s.reply.take n ++ (s.reply.drop n ++ s.server.left) = r' ++ [0x0A] := by
        rw [← hall hold.2, hold.1, List.append_assoc, ← List.append_assoc (s.reply.take n),
          List.take_append_drop]
      refine ⟨b, hb, .inl ⟨r', hr', ?_⟩⟩
      dsimp only
      rw [ClientPhase.received]
      split_ifs with hnl
      · refine ⟨nofun, fun x hx => ?_⟩
        rw [← ClientPhase.done.inj hx, upToNewline_of_mem (hsplit ▸ List.prefix_append _ _)
          hr'.newline_notMem hnl]
      · exact ⟨fun _ => hsplit, nofun⟩
    · exact absurd hempty hreply

/-- The server handles the line when it has all of it. -/
theorem Exact.serverRead (hfits : Fits c.line) (h : Exact c s l) {n : ℕ} {x : Bytes}
    (hserver : s.server = .reading x) : Exact c
      { s with server := .received (x ++ s.request.take n), request := s.request.drop n } l := by
  have hopen : s.server.isOpen = true := by rw [hserver]; rfl
  obtain ⟨-, hall⟩ := h.request x hserver
  have hsplit : x ++ s.request.take n ++ (s.request.drop n ++ s.client.left) =
      c.line ++ [0x0A] := by
    rw [← hall, List.append_assoc, ← List.append_assoc (s.request.take n),
      List.take_append_drop]
  have hpre : x ++ s.request.take n <+: c.line ++ [0x0A] := hsplit ▸ List.prefix_append _ _
  have hopen' : (ServerPhase.received (x ++ s.request.take n)).isOpen = true := by
    rw [ServerPhase.received]
    split_ifs <;> rfl
  refine ⟨fun y hy => ?_, fun y hy => ?_, fun _ => h.waiting hopen, fun hclosed => ?_⟩
  · dsimp only at hy
    rw [ServerPhase.received] at hy
    split_ifs at hy with hstop
    obtain rfl := ServerPhase.reading.inj hy
    exact ⟨(not_or.mp hstop).1, hsplit⟩
  · dsimp only at hy
    rw [ServerPhase.received] at hy
    split_ifs at hy with hstop
    rw [← ServerPhase.handling.inj hy]
    refine upToNewline_of_mem hpre hfits.newline_notMem (hstop.elim id fun hlong => ?_)
    -- a line that fits is not cut at the bound
    have hlen : (c.line ++ [0x0A]).length ≤ (x ++ s.request.take n).length := by
      have hlt := hfits.length
      rw [List.length_append, List.length_singleton]
      omega
    rw [hpre.eq_of_length_le hlen]
    exact List.mem_append_right _ List.mem_cons_self
  · rw [show (ServerPhase.received _).isOpen = false from hclosed] at hopen'
    cases hopen'

theorem Exact.handle (hstats : deps.Prints) (h : Exact c s l) (hl : Linked c s l) {x : Bytes}
    (hserver : s.server = .handling x) (env : Env) :
    Exact c (s.handle D deps x env) (l.run D deps c [.command env]) := by
  have hopen : s.server.isOpen = true := by rw [hserver]; rfl
  have hdone := h.waiting hopen
  obtain ⟨hresults, hgot, hempty⟩ := hl.unhandled hopen
  obtain ⟨w, b, hexec, hend⟩ := handle_line (D := D) hstats hl.world env (c := c)
  rw [hresults, List.nil_append] at hexec
  rw [h.line x hserver, Ledger.run, List.foldl_cons, List.foldl_nil, hexec]
  rcases hend with ⟨r, hreport, hend⟩ | hend <;> rw [hend]
  · refine ⟨nofun, nofun, nofun, fun _ => ⟨b, rfl, .inl ⟨r, hreport, fun _ => ?_, ?_⟩⟩⟩
    · dsimp only
      rw [hgot, hempty]
      rfl
    · intro y hy
      rw [show s.client = .done y from hy] at hdone
      cases hdone
  · exact ⟨nofun, nofun, nofun, fun _ => ⟨b, rfl, .inr ⟨rfl, hempty, hdone⟩⟩⟩

theorem Exact.serverWrite (h : Exact c s l) {n : ℕ} {r : Bytes} (hserver : s.server = .writing r) :
    Exact c { s with server := .wrote r n, reply := s.reply ++ r.take n } l := by
  obtain ⟨hleft, hopen⟩ := ServerPhase.wrote_spec r n
  have hold : s.server.isOpen = false ∧ s.server.left = r := by
    rw [hserver]
    exact ⟨rfl, rfl⟩
  refine ⟨fun y hy => ?_, fun y hy => ?_, fun hy => ?_, fun _ => ?_⟩
  · rw [show ServerPhase.wrote r n = .reading y from hy] at hopen
    cases hopen
  · rw [show ServerPhase.wrote r n = .handling y from hy] at hopen
    cases hopen
  · rw [show (ServerPhase.wrote r n).isOpen = true from hy] at hopen
    cases hopen
  · obtain ⟨b, hb, ⟨r', hr', hall, hresult⟩ | ⟨hclosed, -, -⟩⟩ := h.reply hold.1
    · refine ⟨b, hb, .inl ⟨r', hr', fun hdone => ?_, hresult⟩⟩
      rw [← hall hdone, hleft, hold.2, List.append_assoc, List.take_append_drop]
    · rw [hserver] at hclosed
      cases hclosed

theorem Exact.step (hstats : deps.Prints) (hfits : Fits c.line) (h : Exact c s l)
    (hl : Linked c s l) (hstep : Stepped D deps s a s') (ha : ¬ a.Fails) :
    Exact c s' (l.run D deps c (a.effects c s)) := by
  cases hstep with
  | clientWrite n msg hclient hn => exact h.clientWrite hclient
  | clientRead n r hclient hn => exact h.clientRead hl hclient hn
  | serverRead n x hserver hn => exact h.serverRead hfits hserver
  | handle env x hserver =>
    rw [Action.effects, hserver]
    dsimp only
    rw [if_pos (h.line x hserver)]
    exact h.handle hstats hl hserver env
  | serverWrite n r hserver hn => exact h.serverWrite hserver
  | other st => exact ⟨h.request, h.line, h.waiting, h.reply⟩
  | _ => exact absurd trivial ha

/-- What is said in a part of the line is said in the line. -/
theorem saysOk_of_isPrefix {x r : Bytes} (h : SaysOk x) (hx : x <+: r ++ [0x0A]) : SaysOk r := by
  have hall : ascii "\"ok\":true" <:+: r ++ [0x0A] := h.trans hx.isInfix
  refine (List.infix_concat_iff.mp hall).resolve_left fun hsuffix => ?_
  have hmem : (0x0A : UInt8) ∉ ascii "\"ok\":true" := by decide
  rcases List.suffix_concat_iff.mp hsuffix with hnil | ⟨t, ht, -⟩
  · exact absurd hnil (by decide)
  · exact hmem (ht ▸ List.mem_append_right t List.mem_cons_self)

/-- **A command happens at most once, and the tool knows.** The session is, for the authenticator,
the command at one moment between the calls of the others, or nothing. An exit code of 0 says that
it happened and succeeded; and when nothing fails, the exit code is how it ended. -/
theorem session_atomic (hstats : deps.Prints) (c : Command) (w : World) (as : List Action)
    (hrun : Machine.run (Session.step D deps) (.start w c.line) as = some s) :
    ∃ es : List Effect, es.filterMap Effect.step = as.filterMap Action.step ∧
      s.world = (Ledger.run D deps c ⟨w, []⟩ es).world ∧
      (Ledger.run D deps c ⟨w, []⟩ es).results.length ≤ 1 ∧
      (∀ r, s.client = .done r → exitCode r = 0 →
        (Ledger.run D deps c ⟨w, []⟩ es).results = [true]) ∧
      (Fits c.line → (∀ a ∈ as, ¬ a.Fails) → ∀ r, s.client = .done r →
        (Ledger.run D deps c ⟨w, []⟩ es).results = [decide (exitCode r = 0)]) := by
  have hinv : ∃ es : List Effect, es.filterMap Effect.step = as.filterMap Action.step ∧
      Linked c s (Ledger.run D deps c ⟨w, []⟩ es) ∧
      (Fits c.line → (∀ a ∈ as, ¬ a.Fails) → Exact c s (Ledger.run D deps c ⟨w, []⟩ es)) := by
    refine Machine.run_induction (P := fun _ _ => True) (I := fun as s => ∃ es : List Effect,
      es.filterMap Effect.step = as.filterMap Action.step ∧
      Linked c s (Ledger.run D deps c ⟨w, []⟩ es) ∧
      (Fits c.line → (∀ a ∈ as, ¬ a.Fails) → Exact c s (Ledger.run D deps c ⟨w, []⟩ es)))
      ⟨[], rfl, linked_start w c, fun _ _ => exact_start w c⟩ ?_ (fun _ _ _ _ _ _ => trivial) hrun
    rintro as s₁ a s₂ - - hstep ⟨es, hes, hl, hexact⟩
    have hstepped := step_stepped hstep
    have hrun : Ledger.run D deps c ⟨w, []⟩ (es ++ a.effects c s₁) =
        (Ledger.run D deps c ⟨w, []⟩ es).run D deps c (a.effects c s₁) := List.foldl_append
    refine ⟨es ++ a.effects c s₁, ?_, hrun ▸ hl.step hstats hstepped, fun hfits hall => ?_⟩
    · rw [List.filterMap_append, List.filterMap_append, hes, a.effects_steps]
      cases a <;> rfl
    · rw [List.forall_mem_append] at hall
      rw [hrun]
      exact (hexact hfits hall.1).step hstats hfits hl hstepped (hall.2 a List.mem_cons_self)
  obtain ⟨es, hes, hl, hexact⟩ := hinv
  refine ⟨es, hes, hl.world, hl.once, fun r hr hexit => ?_, fun hfits hall r hr => ?_⟩
  · cases r with
    | error st => exact absurd hexit Nat.one_ne_zero
    | ok reply =>
      obtain ⟨r, hr', hgot, -⟩ := hl.reply
      rw [hr] at hgot
      exact hr' (saysOk_of_isPrefix ((exitCode_ok reply).mp hexit) hgot)
  · have hexact := hexact hfits hall
    have hdone : s.client.isDone = true := by rw [hr]; rfl
    have hclosed : s.server.isOpen = false := by
      by_contra hopen
      have hwaiting := hexact.waiting (Bool.eq_true_of_not_eq_false hopen)
      rw [hdone] at hwaiting
      cases hwaiting
    obtain ⟨b, hb, ⟨r', hr', -, hresult⟩ | ⟨-, -, hno⟩⟩ := hexact.reply hclosed
    · rw [hb, hresult r hr]
      have hsame : exitCode (.ok r') = 0 ↔ b = true := (exitCode_ok r').trans hr'.saysOk_iff
      have hexit : decide (exitCode (.ok r') = 0) = b := by simp [hsame]
      rw [hexit]
    · rw [hdone] at hno
      cases hno

/-- A PIN is set, with the line in two pieces and a call of somebody else between them. -/
theorem session_atomic_setPin :
    let deps : ServerDeps := ⟨true, true, fun w => statsJson true true {} w.store⟩
    let c := Command.setPin (ascii "1234")
    let w := World.fresh (Env.calm 7)
    let as := [.clientWrite 7, .serverRead 7, .other (.call (.setSerial [1]) (Env.calm 7)),
      .clientWrite 23, .serverRead 23, .handle (Env.calm 7), .serverWrite 12, .clientRead 12]
    ∃ s, Machine.run (Session.step Device.plain deps) (.start w c.line) as = some s ∧
      s.client = .done (.ok okJson) ∧ s.world.store.pin.hash.isSome = true ∧
      ∃ es : List Effect, s.world = (Ledger.run Device.plain deps c ⟨w, []⟩ es).world ∧
        (Ledger.run Device.plain deps c ⟨w, []⟩ es).results = [true] := by
  intro deps c w as
  obtain ⟨s, hs, hdone, hpin⟩ := Machine.exists_run_of_any (Session.step Device.plain deps)
    (.start w c.line) as (fun s => s.client = .done (.ok okJson) ∧
      s.world.store.pin.hash.isSome = true) (by decide +kernel)
  obtain ⟨es, -, hworld, -, hexit, -⟩ := session_atomic ⟨fun _ => {}, fun _ => rfl⟩ c w as hs
  exact ⟨s, hs, hdone, hpin, es, hworld, hexit _ hdone (by decide)⟩

end Sessions

end Ctl

end Swpasskey
