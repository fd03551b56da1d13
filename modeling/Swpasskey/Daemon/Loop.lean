import Swpasskey.Ctap.HidDevice
import Swpasskey.Lib.Machine
import Swpasskey.Status

/-!
# The two threads of the daemon

`Loop::run` is the HID thread: it drains the outbox, writes a keepalive when one is due,
polls the inter-packet timer, reads a report and ingests it. `Loop::worker_main` is the
worker: it takes the command in the slot, runs the handler and publishes the response. They
share the slot, its cancel token and the outbox.

A state is a `Loop`; an `Action` is one step of one thread, with everything the step reads
from outside: the clock, the random draws, the report and the handler's result. A section
under the lock is one action. What the HID thread does without the lock is not: each write
of a report is an action of its own (`batch` is what `write_all` still has to write), so the
worker may run between any two writes, and the handler may run, and read its token, at any
time. There is no `stop` and no transport failure.

Three things are there for the statements only, and no step reads them: the origin of a
packet, the number of a command, and the lists `written`, `admitted` and `answers`.
-/

namespace Swpasskey

open HidFramer HidDevice

/-- Where a packet comes from. -/
inductive Origin
  /-- The HID thread answers a report or a timeout itself. -/
  | reply
  /-- The response to an INIT on a channel, after so many commands had been admitted. -/
  | resync (admitted : ℕ)
  /-- A keepalive for the command with this number. -/
  | keepalive (n : ℕ)
  /-- The response to the command with this number. -/
  | response (n : ℕ)
  deriving DecidableEq, Repr

/-- A report on its way to the host. -/
structure Packet where
  origin : Origin
  report : Report
  deriving DecidableEq

namespace Loop

def kKeepaliveProcessing : UInt8 := 0x01
def kKeepaliveUpNeeded : UInt8 := 0x02
def kKeepaliveInterval : ℕ := 100000000

end Loop

/-- `CancelToken`. -/
structure CancelToken where
  cancelled : Bool := false
  keepalive : UInt8 := Loop.kKeepaliveProcessing
  deriving DecidableEq

/-- `Loop::Inflight`, with the number of its command; `started` is never read. -/
structure Inflight where
  cmd : Option Message := none
  cid : UInt32 := 0
  token : CancelToken := {}
  lastKeepalive : ℕ := 0
  number : ℕ := 0
  deriving DecidableEq

/-- Where the HID thread is, once everything in `batch` is written. -/
inductive HidThread
  | drain | poll | read
  | ingest (r : Report)
  deriving DecidableEq

/-- Where the worker is. -/
inductive Worker
  | waiting
  /-- The handler runs on this command. -/
  | working (n : ℕ) (msg : Message)
  /-- The handler has returned and the response waits for the lock. -/
  | publishing (n : ℕ) (resp : Message)
  deriving DecidableEq

/-- The state both threads work on. -/
structure Loop where
  device : HidDevice
  inflight : Inflight := {}
  outbox : List Packet := []
  hid : HidThread := .drain
  batch : List Packet := []
  worker : Worker := .waiting
  /-- Everything written, in order. -/
  written : List Packet := []
  /-- The commands handed to the worker, in order. -/
  admitted : List Message := []
  /-- The responses the worker has published, in order. -/
  answers : List Message := []
  deriving DecidableEq

/-- What the handler returns. -/
inductive HandlerResult
  | cbor (r : Except Status Bytes)
  | u2f (payload : Bytes)

/-- The payload of the response. -/
def HandlerResult.payload : HandlerResult → Bytes
  | cbor (.ok body) => 0x00 :: body
  | cbor (.error status) => [status.code]
  | u2f payload => payload

/-- The handler that was called for a command. -/
def HandlerResult.answers : HandlerResult → Message → Bool
  | cbor _, msg => msg.cmd = kCmdCbor
  | u2f _, msg => msg.cmd ≠ kCmdCbor

/-- One step of one thread. -/
inductive Action
  | drain (now : ℕ)
  | write
  | poll (now : ℕ)
  | read (r : Option Report)
  | ingest (now : ℕ) (draws : List (Option UInt32)) (started : ℕ)
  | take
  | setUpNeeded (up : Bool)
  | finish (result : HandlerResult)
  | publish

namespace Loop

/-- A new loop for a handler that supports U2F or not. -/
def new (supportsU2f : Bool) : Loop where
  device := {
    caps := if supportsU2f then 0x04 ||| 0x01 else 0x04 ||| 0x08
    msgSupported := supportsU2f }

/-- The frames of a response. -/
def responsePackets (n : ℕ) (resp : Message) : List Packet :=
  (frame resp).map fun r => ⟨.response n, r⟩

/-- The report completes an INIT on an allocated channel. -/
def resyncs (d : HidDevice) (r : Report) : Bool :=
  match (d.framer.ingest r).1 with
  | .ok (some msg) => ¬ BroadcastInit r ∧ msg.cmd = kCmdInit ∧ msg.payload.length = 8 ∧
      d.isAllocated msg.cid = true
  | _ => false

/-- Where the answers to a report come from. -/
def replyOrigin (d : HidDevice) (r : Report) (admitted : ℕ) : Origin :=
  if resyncs d r then .resync admitted else .reply

/-- The channel the worker is busy with. -/
def busyCid (s : Loop) : Option UInt32 := s.inflight.cmd.map fun _ => s.inflight.cid

/-- A keepalive is due. -/
def keepaliveDue (s : Loop) (now : ℕ) : Bool :=
  s.inflight.cmd.isSome ∧ now - s.inflight.lastKeepalive ≥ kKeepaliveInterval

/-- The first section under the lock: drain the outbox; a keepalive comes last. -/
def drained (s : Loop) (now : ℕ) : Loop :=
  if s.keepaliveDue now then
    { s with
      hid := .poll
      outbox := []
      inflight := { s.inflight with lastKeepalive := now }
      batch := s.outbox ++ [⟨.keepalive s.inflight.number,
        keepalivePacket s.inflight.cid s.inflight.token.keepalive⟩] }
  else { s with hid := .poll, outbox := [], batch := s.outbox }

/-- The slot after a report: a cancel for the command in it, or a new command. -/
def Inflight.after (f : Inflight) (ing : Ingest) (started number : ℕ) : Inflight :=
  match ing.toWorker with
  | some msg => { cmd := some msg, cid := msg.cid, lastKeepalive := started, number }
  | none =>
    if ing.cancelInflight ∧ f.cmd.isSome then { f with token := { f.token with cancelled := true } }
    else f

/-- The second section under the lock. -/
def ingested (s : Loop) (r : Report) (ing : Ingest) (device : HidDevice) (started : ℕ) : Loop :=
  { s with
    device
    hid := .drain
    batch := ing.reply.map fun p => ⟨replyOrigin s.device r s.admitted.length, p⟩
    inflight := Inflight.after s.inflight ing started s.admitted.length
    admitted := s.admitted ++ ing.toWorker.toList }

/-- The worker's section under the lock: publish the response and release the slot. -/
def published (s : Loop) (n : ℕ) (resp : Message) : Loop :=
  { s with
    worker := .waiting
    outbox := s.outbox ++ responsePackets n resp
    inflight := { s.inflight with cmd := none, token := {} }
    answers := s.answers ++ [resp] }

/-- What an action does, if it is enabled. -/
def step (s : Loop) : Action → Option Loop
  | .write =>
    match s.batch with
    | [] => none
    | p :: rest => some { s with batch := rest, written := s.written ++ [p] }
  | .drain now => if s.hid = .drain ∧ s.batch = [] then some (s.drained now) else none
  | .poll now =>
    if s.hid = .poll ∧ s.batch = [] then
      some { s with
        hid := .read
        device := (s.device.pollTimeout now).2
        batch := (s.device.pollTimeout now).1.toList.map fun r => ⟨.reply, r⟩ }
    else none
  | .read r =>
    if s.hid = .read ∧ s.batch = [] then some { s with hid := r.elim .drain .ingest } else none
  | .ingest now draws started =>
    match s.hid, s.batch with
    | .ingest r, [] =>
      (s.device.ingest r s.busyCid now draws).map fun (ing, d) => s.ingested r ing d started
    | _, _ => none
  | .take =>
    match s.worker, s.inflight.cmd with
    | .waiting, some msg => some { s with worker := .working s.inflight.number msg }
    | _, _ => none
  | .setUpNeeded up =>
    match s.worker with
    | .working _ _ =>
      let status := if up then kKeepaliveUpNeeded else kKeepaliveProcessing
      some { s with
        inflight := { s.inflight with token := { s.inflight.token with keepalive := status } } }
    | _ => none
  | .finish result =>
    match s.worker with
    | .working n msg =>
      if result.answers msg then
        some { s with worker := .publishing n ⟨msg.cid, msg.cmd, result.payload⟩ }
      else none
    | _ => none
  | .publish =>
    match s.worker with
    | .publishing n resp => some (s.published n resp)
    | _ => none

/-! ### What a step does -/

/-- Everything a step may do. -/
inductive Stepped (s : Loop) : Action → Loop → Prop
  | write (p : Packet) (rest : List Packet) (hbatch : s.batch = p :: rest) :
      Stepped s .write { s with batch := rest, written := s.written ++ [p] }
  | drain (now : ℕ) (hhid : s.hid = .drain) (hbatch : s.batch = []) :
      Stepped s (.drain now) (s.drained now)
  | poll (now : ℕ) (hhid : s.hid = .poll) (hbatch : s.batch = []) :
      Stepped s (.poll now) { s with
        hid := .read
        device := (s.device.pollTimeout now).2
        batch := (s.device.pollTimeout now).1.toList.map fun r => ⟨.reply, r⟩ }
  | read (r : Option Report) (hhid : s.hid = .read) (hbatch : s.batch = []) :
      Stepped s (.read r) { s with hid := r.elim .drain .ingest }
  | ingest (r : Report) (now : ℕ) (draws : List (Option UInt32)) (started : ℕ) (ing : Ingest)
      (d : HidDevice) (hhid : s.hid = .ingest r) (hbatch : s.batch = [])
      (h : s.device.ingest r s.busyCid now draws = some (ing, d)) :
      Stepped s (.ingest now draws started) (s.ingested r ing d started)
  | take (msg : Message) (hworker : s.worker = .waiting) (hcmd : s.inflight.cmd = some msg) :
      Stepped s .take { s with worker := .working s.inflight.number msg }
  | setUpNeeded (up : Bool) (status : UInt8) (n : ℕ) (msg : Message)
      (hworker : s.worker = .working n msg) : Stepped s (.setUpNeeded up) { s with
        inflight := { s.inflight with token := { s.inflight.token with keepalive := status } } }
  | finish (result : HandlerResult) (n : ℕ) (msg : Message) (hworker : s.worker = .working n msg) :
      Stepped s (.finish result)
        { s with worker := .publishing n ⟨msg.cid, msg.cmd, result.payload⟩ }
  | publish (n : ℕ) (resp : Message) (hworker : s.worker = .publishing n resp) :
      Stepped s .publish (s.published n resp)

theorem step_stepped {s s' : Loop} {a : Action} (h : s.step a = some s') : Stepped s a s' := by
  cases a with
  | write =>
    rw [step] at h
    split at h
    · cases h
    · rename_i p rest hbatch
      cases h
      exact .write p rest hbatch
  | drain now =>
    rw [step] at h
    split_ifs at h with hen
    cases h
    exact .drain now hen.1 hen.2
  | poll now =>
    rw [step] at h
    split_ifs at h with hen
    cases h
    exact .poll now hen.1 hen.2
  | read r =>
    rw [step] at h
    split_ifs at h with hen
    cases h
    exact .read r hen.1 hen.2
  | ingest now draws started =>
    rw [step] at h
    split at h
    · rename_i r hhid hbatch
      obtain ⟨⟨ing, d⟩, hing, heq⟩ := Option.map_eq_some_iff.mp h
      cases heq
      exact .ingest r now draws started ing d hhid hbatch hing
    · cases h
  | take =>
    rw [step] at h
    split at h
    · rename_i msg hworker hcmd
      cases h
      exact .take msg hworker hcmd
    · cases h
  | setUpNeeded up =>
    rw [step] at h
    split at h
    · rename_i n msg hworker
      cases h
      exact .setUpNeeded up _ n msg hworker
    · cases h
  | finish result =>
    rw [step] at h
    split at h
    · rename_i n msg hworker
      split_ifs at h
      cases h
      exact .finish result n msg hworker
    · cases h
  | publish =>
    rw [step] at h
    split at h
    · rename_i n resp hworker
      cases h
      exact .publish n resp hworker
    · cases h

/-! ### One command at a time -/

/-- The slot holds the one command that is admitted and not answered, and the worker works on
that command. -/
structure Slot (s : Loop) : Prop where
  free : s.inflight.cmd = none → s.worker = .waiting ∧ s.admitted.length = s.answers.length
  busy : ∀ msg, s.inflight.cmd = some msg → s.inflight.number = s.answers.length ∧
    s.admitted.length = s.answers.length + 1 ∧ s.admitted[s.answers.length]? = some msg ∧
      s.inflight.cid = msg.cid ∧ msg.cid ≠ 0 ∧ msg.cid ≠ kBroadcastCid
  working : ∀ n msg, s.worker = .working n msg → s.inflight.cmd = some msg ∧ n = s.inflight.number
  publishing : ∀ (n : ℕ) (resp : Message), s.worker = .publishing n resp →
    ∃ msg : Message, s.inflight.cmd = some msg ∧ n = s.inflight.number ∧ resp.cid = msg.cid ∧
      resp.cmd = msg.cmd
  answered : ∀ (n : ℕ) (resp : Message), s.answers[n]? = some resp →
    ∃ msg : Message, s.admitted[n]? = some msg ∧ resp.cid = msg.cid ∧ resp.cmd = msg.cmd

theorem slot_new (supportsU2f : Bool) : Slot (new supportsU2f) where
  free _ := ⟨rfl, rfl⟩
  busy msg h := by cases h
  working n msg h := by cases h
  publishing n resp h := by cases h
  answered n resp h := by cases h

section Slot

variable {s s' : Loop} {a : Action} {ing : Ingest} {d : HidDevice}

/-- Only the command, the worker and the two lists matter. -/
theorem Slot.congr (h : Slot s) (hcmd : s'.inflight.cmd = s.inflight.cmd)
    (hcid : s'.inflight.cid = s.inflight.cid) (hnumber : s'.inflight.number = s.inflight.number)
    (hworker : s'.worker = s.worker) (hadmitted : s'.admitted = s.admitted)
    (hanswers : s'.answers = s.answers) : Slot s' where
  free := by rw [hcmd, hworker, hadmitted, hanswers]; exact h.free
  busy := by rw [hcmd, hcid, hnumber, hadmitted, hanswers]; exact h.busy
  working := by rw [hworker, hcmd, hnumber]; exact h.working
  publishing := by rw [hworker, hcmd, hnumber]; exact h.publishing
  answered := by rw [hadmitted, hanswers]; exact h.answered

/-- A report either leaves the command in the slot alone or fills the empty slot. -/
theorem ingested_cases {r : Report} {now : ℕ} {draws : List (Option UInt32)}
    (h : s.device.ingest r s.busyCid now draws = some (ing, d)) :
    ing.toWorker = none ∨ ∃ msg, ing = { toWorker := some msg } ∧ s.inflight.cmd = none ∧
      Completes s.device r msg ∧ msg.cid ≠ 0 ∧ msg.cid ≠ kBroadcastCid := by
  rcases ingest_handled h with ⟨d', nonce, assigned⟩ | ⟨cid, e⟩ | _ | ⟨d', msg, hmsg,
    hcmd, halloc⟩ |
    ⟨m, hcmd⟩ | ⟨msg, hmsg, hcmd⟩ | ⟨msg, hmsg, hidle, hcmd, hcid⟩
  · exact .inl rfl
  · exact .inl rfl
  · exact .inl rfl
  · exact .inl rfl
  · exact .inl rfl
  · exact .inl rfl
  · refine .inr ⟨msg, rfl, Option.map_eq_none_iff.mp hidle, hmsg, ?_, hcid⟩
    rw [hmsg.cid_eq.1]
    exact hmsg.cid_eq.2

theorem after_of_none {f : Inflight} (h : ing.toWorker = none) (started number : ℕ) :
    (Inflight.after f ing started number).cmd = f.cmd ∧
      (Inflight.after f ing started number).cid = f.cid ∧
      (Inflight.after f ing started number).number = f.number := by
  rw [Inflight.after, h]
  dsimp only
  split_ifs
  · exact ⟨rfl, rfl, rfl⟩
  · exact ⟨rfl, rfl, rfl⟩

theorem Slot.ingested {r : Report} {now started : ℕ} {draws : List (Option UInt32)} (h : Slot s)
    (hing : s.device.ingest r s.busyCid now draws = some (ing, d)) :
    Slot (s.ingested r ing d started) := by
  rcases ingested_cases hing with hnone | ⟨msg, rfl, hidle, -, h0, hbroad⟩
  · obtain ⟨hcmd, hcid, hnumber⟩ := after_of_none (f := s.inflight) hnone started s.admitted.length
    refine h.congr hcmd hcid hnumber rfl ?_ rfl
    simp [Loop.ingested, hnone]
  · obtain ⟨hwaiting, hlen⟩ := h.free hidle
    refine ⟨fun hnone => (by cases hnone), ?_, fun n m hw => ?_, fun n resp hw => ?_,
      fun n resp hn => ?_⟩
    · rintro _ ⟨⟩
      refine ⟨hlen, ?_, ?_, rfl, h0, hbroad⟩
      · simp [Loop.ingested, hlen]
      · simp [Loop.ingested, ← hlen]
    · exact absurd (hwaiting.symm.trans hw) (by simp)
    · exact absurd (hwaiting.symm.trans hw) (by simp)
    · obtain ⟨m, hm, hsame⟩ := h.answered n resp hn
      refine ⟨m, ?_, hsame⟩
      exact (List.getElem?_append_left (List.getElem?_eq_some_iff.mp hm).1).trans hm

theorem Slot.published {n : ℕ} {resp : Message} (h : Slot s)
    (hworker : s.worker = .publishing n resp) : Slot (s.published n resp) := by
  obtain ⟨msg, hcmd, -, hcid, hsame⟩ := h.publishing n resp hworker
  obtain ⟨-, hlen, hmsg, -⟩ := h.busy msg hcmd
  refine ⟨fun _ => ⟨rfl, ?_⟩, fun m hm => (by cases hm), fun k m hw => (by cases hw),
    fun k m hw => (by cases hw), fun k m hk => ?_⟩
  · simp [Loop.published, hlen]
  · have hk : (s.answers ++ [resp])[k]? = some m := hk
    by_cases hlt : k < s.answers.length
    · rw [List.getElem?_append_left hlt] at hk
      exact h.answered k m hk
    · have hlast := (List.getElem?_eq_some_iff.mp hk).1
      rw [List.length_append, List.length_singleton] at hlast
      obtain rfl : k = s.answers.length := by omega
      rw [List.getElem?_concat_length] at hk
      cases hk
      exact ⟨msg, hmsg, hcid, hsame⟩

theorem Slot.step (h : Slot s) (hstep : s.step a = some s') : Slot s' := by
  rcases step_stepped hstep with ⟨p, rest⟩ | ⟨now⟩ | ⟨now⟩ | ⟨r⟩ |
    ⟨r, now, draws, started, ing, d, -, -, hing⟩ | ⟨msg, hworker, hcmd⟩ |
      ⟨up, status, n, msg, hworker⟩ |
    ⟨result, n, msg, hworker⟩ | ⟨n, resp, hworker⟩
  · exact h.congr rfl rfl rfl rfl rfl rfl
  · unfold drained
    split_ifs
    · exact h.congr rfl rfl rfl rfl rfl rfl
    · exact h.congr rfl rfl rfl rfl rfl rfl
  · exact h.congr rfl rfl rfl rfl rfl rfl
  · exact h.congr rfl rfl rfl rfl rfl rfl
  · exact h.ingested hing
  · refine ⟨fun hnone => ?_, h.busy, ?_, fun n resp hw => (by cases hw), h.answered⟩
    · exact absurd (hcmd.symm.trans hnone) (by simp)
    · rintro _ _ ⟨⟩
      exact ⟨hcmd, rfl⟩
  · exact h.congr rfl rfl rfl rfl rfl rfl
  · obtain ⟨hcmd, hn⟩ := h.working n msg hworker
    refine ⟨fun hnone => ?_, h.busy, fun n msg hw => (by cases hw), ?_, h.answered⟩
    · exact absurd (hcmd.symm.trans hnone) (by simp)
    · rintro _ _ ⟨⟩
      exact ⟨msg, hcmd, hn, rfl, rfl⟩
  · exact h.published hworker

end Slot

/-! ### Actions of concrete runs -/

/-- The HID thread reads a report and ingests it at time `0`. -/
def receives (r : Report) (draws : List (Option UInt32)) : List Action :=
  [.drain 0, .poll 0, .read (some r), .ingest 0 draws 0]

/-- A report of channel `cid` with these bytes behind the channel. -/
def report (cid : UInt32) (l : Bytes) : Report := Block.ofPadded kReportSize (writeCidLe cid ++ l)

/-- A broadcast INIT is given the channel `cid`. -/
def opening (cid : UInt32) : List Action :=
  receives (report kBroadcastCid [kTypeInit ||| kCmdInit, 0, 8]) [some cid] ++ [.write]

/-- getInfo arrives on a channel. -/
def getInfo (cid : UInt32) : List Action :=
    receives (report cid [kTypeInit ||| kCmdCbor, 0, 1, 4]) []

end Loop

end Swpasskey
