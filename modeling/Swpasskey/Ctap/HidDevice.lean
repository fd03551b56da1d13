import Mathlib.Data.List.MinMax
import Swpasskey.Ctap.HidFramer

/-!
# The CTAPHID device

`HidDevice` sits between the reports and the authenticator: it allocates channels (at most
four, the least recently used one is reaped), answers INIT, PING, WINK and errors itself, and
decides what goes to the worker.

A broadcast INIT is answered before the framer sees it. Every other report goes through the
one framer that all channels share, and only the message that comes out of it is checked
against the channel table (`dispatch`).

`allocateCid` draws until it finds a channel id that is free. The draws of one call are a
list, so `ingest` is `none` when the call has not returned within them; only a broadcast INIT
draws. The clock is `steady_clock`, in nanoseconds. Counters and log lines are left out.
-/

namespace Swpasskey

open HidFramer

/-- The value of an error code. -/
def HidErr.code : HidErr → UInt8
  | invalidCmd => 0x01
  | invalidPar => 0x02
  | invalidLen => 0x03
  | invalidSeq => 0x04
  | msgTimeout => 0x05
  | channelBusy => 0x06
  | lockRequired => 0x0A
  | invalidChannel => 0x0B
  | other => 0x7F

/-- `HidDevice::Channel`. -/
structure Channel where
  cid : UInt32
  lastUsed : ℕ
  deriving DecidableEq, Repr

/-- `HidDevice`, with the static counter of `allocate_cid`. -/
structure HidDevice where
  caps : UInt8
  msgSupported : Bool
  framer : HidFramer := {}
  channels : List Channel := []
  assemblingSince : Option ℕ := none
  fallback : UInt32 := 0x10000001
  deriving DecidableEq, Repr

namespace HidDevice

def kBroadcastCid : UInt32 := 0xFFFFFFFF
def kCmdPing : UInt8 := 0x01
def kCmdMsg : UInt8 := 0x03
def kCmdInit : UInt8 := 0x06
def kCmdWink : UInt8 := 0x08
def kCmdCbor : UInt8 := 0x10
def kCmdCancel : UInt8 := 0x11
def kCmdKeepalive : UInt8 := 0x3B
def kCmdError : UInt8 := 0x3F
def kHidVersion : UInt8 := 0x02
def kMaxChannels : ℕ := 4
def kInterPacketTimeout : ℕ := 500000000

/-- What `ingest` returns. -/
structure Ingest where
  /-- To be written at once, in order. -/
  reply : List Report := []
  /-- CBOR or MSG for the worker. -/
  toWorker : Option Message := none
  /-- CANCEL, or an INIT, on the channel that is busy. -/
  cancelInflight : Bool := false
  deriving DecidableEq

/-! ### The source functions -/

/-- A report with one byte of payload. -/
def statusPacket (cid : UInt32) (cmd status : UInt8) : Report :=
  Block.ofPadded kReportSize (writeCidLe cid ++ [kTypeInit ||| cmd, 0, 1, status])

def errorPacket (cid : UInt32) (err : HidErr) : Report := statusPacket cid kCmdError err.code

def keepalivePacket (cid : UInt32) (status : UInt8) : Report :=
  statusPacket cid kCmdKeepalive status

def isAllocated (d : HidDevice) (cid : UInt32) : Bool := d.channels.any fun c => c.cid = cid

/-- Mark the first channel with this id as used. -/
def touchChannel (cid : UInt32) (now : ℕ) : List Channel → List Channel
  | [] => []
  | c :: l => if c.cid = cid then { c with lastUsed := now } :: l else c :: touchChannel cid now l

def touch (d : HidDevice) (cid : UInt32) (now : ℕ) : HidDevice :=
  { d with channels := touchChannel cid now d.channels }

/-- Drop the least recently used channel, the first of them when there are several. -/
def reap (l : List Channel) : List Channel :=
  match l.argmin Channel.lastUsed with
  | none => l
  | some lru => l.erase lru

/-- Draw until a channel id is free; a failed draw takes the next value of the counter. -/
def drawCid (d : HidDevice) (now : ℕ) : List (Option UInt32) → Option (UInt32 × HidDevice)
  | [] => none
  | raw :: draws =>
    let d := if raw.isNone then { d with fallback := d.fallback + 0x9E3779B9 } else d
    let cid := raw.getD d.fallback
    if cid = 0 ∨ cid = kBroadcastCid ∨ d.isAllocated cid then d.drawCid now draws
    else some (cid, { d with channels := d.channels ++ [⟨cid, now⟩] })

def allocateCid (d : HidDevice) (now : ℕ) (draws : List (Option UInt32)) :
    Option (UInt32 × HidDevice) :=
  let d := if d.channels.length ≥ kMaxChannels then { d with channels := reap d.channels } else d
  d.drawCid now draws

/-- The response to an INIT: its message fits one report. -/
def initResponse (d : HidDevice) (replyCid : UInt32) (nonce : Bytes) (assignedCid : UInt32) :
    List Report :=
  (frame ⟨replyCid, kCmdInit,
    nonce ++ writeCidLe assignedCid ++ [kHidVersion, 0, 1, 0, d.caps]⟩).take 1

def pollTimeout (d : HidDevice) (now : ℕ) : Option Report × HidDevice :=
  match d.framer.assembly, d.assemblingSince with
  | some a, some since =>
    if now - since < kInterPacketTimeout then (none, d)
    else (some (errorPacket a.cid .msgTimeout), { d with assemblingSince := none, framer := {} })
  | _, _ => (none, d)

/-- An error is answered on the channel of the report. -/
def fail (cid : UInt32) (err : HidErr) : Ingest := { reply := [errorPacket cid err] }

/-- The commands of an allocated channel other than INIT. -/
def execute (d : HidDevice) (msg : Message) (inflight : Option UInt32) : Ingest :=
  if msg.cmd = kCmdPing then { reply := frame msg }
  else if msg.cmd = kCmdWink then { reply := frame ⟨msg.cid, kCmdWink, []⟩ }
  else if msg.cmd = kCmdCancel then { cancelInflight := inflight = some msg.cid }
  else if msg.cmd = kCmdMsg ∧ ¬ d.msgSupported then fail msg.cid .invalidCmd
  else if msg.cmd = kCmdMsg ∨ msg.cmd = kCmdCbor then
    if inflight.isSome then fail msg.cid .channelBusy else { toWorker := some msg }
  else fail msg.cid .invalidCmd

/-- What happens to a complete message. -/
def dispatch (d : HidDevice) (msg : Message) (inflight : Option UInt32) (now : ℕ) :
    Ingest × HidDevice :=
  if msg.cmd = kCmdInit then
    if msg.payload.length ≠ 8 then (fail msg.cid .invalidLen, d)
    else if ¬ d.isAllocated msg.cid then (fail msg.cid .invalidChannel, d)
    -- resync on an existing channel
    else ({ reply := d.initResponse msg.cid msg.payload msg.cid
            cancelInflight := inflight = some msg.cid }, d.touch msg.cid now)
  else if msg.cid = kBroadcastCid ∨ ¬ d.isAllocated msg.cid then (fail msg.cid .invalidChannel, d)
  else ((d.touch msg.cid now).execute msg inflight, d.touch msg.cid now)

/-- A report that goes through the framer. -/
def receive (d : HidDevice) (r : Report) (inflight : Option UInt32) (now : ℕ) :
    Ingest × HidDevice :=
  match d.framer.ingest r with
  | (.error e, f) => (fail (readCidLe r) e, { d with framer := f })
  | (.ok none, f) => ({}, { d with framer := f, assemblingSince := some now })
  | (.ok (some msg), f) => { d with framer := f, assemblingSince := none }.dispatch msg inflight now

/-- A broadcast INIT, whatever its length. -/
def BroadcastInit (r : Report) : Prop :=
  readCidLe r = kBroadcastCid ∧ r.get 4 = kTypeInit ||| kCmdInit

instance (r : Report) : Decidable (BroadcastInit r) :=
  inferInstanceAs (Decidable (readCidLe r = kBroadcastCid ∧ r.get 4 = kTypeInit ||| kCmdInit))

/-- The payload length a report announces. -/
def announced (r : Report) : ℕ := (readU16Be (r.get 5) (r.get 6)).toNat

/-- `HidDevice::ingest`. -/
def ingest (d : HidDevice) (r : Report) (inflight : Option UInt32) (now : ℕ)
    (draws : List (Option UInt32)) : Option (Ingest × HidDevice) :=
  if BroadcastInit r then
    if announced r ≠ 8 then some (fail kBroadcastCid .invalidLen, d)
    else
      (d.allocateCid now draws).map fun (assigned, d) =>
        ({ reply := d.initResponse kBroadcastCid (slice r 7 8) assigned }, d)
  else some (d.receive r inflight now)

end HidDevice

/-! ### The framer, from outside -/

namespace HidFramer

/-- The framer may take a report: no other channel's message is in progress. -/
def Free (f : HidFramer) (cid : UInt32) : Prop := ∀ a, f.assembly = some a → a.cid = cid

/-- Everything `ingest` may do with a report. -/
inductive Outcome (f : HidFramer) (r : Report) : Except HidErr (Option Message) × HidFramer → Prop
  /-- It is refused and changes nothing. -/
  | refused (e : HidErr) : Outcome f r (.error e, f)
  /-- Its own message is dropped. -/
  | dropped (e : HidErr) (hcid : readCidLe r ≠ 0) (hfree : f.Free (readCidLe r)) :
      Outcome f r (.error e, {})
  /-- Its message goes on. -/
  | part (a : Assembly) (ha : a.cid = readCidLe r) (hcid : readCidLe r ≠ 0)
      (hfree : f.Free (readCidLe r)) : Outcome f r (.ok none, ⟨some a⟩)
  /-- Its message is complete. -/
  | whole (msg : Message) (hmsg : msg.cid = readCidLe r) (hcid : readCidLe r ≠ 0)
      (hfree : f.Free (readCidLe r)) : Outcome f r (.ok (some msg), {})

variable {f : HidFramer} {r : Report} {a : Assembly}

theorem ingest_outcome (f : HidFramer) (r : Report) : Outcome f r (f.ingest r) := by
  obtain ⟨assembly⟩ := f
  unfold ingest
  dsimp only
  -- INIT reports first, then CONT reports of the channel that is sending
  split_ifs with hcid hinit hbusy hlong hwhole
  · exact .refused _
  · exact .refused _
  all_goals try
    have hfree : (⟨assembly⟩ : HidFramer).Free (readCidLe r) := by
      rintro a rfl
      simpa using hbusy
  · exact .dropped _ hcid hfree
  · exact .whole _ rfl hcid hfree
  · exact .part _ rfl hcid hfree
  · rcases assembly with _ | a
    · exact .refused _
    · dsimp only
      split_ifs with hother hseq hlast hwhole
      · exact .refused _
      all_goals
        have hown : a.cid = readCidLe r := not_not.mp hother
        have hfree : (⟨some a⟩ : HidFramer).Free (readCidLe r) := by
          rintro _ ⟨⟩
          exact hown
      · exact .dropped _ hcid hfree
      · exact .dropped _ hcid hfree
      · exact .whole _ hown hcid hfree
      · exact .part _ hown hcid hfree

/-- A message of one report. -/
theorem ingest_single (hfree : f.Free (readCidLe r)) (hcid : readCidLe r ≠ 0)
    (hinit : r.get 4 &&& kTypeInit ≠ 0) (hshort : HidDevice.announced r ≤ kInitPayload) :
    ∃ payload, f.ingest r = (.ok (some ⟨readCidLe r, r.get 4 &&& 0x7F, payload⟩), {}) := by
  have hbusy : ¬ (f.assembly.any fun a => a.cid ≠ readCidLe r) = true := by
    rcases ha : f.assembly with _ | a
    · exact Bool.false_ne_true
    · simp [hfree a ha]
  have hle : ¬ HidDevice.announced r > kMaxMessage := by
    simp only [kInitPayload] at hshort
    simp only [kMaxMessage]
    omega
  have hwhole : (slice r 7 (min (HidDevice.announced r) kInitPayload)).length ≥
      HidDevice.announced r := by
    rw [min_eq_left hshort, slice, List.length_take, List.length_drop, Block.length_bytes]
    simp only [kInitPayload] at hshort
    simp only [kReportSize]
    omega
  refine ⟨(slice r 7 (min (HidDevice.announced r) kInitPayload)).take (HidDevice.announced r), ?_⟩
  unfold ingest
  rw [if_neg hcid, if_pos hinit, if_neg hbusy]
  exact (if_neg hle).trans (if_pos hwhole)

/-- A report that opens no assembly: a CONT report, a message of one report, or one that is
too long. -/
def Passing (r : Report) : Prop :=
  r.get 4 &&& kTypeInit = 0 ∨ HidDevice.announced r ≤ kInitPayload ∨
    kMaxMessage < HidDevice.announced r

/-- At an idle framer, a report that opens no assembly leaves none. -/
theorem ingest_of_passing (hidle : f.assembly = none) (h : Passing r) :
    (∃ e, f.ingest r = (.error e, f)) ∨
      ∃ msg, f.ingest r = (.ok (some msg), f) ∧ msg.cid = readCidLe r := by
  obtain rfl : f = {} := by
    cases f
    exact congrArg HidFramer.mk hidle
  by_cases hcid : readCidLe r = 0
  · exact .inl ⟨_, if_pos hcid⟩
  · by_cases hinit : r.get 4 &&& kTypeInit = 0
    · refine .inl ⟨.invalidSeq, ?_⟩
      unfold ingest
      rw [if_neg hcid, if_neg (not_not.mpr hinit)]
    · rcases h with hcont | hshort | hlong
      · exact absurd hcont hinit
      · obtain ⟨payload, hmsg⟩ := ingest_single (f := {}) (fun _ h => by cases h) hcid hinit hshort
        exact .inr ⟨_, hmsg, rfl⟩
      · refine .inl ⟨.invalidLen, ?_⟩
        unfold ingest
        rw [if_neg hcid, if_pos hinit, if_neg (by simp)]
        exact if_pos hlong

/-- While another channel's message is in progress a report is refused and changes nothing. -/
theorem ingest_of_not_free (h : ¬ f.Free (readCidLe r)) : ∃ e, f.ingest r = (.error e, f) := by
  generalize hout : f.ingest r = out
  rcases hout ▸ ingest_outcome f r with e | ⟨e, -, hfree⟩ | ⟨a, -, -, hfree⟩ | ⟨msg, -, -, hfree⟩
  · exact ⟨e, rfl⟩
  all_goals exact absurd hfree h

end HidFramer

namespace HidDevice

/-! ### The channel table -/

section Table

variable {d d' : HidDevice} {cid : UInt32} {now t : ℕ} {l l₁ l₂ : List Channel} {a : Channel}

theorem isAllocated_iff : d.isAllocated cid = true ↔ ∃ c ∈ d.channels, c.cid = cid := by
  simp [isAllocated]

/-- The channel that is reaped is the oldest, and the first of the oldest. -/
theorem reap_spec (hne : l ≠ []) : ∃ l₁ c l₂, l = l₁ ++ c :: l₂ ∧ reap l = l₁ ++ l₂ ∧
    (∀ x ∈ l₁, c.lastUsed < x.lastUsed) ∧ ∀ x ∈ l₂, c.lastUsed ≤ x.lastUsed := by
  rcases hmin : l.argmin Channel.lastUsed with _ | c
  · exact absurd (List.argmin_eq_none.mp hmin) hne
  · have hmem : c ∈ l.argmin Channel.lastUsed := hmin
    obtain ⟨l₁, l₂, rfl, hnot⟩ := List.eq_append_cons_of_mem (List.argmin_mem hmem)
    refine ⟨l₁, c, l₂, rfl, ?_, fun x hx => ?_, fun x hx => ?_⟩
    · simp [reap, hmin, List.erase_append_right _ hnot]
    · -- an earlier channel that is not younger would have been found first
      by_contra hle
      have hidx := List.index_of_argmin hmem (List.mem_append_left _ hx) (not_lt.mp hle)
      rw [List.idxOf_append_of_notMem hnot, List.idxOf_cons_self,
        List.idxOf_append_of_mem hx] at hidx
      have := List.idxOf_lt_length_of_mem hx
      omega
    · exact List.le_of_mem_argmin (List.mem_append_right _ (List.mem_cons_of_mem _ hx)) hmem

/-- How many channels are reaped before the channel `cid`: the older ones, and those of the
same age that stand before it. -/
def ahead (cid : UInt32) (l : List Channel) : ℕ :=
  match l.dropWhile fun c => c.cid ≠ cid with
  | [] => 0
  | a :: younger => (l.takeWhile fun c => c.cid ≠ cid).countP (fun c => c.lastUsed ≤ a.lastUsed) +
      younger.countP fun c => c.lastUsed < a.lastUsed

/-- The channel ids of a table. -/
def cids (l : List Channel) : List UInt32 := l.map Channel.cid

/-- In a table without repeated ids, the part that counts on either side of a channel. -/
theorem ahead_split (hcids : (cids (l₁ ++ a :: l₂)).Nodup) : ahead a.cid (l₁ ++ a :: l₂) =
    l₁.countP (fun c => c.lastUsed ≤ a.lastUsed) + l₂.countP fun c => c.lastUsed < a.lastUsed := by
  have hall : ∀ c ∈ l₁, decide (c.cid ≠ a.cid) = true := by
    intro c hc
    rw [cids, List.map_append, List.map_cons] at hcids
    have hne := (List.nodup_append.mp hcids).2.2 _ (List.mem_map_of_mem hc) _ List.mem_cons_self
    exact decide_eq_true hne
  rw [ahead, List.dropWhile_append_of_pos hall, List.takeWhile_append_of_pos hall]
  simp

theorem reap_sublist (l : List Channel) : (reap l).Sublist l := by
  unfold reap
  split
  · exact List.Sublist.refl l
  · exact List.erase_sublist

theorem length_reap (hne : l ≠ []) : (reap l).length + 1 = l.length := by
  obtain ⟨l₁, c, l₂, rfl, hreap, -, -⟩ := reap_spec hne
  rw [hreap]
  simp
  omega

/-- Reaping takes one of the channels ahead. -/
theorem ahead_reap (hcids : (cids l).Nodup) (ha : a ∈ l) (hpos : 0 < ahead a.cid l) :
    a ∈ reap l ∧ ahead a.cid (reap l) + 1 = ahead a.cid l := by
  have hcids' : (cids (reap l)).Nodup := hcids.sublist ((reap_sublist l).map _)
  obtain ⟨l₁, c, l₂, rfl, hreap, hlt, hle⟩ := reap_spec (List.ne_nil_of_mem ha)
  rw [hreap] at hcids' ⊢
  rcases List.mem_append.mp ha with ha₁ | ha₂
  · -- the channel stands before the one that is reaped, which is older
    obtain ⟨p, q, rfl⟩ := List.append_of_mem ha₁
    refine ⟨by simp, ?_⟩
    simp only [List.append_assoc, List.cons_append] at hcids hcids' ⊢
    rw [ahead_split hcids, ahead_split hcids']
    simp only [List.countP_append, List.countP_cons, hlt a ha₁, decide_true, if_true]
    omega
  · rcases List.mem_cons.mp ha₂ with rfl | ha₂
    · -- the channel itself is reaped only if nothing is ahead of it
      have h₁ : l₁.countP (fun c => c.lastUsed ≤ a.lastUsed) = 0 :=
        List.countP_eq_zero.mpr fun x hx => by simpa using hlt x hx
      have h₂ : l₂.countP (fun c => c.lastUsed < a.lastUsed) = 0 :=
        List.countP_eq_zero.mpr fun x hx => by simpa using hle x hx
      rw [ahead_split hcids] at hpos
      omega
    · obtain ⟨p, q, rfl⟩ := List.append_of_mem ha₂
      refine ⟨by simp, ?_⟩
      have hsplit : l₁ ++ c :: (p ++ a :: q) = (l₁ ++ c :: p) ++ a :: q := by simp
      have hsplit' : l₁ ++ (p ++ a :: q) = (l₁ ++ p) ++ a :: q := by simp
      rw [hsplit] at hcids ⊢
      rw [hsplit'] at hcids' ⊢
      rw [ahead_split hcids, ahead_split hcids']
      simp only [List.countP_append, List.countP_cons, hle a ha₂, decide_true, if_true]
      omega

theorem nodup_concat {c : Channel} (hl : (cids l).Nodup) (hc : c.cid ∉ cids l) :
    (cids (l ++ [c])).Nodup := by
  rw [cids, List.map_append]
  refine List.nodup_append.mpr ⟨hl, List.nodup_singleton _, fun x hx y hy heq => ?_⟩
  have hy : y = c.cid := List.mem_singleton.mp hy
  exact hc (hy ▸ heq ▸ hx)

/-- A channel that is not older does not go ahead. -/
theorem ahead_concat {c : Channel} (hcids : (cids (l ++ [c])).Nodup) (ha : a ∈ l)
    (hc : a.lastUsed ≤ c.lastUsed) : ahead a.cid (l ++ [c]) = ahead a.cid l := by
  have hcids' : (cids l).Nodup := hcids.sublist ((List.sublist_append_left _ _).map _)
  obtain ⟨p, q, rfl⟩ := List.append_of_mem ha
  have hsplit : p ++ a :: q ++ [c] = p ++ a :: (q ++ [c]) := by simp
  rw [hsplit] at hcids ⊢
  rw [ahead_split hcids, ahead_split hcids']
  simp [hc]

/-- What an allocation does: the table is reaped if it is full, and the new channel, with an id
that is free, comes last. -/
theorem drawCid_eq_some {draws : List (Option UInt32)} (h : d.drawCid now draws = some (cid, d')) :
    cid ≠ 0 ∧ cid ≠ kBroadcastCid ∧ d.isAllocated cid = false ∧
      ∃ fallback, d' = { d with channels := d.channels ++ [⟨cid, now⟩], fallback := fallback } := by
  induction draws generalizing d with
  | nil => cases h
  | cons raw draws ih =>
    rw [drawCid] at h
    -- only the counter differs from the device before the draw
    obtain ⟨fallback, hd₁⟩ : ∃ fallback, (if raw.isNone then
        { d with fallback := d.fallback + 0x9E3779B9 } else d) =
          { d with fallback := fallback } := by
      split_ifs
      · exact ⟨_, rfl⟩
      · exact ⟨d.fallback, rfl⟩
    simp only [hd₁] at h
    split_ifs at h with htaken
    · obtain ⟨h0, hbroad, hfree, fallback', hd'⟩ := ih h
      exact ⟨h0, hbroad, hfree, fallback', hd'⟩
    · simp only [not_or, Bool.not_eq_true] at htaken
      obtain ⟨rfl, rfl⟩ := Prod.mk.inj (Option.some.inj h)
      exact ⟨htaken.1, htaken.2.1, htaken.2.2, fallback, rfl⟩

/-- The table an allocation adds to. -/
def room (l : List Channel) : List Channel := if l.length ≥ kMaxChannels then reap l else l

theorem room_sublist (l : List Channel) : (room l).Sublist l := by
  unfold room
  split_ifs
  · exact reap_sublist l
  · exact List.Sublist.refl l

theorem length_room (h : l.length ≤ kMaxChannels) : (room l).length < kMaxChannels := by
  unfold room
  split_ifs with hfull
  · have hne : l ≠ [] := by
      rintro rfl
      exact absurd hfull (by decide)
    have hlen := length_reap hne
    omega
  · exact not_le.mp hfull

/-- An allocation makes room, and then draws. -/
theorem allocateCid_eq_drawCid (d : HidDevice) (now : ℕ) (draws : List (Option UInt32)) :
    d.allocateCid now draws = { d with channels := room d.channels }.drawCid now draws := by
  rw [allocateCid]
  unfold room
  split_ifs <;> rfl

theorem allocateCid_eq_some {draws : List (Option UInt32)}
    (h : d.allocateCid now draws = some (cid, d')) :
    cid ≠ 0 ∧ cid ≠ kBroadcastCid ∧ cid ∉ cids (room d.channels) ∧ ∃ fallback,
      d' = { d with channels := room d.channels ++ [⟨cid, now⟩], fallback := fallback } := by
  rw [allocateCid_eq_drawCid] at h
  obtain ⟨h0, hbroad, hfree, hd'⟩ := drawCid_eq_some h
  refine ⟨h0, hbroad, fun hmem => ?_, hd'⟩
  obtain ⟨c, hc, rfl⟩ := List.mem_map.mp hmem
  exact Bool.noConfusion (hfree.symm.trans (isAllocated_iff.mpr ⟨c, hc, rfl⟩))

end Table

/-! ### What a report does -/

section Report

variable {d d' : HidDevice} {r : Report} {msg : Message} {inflight : Option UInt32} {now : ℕ}
  {draws : List (Option UInt32)} {ing : Ingest}

theorem ingest_of_not_broadcastInit (h : ¬ BroadcastInit r) :
    d.ingest r inflight now draws = some (d.receive r inflight now) := if_neg h

/-- The report completes a message. -/
def Completes (d : HidDevice) (r : Report) (msg : Message) : Prop :=
  ¬ BroadcastInit r ∧ (d.framer.ingest r).1 = .ok (some msg)

theorem Completes.cid_eq (h : Completes d r msg) : msg.cid = readCidLe r ∧ readCidLe r ≠ 0 := by
  obtain ⟨-, h⟩ := h
  generalize hout : d.framer.ingest r = out at h
  rcases hout ▸ ingest_outcome d.framer r with e | e | a | ⟨msg', hcid, h0, -⟩
  · cases h
  · cases h
  · cases h
  · cases h
    exact ⟨hcid, h0⟩

/-- Everything `ingest` may answer to a report. -/
inductive Handled (d : HidDevice) (r : Report) (inflight : Option UInt32) : Ingest → Prop
  /-- A broadcast INIT gets a channel. -/
  | opened (d' : HidDevice) (nonce : Bytes) (assigned : UInt32) :
      Handled d r inflight { reply := d'.initResponse kBroadcastCid nonce assigned }
  /-- An error. -/
  | failed (cid : UInt32) (e : HidErr) : Handled d r inflight (fail cid e)
  /-- The message is not complete. -/
  | part : Handled d r inflight {}
  /-- INIT on an allocated channel. -/
  | resync (d' : HidDevice) (msg : Message) (hmsg : Completes d r msg) (hcmd : msg.cmd = kCmdInit)
      (halloc : d.isAllocated msg.cid = true) : Handled d r inflight
        { reply := d'.initResponse msg.cid msg.payload msg.cid
          cancelInflight := inflight = some msg.cid }
  /-- PING or WINK. -/
  | echoed (m : Message) (hcmd : m.cmd = kCmdPing ∨ m.cmd = kCmdWink) :
      Handled d r inflight { reply := frame m }
  /-- CANCEL. -/
  | cancel (msg : Message) (hmsg : Completes d r msg) (hcmd : msg.cmd = kCmdCancel) :
      Handled d r inflight { cancelInflight := inflight = some msg.cid }
  /-- A command goes to the worker. -/
  | admitted (msg : Message) (hmsg : Completes d r msg) (hidle : inflight = none)
      (hcmd : msg.cmd = kCmdMsg ∨ msg.cmd = kCmdCbor) (hcid : msg.cid ≠ kBroadcastCid) :
      Handled d r inflight { toWorker := some msg }

theorem execute_handled (hmsg : Completes d r msg) (hcid : msg.cid ≠ kBroadcastCid) :
    Handled d r inflight (d'.execute msg inflight) := by
  unfold execute
  split_ifs with hping hwink hcancel hmsgCmd hcbor hbusy
  · exact .echoed _ (.inl hping)
  · exact .echoed _ (.inr rfl)
  · exact .cancel msg hmsg hcancel
  · exact .failed _ _
  · exact .failed _ _
  · exact .admitted msg hmsg (by simpa using hbusy) hcbor hcid
  · exact .failed _ _

theorem dispatch_handled (hmsg : Completes d r msg) (halloc : d'.channels = d.channels) :
    Handled d r inflight (d'.dispatch msg inflight now).1 := by
  have hsame : d'.isAllocated msg.cid = d.isAllocated msg.cid := by
    rw [isAllocated, halloc, isAllocated]
  unfold dispatch
  split_ifs with hinit hlen hyes hbad
  · exact .failed _ _
  · exact .resync _ msg hmsg hinit (hsame.symm.trans hyes)
  · exact .failed _ _
  · exact .failed _ _
  · exact execute_handled hmsg (not_or.mp hbad).1

theorem ingest_handled (h : d.ingest r inflight now draws = some (ing, d')) :
    Handled d r inflight ing := by
  unfold ingest at h
  split_ifs at h with hbroad hlen
  · cases h
    exact .failed _ _
  · obtain ⟨⟨assigned, d₁⟩, -, heq⟩ := Option.map_eq_some_iff.mp h
    cases heq
    exact .opened _ _ _
  · obtain rfl : (d.receive r inflight now).1 = ing := congrArg Prod.fst (Option.some.inj h)
    unfold receive
    split
    · exact .failed _ _
    · exact .part
    · rename_i msg f hmsg
      exact dispatch_handled ⟨hbroad, by rw [hmsg]⟩ rfl

/-- A message of a channel that is not allocated is refused and touches no channel. -/
theorem dispatch_of_not_allocated (msg : Message) (inflight : Option UInt32) (now : ℕ)
    (h : d.isAllocated msg.cid = false) :
    ∃ e, d.dispatch msg inflight now = (fail msg.cid e, d) := by
  unfold dispatch
  by_cases hinit : msg.cmd = kCmdInit
  · by_cases hlen : msg.payload.length = 8
    · exact ⟨.invalidChannel, by simp [hinit, hlen, h]⟩
    · exact ⟨.invalidLen, by simp [hinit, hlen]⟩
  · exact ⟨.invalidChannel, by simp [hinit, h]⟩

theorem dispatch_snd : (d.dispatch msg inflight now).2 = d ∨
    (d.dispatch msg inflight now).2 = d.touch msg.cid now := by
  unfold dispatch
  split_ifs
  · exact .inl rfl
  · exact .inr rfl
  · exact .inl rfl
  · exact .inl rfl
  · exact .inr rfl

theorem dispatch_cancel {cid : UInt32} {payload : Bytes} (halloc : d.isAllocated cid = true)
    (hbroad : cid ≠ kBroadcastCid) : (d.dispatch ⟨cid, kCmdCancel, payload⟩ inflight now).1 =
      { cancelInflight := inflight = some cid } := by
  have hinit : kCmdCancel ≠ kCmdInit := by decide
  have hping : kCmdCancel ≠ kCmdPing := by decide
  have hwink : kCmdCancel ≠ kCmdWink := by decide
  simp [dispatch, execute, halloc, hbroad, hinit, hping, hwink]

theorem dispatch_resync (hcmd : msg.cmd = kCmdInit) (hlen : msg.payload.length = 8)
    (halloc : d.isAllocated msg.cid = true) : (d.dispatch msg inflight now).1 =
      { reply := d.initResponse msg.cid msg.payload msg.cid
        cancelInflight := inflight = some msg.cid } := by
  simp [dispatch, hcmd, hlen, halloc]

theorem receive_of_whole {f : HidFramer} (h : d.framer.ingest r = (.ok (some msg), f)) :
    d.receive r inflight now =
      { d with framer := f, assemblingSince := none }.dispatch msg inflight now := by
  rw [receive, h]

/-- A report of another channel than the one whose message is in progress changes nothing. -/
theorem receive_of_not_free (inflight : Option UInt32) (now : ℕ)
    (h : ¬ d.framer.Free (readCidLe r)) :
    ∃ e, d.receive r inflight now = (fail (readCidLe r) e, d) := by
  obtain ⟨e, he⟩ := ingest_of_not_free h
  exact ⟨e, by rw [receive, he]⟩

end Report

/-! ### Runs -/

/-- A report as it arrives, with what the call reads besides the device. -/
structure Arrival where
  report : Report
  /-- The channel the worker is busy with. -/
  inflight : Option UInt32
  now : ℕ
  /-- What the random generator gives; `none` is a failure. -/
  draws : List (Option UInt32)

/-- The channel of an arrival. -/
def Arrival.cid (x : Arrival) : UInt32 := readCidLe x.report

/-- A call of the device. -/
inductive Input
  | report (x : Arrival)
  | poll (now : ℕ)

/-- The clock at a call. -/
def Input.now : Input → ℕ
  | report x => x.now
  | poll now => now

/-- `ingest` of an arrival. -/
def arrive (d : HidDevice) (x : Arrival) : Option (Ingest × HidDevice) :=
  d.ingest x.report x.inflight x.now x.draws

/-- What a call answers, and the device after it. -/
def exec (d : HidDevice) : Input → Option (Ingest × HidDevice)
  | .report x => d.arrive x
  | .poll now => some ({ reply := (d.pollTimeout now).1.toList }, (d.pollTimeout now).2)

/-- What the calls answer, in order, and the device after them. -/
def run (d : HidDevice) : List Input → Option (List Ingest × HidDevice)
  | [] => some ([], d)
  | i :: is => do
    let (out, d) ← d.exec i
    let (outs, d) ← d.run is
    return (out :: outs, d)

/-- The devices a new one can become by time `t`, when the clock does not go back. -/
inductive Reachable (caps : UInt8) (msgSupported : Bool) : ℕ → HidDevice → Prop
  | new (t : ℕ) : Reachable caps msgSupported t { caps, msgSupported }
  | exec {t : ℕ} {d d' : HidDevice} {i : Input} {out : Ingest} (h : Reachable caps msgSupported t d)
      (hclock : t ≤ i.now) (hi : d.exec i = some (out, d')) : Reachable caps msgSupported i.now d'

/-- What holds of the channel table at time `t`. -/
structure Valid (t : ℕ) (l : List Channel) : Prop where
  nodup : (cids l).Nodup
  length_le : l.length ≤ kMaxChannels
  proper : ∀ c ∈ l, c.cid ≠ 0 ∧ c.cid ≠ kBroadcastCid
  used : ∀ c ∈ l, c.lastUsed ≤ t

namespace Valid

variable {t t' : ℕ} {l : List Channel}

theorem mono (h : Valid t l) (ht : t ≤ t') : Valid t' l :=
  { h with used := fun c hc => (h.used c hc).trans ht }

theorem cids_touchChannel (cid : UInt32) (now : ℕ) (l : List Channel) :
    cids (touchChannel cid now l) = cids l := by
  induction l with
  | nil => rfl
  | cons c l ih =>
    rw [touchChannel]
    split_ifs
    · rfl
    · simpa [cids] using ih

theorem mem_touchChannel {cid : UInt32} {now : ℕ} {c : Channel} (hc : c ∈ touchChannel cid now l) :
    c ∈ l ∨ c.lastUsed = now := by
  induction l with
  | nil => cases hc
  | cons a l ih =>
    rw [touchChannel] at hc
    split_ifs at hc
    · rcases List.mem_cons.mp hc with rfl | hc
      · exact .inr rfl
      · exact .inl (List.mem_cons_of_mem _ hc)
    · rcases List.mem_cons.mp hc with rfl | hc
      · exact .inl List.mem_cons_self
      · exact (ih hc).imp_left (List.mem_cons_of_mem _)

theorem touch (h : Valid t l) (cid : UInt32) : Valid t (touchChannel cid t l) where
  nodup := by rw [cids_touchChannel]; exact h.nodup
  length_le := by
    have hlen := congrArg List.length (cids_touchChannel cid t l)
    simp only [cids, List.length_map] at hlen
    rw [hlen]
    exact h.length_le
  proper c hc := by
    have hmem : c.cid ∈ cids l := cids_touchChannel cid t l ▸ List.mem_map_of_mem hc
    obtain ⟨c', hc', heq⟩ := List.mem_map.mp hmem
    exact heq ▸ h.proper c' hc'
  used c hc := (mem_touchChannel hc).elim (h.used c) fun heq => heq.le

theorem room (h : Valid t l) : Valid t (room l) where
  nodup := h.nodup.sublist ((room_sublist l).map _)
  length_le := (length_room h.length_le).le
  proper c hc := h.proper c ((room_sublist l).subset hc)
  used c hc := h.used c ((room_sublist l).subset hc)

theorem concat (h : Valid t l) {cid : UInt32} (hlen : l.length < kMaxChannels) (h0 : cid ≠ 0)
    (hbroad : cid ≠ kBroadcastCid) (hfree : cid ∉ cids l) : Valid t (l ++ [⟨cid, t⟩]) where
  nodup := nodup_concat h.nodup hfree
  length_le := by simpa using hlen
  proper c hc := by
    rcases List.mem_append.mp hc with hc | hc
    · exact h.proper c hc
    · rw [List.mem_singleton.mp hc]
      exact ⟨h0, hbroad⟩
  used c hc := by
    rcases List.mem_append.mp hc with hc | hc
    · exact h.used c hc
    · rw [List.mem_singleton.mp hc]

end Valid

theorem Valid.exec {d d' : HidDevice} {i : Input} {out : Ingest} (h : Valid i.now d.channels)
    (hi : d.exec i = some (out, d')) : Valid i.now d'.channels := by
  cases i with
  | poll now =>
    obtain rfl : (d.pollTimeout now).2 = d' := congrArg Prod.snd (Option.some.inj hi)
    unfold pollTimeout
    split
    · split_ifs <;> exact h
    · exact h
  | report x =>
    rw [HidDevice.exec, arrive, ingest] at hi
    split_ifs at hi
    · cases hi
      exact h
    · -- INIT on the broadcast channel adds an entry, after making room for it
      obtain ⟨⟨assigned, d₁⟩, halloc, heq⟩ := Option.map_eq_some_iff.mp hi
      cases heq
      obtain ⟨h0, hbroad, hfree, _, rfl⟩ := allocateCid_eq_some halloc
      exact h.room.concat (length_room h.length_le) h0 hbroad hfree
    · obtain rfl : (d.receive x.report x.inflight x.now).2 = d' :=
        congrArg Prod.snd (Option.some.inj hi)
      unfold receive
      split
      · exact h
      · exact h
      · rcases dispatch_snd with heq | heq
        · rw [heq]
          exact h
        · rw [heq]
          exact h.touch _

theorem Reachable.valid {caps : UInt8} {msgSupported : Bool} {t : ℕ} {d : HidDevice}
    (h : Reachable caps msgSupported t d) : Valid t d.channels := by
  induction h with
  | new t => exact ⟨List.nodup_nil, Nat.zero_le _, fun _ hc => (by cases hc),
    fun _ hc => by cases hc⟩
  | exec _ hclock hi ih => exact (ih.mono hclock).exec hi

end HidDevice

end Swpasskey
