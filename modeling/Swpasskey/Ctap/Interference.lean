import Swpasskey.Ctap.HidDevice

/-!
# Channels that share the framer

Two questions about reports of other channels.

* A message in progress: while a channel sends the packets of a message, the reports of other
  channels are refused and change nothing, except that a broadcast INIT may reap the channel
  itself, which no packet before the last one refreshes. So the last packet has the outcome
  it would have had alone if and only if the channel is still allocated
  (`last_outcome_iff`), and it is as long as no more broadcast INITs come than there are free
  slots and channels ahead of it.
* A channel that is not allocated: only the message that comes out of the framer is checked,
  so such a channel can occupy the framer. Runs in which none of its reports touches the
  assembly are the same for everyone else without them (`outputs_sieve`).
-/

namespace Swpasskey

namespace HidDevice

open HidFramer

/-! ### A message in progress -/

/-- The devices after these arrivals. -/
def arriveAll (d : HidDevice) : List Arrival → Option HidDevice
  | [] => some d
  | x :: xs => (d.arrive x).bind fun (_, d) => d.arriveAll xs

/-- A broadcast INIT that gets a channel. -/
def Arrival.opens (x : Arrival) : Bool := BroadcastInit x.report ∧ announced x.report = 8

/-- The packets of `msg` that arrive between the first and the last one. -/
def Arrival.own (msg : Message) (x : Arrival) : Bool := x.cid = msg.cid

/-- `first`, the arrivals of its channel among `between`, and `last` are the packets of `msg`. -/
def Packets (msg : Message) (first : Arrival) (between : List Arrival) (last : Arrival) : Prop :=
  frame msg = first.report :: ((between.filter (Arrival.own msg)).map Arrival.report ++
    [last.report])

/-- How many broadcast INITs a channel survives. -/
def slack (cid : UInt32) (l : List Channel) : ℕ := (kMaxChannels - l.length) + ahead cid l

section InProgress

variable {d d' d₁ d₂ : HidDevice} {x : Arrival} {out : Ingest} {a : Channel} {msg : Message}
  {inflight : Option UInt32} {now t : ℕ}

/-- A channel survives one broadcast INIT if it has slack. -/
theorem slack_open {assigned : UInt32} {l : List Channel} (hnodup : (cids l).Nodup)
    (hlen : l.length ≤ kMaxChannels) (ha : a ∈ l) (hnow : a.lastUsed ≤ now)
    (hfree : assigned ∉ cids (room l)) (hpos : 0 < slack a.cid l) :
    a ∈ room l ++ [⟨assigned, now⟩] ∧
      slack a.cid (room l ++ [⟨assigned, now⟩]) + 1 = slack a.cid l := by
  have hconcat : (cids (room l ++ [⟨assigned, now⟩])).Nodup :=
    nodup_concat (hnodup.sublist ((room_sublist l).map _)) hfree
  by_cases hfull : l.length ≥ kMaxChannels
  · have hlen' := length_reap (List.ne_nil_of_mem ha)
    have hroom : room l = reap l := if_pos hfull
    have hahead : 0 < ahead a.cid l := by
      rw [slack] at hpos
      omega
    obtain ⟨hmem, hless⟩ := ahead_reap hnodup ha hahead
    rw [hroom] at hconcat ⊢
    refine ⟨List.mem_append_left _ hmem, ?_⟩
    rw [slack, ahead_concat hconcat hmem hnow, slack, List.length_append, List.length_singleton]
    omega
  · have hroom : room l = l := if_neg hfull
    rw [hroom] at hconcat ⊢
    refine ⟨List.mem_append_left _ ha, ?_⟩
    rw [slack, ahead_concat hconcat ha hnow, slack, List.length_append, List.length_singleton]
    omega

/-- The devices differ at most in the channel table and the counter. -/
def Alike (d d' : HidDevice) : Prop :=
  d'.caps = d.caps ∧ d'.msgSupported = d.msgSupported ∧ d'.framer = d.framer ∧
    d'.assemblingSince = d.assemblingSince

/-- A report of another channel, while a message is in progress: at most it opens a channel. -/
theorem arrive_of_other {b : Assembly} (hb : d.framer.assembly = some b) (hne : x.cid ≠ b.cid)
    (h : d.arrive x = some (out, d')) : Alike d d' ∧
      (x.opens = true ∧ (∃ assigned, assigned ∉ cids (room d.channels) ∧
        d'.channels = room d.channels ++ [⟨assigned, x.now⟩]) ∨
      x.opens = false ∧ d'.channels = d.channels) := by
  rw [arrive, ingest] at h
  split_ifs at h with hbroad hlen
  · cases h
    exact ⟨⟨rfl, rfl, rfl, rfl⟩, .inr ⟨by simp [Arrival.opens, hlen], rfl⟩⟩
  · obtain ⟨⟨assigned, d₁⟩, halloc, heq⟩ := Option.map_eq_some_iff.mp h
    cases heq
    obtain ⟨-, -, hfree, _, rfl⟩ := allocateCid_eq_some halloc
    refine ⟨⟨rfl, rfl, rfl, rfl⟩, .inl ⟨?_, assigned, hfree, rfl⟩⟩
    simp [Arrival.opens, hbroad, not_not.mp hlen]
  · have hfree : ¬ d.framer.Free (readCidLe x.report) := fun hf => hne (hf b hb).symm
    obtain ⟨e, he⟩ := receive_of_not_free x.inflight x.now hfree
    rw [he] at h
    cases h
    exact ⟨⟨rfl, rfl, rfl, rfl⟩, .inr ⟨by simp [Arrival.opens, hbroad], rfl⟩⟩

/-- A packet of the message in progress that does not complete it. -/
theorem arrive_of_part {f : HidFramer} (hbroad : x.cid ≠ kBroadcastCid)
    (h : d.framer.ingest x.report = (.ok none, f)) :
    d.arrive x = some ({}, { d with framer := f, assemblingSince := some x.now }) := by
  rw [arrive, ingest_of_not_broadcastInit fun hb => hbroad hb.1, receive, h]

/-- The packet that completes the message. -/
theorem arrive_of_whole {f : HidFramer} (hbroad : x.cid ≠ kBroadcastCid)
    (h : d.framer.ingest x.report = (.ok (some msg), f)) : d.arrive x =
      some ({ d with framer := f, assemblingSince := none }.dispatch msg x.inflight x.now) := by
  rw [arrive, ingest_of_not_broadcastInit fun hb => hbroad hb.1, receive, h]

/-- The first of some packets none of which completes the message. -/
theorem ingest_part_of_ingestAll {f f' : HidFramer} {r : Report} {rs : List Report} {n : ℕ}
    (h : f.ingestAll (r :: rs) = (List.replicate n (.ok none), f')) :
    ∃ b : Assembly, f.ingest r = (.ok none, ⟨some b⟩) ∧ b.cid = readCidLe r ∧
      (⟨some b⟩ : HidFramer).ingestAll rs = (List.replicate (n - 1) (.ok none), f') := by
  rw [ingestAll_cons] at h
  obtain ⟨houts, hlast⟩ := Prod.mk.inj h
  obtain ⟨n, rfl⟩ : ∃ m, n = m + 1 := by
    cases n with
    | zero => cases houts
    | succ m => exact ⟨m, rfl⟩
  obtain ⟨hout, hrest⟩ := List.cons.inj (houts.trans List.replicate_succ)
  generalize hing : f.ingest r = result at hout hrest hlast
  rcases hing ▸ ingest_outcome f r with e | e | ⟨b, hb, -, -⟩ | msg
  · cases hout
  · cases hout
  · exact ⟨b, rfl, hb, Prod.ext hrest hlast⟩
  · cases hout

/-- **Between the packets.** The device that also gets the reports of other channels stays
like the one that does not, and keeps the channel while there is slack. -/
theorem arriveAll_between (hbroad : msg.cid ≠ kBroadcastCid) (between : List Arrival)
    {e₁ e₂ : HidDevice} {b : Assembly} {n : ℕ} {f : HidFramer} (halike : Alike e₁ e₂)
    (hb : e₁.framer.assembly = some b) (hcid : b.cid = msg.cid)
    (hown : e₁.framer.ingestAll ((between.filter (Arrival.own msg)).map Arrival.report) =
      (List.replicate n (.ok none), f))
    (h : e₁.arriveAll between = some d₁) :
    ∃ d₂, e₂.arriveAll (between.filter (Arrival.own msg)) = some d₂ ∧ Alike d₁ d₂ ∧
      d₁.framer = f ∧ d₂.channels = e₂.channels ∧
      ∀ a ∈ e₁.channels, a.cid = msg.cid → (cids e₁.channels).Nodup →
        e₁.channels.length ≤ kMaxChannels → (∀ x ∈ between, a.lastUsed ≤ x.now) →
        between.countP Arrival.opens ≤ slack a.cid e₁.channels → a ∈ d₁.channels := by
  -- on the reports that come, with the assembly of the message kept all the way
  induction between generalizing e₁ e₂ b n with
  | nil =>
    cases h
    exact ⟨e₂, rfl, halike, (Prod.mk.inj hown).2, rfl, fun a ha _ _ _ _ _ => ha⟩
  | cons x between ih =>
    rw [arriveAll] at h
    obtain ⟨⟨out, e₁'⟩, hx, h⟩ := Option.bind_eq_some_iff.mp h
    by_cases hmine : x.cid = msg.cid
    · -- a packet of the message: both devices take it
      have hmine' : Arrival.own msg x = true := decide_eq_true hmine
      rw [List.filter_cons_of_pos hmine'] at hown ⊢
      obtain ⟨b', hpart, hb', hrest⟩ := ingest_part_of_ingestAll hown
      have hx₂ : e₂.framer.ingest x.report = (.ok none, ⟨some b'⟩) := halike.2.2.1 ▸ hpart
      have hbroad' : x.cid ≠ kBroadcastCid := hmine ▸ hbroad
      rw [arrive_of_part hbroad' hpart] at hx
      cases hx
      have halike' : Alike { e₁ with framer := ⟨some b'⟩, assemblingSince := some x.now }
          { e₂ with framer := ⟨some b'⟩, assemblingSince := some x.now } :=
        ⟨halike.1, halike.2.1, rfl, rfl⟩
      obtain ⟨d₂, hd₂, hend⟩ := ih halike' rfl (hb'.trans hmine) hrest h
      refine ⟨d₂, ?_, hend.1, hend.2.1, hend.2.2.1, fun a ha hacid hnodup hlen hnow hcount => ?_⟩
      · rw [arriveAll, arrive_of_part hbroad' hx₂]
        exact hd₂
      · refine hend.2.2.2 a ha hacid hnodup hlen (fun y hy => hnow y (List.mem_cons_of_mem _ hy)) ?_
        exact (List.sublist_cons_self x between).countP_le.trans hcount
    · -- a report of another channel: at most it opens a channel
      have hmine' : ¬ Arrival.own msg x = true := fun h => hmine (of_decide_eq_true h)
      rw [List.filter_cons_of_neg hmine'] at hown ⊢
      obtain ⟨halike', htable⟩ := arrive_of_other hb (hcid ▸ hmine) hx
      have halike₂ : Alike e₁' e₂ := ⟨halike.1.trans halike'.1.symm,
        halike.2.1.trans halike'.2.1.symm, halike.2.2.1.trans halike'.2.2.1.symm,
        halike.2.2.2.trans halike'.2.2.2.symm⟩
      have hframer : e₁'.framer = e₁.framer := halike'.2.2.1
      obtain ⟨d₂, hd₂, hend⟩ := ih halike₂ (hframer ▸ hb) hcid (hframer ▸ hown) h
      refine ⟨d₂, hd₂, hend.1, hend.2.1, hend.2.2.1, fun a ha hacid hnodup hlen hnow hcount => ?_⟩
      have hnow' : ∀ y ∈ between, a.lastUsed ≤ y.now := fun y hy =>
        hnow y (List.mem_cons_of_mem _ hy)
      rcases htable with ⟨hopens, assigned, hfree, htable⟩ | ⟨hcloses, htable⟩
      · rw [List.countP_cons_of_pos hopens] at hcount
        obtain ⟨hmem, hless⟩ := slack_open hnodup hlen ha (hnow x List.mem_cons_self) hfree
          (Nat.lt_of_lt_of_le (Nat.succ_pos _) hcount)
        refine hend.2.2.2 a (htable ▸ hmem) hacid ?_ ?_ hnow' ?_
        · rw [htable]
          exact nodup_concat (hnodup.sublist ((room_sublist _).map _)) hfree
        · rw [htable, List.length_append, List.length_singleton]
          exact length_room hlen
        · rw [htable]
          omega
      · rw [List.countP_cons_of_neg (by simp [hcloses])] at hcount
        rw [htable] at hend
        exact hend.2.2.2 a ha hacid hnodup hlen hnow' hcount

/-- A message longer than an INIT report takes is not framed as one report. -/
theorem length_frame_ne_one (hlong : kInitPayload < msg.payload.length) :
    (frame msg).length ≠ 1 := by
  unfold frame
  split_ifs
  · exact Nat.zero_ne_one
  · have hrest : msg.payload.drop kInitPayload ≠ [] := by
      rw [Ne, List.drop_eq_nil_iff]
      exact not_le.mpr hlong
    rw [frameCont, dif_neg hrest]
    simp

theorem get_errorPacket (cid : UInt32) (e : HidErr) :
    (errorPacket cid e).get 4 = kTypeInit ||| kCmdError ∧ (errorPacket cid e).get 7 = e.code := by
  have hlen : (writeCidLe cid ++ [kTypeInit ||| kCmdError, 0, 1, e.code]).length ≤ kReportSize :=
    (by decide : 8 ≤ kReportSize)
  exact ⟨Block.get_ofPadded hlen, Block.get_ofPadded hlen⟩

/-- A command of an allocated channel is never answered as if the channel were not. -/
theorem execute_ne_invalidChannel (hlong : kInitPayload < msg.payload.length) :
    d.execute msg inflight ≠ fail msg.cid .invalidChannel := by
  have hother : ∀ e : HidErr, e.code ≠ HidErr.invalidChannel.code →
      fail msg.cid e ≠ fail msg.cid .invalidChannel := by
    intro e hne heq
    have hpacket := List.singleton_inj.mp (congrArg Ingest.reply heq)
    have hcode := congrArg (Block.get · 7) hpacket
    simp only [(get_errorPacket _ _).2] at hcode
    exact hne hcode
  unfold execute
  split_ifs with hping hwink hcancel hmsgCmd hcbor hbusy
  · intro heq
    exact length_frame_ne_one hlong (congrArg (fun i => i.reply.length) heq)
  · intro heq
    have hframe : frame ⟨msg.cid, kCmdWink, []⟩ = [errorPacket msg.cid .invalidChannel] :=
      congrArg Ingest.reply heq
    have hcmd := get_four_of_frame hframe
    rw [(get_errorPacket _ _).1] at hcmd
    have hne : kTypeInit ||| kCmdError ≠ kTypeInit ||| kCmdWink := by decide
    exact hne hcmd
  · exact fun heq => List.cons_ne_nil _ _ (congrArg Ingest.reply heq).symm
  · exact hother _ (by decide)
  · exact hother _ (by decide)
  · exact fun heq => List.cons_ne_nil _ _ (congrArg Ingest.reply heq).symm
  · exact hother _ (by decide)

theorem dispatch_fst_congr (hcaps : d'.caps = d.caps) (hmsg : d'.msgSupported = d.msgSupported)
    (halloc : d'.isAllocated msg.cid = d.isAllocated msg.cid) :
    (d'.dispatch msg inflight now).1 = (d.dispatch msg inflight now).1 := by
  unfold dispatch
  rw [halloc]
  split_ifs
  · rfl
  · simp [initResponse, hcaps]
  · rfl
  · rfl
  · simp [execute, touch, hmsg]

/-- The outcome of a complete message, at a device that has the channel and one that may have
lost it. -/
theorem dispatch_fst_eq_iff (hcaps : d'.caps = d.caps) (hmsg : d'.msgSupported = d.msgSupported)
    (halloc : d'.isAllocated msg.cid = true) (hbroad : msg.cid ≠ kBroadcastCid)
    (hlong : kInitPayload < msg.payload.length) :
    (d.dispatch msg inflight now).1 = (d'.dispatch msg inflight now).1 ↔
      msg.cmd = kCmdInit ∨ d.isAllocated msg.cid = true := by
  constructor
  · intro heq
    by_contra hnot
    obtain ⟨hinit, hlost⟩ := not_or.mp hnot
    simp only [dispatch, hinit, hlost, halloc, hbroad] at heq
    exact execute_ne_invalidChannel hlong heq.symm
  · rintro (hinit | hkept)
    · have hlen : msg.payload.length ≠ 8 := by
        simp only [kInitPayload] at hlong
        omega
      simp [dispatch, hinit, hlen]
    · exact dispatch_fst_congr hcaps.symm hmsg.symm (hkept.trans halloc.symm)

/-- The framer over the packets of a message: the first one and those between do not complete
it, the last one does. -/
theorem ingest_packets {f : HidFramer} {first last : Arrival} {between : List Arrival}
    (h0 : msg.cid ≠ 0) (hcmd : msg.cmd < 128) (hlen : msg.payload.length ≤ 7550)
    (hfree : f.Free msg.cid) (hpackets : Packets msg first between last) :
    ∃ (b : Assembly) (n : ℕ) (f' : HidFramer), f.ingest first.report = (.ok none, ⟨some b⟩) ∧
      b.cid = msg.cid ∧ (⟨some b⟩ : HidFramer).ingestAll
        ((between.filter (Arrival.own msg)).map Arrival.report) =
          (List.replicate n (.ok none), f') ∧
      f'.ingest last.report = (.ok (some msg), {}) := by
  have htrip : RoundTrips f msg := roundTrips_of_le h0 hcmd hfree hlen
  rw [RoundTrips, hpackets, ← List.cons_append, ingestAll_append] at htrip
  obtain ⟨houts, hend⟩ := Prod.mk.inj htrip
  obtain ⟨hparts, hlast⟩ := List.append_inj' houts rfl
  obtain ⟨b, hfirst, hcid, hbetween⟩ := ingest_part_of_ingestAll (Prod.ext hparts rfl)
  have hfirstCid : readCidLe first.report = msg.cid :=
    readCidLe_of_mem_frame (hpackets ▸ List.mem_cons_self)
  refine ⟨b, _, _, hfirst, hcid.trans hfirstCid, hbetween, ?_⟩
  exact Prod.ext (List.singleton_inj.mp hlast) hend

/-- **A message in progress.** At every device that can be reached, let the packets of a
message of more than one report and at most 7550 bytes arrive on an allocated channel, with
any reports of other channels between them and no timeout. The last packet has the outcome
it would have had without these reports if and only if the channel is still allocated when it
arrives (or the command is INIT, which such a message is too long for). The channel is, unless
more broadcast INITs came than there were free slots and channels ahead of it. -/
theorem last_outcome_iff {caps : UInt8} {msgSupported : Bool} {first last : Arrival}
    {between : List Arrival} (hd : Reachable caps msgSupported t d)
    (halloc : d.isAllocated msg.cid = true) (hfree : d.framer.Free msg.cid) (hcmd : msg.cmd < 128)
    (hlong : kInitPayload < msg.payload.length) (hlen : msg.payload.length ≤ 7550)
    (hpackets : Packets msg first between last) (hclock : ∀ x ∈ between, t ≤ x.now)
    (h₁ : d.arriveAll (first :: between) = some d₁) :
    ∃ d₂, d.arriveAll (first :: between.filter (Arrival.own msg)) = some d₂ ∧
      ((d₁.arrive last).map Prod.fst = (d₂.arrive last).map Prod.fst ↔
        msg.cmd = kCmdInit ∨ d₁.isAllocated msg.cid = true) ∧
      (between.countP Arrival.opens ≤ slack msg.cid d.channels →
        d₁.isAllocated msg.cid = true) := by
  obtain ⟨a, ha, hacid⟩ := isAllocated_iff.mp halloc
  obtain ⟨h0, hbroad⟩ := hacid ▸ hd.valid.proper a ha
  obtain ⟨b, n, f, hfirst, hb, hbetween, hlast⟩ := ingest_packets h0 hcmd hlen hfree hpackets
  have hcidFirst : first.cid = msg.cid :=
    readCidLe_of_mem_frame (hpackets ▸ List.mem_cons_self)
  have hcidLast : last.cid = msg.cid := readCidLe_of_mem_frame (hpackets ▸ by simp)
  rw [arriveAll, arrive_of_part (hcidFirst ▸ hbroad) hfirst] at h₁ ⊢
  obtain ⟨d₂, hd₂, halike, hframer, hchannels, htable⟩ :=
    arriveAll_between hbroad between ⟨rfl, rfl, rfl, rfl⟩ rfl hb hbetween h₁
  refine ⟨d₂, hd₂, ?_, fun hcount => ?_⟩
  · -- alone, the message loses nothing: the channel is still allocated
    have halloc₂ : d₂.isAllocated msg.cid = true := by
      rw [isAllocated, hchannels]
      exact halloc
    have hlast₂ : d₂.framer.ingest last.report = (.ok (some msg), {}) := by
      rw [halike.2.2.1, hframer]
      exact hlast
    rw [arrive_of_whole (hcidLast ▸ hbroad) (hframer ▸ hlast),
      arrive_of_whole (hcidLast ▸ hbroad) hlast₂, Option.map_some, Option.map_some, Option.some_inj]
    exact dispatch_fst_eq_iff halike.1 halike.2.1 halloc₂ hbroad hlong
  · refine isAllocated_iff.mpr ⟨a, htable a ha hacid hd.valid.nodup hd.valid.length_le ?_ ?_, hacid⟩
    · exact fun x hx => (hd.valid.used a ha).trans (hclock x hx)
    · rw [hacid]
      exact hcount

end InProgress

/-- A broadcast INIT that is given the channel `cid`. -/
def Arrival.init (cid : UInt32) (now : ℕ) : Arrival where
  report := Block.ofPadded kReportSize (writeCidLe kBroadcastCid ++ [kTypeInit ||| kCmdInit, 0, 8])
  inflight := none
  now := now
  draws := [some cid]

/-- A report of channel `cid` with these bytes behind the channel. -/
def Arrival.of (cid : UInt32) (l : Bytes) : Arrival where
  report := Block.ofPadded kReportSize (writeCidLe cid ++ l)
  inflight := none
  now := 1
  draws := []

/-- The two packets of a CBOR message of 58 bytes. -/
theorem packets_cbor {between : List Arrival}
    (h : between.filter (Arrival.own ⟨1, kCmdCbor, List.replicate 58 0⟩) = []) :
    Packets ⟨1, kCmdCbor, List.replicate 58 0⟩
      (.of 1 (0x90 :: 0 :: 58 :: List.replicate 57 0)) between (.of 1 [0, 0]) := by
  have hrest : (List.replicate 58 (0 : UInt8)).drop kInitPayload = [0] := rfl
  have hnil : ([0] : Bytes).drop kContPayload = [] := rfl
  rw [Packets, h, frame, if_neg (by decide), hrest, frameCont, dif_neg (List.cons_ne_nil _ _), hnil,
    frameCont, dif_pos rfl]
  rfl

/-- A device with one channel. -/
theorem reachable_one : Reachable 5 true 0
    { caps := 5, msgSupported := true, channels := [⟨1, 0⟩] } :=
  .exec (i := .report (.init 1 0)) (.new 0) le_rfl rfl

theorem last_outcome_iff_cbor :
    let d : HidDevice := { caps := 5, msgSupported := true, channels := [⟨1, 0⟩] }
    ∃ d₁ d₂, d.arriveAll [.of 1 (0x90 :: 0 :: 58 :: List.replicate 57 0), .init 2 1] = some d₁ ∧
      d.arriveAll [.of 1 (0x90 :: 0 :: 58 :: List.replicate 57 0)] = some d₂ ∧
      (d₁.arrive (.of 1 [0, 0])).map Prod.fst = (d₂.arrive (.of 1 [0, 0])).map Prod.fst := by
  have hpackets := packets_cbor (show ([.init 2 1] : List Arrival).filter
    (Arrival.own ⟨1, kCmdCbor, List.replicate 58 0⟩) = [] by decide)
  obtain ⟨d₂, hd₂, hiff, hkept⟩ := last_outcome_iff reachable_one (by decide)
    (fun _ h => by cases h) (by decide) (by decide) (by decide) hpackets (by decide) rfl
  exact ⟨_, d₂, rfl, hd₂, hiff.mpr (.inr (hkept (by decide)))⟩

/-- Four broadcast INITs between the two packets of a CBOR message reap its channel. -/
theorem not_last_outcome : ¬ ∀ (caps : UInt8) (msgSupported : Bool) (t : ℕ) (d d₁ : HidDevice)
    (msg : Message) (first last : Arrival) (between : List Arrival),
    Reachable caps msgSupported t d → d.isAllocated msg.cid = true → d.framer.Free msg.cid →
      msg.cmd < 128 → kInitPayload < msg.payload.length → msg.payload.length ≤ 7550 →
      Packets msg first between last → (∀ x ∈ between, t ≤ x.now) →
      d.arriveAll (first :: between) = some d₁ →
      ∃ d₂, d.arriveAll (first :: between.filter (Arrival.own msg)) = some d₂ ∧
        (d₁.arrive last).map Prod.fst = (d₂.arrive last).map Prod.fst := by
  intro h
  obtain ⟨d₂, hd₂, heq⟩ := h 5 true 0 _ _ ⟨1, kCmdCbor, List.replicate 58 0⟩ _ _
    [.init 2 1, .init 3 1, .init 4 1, .init 5 1] reachable_one (by decide) (fun _ h => by cases h)
    (by decide) (by decide) (by decide) (packets_cbor (by decide)) (by decide) rfl
  obtain rfl := Option.some.inj hd₂
  have hworker := congrArg (Option.map Ingest.toWorker) heq
  exact absurd hworker (by decide +kernel)

/-! ### Channels that are not allocated -/

/-- A call that is not the report of an unallocated channel; a broadcast INIT is kept. -/
def kept (d : HidDevice) : Input → Bool
  | .report x => d.isAllocated x.cid ∨ BroadcastInit x.report
  | .poll _ => true

/-- The calls that are kept along a run, each judged at the device it comes to. -/
def sieve (d : HidDevice) : List Input → List Input
  | [] => []
  | i :: is =>
    match d.exec i with
    | none => []
    | some (_, d') => if d.kept i then i :: d'.sieve is else d'.sieve is

/-- What a run answers to the calls that are kept. -/
def keptOutputs (d : HidDevice) : List Input → List Ingest
  | [] => []
  | i :: is =>
    match d.exec i with
    | none => []
    | some (out, d') => if d.kept i then out :: d'.keptOutputs is else d'.keptOutputs is

/-- The report does not touch the assembly: it is refused because another channel's message is
in progress, or the framer is idle and stays so. -/
def Aside (d : HidDevice) (r : Report) : Prop :=
  readCidLe r = 0 ∨ ¬ d.framer.Free (readCidLe r) ∨ d.framer.assembly = none ∧ Passing r

/-- Every report that is not kept stays aside. -/
def AllAside (d : HidDevice) : List Input → Prop
  | [] => True
  | i :: is => (∀ x, i = .report x → d.kept i = false → d.Aside x.report) ∧
      ∀ out d', d.exec i = some (out, d') → d'.AllAside is

section Sieve

variable {d d' e : HidDevice} {i : Input} {out : Ingest}

/-- The devices differ at most in a timer that is not running. -/
def Twin (d e : HidDevice) : Prop :=
  e = d ∨ d.framer.assembly = none ∧ ∃ since, e = { d with assemblingSince := since }

theorem drawCid_withSince (since : Option ℕ) (now : ℕ) (draws : List (Option UInt32)) :
    { d with assemblingSince := since }.drawCid now draws =
      (d.drawCid now draws).map fun p => (p.1, { p.2 with assemblingSince := since }) := by
  induction draws generalizing d with
  | nil => rfl
  | cons raw draws ih =>
    rw [drawCid, drawCid]
    cases raw with
    | none =>
      simp only [Option.isNone_none, if_true, Option.getD_none]
      split_ifs with htaken htaken' htaken'
      · exact ih (d := { d with fallback := d.fallback + 0x9E3779B9 })
      · exact absurd htaken htaken'
      · exact absurd htaken' htaken
      · rfl
    | some cid =>
      simp only [Option.isNone_some, Bool.false_eq_true, if_false, Option.getD_some]
      split_ifs with htaken htaken' htaken'
      · exact ih
      · exact absurd htaken htaken'
      · exact absurd htaken' htaken
      · rfl

theorem allocateCid_withSince (since : Option ℕ) (now : ℕ) (draws : List (Option UInt32)) :
    { d with assemblingSince := since }.allocateCid now draws =
      (d.allocateCid now draws).map fun p => (p.1, { p.2 with assemblingSince := since }) := by
  unfold allocateCid
  split_ifs
  · exact drawCid_withSince (d := { d with channels := reap d.channels }) since now draws
  · exact drawCid_withSince since now draws

/-- The timer is not read by a report, which at an idle framer either leaves it alone or sets
it anew. -/
theorem Twin.arrive {x : Arrival} (h : Twin d e) (hx : d.arrive x = some (out, d')) :
    ∃ e', e.arrive x = some (out, e') ∧ Twin d' e' := by
  rcases h with rfl | ⟨hidle, since, rfl⟩
  · exact ⟨d', hx, .inl rfl⟩
  · rw [HidDevice.arrive, ingest] at hx ⊢
    split_ifs at hx ⊢
    · cases hx
      exact ⟨_, rfl, .inr ⟨hidle, since, rfl⟩⟩
    · obtain ⟨⟨assigned, d₁⟩, halloc, heq⟩ := Option.map_eq_some_iff.mp hx
      cases heq
      obtain ⟨-, -, -, _, hd₁⟩ := allocateCid_eq_some halloc
      rw [allocateCid_withSince, halloc]
      refine ⟨_, rfl, .inr ⟨?_, since, rfl⟩⟩
      rw [hd₁]
      exact hidle
    · rw [receive] at hx ⊢
      dsimp only at hx ⊢
      generalize hout : d.framer.ingest x.report = result at hx ⊢
      rcases hout ▸ ingest_outcome d.framer x.report with err | err | a | msg
      · cases hx
        exact ⟨_, rfl, .inr ⟨hidle, since, rfl⟩⟩
      · cases hx
        exact ⟨_, rfl, .inr ⟨rfl, since, rfl⟩⟩
      · cases hx
        exact ⟨_, rfl, .inl rfl⟩
      · exact ⟨d', hx, .inl rfl⟩

/-- Twins answer alike. -/
theorem Twin.exec (h : Twin d e) (hi : d.exec i = some (out, d')) :
    ∃ e', e.exec i = some (out, e') ∧ Twin d' e' := by
  cases i with
  | report x => exact h.arrive hi
  | poll now =>
    rcases h with rfl | ⟨hidle, since, rfl⟩
    · exact ⟨d', hi, .inl rfl⟩
    · simp only [HidDevice.exec, pollTimeout, hidle] at hi ⊢
      cases hi
      exact ⟨_, rfl, .inr ⟨hidle, since, rfl⟩⟩

/-- A report that is not kept and stays aside leaves a twin. -/
theorem Twin.aside {x : Arrival} (h : Twin d e) (hkept : d.kept (.report x) = false)
    (haside : d.Aside x.report) (hx : d.arrive x = some (out, d')) : Twin d' e := by
  simp only [kept, decide_eq_false_iff_not, not_or, Bool.not_eq_true] at hkept
  rw [HidDevice.arrive, ingest_of_not_broadcastInit hkept.2] at hx
  have hrefused : ∀ err, d.framer.ingest x.report = (.error err, d.framer) → Twin d' e := by
    intro err herr
    rw [receive, herr] at hx
    cases hx
    exact h
  rcases haside with hzero | hbusy | ⟨hidle, hpassing⟩
  · exact hrefused _ (if_pos hzero)
  · obtain ⟨err, herr⟩ := ingest_of_not_free hbusy
    exact hrefused err herr
  · rcases ingest_of_passing hidle hpassing with ⟨err, herr⟩ | ⟨msg, hmsg, hcid⟩
    · exact hrefused err herr
    · -- a whole message: it is refused after the timer was stopped
      have hnot : { d with assemblingSince := none }.isAllocated msg.cid = false := by
        rw [hcid]
        exact hkept.1
      obtain ⟨err, herr⟩ := dispatch_of_not_allocated msg x.inflight x.now hnot
      rw [receive, hmsg] at hx
      obtain rfl : d' = { d with assemblingSince := none } :=
        congrArg Prod.snd ((Option.some.inj hx).symm.trans herr)
      rcases h with heq | ⟨-, since, rfl⟩
      · exact .inr ⟨hidle, d.assemblingSince, heq⟩
      · exact .inr ⟨hidle, since, rfl⟩

/-- **The sieved run.** Twins, one of which gets only the calls that are kept, answer them
alike. -/
theorem Twin.run_sieve (is : List Input) {outs : List Ingest} (h : Twin d e)
    (haside : d.AllAside is) (hrun : d.run is = some (outs, d')) :
    ∃ e', e.run (d.sieve is) = some (d.keptOutputs is, e') := by
  induction is generalizing d e outs with
  | nil => exact ⟨e, rfl⟩
  | cons i is ih =>
    obtain ⟨⟨out, d₁⟩, hi, hrest⟩ := Option.bind_eq_some_iff.mp hrun
    obtain ⟨⟨outs', d₂⟩, his, hend⟩ := Option.bind_eq_some_iff.mp hrest
    cases hend
    rw [sieve, keptOutputs, hi]
    dsimp only
    split_ifs with hkept
    · obtain ⟨e₁, he₁, htwin⟩ := h.exec hi
      obtain ⟨e', he'⟩ := ih htwin (haside.2 _ _ hi) his
      refine ⟨e', ?_⟩
      rw [HidDevice.run, he₁]
      simp [he']
    · cases i with
      | poll now => exact absurd rfl hkept
      | report x =>
        have hkept : d.kept (.report x) = false := Bool.not_eq_true _ ▸ hkept
        exact ih (h.aside hkept (haside.1 x rfl hkept) hi) (haside.2 _ _ hi) his

end Sieve

/-- **Channels that are not allocated.** In every run of a new device in which the reports of
such channels stay aside of the assembly, leaving them out changes no answer to any other
report. -/
theorem outputs_sieve (caps : UInt8) (msgSupported : Bool) (is : List Input) {outs : List Ingest}
    {d' : HidDevice} (haside : AllAside { caps, msgSupported } is)
    (hrun : run { caps, msgSupported } is = some (outs, d')) :
    ∃ e', run { caps, msgSupported } (sieve { caps, msgSupported } is) =
      some (keptOutputs { caps, msgSupported } is, e') :=
  Twin.run_sieve is (.inl rfl) haside hrun

/-- A ping of a channel that is not allocated, between an INIT and a command. -/
theorem outputs_sieve_ping :
    let is : List Input :=
      [.report (.init 1 0), .report (.of 9 [0x81, 0, 1, 7]), .report (.of 1 [0x90, 0, 1, 4])]
    AllAside { caps := 5, msgSupported := true } is ∧
      ∃ e', run { caps := 5, msgSupported := true } (sieve { caps := 5, msgSupported := true } is) =
        some (keptOutputs { caps := 5, msgSupported := true } is, e') := by
  intro is
  have haside : AllAside { caps := 5, msgSupported := true } is := by
    refine ⟨fun x _ hkept => absurd hkept (by decide), ?_⟩
    rintro _ _ ⟨⟩
    refine ⟨fun x hx _ => ?_, ?_⟩
    · cases hx
      exact .inr (.inr ⟨rfl, .inr (.inl (by decide))⟩)
    · rintro _ _ ⟨⟩
      exact ⟨fun x _ hkept => absurd hkept (by decide), fun _ _ _ => trivial⟩
  exact ⟨haside, outputs_sieve 5 true is haside rfl⟩

/-- A channel that is not allocated opens a long message: the command that follows on an
allocated channel is refused. -/
theorem not_outputs_sieve : ¬ ∀ (caps : UInt8) (msgSupported : Bool) (is : List Input)
    (outs : List Ingest) (d' : HidDevice), run { caps, msgSupported } is = some (outs, d') →
      ∃ e', run { caps, msgSupported } (sieve { caps, msgSupported } is) =
        some (keptOutputs { caps, msgSupported } is, e') := by
  intro h
  let d : HidDevice := { caps := 5, msgSupported := true }
  let is : List Input :=
    [.report (.init 1 0), .report (.of 9 [0x81, 0, 100]), .report (.of 1 [0x90, 0, 1, 4])]
  obtain ⟨e', he'⟩ := h 5 true is _ _ rfl
  have hworker : (d.run (d.sieve is)).map (fun p => p.1.map Ingest.toWorker) =
      some ((d.keptOutputs is).map Ingest.toWorker) :=
    congrArg (Option.map fun p => p.1.map Ingest.toWorker) he'
  exact absurd hworker (by decide +kernel)

end HidDevice

end Swpasskey
