import Swpasskey.Ctap.HidDevice

/-!
# The channel table over a run

`Reachable.valid` has what every call keeps of the table. Here is what one call does to it: a
broadcast INIT allocates a channel that is free, at the cost of the oldest one when the table is
full, and only an allocated channel reaches the worker.
-/

namespace Swpasskey

namespace HidDevice

open HidFramer

/-- The id is one that `allocate_cid` takes while these channels are allocated. -/
def Acceptable (l : List Channel) (cid : UInt32) : Prop :=
  cid ≠ 0 ∧ cid ≠ kBroadcastCid ∧ cid ∉ cids l

/-- What becomes of the table before a channel is added: it is kept, or, when it is full, an oldest
channel is evicted. -/
inductive Survivors (l : List Channel) : List Channel → Prop
  | all (h : l.length < kMaxChannels) : Survivors l l
  | evicted (l₁ l₂ : List Channel) (c : Channel) (hl : l = l₁ ++ c :: l₂)
      (hfull : l.length = kMaxChannels) (hold : ∀ x ∈ l, c.lastUsed ≤ x.lastUsed) :
      Survivors l (l₁ ++ l₂)

/-- The response to a broadcast INIT: one report with the nonce and the new id. -/
structure InitReply (nonce : Bytes) (cid : UInt32) (rep : Report) : Prop where
  channel : readCidLe rep = kBroadcastCid
  cmd : rep.get 4 = kTypeInit ||| kCmdInit
  nonce : slice rep 7 8 = nonce
  assigned : slice rep 15 4 = writeCidLe cid

variable {d d' : HidDevice} {r : Report} {l : List Channel} {cid : UInt32} {now t : ℕ}
  {draws : List (Option UInt32)} {inflight : Option UInt32} {out : Ingest}

/-- The loop of `allocate_cid` ends at the latest with an acceptable draw. -/
theorem drawCid_isSome (hcid : Acceptable d.channels cid) (hdraw : some cid ∈ draws) :
    (d.drawCid now draws).isSome := by
  induction draws generalizing d with
  | nil => cases hdraw
  | cons raw draws ih =>
    -- only the counter differs from the device before the draw
    obtain ⟨fallback, hd₁⟩ : ∃ fallback, (if raw.isNone then
        { d with fallback := d.fallback + 0x9E3779B9 } else d) =
          { d with fallback := fallback } := by
      split_ifs
      · exact ⟨_, rfl⟩
      · exact ⟨d.fallback, rfl⟩
    rw [drawCid]
    simp only [hd₁]
    split_ifs with htaken
    · refine ih (d := { d with fallback := fallback }) hcid
        ((List.mem_cons.mp hdraw).resolve_left ?_)
      rintro rfl
      obtain ⟨h0, hbroad, hfree⟩ := hcid
      rcases htaken with h | h | h
      · exact h0 h
      · exact hbroad h
      · obtain ⟨c, hc, hsame⟩ := isAllocated_iff.mp h
        exact hfree (List.mem_map.mpr ⟨c, hc, hsame⟩)
    · rfl

/-- `room` keeps the table, or evicts an oldest channel of a full one. -/
theorem survivors_room (h : l.length ≤ kMaxChannels) : Survivors l (room l) := by
  unfold room
  split_ifs with hfull
  · have hne : l ≠ [] := by
      rintro rfl
      exact absurd hfull (by decide)
    obtain ⟨l₁, c, l₂, rfl, hreap, hlt, hle⟩ := reap_spec hne
    rw [hreap]
    -- the table is full, and the entry that goes is the first of the oldest
    refine .evicted l₁ l₂ c rfl (le_antisymm h hfull) fun x hx => ?_
    rcases List.mem_append.mp hx with hx | hx
    · exact (hlt x hx).le
    · rcases List.mem_cons.mp hx with rfl | hx
      · exact le_rfl
      · exact hle x hx
  · exact .all (not_le.mp hfull)

theorem initResponse_broadcast (d : HidDevice) {nonce : Bytes} (hnonce : nonce.length = 8)
    (cid : UInt32) : ∃ rep, d.initResponse kBroadcastCid nonce cid = [rep] ∧
      InitReply nonce cid rep := by
  obtain ⟨payload, hpayload⟩ : ∃ payload, payload =
    nonce ++ writeCidLe cid ++ [kHidVersion, 0, 1, 0, d.caps] := ⟨_, rfl⟩
  have hlen : payload.length = 17 := by simp [hpayload, hnonce, writeCidLe]
  obtain ⟨hdr, hhdr⟩ : ∃ hdr, hdr = writeCidLe kBroadcastCid ++ [kTypeInit ||| kCmdInit] ++
    writeU16Be (UInt16.ofNat payload.length) := ⟨_, rfl⟩
  have hhdrLen : hdr.length = 7 := by simp [hhdr, writeCidLe, writeU16Be]
  refine ⟨Block.ofPadded kReportSize (hdr ++ payload), ?_, ?_, ?_, ?_, ?_⟩
  · -- the message fits one report
    have hle : payload.length ≤ kInitPayload := by rw [hlen]; decide
    rw [initResponse, ← hpayload, frame, if_neg (by rw [hlen]; decide), List.take_succ_cons,
      List.take_zero, ← hhdr, List.take_of_length_le hle]
  all_goals
    have hfit : (hdr ++ payload).length ≤ kReportSize := by
      rw [List.length_append, hhdrLen, hlen]
      decide
  · rw [hhdr, List.append_assoc, List.append_assoc] at hfit ⊢
    exact readCidLe_ofPadded hfit
  · rw [Block.get_ofPadded hfit, hhdr]
    rfl
  · rw [← hhdrLen, slice_ofPadded hfit (by omega), hpayload, List.append_assoc,
      List.take_left' hnonce]
  · have hsplit : hdr ++ payload =
        (hdr ++ nonce) ++ (writeCidLe cid ++ [kHidVersion, 0, 1, 0, d.caps]) := by
      rw [hpayload]
      simp
    have hlen' : (hdr ++ nonce).length = 15 := by rw [List.length_append, hhdrLen, hnonce]
    rw [hsplit] at hfit ⊢
    rw [← hlen', slice_ofPadded hfit (by simp [writeCidLe])]
    rfl

/-- What a broadcast INIT does: the id in the reply is that of no surviving channel, and is now
allocated. -/
structure Allocates (d : HidDevice) (nonce : Bytes) (now : ℕ) (out : Ingest) (d' : HidDevice)
    (cid : UInt32) (survivors : List Channel) : Prop where
  reply : ∃ rep, out.reply = [rep] ∧ InitReply nonce cid rep
  kept : Survivors d.channels survivors
  fresh : Acceptable survivors cid
  channels : d'.channels = survivors ++ [⟨cid, now⟩]

theorem allocates_of_broadcastInit (hlen : d.channels.length ≤ kMaxChannels)
    (hinit : BroadcastInit r)
    (height : announced r = 8) (h : d.ingest r inflight now draws = some (out, d')) :
    ∃ cid survivors, Allocates d (slice r 7 8) now out d' cid survivors := by
  rw [ingest, if_pos hinit, if_neg (not_not.mpr height)] at h
  obtain ⟨⟨cid, d₁⟩, halloc, heq⟩ := Option.map_eq_some_iff.mp h
  obtain ⟨rfl, rfl⟩ := Prod.mk.inj heq
  obtain ⟨h0, hbroad, hfree, fallback, rfl⟩ := allocateCid_eq_some halloc
  have hnonce : (slice r 7 8).length = 8 := by
    rw [slice, List.length_take, List.length_drop, Block.length_bytes]
    decide
  obtain ⟨rep, hreply, hrep⟩ := initResponse_broadcast _ hnonce cid
  exact ⟨cid, room d.channels, ⟨rep, hreply, hrep⟩, survivors_room hlen, ⟨h0, hbroad, hfree⟩, rfl⟩

/-- A broadcast INIT is answered when there is an acceptable draw. -/
theorem ingest_isSome (hcid : Acceptable (room d.channels) cid) (hdraw : some cid ∈ draws) :
    (d.ingest r inflight now draws).isSome := by
  unfold ingest
  split_ifs
  · rfl
  · rw [Option.isSome_map, allocateCid_eq_drawCid]
    exact drawCid_isSome (d := { d with channels := room d.channels }) hcid hdraw
  · rfl

/-- Only a command of an allocated channel goes to the worker, and only when it is idle. -/
theorem toWorker_dispatch {msg m : Message}
    (h : (d.dispatch msg inflight now).1.toWorker = some m) :
    m = msg ∧ d.isAllocated msg.cid = true ∧ inflight = none := by
  unfold dispatch at h
  split_ifs at h with hinit hlen halloc hbad
  · cases h
  · cases h
  · cases h
  · have halloc : d.isAllocated msg.cid = true := by simpa using (not_or.mp hbad).2
    unfold execute at h
    split_ifs at h with hping hwink hcancel hmsg hcbor hbusy
    any_goals cases h
    exact ⟨rfl, halloc, by simpa using hbusy⟩

theorem toWorker_ingest {msg : Message} (h : d.ingest r inflight now draws = some (out, d'))
    (hmsg : out.toWorker = some msg) : d.isAllocated msg.cid = true ∧ inflight = none := by
  unfold ingest at h
  -- only a whole message that is dispatched goes to the worker
  split_ifs at h
  · cases h
    cases hmsg
  · obtain ⟨⟨cid, d₁⟩, -, heq⟩ := Option.map_eq_some_iff.mp h
    cases heq
    cases hmsg
  · obtain rfl : (d.receive r inflight now).1 = out := congrArg Prod.fst (Option.some.inj h)
    unfold receive at hmsg
    split at hmsg
    · cases hmsg
    · cases hmsg
    · obtain ⟨rfl, halloc, hidle⟩ := toWorker_dispatch hmsg
      exact ⟨halloc, hidle⟩

/-- **The channel table**, after any calls and whatever the random generator gave. At most four
channels are allocated, with distinct and proper ids. A broadcast INIT of eight bytes returns once
there is an acceptable draw, and then allocates. What goes to the worker is a command of an
allocated channel, while the worker is idle. -/
theorem channels_sound {caps : UInt8} {msgSupported : Bool} (h : Reachable caps msgSupported t d) :
    (d.channels.length ≤ 4 ∧ (cids d.channels).Nodup ∧
      ∀ c ∈ d.channels, c.cid ≠ 0 ∧ c.cid ≠ 0xFFFFFFFF) ∧
    (∀ r inflight now draws, BroadcastInit r → announced r = 8 →
      (∃ cid, some cid ∈ draws ∧ Acceptable (room d.channels) cid) →
        ∃ out d' cid survivors, d.ingest r inflight now draws = some (out, d') ∧
          Allocates d (slice r 7 8) now out d' cid survivors) ∧
    ∀ r inflight now draws out d' msg, d.ingest r inflight now draws = some (out, d') →
      out.toWorker = some msg → d.isAllocated msg.cid = true ∧ inflight = none := by
  have hvalid := h.valid
  refine ⟨⟨hvalid.length_le, hvalid.nodup, hvalid.proper⟩, ?_, ?_⟩
  · rintro r inflight now draws hinit height ⟨cid, hdraw, hcid⟩
    have hsome : (d.ingest r inflight now draws).isSome := ingest_isSome hcid hdraw
    obtain ⟨⟨out, d'⟩, hout⟩ := Option.isSome_iff_exists.mp hsome
    obtain ⟨cid', survivors, halloc⟩ :=
      allocates_of_broadcastInit hvalid.length_le hinit height hout
    exact ⟨out, d', cid', survivors, hout, halloc⟩
  · intro r inflight now draws out d' msg hout hmsg
    exact toWorker_ingest hout hmsg

/-- A broadcast INIT. -/
def initReport : Report :=
  Block.ofPadded kReportSize
    (writeCidLe kBroadcastCid ++ [kTypeInit ||| kCmdInit, 0, 8, 1, 2, 3, 4, 5, 6, 7, 8])

/-- A device with a full table. -/
def fullTable : HidDevice where
  caps := 5
  msgSupported := true
  channels := [⟨1, 0⟩, ⟨2, 0⟩, ⟨3, 0⟩, ⟨4, 0⟩]

theorem reachable_fullTable : Reachable 5 true 0 fullTable := by
  have hstep : ∀ {d d' : HidDevice} {out : Ingest} (cid : UInt32), Reachable 5 true 0 d →
      d.exec (.report ⟨initReport, none, 0, [some cid]⟩) = some (out, d') →
        Reachable 5 true 0 d' := fun _ h hi => h.exec le_rfl hi
  exact hstep 4 (hstep 3 (hstep 2 (hstep 1 (.new 0) rfl) rfl) rfl) rfl

theorem channels_sound_full : fullTable.channels.length ≤ 4 ∧
    ∃ out d' cid survivors,
      fullTable.ingest initReport (some 3) 9 [none, some 2, some 7] = some (out, d') ∧
        Allocates fullTable (slice initReport 7 8) 9 out d' cid survivors := by
  obtain ⟨htable, hinit, -⟩ := channels_sound reachable_fullTable
  refine ⟨htable.1, hinit initReport (some 3) 9 [none, some 2, some 7] (by decide) (by decide) ?_⟩
  exact ⟨7, by decide, by decide, by decide, by decide⟩

end HidDevice

end Swpasskey
