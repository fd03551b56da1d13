import Swpasskey.Daemon.Delivery

/-!
# Cancel and resync

What CANCEL, and INIT on an allocated channel, do to the command in flight.

* **No cancel leaks** (`cancelled_by`): the handler sees its token cancelled only after a
  CANCEL or an INIT on its own channel, between the admission and the completion of its
  command. The one token of the loop is reset with the slot, under the lock.
* **A cancel can be lost** (`cancelTakes_iff`): a CANCEL goes through the shared framer and
  the channel table like any message, so it takes effect exactly when no other channel's
  message is in progress and the channel has not been reaped.
* **A resync does not abort** (`resynced`): it cancels the token and no more, so the command
  still answers. After the INIT response no packet of an earlier command follows on the channel
  in the runs in which each INIT finds nothing of its channel in the slot or the outbox.
-/

namespace Swpasskey

open HidFramer HidDevice

namespace Loop

section Steps

variable {s s' : Loop} {a : Action} {ing : Ingest} {d : HidDevice} {r : Report} {now : ℕ}
  {draws : List (Option UInt32)} {msg : Message}

/-- Between reading a report and ingesting it the HID thread writes nothing. -/
def Ready (s : Loop) : Prop := ∀ r, s.hid = .ingest r → s.batch = []

theorem Ready.step (h : Ready s) (hstep : s.step a = some s') : Ready s' := by
  rcases step_stepped hstep with ⟨p, rest, hbatch⟩ | ⟨now⟩ | ⟨now⟩ | ⟨r, -, hbatch⟩ | ⟨r⟩ | ⟨msg⟩ |
    ⟨up⟩ | ⟨result⟩ | ⟨n, resp⟩
  · intro r hr
    exact absurd ((h r hr).symm.trans hbatch) (List.cons_ne_nil _ _).symm
  · unfold drained
    split_ifs <;> exact fun _ hr => by cases hr
  · exact fun _ hr => by cases hr
  · exact fun _ _ => hbatch
  · exact fun _ hr => by cases hr
  · exact h
  · exact h
  · exact h
  · exact h

/-! ### A cancel that is lost -/

/-- A complete CANCEL on a channel. -/
def IsCancel (cid : UInt32) (r : Report) : Prop :=
  readCidLe r = cid ∧ r.get 4 = kTypeInit ||| kCmdCancel ∧ announced r ≤ kInitPayload

instance (cid : UInt32) (r : Report) : Decidable (IsCancel cid r) :=
  inferInstanceAs (Decidable (_ ∧ _ ∧ _))

/-- Ingesting the report sets `cancel_inflight`, and the token of the command in flight. -/
def CancelTakes (s : Loop) (r : Report) : Prop :=
  ∀ now draws started, ∃ ing d s', s.device.ingest r s.busyCid now draws = some (ing, d) ∧
    ing.cancelInflight = true ∧ s.step (.ingest now draws started) = some s' ∧
      s'.inflight.cmd = s.inflight.cmd ∧ s'.inflight.token.cancelled = true

/-- What the device makes of a CANCEL on the busy channel. -/
theorem ingest_cancel {cid : UInt32} (hcancel : IsCancel cid r) (h0 : cid ≠ 0)
    (hbroad : cid ≠ kBroadcastCid) :
    ∃ ing d', d.ingest r (some cid) now draws = some (ing, d') ∧ ing.toWorker = none ∧
      (ing.cancelInflight = true ↔ d.framer.Free cid ∧ d.isAllocated cid = true) := by
  obtain ⟨rfl, hcmd, hshort⟩ := hcancel
  have hnot : ¬ BroadcastInit r := fun h => hbroad h.1
  rw [ingest_of_not_broadcastInit hnot]
  refine ⟨(d.receive r (some (readCidLe r)) now).1,
    (d.receive r (some (readCidLe r)) now).2, rfl, ?_⟩
  by_cases hfree : d.framer.Free (readCidLe r)
  · obtain ⟨payload, hmsg⟩ := ingest_single hfree h0 (by rw [hcmd]; decide) hshort
    have hcmd' : r.get 4 &&& 0x7F = kCmdCancel := by rw [hcmd]; decide
    rw [hcmd'] at hmsg
    obtain ⟨d₁, hd₁, hsame⟩ : ∃ d₁ : HidDevice, d.receive r (some (readCidLe r)) now =
        d₁.dispatch ⟨readCidLe r, kCmdCancel, payload⟩ (some (readCidLe r)) now ∧
          d₁.isAllocated (readCidLe r) = d.isAllocated (readCidLe r) :=
      ⟨_, receive_of_whole hmsg, rfl⟩
    rw [hd₁, ← hsame]
    -- the report is a whole message, whatever was being assembled on the channel
    by_cases halloc : d₁.isAllocated (readCidLe r) = true
    · rw [dispatch_cancel halloc hbroad]
      exact ⟨rfl, fun _ => ⟨hfree, halloc⟩, fun _ => decide_eq_true rfl⟩
    · obtain ⟨e, he⟩ := dispatch_of_not_allocated ⟨readCidLe r, kCmdCancel, payload⟩
        (some (readCidLe r)) now (Bool.eq_false_iff.mpr halloc)
      rw [he]
      exact ⟨rfl, fun h => (by cases h), fun h => absurd h.2 halloc⟩
  · obtain ⟨e, he⟩ := receive_of_not_free (some (readCidLe r)) now hfree
    rw [he]
    exact ⟨rfl, fun h => (by cases h), fun h => absurd h.1 hfree⟩

theorem busyCid_of_busy (hslot : Slot s) (hcmd : s.inflight.cmd = some msg) :
    s.busyCid = some msg.cid := by
  rw [busyCid, hcmd, Option.map_some, (hslot.busy msg hcmd).2.2.2.1]

theorem step_ingest (hhid : s.hid = .ingest r) (hbatch : s.batch = []) {started : ℕ}
    (h : s.device.ingest r s.busyCid now draws = some (ing, d)) :
    s.step (.ingest now draws started) = some (s.ingested r ing d started) := by
  rw [step, hhid, hbatch]
  dsimp only
  rw [h]
  rfl

end Steps

/-- **Cancel.** In every state that is reached with a command in flight, a CANCEL that the HID
thread has read on its channel takes effect if and only if no other channel's message is in
progress and the channel is still allocated. -/
theorem cancelTakes_iff (supportsU2f : Bool) (as : List Action) (s : Loop) (msg : Message)
    (r : Report) (h : Machine.run step (new supportsU2f) as = some s)
    (hcmd : s.inflight.cmd = some msg) (hhid : s.hid = .ingest r) (hcancel : IsCancel msg.cid r) :
    CancelTakes s r ↔ s.device.framer.Free msg.cid ∧ s.device.isAllocated msg.cid = true := by
  have hinv : Slot s ∧ Ready s := Machine.run_invariant (I := fun s => Slot s ∧ Ready s)
    ⟨slot_new _, fun r hr => by cases hr⟩
    (fun _ _ _ hstep hs => ⟨hs.1.step hstep, hs.2.step hstep⟩) h
  obtain ⟨-, -, -, -, h0, hbroad⟩ := hinv.1.busy msg hcmd
  have hbusy := busyCid_of_busy hinv.1 hcmd
  constructor
  · intro htakes
    obtain ⟨ing, d, -, hing, hset, -⟩ := htakes 0 [] 0
    obtain ⟨ing', d', hing', -, hiff⟩ := ingest_cancel (d := s.device) hcancel h0 hbroad
    rw [hbusy] at hing
    cases hing.symm.trans hing'
    exact hiff.mp hset
  · intro hok now draws started
    obtain ⟨ing, d, hing, hnone, hiff⟩ := ingest_cancel (d := s.device) hcancel h0 hbroad
    rw [← hbusy] at hing
    refine ⟨ing, d, _, hing, hiff.mpr hok, step_ingest hhid (hinv.2 r hhid) hing, ?_, ?_⟩
    · exact (after_of_none hnone _ _).1
    · simp [ingested, Inflight.after, hnone, hiff.mpr hok, hcmd]

/-- CANCEL on a channel. -/
def cancelReport (cid : UInt32) : Report := report cid [kTypeInit ||| kCmdCancel, 0, 0]

/-- A getInfo is in flight and the HID thread has read a CANCEL for it. -/
theorem cancelTakes_getInfo :
    ∃ s, Machine.run step (new true) (opening 1 ++ getInfo 1 ++
      [.drain 0, .poll 0, .read (some (cancelReport 1))]) = some s ∧
        CancelTakes s (cancelReport 1) := by
  obtain ⟨s, hs, hcmd, hhid, hidle, halloc⟩ := Machine.exists_run_of_any step
    (new true) (opening 1 ++ getInfo 1 ++ [.drain 0, .poll 0, .read (some (cancelReport 1))])
    (fun s => s.inflight.cmd = some ⟨1, kCmdCbor, [4]⟩ ∧ s.hid = .ingest (cancelReport 1) ∧
      s.device.framer.assembly = none ∧ s.device.isAllocated 1 = true) (by decide +kernel)
  refine ⟨s, hs, ?_⟩
  refine (cancelTakes_iff true _ s _ _ hs hcmd hhid (by decide)).mpr ⟨?_, halloc⟩
  exact fun a ha => by cases hidle.symm.trans ha

/-- Channel 2 has sent the first packet of a long message: the CANCEL for the command on channel
1 is refused. -/
theorem not_cancelTakes : ¬ ∀ (supportsU2f : Bool) (as : List Action) (s : Loop) (msg : Message)
    (r : Report), Machine.run step (new supportsU2f) as = some s → s.inflight.cmd = some msg →
      s.hid = .ingest r → IsCancel msg.cid r → CancelTakes s r := by
  intro h
  obtain ⟨s, hs, hcmd, hhid, hnot⟩ := Machine.exists_run_of_any step (new true)
    (opening 1 ++ opening 2 ++ getInfo 1 ++
      receives (report 2 [kTypeInit ||| kCmdCbor, 0, 100]) [] ++
        [.drain 0, .poll 0, .read (some (cancelReport 1))])
    (fun s => s.inflight.cmd = some ⟨1, kCmdCbor, [4]⟩ ∧ s.hid = .ingest (cancelReport 1) ∧
      ((s.device.ingest (cancelReport 1) s.busyCid 0 []).map fun out => out.1.cancelInflight) =
        some false) (by decide +kernel)
  obtain ⟨ing, d, -, hing, hset, -⟩ := h true _ s _ _ hs hcmd hhid (by decide) 0 [] 0
  rw [hing] at hnot
  exact absurd (hset.symm.trans (Option.some.inj hnot)) (by decide)

/-! ### No cancel leaks -/

/-- Along the actions, a CANCEL or an INIT on the channel of `msg` was completed while `msg` was
the command in flight, with number `n`. -/
def CancelledBy (supportsU2f : Bool) (as : List Action) (n : ℕ) (msg : Message) : Prop :=
  ∃ as₁ now draws started as₂ s₁ r m, as = as₁ ++ .ingest now draws started :: as₂ ∧
    Machine.run step (new supportsU2f) as₁ = some s₁ ∧ s₁.hid = .ingest r ∧
      Completes s₁.device r m ∧ (m.cmd = kCmdCancel ∨ m.cmd = kCmdInit) ∧ m.cid = msg.cid ∧
        s₁.inflight.cmd = some msg ∧ s₁.admitted[n]? = some msg ∧ s₁.answers.length = n

theorem CancelledBy.concat {supportsU2f : Bool} {as : List Action} {n : ℕ} {msg : Message}
    (h : CancelledBy supportsU2f as n msg) (a : Action) :
    CancelledBy supportsU2f (as ++ [a]) n msg := by
  obtain ⟨as₁, now, draws, started, as₂, s₁, r, m, rfl, h⟩ := h
  exact ⟨as₁, now, draws, started, as₂ ++ [a], s₁, r, m, by simp, h⟩

/-- A report that cancels is a CANCEL or an INIT on the busy channel. -/
theorem completes_of_cancel {d d' : HidDevice} {r : Report} {inflight : Option UInt32} {now : ℕ}
    {draws : List (Option UInt32)} {ing : Ingest}
    (h : d.ingest r inflight now draws = some (ing, d')) (hcancel : ing.cancelInflight = true) :
    ∃ m, Completes d r m ∧ (m.cmd = kCmdCancel ∨ m.cmd = kCmdInit) ∧ inflight = some m.cid := by
  rcases ingest_handled h with ⟨d', nonce, assigned⟩ | ⟨cid, e⟩ | _ | ⟨d', msg, hmsg, hcmd, -⟩ |
    ⟨m, hcmd⟩ | ⟨msg, hmsg, hcmd⟩ | ⟨msg, hmsg, hidle, hcmd, hcid⟩
  · cases hcancel
  · cases hcancel
  · cases hcancel
  · exact ⟨msg, hmsg, .inr hcmd, of_decide_eq_true hcancel⟩
  · cases hcancel
  · exact ⟨msg, hmsg, .inl hcmd, of_decide_eq_true hcancel⟩
  · cases hcancel

/-- A cancelled token belongs to the command in the slot. -/
def TokenOwned (supportsU2f : Bool) (as : List Action) (s : Loop) : Prop :=
  ∀ msg, s.inflight.cmd = some msg → s.inflight.token.cancelled = true →
    CancelledBy supportsU2f as s.inflight.number msg

theorem TokenOwned.step {supportsU2f : Bool} {as : List Action} {s s' : Loop} {a : Action}
    (hrun : Machine.run Loop.step (new supportsU2f) as = some s) (hslot : Slot s)
    (hstep : s.step a = some s') (h : TokenOwned supportsU2f as s) :
    TokenOwned supportsU2f (as ++ [a]) s' := by
  have hkeep : TokenOwned supportsU2f (as ++ [a]) s := fun msg hmsg htoken =>
    (h msg hmsg htoken).concat a
  rcases step_stepped hstep with ⟨p, rest⟩ | ⟨now⟩ | ⟨now⟩ | ⟨r⟩ |
    ⟨r, now, draws, started, ing, d, hhid, -, hing⟩ | ⟨msg⟩ | ⟨up⟩ | ⟨result⟩ | ⟨n, resp⟩
  · exact hkeep
  · unfold drained
    split_ifs <;> exact hkeep
  · exact hkeep
  · exact hkeep
  · intro msg hmsg htoken
    rcases ingested_cases hing with hnone | ⟨m, rfl, -⟩
    · obtain ⟨hcmd, -, hnumber⟩ := after_of_none (f := s.inflight) hnone started s.admitted.length
      have hmsg' : s.inflight.cmd = some msg := hcmd.symm.trans hmsg
      change CancelledBy supportsU2f _ (Inflight.after s.inflight ing started _).number msg
      rw [hnumber]
      by_cases hcancel : ing.cancelInflight = true
      · -- the report itself cancels
        obtain ⟨m, hm, hcmd', hbusy⟩ := completes_of_cancel hing hcancel
        obtain ⟨hnum, -, hadmitted, -⟩ := hslot.busy msg hmsg'
        refine ⟨as, now, draws, started, [], s, r, m, rfl, hrun, hhid, hm, hcmd', ?_, hmsg',
          ?_, hnum.symm⟩
        · exact (Option.some.inj ((busyCid_of_busy hslot hmsg').symm.trans hbusy)).symm
        · rw [hnum]
          exact hadmitted
      · have hsame : Inflight.after s.inflight ing started s.admitted.length = s.inflight := by
          simp [Inflight.after, hnone, hcancel]
        have htoken' : (Inflight.after s.inflight ing started s.admitted.length).token.cancelled =
          true := htoken
        rw [hsame] at htoken'
        exact hkeep msg hmsg' htoken'
    · cases htoken
  · exact hkeep
  · exact hkeep
  · exact hkeep
  · intro msg hmsg
    cases hmsg

/-- **No leaked cancel.** In every state that any interleaving reaches, the handler running a
command sees its token cancelled only if a CANCEL or an INIT on the command's own channel was
completed between the admission of the command and now. -/
theorem cancelled_by (supportsU2f : Bool) (as : List Action) (s : Loop) (n : ℕ) (msg : Message)
    (h : Machine.run step (new supportsU2f) as = some s) (hworker : s.worker = .working n msg)
    (hcancelled : s.inflight.token.cancelled = true) : CancelledBy supportsU2f as n msg := by
  have hinv : Slot s ∧ TokenOwned supportsU2f as s := by
    refine Machine.run_induction (I := fun as s => Slot s ∧ TokenOwned supportsU2f as s)
      (P := fun _ _ => True) ⟨slot_new _, fun msg hmsg => by cases hmsg⟩ ?_
      (fun _ _ _ _ _ _ => trivial) h
    rintro as s₁ a s₂ hrun - hstep ⟨hslot, howned⟩
    exact ⟨hslot.step hstep, howned.step hrun hslot hstep⟩
  obtain ⟨hcmd, rfl⟩ := hinv.1.working n msg hworker
  exact hinv.2 msg hcmd hcancelled

/-- A getInfo is cancelled while the handler runs. -/
theorem cancelled_by_getInfo :
    let as := opening 1 ++ getInfo 1 ++ [.take] ++ receives (cancelReport 1) []
    ∃ s, Machine.run step (new true) as = some s ∧ s.worker = .working 0 ⟨1, kCmdCbor, [4]⟩ ∧
      s.inflight.token.cancelled = true ∧ CancelledBy true as 0 ⟨1, kCmdCbor, [4]⟩ := by
  intro as
  obtain ⟨s, hs, hworker, htoken⟩ := Machine.exists_run_of_any step (new true) as
    (fun s => s.worker = .working 0 ⟨1, kCmdCbor, [4]⟩ ∧
      s.inflight.token.cancelled = true) (by decide +kernel)
  exact ⟨s, hs, hworker, htoken, cancelled_by true as s _ _ hs hworker htoken⟩

/-! ### A resync does not abort -/

/-- After the response to an INIT on a channel comes no keepalive and no response on the channel
for a command that was admitted before the INIT. -/
def AfterResync (p q : Packet) : Prop :=
  ∀ k n, p.origin = .resync k → (q.origin = .keepalive n ∨ q.origin = .response n) →
    readCidLe q.report = readCidLe p.report → k ≤ n

/-- The report an action ingests. -/
def ingesting (s : Loop) : Action → Option Report
  | .ingest _ _ _ =>
    match s.hid with
    | .ingest r => some r
    | _ => none
  | _ => none

/-- When an INIT completes on an allocated channel, the slot holds no command of that channel
and the outbox no packet of it. -/
def Settled (s : Loop) (a : Action) : Prop :=
  ∀ r ∈ s.ingesting a, resyncs s.device r = true →
    s.busyCid ≠ some (readCidLe r) ∧ ∀ q ∈ s.outbox, readCidLe q.report ≠ readCidLe r

instance (s : Loop) (a : Action) : Decidable (Settled s a) :=
  inferInstanceAs (Decidable (∀ r ∈ s.ingesting a, _))

section Resync

variable {s s' : Loop} {a : Action} {ing : Ingest} {d d' : HidDevice} {r : Report} {now : ℕ}
  {draws : List (Option UInt32)} {p q : Packet} {inflight : Option UInt32}

theorem afterResync_left (h : ∀ k, p.origin ≠ .resync k) : AfterResync p q :=
  fun k _ hk => absurd hk (h k)

theorem afterResync_right (h : Packet.Own q) : AfterResync p q := by
  rintro k n - (hn | hn) -
  · rcases h with h | ⟨_, h⟩ <;> cases h.symm.trans hn
  · rcases h with h | ⟨_, h⟩ <;> cases h.symm.trans hn

/-- The response to an INIT on a channel goes to the channel. -/
theorem reply_of_resyncs (h : resyncs d r = true)
    (hing : d.ingest r inflight now draws = some (ing, d')) :
    ing.toWorker = none ∧ ∀ p ∈ ing.reply, readCidLe p = readCidLe r := by
  unfold resyncs at h
  split at h
  · rename_i msg hmsg
    obtain ⟨hbroad, hcmd, hlen, halloc⟩ := of_decide_eq_true h
    have hcid : msg.cid = readCidLe r := (Completes.cid_eq ⟨hbroad, hmsg⟩).1
    rw [ingest_of_not_broadcastInit hbroad] at hing
    obtain rfl : (d.receive r inflight now).1 = ing := congrArg Prod.fst (Option.some.inj hing)
    rw [receive_of_whole (Prod.ext hmsg rfl), dispatch_resync hcmd hlen]
    swap
    · exact halloc
    refine ⟨rfl, fun p hp => ?_⟩
    rw [readCidLe_of_mem_frame (List.mem_of_mem_take hp), hcid]
  · cases h

/-- What holds along the runs whose INITs find their channel settled. -/
structure ResyncInv (s : Loop) : Prop where
  pairwise : (s.written ++ s.batch ++ s.outbox).Pairwise AfterResync
  outbox : ∀ q ∈ s.outbox, ∃ n, q.origin = .response n
  /-- The command in the slot was admitted after every INIT answered on its channel. -/
  slot : ∀ p ∈ s.written ++ s.batch, ∀ k, p.origin = .resync k → k ≤ s.admitted.length ∧
    (s.busyCid = some (readCidLe p.report) → k ≤ s.inflight.number)

namespace ResyncInv

/-- The HID thread's own packets, none of them the response to an INIT on a channel. -/
theorem replied (h : ResyncInv s) (hbatch : s.batch = []) {l : List Packet}
    (hl : ∀ p ∈ l, p.origin = .reply) (hout : s'.outbox = s.outbox)
    (hwritten : s'.written = s.written) (hbatch' : s'.batch = l)
    (hslot : ∀ p : Packet, ∀ k, k ≤ s.admitted.length ∧
      (s.busyCid = some (readCidLe p.report) → k ≤ s.inflight.number) →
        k ≤ s'.admitted.length ∧ (s'.busyCid = some (readCidLe p.report) →
          k ≤ s'.inflight.number)) :
    ResyncInv s' := by
  obtain ⟨hpair, houtbox, hbusy⟩ := h
  rw [hbatch, List.append_nil] at hpair hbusy
  -- a reply is no resync, and nothing of a command
  have hnot : ∀ p ∈ l, ∀ k, p.origin ≠ .resync k := fun p hp k hk => by
    cases (hl p hp).symm.trans hk
  obtain ⟨hsent, hqueued, hafter⟩ := List.pairwise_append.mp hpair
  refine ⟨?_, hout ▸ houtbox, fun p hp k hk => ?_⟩
  · rw [hout, hwritten, hbatch']
    refine List.pairwise_append.mpr ⟨List.pairwise_append.mpr ⟨hsent, ?_, ?_⟩, hqueued, ?_⟩
    · exact List.pairwise_of_forall_mem_list fun p hp q _ => afterResync_left (hnot p hp)
    · exact fun p _ q hq => afterResync_right (.inl (hl q hq))
    · intro p hp q hq
      rcases List.mem_append.mp hp with hp | hp
      · exact hafter p hp q hq
      · exact afterResync_left (hnot p hp)
  · rw [hwritten, hbatch'] at hp
    rcases List.mem_append.mp hp with hp | hp
    · exact hslot p k (hbusy p hp k hk)
    · exact absurd hk (hnot p hp k)

theorem drained (h : ResyncInv s) (hbatch : s.batch = []) (now : ℕ) :
    ResyncInv (s.drained now) := by
  obtain ⟨hpair, houtbox, hbusy⟩ := h
  rw [hbatch, List.append_nil] at hpair hbusy
  have hslot : ∀ p ∈ s.written ++ s.outbox, ∀ k, p.origin = .resync k → k ≤ s.admitted.length ∧
      (s.busyCid = some (readCidLe p.report) → k ≤ s.inflight.number) := by
    intro p hp k hk
    rcases List.mem_append.mp hp with hp | hp
    · exact hbusy p hp k hk
    · obtain ⟨n, hn⟩ := houtbox p hp
      cases hn.symm.trans hk
  unfold Loop.drained
  -- the keepalive goes behind the outbox, and is for the command in the slot
  split_ifs with hdue
  · refine ⟨?_, fun q hq => (by cases hq), fun p hp k hk => ?_⟩
    · rw [List.append_nil, ← List.append_assoc]
      refine List.pairwise_append.mpr ⟨hpair, List.pairwise_singleton _ _, fun p hp q hq => ?_⟩
      rw [List.mem_singleton.mp hq]
      rintro k n hk (hn | hn) hcid
      · cases hn
        refine (hslot p hp k hk).2 ?_
        obtain ⟨msg, hmsg⟩ := Option.isSome_iff_exists.mp (of_decide_eq_true hdue).1
        rw [busyCid, hmsg, Option.map_some, ← hcid, readCidLe_keepalivePacket]
      · cases hn
    · rw [← List.append_assoc] at hp
      rcases List.mem_append.mp hp with hp | hp
      · exact hslot p hp k hk
      · cases List.mem_singleton.mp hp
        cases hk
  · exact ⟨by rwa [List.append_nil], fun q hq => (by cases hq), hslot⟩

theorem ingested {started : ℕ} (h : ResyncInv s) (hbatch : s.batch = [])
    (hing : s.device.ingest r s.busyCid now draws = some (ing, d))
    (hsettled : resyncs s.device r = true →
      s.busyCid ≠ some (readCidLe r) ∧ ∀ q ∈ s.outbox, readCidLe q.report ≠ readCidLe r) :
    ResyncInv (s.ingested r ing d started) := by
  have hslot : ∀ p : Packet, ∀ k, k ≤ s.admitted.length ∧
      (s.busyCid = some (readCidLe p.report) → k ≤ s.inflight.number) →
        k ≤ (s.ingested r ing d started).admitted.length ∧
          ((s.ingested r ing d started).busyCid = some (readCidLe p.report) →
            k ≤ (s.ingested r ing d started).inflight.number) := by
    rintro p k ⟨hk, hbusy⟩
    refine ⟨hk.trans (List.prefix_append _ _).length_le, fun hcid => ?_⟩
    rcases ingested_cases hing with hnone | ⟨msg, rfl, -⟩
    · obtain ⟨hcmd, hsame, hnumber⟩ := after_of_none (f := s.inflight) hnone started
        s.admitted.length
      refine (hbusy ?_).trans hnumber.ge
      rw [← hcid, busyCid, busyCid]
      exact congrArg₂ (fun (c : Option Message) cid => c.map fun _ => cid) hcmd.symm hsame.symm
    · exact hk
  by_cases hre : resyncs s.device r = true
  · obtain ⟨hidle, hclear⟩ := hsettled hre
    obtain ⟨hnone, hreply⟩ := reply_of_resyncs hre hing
    obtain ⟨hpair, houtbox, hbusy⟩ := h
    rw [hbatch, List.append_nil] at hpair hbusy
    obtain ⟨hsent, hqueued, hafter⟩ := List.pairwise_append.mp hpair
    have hmem : ∀ p ∈ (s.ingested r ing d started).batch,
        p.origin = .resync s.admitted.length ∧ readCidLe p.report = readCidLe r := by
      intro p hp
      obtain ⟨x, hx, rfl⟩ := List.mem_map.mp hp
      exact ⟨by rw [replyOrigin, if_pos hre], hreply x hx⟩
    refine ⟨List.pairwise_append.mpr ⟨List.pairwise_append.mpr ⟨hsent, ?_, ?_⟩, hqueued, ?_⟩,
      houtbox, fun p hp k hk => ?_⟩
    · exact List.pairwise_of_forall_mem_list
        fun p _ q hq => afterResync_right (.inr ⟨_, (hmem q hq).1⟩)
    · exact fun p _ q hq => afterResync_right (.inr ⟨_, (hmem q hq).1⟩)
    · intro p hp q hq
      rcases List.mem_append.mp hp with hp | hp
      · exact hafter p hp q hq
      · -- nothing of the channel is waiting
        intro k n _ _ hcid
        exact absurd (hcid.trans (hmem p hp).2) (hclear q hq)
    · rcases List.mem_append.mp hp with hp | hp
      · exact hslot p k (hbusy p hp k hk)
      · cases (hmem p hp).1.symm.trans hk
        refine hslot p _ ⟨le_rfl, fun hcid => ?_⟩
        exact absurd (hcid.trans (congrArg some (hmem p hp).2)) hidle
  · refine h.replied hbatch (fun p hp => ?_) rfl rfl rfl hslot
    obtain ⟨x, -, rfl⟩ := List.mem_map.mp hp
    rw [replyOrigin, if_neg hre]

theorem published {n : ℕ} {resp : Message} (h : ResyncInv s) (hslot : Slot s)
    (hworker : s.worker = .publishing n resp) : ResyncInv (s.published n resp) := by
  obtain ⟨hpair, houtbox, hbusy⟩ := h
  obtain ⟨msg, hcmd, rfl, hcid, -⟩ := hslot.publishing n resp hworker
  have hmem : ∀ q ∈ responsePackets s.inflight.number resp,
      q.origin = .response s.inflight.number ∧ readCidLe q.report = msg.cid := by
    intro q hq
    obtain ⟨x, hx, rfl⟩ := List.mem_map.mp hq
    exact ⟨rfl, (readCidLe_of_mem_frame hx).trans hcid⟩
  refine ⟨?_, fun q hq => ?_, fun p hp k hk => ?_⟩
  · change (s.written ++ s.batch ++ (s.outbox ++ responsePackets _ resp)).Pairwise AfterResync
    rw [← List.append_assoc]
    refine List.pairwise_append.mpr ⟨hpair, ?_, fun p hp q hq => ?_⟩
    · refine List.pairwise_of_forall_mem_list fun p hp q _ => afterResync_left fun k hk => ?_
      cases (hmem p hp).1.symm.trans hk
    · rcases List.mem_append.mp hp with hp | hp
      · -- the command was in the slot until now
        rintro k m hk (hm | hm) hsame
        · cases (hmem q hq).1.symm.trans hm
        · cases (hmem q hq).1.symm.trans hm
          refine (hbusy p hp k hk).2 ?_
          rw [busyCid_of_busy hslot hcmd, ← hsame, (hmem q hq).2]
      · obtain ⟨m, hm⟩ := houtbox p hp
        exact afterResync_left fun k hk => by cases hm.symm.trans hk
  · rcases List.mem_append.mp hq with hq | hq
    · exact houtbox q hq
    · exact ⟨_, (hmem q hq).1⟩
  · exact ⟨(hbusy p hp k hk).1, fun hidle => by cases hidle⟩

theorem step (h : ResyncInv s) (hslot : Slot s) (hsettled : Settled s a)
    (hstep : s.step a = some s') : ResyncInv s' := by
  rcases step_stepped hstep with ⟨p, rest, hbatch⟩ | ⟨now, -, hbatch⟩ | ⟨now, -, hbatch⟩ | ⟨r⟩ |
    ⟨r, now, draws, started, ing, d, hhid, hbatch, hing⟩ | ⟨msg⟩ | ⟨up⟩ | ⟨result⟩ |
    ⟨n, resp, hworker⟩
  · obtain ⟨hpair, houtbox, hbusy⟩ := h
    have hsame : s.written ++ [p] ++ rest = s.written ++ s.batch := by
      rw [hbatch, List.append_assoc, List.singleton_append]
    rw [← hsame] at hpair hbusy
    exact ⟨hpair, houtbox, hbusy⟩
  · exact h.drained hbatch now
  · refine h.replied hbatch (fun p hp => ?_) rfl rfl rfl fun p k hk => hk
    obtain ⟨x, -, rfl⟩ := List.mem_map.mp hp
    rfl
  · exact ⟨h.pairwise, h.outbox, h.slot⟩
  · exact h.ingested hbatch hing (hsettled r (by rw [ingesting, hhid]; rfl))
  · exact ⟨h.pairwise, h.outbox, h.slot⟩
  · exact ⟨h.pairwise, h.outbox, h.slot⟩
  · exact ⟨h.pairwise, h.outbox, h.slot⟩
  · exact h.published hslot hworker

end ResyncInv

end Resync

/-- **Resync.** In every run in which each INIT on an allocated channel finds no command of the
channel in the slot and no packet of it in the outbox, nothing of a command admitted before the
INIT is written on the channel after the INIT's response. -/
theorem resynced (supportsU2f : Bool) (as : List Action) (s : Loop)
    (hsettled : Machine.Along step Settled (new supportsU2f) as)
    (h : Machine.run step (new supportsU2f) as = some s) : s.written.Pairwise AfterResync := by
  have hinv : Slot s ∧ ResyncInv s := by
    refine Machine.run_induction (I := fun _ s => Slot s ∧ ResyncInv s) ⟨slot_new _, ?_⟩ ?_
      hsettled h
    · exact ⟨List.Pairwise.nil, fun q hq => (by cases hq), fun p hp => by cases hp⟩
    · rintro _ s₁ a s₂ - ha hstep ⟨hslot, hresync⟩
      exact ⟨hslot.step hstep, hresync.step hslot ha hstep⟩
  exact (List.pairwise_append.mp (List.pairwise_append.mp hinv.2.pairwise).1).1

/-- INIT on a channel. -/
def initReport (cid : UInt32) : Report := report cid [kTypeInit ||| kCmdInit, 0, 8]

/-- A getInfo is answered, and the response written, before the INIT. -/
theorem resynced_getInfo :
    let as := opening 1 ++ getInfo 1 ++ [.take,
      .finish (.cbor (.error .operationDenied)), .publish] ++
      [.drain 0, .write, .poll 0, .read (some (initReport 1)), .ingest 0 [] 0, .write]
    ∃ s, Machine.run step (new true) as = some s ∧
      s.written.map Packet.origin = [.reply, .response 0, .resync 1] ∧
        s.written.Pairwise AfterResync := by
  intro as
  obtain ⟨s, hs, hwritten⟩ := Machine.exists_run_of_any step (new true) as
    (fun s => s.written.map Packet.origin = [.reply, .response 0, .resync 1]) (by decide +kernel)
  exact ⟨s, hs, hwritten, resynced true as s (by decide +kernel) hs⟩

/-- The INIT comes while the handler runs: its response is written at once, and the response to
the getInfo after it, on the same channel. -/
theorem not_resynced : ¬ ∀ (supportsU2f : Bool) (as : List Action) (s : Loop),
    Machine.run step (new supportsU2f) as = some s → s.written.Pairwise AfterResync := by
  intro h
  obtain ⟨s, hs, hp, hq⟩ := Machine.exists_run_of_any step (new true)
    (opening 1 ++ getInfo 1 ++ [.take] ++ receives (initReport 1) [] ++
      [.write, .finish (.cbor (.error .operationDenied)), .publish, .drain 0, .write])
    (fun s => s.written[1]?.map (fun p => (p.origin, readCidLe p.report)) = some (.resync 1, 1) ∧
      s.written[2]?.map (fun q => (q.origin, readCidLe q.report)) = some (.response 0, 1))
    (by decide +kernel)
  obtain ⟨p, hp, hpair⟩ := Option.map_eq_some_iff.mp hp
  obtain ⟨q, hq, hqair⟩ := Option.map_eq_some_iff.mp hq
  obtain ⟨hp1, rfl⟩ := List.getElem?_eq_some_iff.mp hp
  obtain ⟨hq2, rfl⟩ := List.getElem?_eq_some_iff.mp hq
  have hafter := List.pairwise_iff_getElem.mp (h true _ s hs) 1 2 hp1 hq2 (by decide)
  have hle := hafter 1 0 (congrArg Prod.fst hpair) (.inr (congrArg Prod.fst hqair))
    ((congrArg Prod.snd hqair).trans (congrArg Prod.snd hpair).symm)
  exact absurd hle (by decide)

end Loop

end Swpasskey
