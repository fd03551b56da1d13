import Swpasskey.Ctap.HidDevice
import Swpasskey.Ctap.Reassembly

/-!
# The inter-packet timeout

`poll_timeout` looks at a time stamp that `HidDevice` keeps beside the framer, and the framer drops
its assembly on several paths without telling. What the time stamp should be is known to the
history of the calls: which call opened the message in progress, and when its last packet was
accepted (`Progress`). The history reads the framer only. That the device's time stamp agrees with
it whenever there is an assembly is the invariant of `Watched`.
-/

namespace Swpasskey

namespace HidDevice

open HidFramer

/-- The message in progress: the number of the call that opened it, and the time at which its last
packet was accepted. -/
structure Progress where
  opened : ℕ
  last : ℕ
  deriving DecidableEq, Repr

/-- The report is accepted into an assembly, whose message is not complete with it. -/
def accepts (d : HidDevice) (r : Report) : Bool :=
  !decide (BroadcastInit r) &&
    match (d.framer.ingest r).1 with
    | .ok none => true
    | _ => false

/-- The message in progress after the `n`-th call, from the device before and the device after. -/
def observe (d d' : HidDevice) (n : ℕ) (w : Option Progress) : Input → Option Progress
  | .report x =>
    if d.accepts x.report then
      -- an INIT report opens a message, also where there was one
      if x.report.get 4 &&& kTypeInit ≠ 0 then some ⟨n, x.now⟩
      else w.map fun p => { p with last := x.now }
    else if d'.framer.assembly.isSome then w else none
  | .poll _ => if d'.framer.assembly.isSome then w else none

/-- The message that a call reports as timed out. -/
def timedOut (d : HidDevice) (w : Option Progress) : Input → List ℕ
  | .report _ => []
  | .poll now => if (d.pollTimeout now).1.isSome then (w.map Progress.opened).toList else []

/-- The runs of a new device up to time `t`: `n` calls, the message in progress and the messages
that were reported as timed out. The clock does not go back. -/
inductive Watched (caps : UInt8) (msgSupported : Bool) :
    ℕ → ℕ → HidDevice → Option Progress → List ℕ → Prop
  | new (t : ℕ) : Watched caps msgSupported t 0 { caps, msgSupported } none []
  | exec {t n : ℕ} {d d' : HidDevice} {w : Option Progress} {reported : List ℕ} {i : Input}
      {out : Ingest} (h : Watched caps msgSupported t n d w reported) (hclock : t ≤ i.now)
      (hi : d.exec i = some (out, d')) :
      Watched caps msgSupported i.now (n + 1) d' (observe d d' n w i) (reported ++ d.timedOut w i)

/-! ### One call -/

variable {d d' : HidDevice} {x : Arrival} {out : Ingest} {now t n : ℕ} {w : Option Progress}
  {reported : List ℕ}

/-- What an accepted report does to the framer. -/
theorem accepts_cases (h : d.accepts x.report) (hi : d.exec (.report x) = some (out, d')) :
    d'.assemblingSince = some x.now ∧ d'.framer.assembly.isSome ∧
      (x.report.get 4 &&& kTypeInit = 0 → d.framer.assembly.isSome) := by
  simp only [accepts, Bool.and_eq_true, Bool.not_eq_true', decide_eq_false_iff_not] at h
  obtain ⟨hnot, h⟩ := h
  rw [exec, arrive, ingest_of_not_broadcastInit hnot, receive] at hi
  generalize hout : d.framer.ingest x.report = res at h hi
  cases hout ▸ ingest_step d.framer x.report with
  | refused e hother => cases h
  | dropped e => cases h
  | opened hcid hinit hle hlong =>
    cases hi
    exact ⟨rfl, rfl, fun hcont => absurd hcont hinit⟩
  | single hcid hinit hshort => cases h
  | continued a ha hcid hcont hseq hlast hlt =>
    cases hi
    exact ⟨rfl, rfl, fun _ => by rw [ha]; rfl⟩
  | finished a ha hcid hcont hseq hge => cases h

theorem dispatch_framer {msg : Message} {inflight : Option UInt32} :
    (d.dispatch msg inflight now).2.framer = d.framer := by
  have hsnd : (d.dispatch msg inflight now).2 = d ∨
      (d.dispatch msg inflight now).2 = d.touch msg.cid now := dispatch_snd
  rcases hsnd with heq | heq
  · rw [heq]
  · rw [heq]
    rfl

/-- A report that is not accepted leaves the assembly and the time stamp, or no assembly. -/
theorem not_accepts_cases (h : ¬ d.accepts x.report) (hi : d.exec (.report x) = some (out, d')) :
    (d'.framer = d.framer ∧ d'.assemblingSince = d.assemblingSince) ∨
      d'.framer.assembly = none := by
  rw [exec, arrive] at hi
  by_cases hbroad : BroadcastInit x.report
  · rw [ingest, if_pos hbroad] at hi
    refine .inl ?_
    split_ifs at hi
    · cases hi
      exact ⟨rfl, rfl⟩
    · obtain ⟨⟨cid, d₁⟩, halloc, heq⟩ := Option.map_eq_some_iff.mp hi
      cases heq
      obtain ⟨-, -, -, fallback, rfl⟩ := allocateCid_eq_some halloc
      exact ⟨rfl, rfl⟩
  · rw [ingest_of_not_broadcastInit hbroad, receive] at hi
    simp only [accepts, hbroad, decide_false, Bool.not_false, Bool.true_and] at h
    -- a report that is not taken either leaves the assembly alone or ends it
    generalize hout : d.framer.ingest x.report = res at h hi
    cases hout ▸ ingest_step d.framer x.report with
    | refused e hother =>
      cases hi
      exact .inl ⟨rfl, rfl⟩
    | dropped e =>
      cases hi
      exact .inr rfl
    | opened hcid hinit hle hlong => exact absurd rfl h
    | continued a ha hcid hcont hseq hlast hlt => exact absurd rfl h
    | single hcid hinit hshort =>
      have hd := congrArg (fun out => out.2.framer.assembly) (Option.some.inj hi)
      exact .inr (hd.symm.trans (congrArg HidFramer.assembly dispatch_framer))
    | finished a ha hcid hcont hseq hge =>
      have hd := congrArg (fun out => out.2.framer.assembly) (Option.some.inj hi)
      exact .inr (hd.symm.trans (congrArg HidFramer.assembly dispatch_framer))

theorem pollTimeout_of_idle (h : d.framer.assembly = none) : d.pollTimeout now = (none, d) := by
  rw [pollTimeout, h]

theorem pollTimeout_of_assembly {a : Assembly} {since : ℕ} (ha : d.framer.assembly = some a)
    (hsince : d.assemblingSince = some since) : d.pollTimeout now =
      if now < since + kInterPacketTimeout then (none, d)
      else (some (errorPacket a.cid .msgTimeout),
        { d with assemblingSince := none, framer := {} }) := by
  have hsub : now - since < kInterPacketTimeout ↔ now < since + kInterPacketTimeout := by
    simp only [kInterPacketTimeout]
    omega
  rw [pollTimeout, ha, hsince]
  simp only [hsub]

/-! ### Runs -/

/-- What holds of the device and its history. -/
structure Agrees (t n : ℕ) (d : HidDevice) (w : Option Progress) (reported : List ℕ) : Prop where
  present : w.isSome = d.framer.assembly.isSome
  since : ∀ p, w = some p → d.assemblingSince = some p.last
  last_le : ∀ p, w = some p → p.last ≤ t
  opened_lt : ∀ p, w = some p → p.opened < n
  unreported : ∀ p, w = some p → p.opened ∉ reported
  nodup : reported.Nodup
  past : ∀ k ∈ reported, k < n

namespace Agrees

/-- Later, when neither the message in progress nor its time stamp has changed. -/
theorem keep (h : Agrees t n d w reported) (ht : t ≤ now) (hframer : d'.framer = d.framer)
    (hsince : d'.assemblingSince = d.assemblingSince) :
    Agrees now (n + 1) d' w reported where
  present := by rw [hframer, h.present]
  since p hp := by rw [hsince, h.since p hp]
  last_le p hp := (h.last_le p hp).trans ht
  opened_lt p hp := (h.opened_lt p hp).trans (Nat.lt_succ_self n)
  unreported := h.unreported
  nodup := h.nodup
  past k hk := (h.past k hk).trans (Nat.lt_succ_self n)

/-- Later, when there is no assembly any more. -/
theorem drop (h : Agrees t n d w reported) (hnone : d'.framer.assembly = none) :
    Agrees now (n + 1) d' none reported where
  present := by rw [hnone]; rfl
  since _ hp := by cases hp
  last_le _ hp := by cases hp
  opened_lt _ hp := by cases hp
  unreported _ hp := by cases hp
  nodup := h.nodup
  past k hk := (h.past k hk).trans (Nat.lt_succ_self n)

theorem report (h : Agrees t n d w reported) (ht : t ≤ x.now)
    (hi : d.exec (.report x) = some (out, d')) :
    Agrees x.now (n + 1) d' (observe d d' n w (.report x)) reported := by
  rw [observe]
  by_cases hacc : d.accepts x.report = true
  · obtain ⟨hsince, hsome, hcont⟩ := accepts_cases hacc hi
    rw [if_pos hacc]
    by_cases hinit : x.report.get 4 &&& kTypeInit ≠ 0
    · -- a message is opened, with a number of its own
      rw [if_pos hinit]
      refine ⟨hsome.symm, ?_, ?_, ?_, ?_, h.nodup,
        fun k hk => (h.past k hk).trans (Nat.lt_succ_self n)⟩
      all_goals rintro p ⟨⟩
      · exact hsince
      · exact le_rfl
      · exact Nat.lt_succ_self n
      · exact fun hmem => lt_irrefl n (h.past n hmem)
    · -- the message in progress goes on
      rw [if_neg hinit]
      obtain ⟨p, rfl⟩ : ∃ p, w = some p := by
        rw [← Option.isSome_iff_exists, h.present]
        exact hcont (not_not.mp hinit)
      refine ⟨hsome.symm, ?_, ?_, ?_, ?_, h.nodup,
        fun k hk => (h.past k hk).trans (Nat.lt_succ_self n)⟩
      all_goals rintro q ⟨⟩
      · exact hsince
      · exact le_rfl
      · exact (h.opened_lt p rfl).trans (Nat.lt_succ_self n)
      · exact h.unreported p rfl
  · rw [if_neg hacc]
    rcases not_accepts_cases hacc hi with ⟨hframer, hsince⟩ | hnone
    · have hkeep := h.keep ht hframer hsince
      split_ifs with hsome
      · exact hkeep
      · exact h.drop (Option.not_isSome_iff_eq_none.mp hsome)
    · rw [if_neg (by rw [hnone]; exact Bool.false_ne_true)]
      exact h.drop hnone

theorem poll (h : Agrees t n d w reported) (ht : t ≤ now) :
    Agrees now (n + 1) (d.pollTimeout now).2 (observe d (d.pollTimeout now).2 n w (.poll now))
      (reported ++ d.timedOut w (.poll now)) := by
  rw [observe, timedOut]
  rcases ha : d.framer.assembly with _ | a
  · have hidle : d.pollTimeout now = (none, d) := pollTimeout_of_idle ha
    rw [hidle, if_neg (by rw [ha]; exact Bool.false_ne_true)]
    change Agrees now (n + 1) d none (reported ++ [])
    rw [List.append_nil]
    exact h.drop ha
  · obtain ⟨p, rfl⟩ : ∃ p, w = some p := by
      rw [← Option.isSome_iff_exists, h.present, ha]
      rfl
    rw [pollTimeout_of_assembly ha (h.since p rfl)]
    by_cases hearly : now < p.last + kInterPacketTimeout
    · rw [if_pos hearly, if_pos (show d.framer.assembly.isSome by rw [ha]; rfl)]
      change Agrees now (n + 1) d (some p) (reported ++ [])
      rw [List.append_nil]
      exact h.keep ht rfl rfl
    · -- the message is reported, and is gone
      rw [if_neg hearly]
      change Agrees now (n + 1) _ none (reported ++ [p.opened])
      refine { h.drop rfl with nodup := ?_, past := ?_, unreported := by rintro _ ⟨⟩ }
      · refine List.nodup_append.mpr ⟨h.nodup, List.nodup_singleton _, fun k hk l hl heq => ?_⟩
        rw [List.mem_singleton.mp hl] at heq
        exact h.unreported p rfl (heq ▸ hk)
      · intro k hk
        rcases List.mem_append.mp hk with hk | hk
        · exact (h.past k hk).trans (Nat.lt_succ_self n)
        · rw [List.mem_singleton.mp hk]
          exact (h.opened_lt p rfl).trans (Nat.lt_succ_self n)

end Agrees

theorem Watched.agrees {caps : UInt8} {msgSupported : Bool}
    (h : Watched caps msgSupported t n d w reported) : Agrees t n d w reported := by
  induction h with
  | new t =>
    exact ⟨rfl, by rintro _ ⟨⟩, by rintro _ ⟨⟩, by rintro _ ⟨⟩, by rintro _ ⟨⟩, List.nodup_nil,
      fun _ hk => by cases hk⟩
  | @exec t n d d' w reported i out h hclock hi ih =>
    cases i with
    | report x =>
      rw [timedOut, List.append_nil]
      exact ih.report hclock hi
    | poll now =>
      obtain rfl : (d.pollTimeout now).2 = d' := congrArg Prod.snd (Option.some.inj hi)
      exact ih.poll hclock

/-- **The timeout is exact.** In every run, a poll reports a timeout if and only if a message is in
progress whose last packet was accepted 500 ms ago or earlier. It reports it on the channel of the
assembly, which it drops. No message is reported twice, and the one in progress has not been
reported yet. -/
theorem timeout_exact {caps : UInt8} {msgSupported : Bool}
    (h : Watched caps msgSupported t n d w reported) :
    (w.isSome ↔ d.framer.assembly.isSome) ∧
      (∀ now, t ≤ now →
        ((d.pollTimeout now).1.isSome ↔ ∃ p, w = some p ∧ p.last + 500000000 ≤ now)) ∧
      (∀ now rep, t ≤ now → (d.pollTimeout now).1 = some rep → ∃ a, d.framer.assembly = some a ∧
        rep = errorPacket a.cid .msgTimeout ∧
          (d.pollTimeout now).2 = { d with assemblingSince := none, framer := {} }) ∧
      reported.Nodup ∧ ∀ p, w = some p → p.opened ∉ reported := by
  have hagrees := h.agrees
  -- the time the model watches is `assembling_since_`
  have hpoll : ∀ a now, d.framer.assembly = some a → ∃ p, w = some p ∧ d.pollTimeout now =
      if now < p.last + kInterPacketTimeout then (none, d)
      else (some (errorPacket a.cid .msgTimeout),
        { d with assemblingSince := none, framer := {} }) := by
    intro a now ha
    obtain ⟨p, hp⟩ := Option.isSome_iff_exists.mp (hagrees.present.trans (by rw [ha]; rfl))
    exact ⟨p, hp, pollTimeout_of_assembly ha (hagrees.since p hp)⟩
  refine ⟨by rw [hagrees.present], fun now _ => ?_, fun now rep _ hrep => ?_, hagrees.nodup,
    hagrees.unreported⟩
  · rcases ha : d.framer.assembly with _ | a
    · have hnone : w = none := by
        rw [← Option.isNone_iff_eq_none, ← Option.not_isSome, hagrees.present, ha]
        rfl
      rw [pollTimeout_of_idle ha, hnone]
      simp
    · obtain ⟨p, rfl, heq⟩ := hpoll a now ha
      rw [heq]
      by_cases hearly : now < p.last + kInterPacketTimeout
      · rw [if_pos hearly]
        refine iff_of_false Bool.false_ne_true ?_
        rintro ⟨_, ⟨⟩, hle⟩
        exact absurd hle (not_le.mpr hearly)
      · rw [if_neg hearly]
        exact iff_of_true rfl ⟨p, rfl, not_lt.mp hearly⟩
  · rcases ha : d.framer.assembly with _ | a
    · rw [pollTimeout_of_idle ha] at hrep
      cases hrep
    · obtain ⟨p, -, heq⟩ := hpoll a now ha
      rw [heq] at hrep ⊢
      split_ifs at hrep ⊢
      exact ⟨a, rfl, (Option.some.inj hrep).symm, rfl⟩

/-- The first report of a message of 100 bytes on channel `9`. -/
def firstPart : Report := Block.ofPadded kReportSize
    (writeCidLe 9 ++ [kTypeInit ||| kCmdPing, 0, 100])

/-- A message in progress since time `5` is reported at `500000005`, and not before. -/
theorem timeout_exact_firstPart : ∃ d, Watched 5 true 5 1 d (some ⟨0, 5⟩) [] ∧
    (d.pollTimeout 500000005).1.isSome ∧ ¬ (d.pollTimeout 500000004).1.isSome := by
  have h : Watched 5 true 5 1 _ (some ⟨0, 5⟩) [] :=
    (Watched.new 0).exec (i := .report ⟨firstPart, none, 5, []⟩) (Nat.zero_le 5) rfl
  obtain ⟨-, hiff, -⟩ := timeout_exact h
  refine ⟨_, h, (hiff _ (by decide)).mpr ⟨_, rfl, le_rfl⟩, fun hsome => ?_⟩
  obtain ⟨_, ⟨⟩, hle⟩ := (hiff _ (by decide)).mp hsome
  exact absurd hle (by decide)

end HidDevice

end Swpasskey
