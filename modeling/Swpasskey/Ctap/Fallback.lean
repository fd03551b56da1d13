import Swpasskey.Ctap.HidDevice

/-!
# Channel allocation without a random generator

When every draw fails, the candidates of `allocate_cid` come from a counter that runs over all
32-bit values before it repeats one, since its step is odd. The candidates that are turned away are
zero, the broadcast id and the allocated ones, so that one of the first few is taken.
-/

namespace Swpasskey

/-- Among one more distinct values than a list has entries, one is not in the list. -/
theorem exists_le_notMem {α : Type} [DecidableEq α] {f : ℕ → α} (l : List α)
    (hf : ∀ i j, i ≤ l.length → j ≤ l.length → f i = f j → i = j) :
    ∃ k, k ≤ l.length ∧ f k ∉ l := by
  have hcard : l.toFinset.card < ((Finset.range (l.length + 1)).image f).card := by
    rw [Finset.card_image_of_injOn, Finset.card_range]
    · exact Nat.lt_succ_of_le l.toFinset_card_le
    · intro i hi j hj hij
      simp only [Finset.coe_range, Set.mem_Iio] at hi hj
      exact hf i j (by omega) (by omega) hij
  obtain ⟨x, hx, hnot⟩ := Finset.exists_mem_notMem_of_card_lt_card hcard
  obtain ⟨k, hk, rfl⟩ := Finset.mem_image.mp hx
  exact ⟨k, Nat.le_of_lt_succ (Finset.mem_range.mp hk), fun h => hnot (List.mem_toFinset.mpr h)⟩

namespace HidDevice

/-- The candidate after `k` others, with the generator down. -/
def candidate (fallback : UInt32) (k : ℕ) : UInt32 := fallback + UInt32.ofNat (k + 1) * 0x9E3779B9

/-- The values that the loop of `allocate_cid` does not take. -/
def rejected (l : List Channel) : List UInt32 := 0 :: kBroadcastCid :: cids l

variable {d : HidDevice} {now k n : ℕ} {fallback cid : UInt32} {l : List Channel}

theorem toNat_candidate (fallback : UInt32) (k : ℕ) :
    (candidate fallback k).toNat = (fallback.toNat + (k + 1) * 0x9E3779B9) % 2 ^ 32 := by
  rw [candidate, UInt32.toNat_add, UInt32.toNat_mul, UInt32.toNat_ofNat']
  simp [Nat.add_mod, Nat.mul_mod]

theorem candidate_zero (fallback : UInt32) : candidate fallback 0 = fallback + 0x9E3779B9 := by
  rw [candidate, Nat.zero_add, UInt32.ofNat_one, UInt32.one_mul]

theorem candidate_succ (fallback : UInt32) (k : ℕ) :
    candidate fallback (k + 1) = candidate (fallback + 0x9E3779B9) k := by
  apply UInt32.toNat_inj.mp
  rw [toNat_candidate, toNat_candidate, UInt32.toNat_add, Nat.mod_add_mod]
  congr 1
  have hstep : (0x9E3779B9 : UInt32).toNat = 0x9E3779B9 := rfl
  omega

/-- The counter does not repeat a value within `2 ^ 32` steps. -/
theorem candidate_inj {i j : ℕ} (hi : i < 2 ^ 32) (hj : j < 2 ^ 32)
    (h : candidate fallback i = candidate fallback j) : i = j := by
  have hmod : fallback.toNat + (i + 1) * 0x9E3779B9 ≡ fallback.toNat + (j + 1) * 0x9E3779B9
      [MOD 2 ^ 32] := by
    rw [Nat.ModEq, ← toNat_candidate, ← toNat_candidate, h]
  -- the step is odd
  have hcop : Nat.gcd (2 ^ 32) 0x9E3779B9 = 1 := by decide
  have hsucc : i + 1 ≡ j + 1 [MOD 2 ^ 32] := hmod.add_left_cancel'.cancel_right_of_coprime hcop
  exact hsucc.add_right_cancel'.eq_of_lt_of_lt hi hj

/-! ### The loop -/

theorem mem_rejected : cid ∈ rejected d.channels ↔
    cid = 0 ∨ cid = kBroadcastCid ∨ d.isAllocated cid = true := by
  rw [rejected, List.mem_cons, List.mem_cons, isAllocated_iff, cids, List.mem_map]

theorem drawCid_none_cons (d : HidDevice) (now : ℕ) (draws : List (Option UInt32)) :
    d.drawCid now (none :: draws) =
      if candidate d.fallback 0 ∈ rejected d.channels then
        { d with fallback := candidate d.fallback 0 }.drawCid now draws
      else some (candidate d.fallback 0, { d with
        channels := d.channels ++ [⟨candidate d.fallback 0, now⟩]
        fallback := candidate d.fallback 0 }) := by
  rw [drawCid, candidate_zero]
  simp only [Option.isNone_none, if_true, Option.getD_none]
  exact if_congr (mem_rejected (d := { d with fallback := d.fallback + 0x9E3779B9 })).symm rfl rfl

/-- The loop goes past the candidates that are rejected, and takes the first that is not. -/
theorem drawCid_failing (hrej : ∀ i < k, candidate d.fallback i ∈ rejected d.channels) :
    d.drawCid now (List.replicate k none) = none ∧
    (candidate d.fallback k ∉ rejected d.channels → ∀ draws,
      d.drawCid now (List.replicate (k + 1) none ++ draws) = some (candidate d.fallback k,
        { d with
          channels := d.channels ++ [⟨candidate d.fallback k, now⟩]
          fallback := candidate d.fallback k })) := by
  induction k generalizing d with
  | zero =>
    refine ⟨rfl, fun hfree draws => ?_⟩
    rw [Nat.zero_add, List.replicate_one, List.singleton_append, drawCid_none_cons, if_neg hfree]
  | succ k ih =>
    -- the counter after the first candidate gives the others, one place earlier
    have hshift : ∀ i, candidate (candidate d.fallback 0) i = candidate d.fallback (i + 1) := by
      intro i
      rw [candidate_succ, candidate_zero]
    obtain ⟨hnone, hsome⟩ := ih (d := { d with fallback := candidate d.fallback 0 }) (by
      intro i hi
      rw [hshift]
      exact hrej (i + 1) (Nat.succ_lt_succ hi))
    constructor
    · rw [List.replicate_succ, drawCid_none_cons, if_pos (hrej 0 k.succ_pos), hnone]
    · intro hfree draws
      rw [← hshift] at hfree
      rw [List.replicate_succ, List.cons_append, drawCid_none_cons, if_pos (hrej 0 k.succ_pos),
        hsome hfree draws]
      simp only [hshift]

/-- There is a first candidate that is not rejected. -/
theorem exists_first_candidate (l : List Channel) (hlen : l.length + 3 ≤ 2 ^ 32)
    (fallback : UInt32) : ∃ k ≤ l.length + 2, candidate fallback k ∉ rejected l ∧
      ∀ i < k, candidate fallback i ∈ rejected l := by
  have hrej : (rejected l).length = l.length + 2 := by
    rw [rejected, List.length_cons, List.length_cons, cids, List.length_map]
  obtain ⟨k, hk, hfree⟩ := exists_le_notMem (f := candidate fallback) (rejected l)
    fun i j hi hj => candidate_inj (by omega) (by omega)
  have hex : ∃ k, candidate fallback k ∉ rejected l := ⟨k, hfree⟩
  refine ⟨Nat.find hex, (Nat.find_min' hex hfree).trans (hk.trans hrej.le), Nat.find_spec hex, ?_⟩
  exact fun i hi => not_not.mp (Nat.find_min hex hi)

/-- With the generator down, `allocate_cid` returns this id after exactly `k` candidates. -/
structure ReturnsAfter (d : HidDevice) (now k : ℕ) (cid : UInt32) (d' : HidDevice) : Prop where
  returns : ∀ draws, d.allocateCid now (List.replicate k none ++ draws) = some (cid, d')
  notBefore : ∀ j < k, d.allocateCid now (List.replicate j none) = none

/-- **Channel allocation without a random generator.** Whatever the table, of four channels at
most, and the counter, the call returns within six candidates: every one before the last is zero,
broadcast, or the id of one of the at most three channels left, and the last is none of these. The
counter repeats no value within `2 ^ 32` steps. -/
theorem allocateCid_terminates (d : HidDevice) (now : ℕ)
    (hlen : d.channels.length ≤ kMaxChannels) :
    (∃ k d', k < 6 ∧ ReturnsAfter d now (k + 1) (candidate d.fallback k) d' ∧
      (room d.channels).length ≤ 3 ∧
      (∀ i < k, candidate d.fallback i ∈ rejected (room d.channels)) ∧
      candidate d.fallback k ≠ 0 ∧ candidate d.fallback k ≠ kBroadcastCid ∧
      candidate d.fallback k ∉ cids (room d.channels)) ∧
    ∀ i j, i < 2 ^ 32 → j < 2 ^ 32 →
      candidate d.fallback i = candidate d.fallback j → i = j := by
  have hroom : (room d.channels).length < kMaxChannels := length_room hlen
  have hmax : kMaxChannels = 4 := rfl
  obtain ⟨k, hk, hfree, hrej⟩ := exists_first_candidate (room d.channels) (by omega) d.fallback
  have hproper : candidate d.fallback k ≠ 0 ∧ candidate d.fallback k ≠ kBroadcastCid ∧
      candidate d.fallback k ∉ cids (room d.channels) := by
    rw [rejected, List.mem_cons, List.mem_cons, not_or, not_or] at hfree
    exact hfree
  have hret : ReturnsAfter d now (k + 1) (candidate d.fallback k) { d with
      channels := room d.channels ++ [⟨candidate d.fallback k, now⟩]
      fallback := candidate d.fallback k } := by
    constructor
    · intro draws
      rw [allocateCid_eq_drawCid]
      exact (drawCid_failing (d := { d with channels := room d.channels }) hrej).2 hfree draws
    · intro j hj
      rw [allocateCid_eq_drawCid]
      exact (drawCid_failing (d := { d with channels := room d.channels })
        fun i hi => hrej i (by omega)).1
  exact ⟨⟨k, _, by omega, hret, by omega, hrej, hproper⟩, fun i j => candidate_inj⟩

/-- A device with a full table, whose counter gives zero next. -/
def beforeZero : HidDevice where
  caps := 5
  msgSupported := true
  channels := [⟨1, 0⟩, ⟨2, 4⟩, ⟨3, 1⟩, ⟨4, 2⟩]
  fallback := 0x61C88647

theorem allocateCid_terminates_beforeZero : beforeZero.channels.length ≤ kMaxChannels ∧
    candidate beforeZero.fallback 0 ∈ rejected (room beforeZero.channels) ∧
    ∃ k d', k < 6 ∧ ReturnsAfter beforeZero 7 (k + 1) (candidate beforeZero.fallback k) d' := by
  have hlen : beforeZero.channels.length ≤ kMaxChannels := by decide
  obtain ⟨⟨k, d', hk, hret, -⟩, -⟩ := allocateCid_terminates beforeZero 7 hlen
  exact ⟨hlen, by decide, k, d', hk, hret⟩

end HidDevice

end Swpasskey
