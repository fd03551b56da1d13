import Swpasskey.Ctap.ClientPin

/-!
# The failure delay in closed form

`failure_delay` doubles the base once for every failure past the third and clamps the result at
twelve times the base. The loop stops as soon as it has passed the cap, so that it runs four times
at most and its values stay below twice the cap, whatever the failure count.
-/

namespace Swpasskey

/-- The values of `d` in the loop of `failure_delay`, with `n` failures to go. -/
def delayLoop (cap : ℕ) : ℕ → ℕ → List ℕ
  | 0, d => [d]
  | n + 1, d => if d < cap then d :: delayLoop cap n (d * 2) else [d]

/-- Every duration that `failure_delay` computes: the cap, the values of `d`, and the result. -/
def failureDelayValues (consecutive : UInt32) (base : ℕ) : List ℕ :=
  if consecutive < 3 then [0]
  else
    let cap := base * 12
    let ds := delayLoop cap (consecutive.toNat - 3) base
    let d := ds.getLastD base
    [cap] ++ ds ++ [if d > cap then cap else d]

/-- The loop's body, with its test. -/
private def double (cap d : ℕ) : ℕ := if d < cap then d * 2 else d

variable {base cap d x : ℕ} {c c' : UInt32}

/-! ### The value after the loop -/

theorem failureDelay_of_lt (h : c < 3) : failureDelay c base = 0 := by rw [failureDelay, if_pos h]

private theorem failureDelay_of_le (h : ¬ c < 3) : failureDelay c base =
    min ((double (base * 12))^[c.toNat - 3] base) (base * 12) := by
  have hloop : (List.range (c.toNat - 3)).foldl
      (fun d _ => if d < base * 12 then d * 2 else d) base =
        (double (base * 12))^[c.toNat - 3] base := by
    rw [← List.length_range (n := c.toNat - 3), ← List.foldl_const, List.length_range]
    rfl
  rw [failureDelay, if_neg h]
  simp only [hloop]
  split_ifs with hgt
  · exact (min_eq_right hgt.le).symm
  · exact (min_eq_left (not_lt.mp hgt)).symm

/-- The body runs four times at most: sixteen times the base is past the cap. -/
private theorem iterate_double (base n : ℕ) :
    (double (base * 12))^[n] base = base * 2 ^ min n 4 := by
  induction n with
  | zero => rw [Function.iterate_zero_apply, Nat.zero_min, pow_zero, mul_one]
  | succ n ih =>
    rw [Function.iterate_succ_apply', ih, double]
    rcases Nat.lt_or_ge n 4 with hn | hn
    · rw [min_eq_left hn.le, min_eq_left (Nat.succ_le_of_lt hn), pow_succ, ← mul_assoc]
      have hpow : 2 ^ n ≤ 2 ^ 3 := Nat.pow_le_pow_right two_pos (by omega)
      split_ifs with hlt
      · rfl
      · -- eight times the base is below the cap, unless both are zero
        have hbase : base = 0 := by nlinarith
        rw [hbase, zero_mul, zero_mul]
    · rw [min_eq_right hn, min_eq_right (hn.trans n.le_succ), if_neg (by omega)]

/-- The four doublings that may happen are those that matter. -/
private theorem min_doublings (base n : ℕ) :
    min (base * 2 ^ min n 4) (base * 12) = min (base * 2 ^ n) (12 * base) := by
  rw [mul_comm base 12]
  rcases Nat.le_total n 4 with hn | hn
  · rw [min_eq_left hn]
  · have hpow : 2 ^ 4 ≤ 2 ^ n := Nat.pow_le_pow_right two_pos hn
    rw [min_eq_right hn, min_eq_right (by omega), min_eq_right (by nlinarith)]

theorem failureDelay_eq (c : UInt32) (base : ℕ) :
    failureDelay c base = if c < 3 then 0 else min (base * 2 ^ (c.toNat - 3)) (12 * base) := by
  split_ifs with h
  · exact failureDelay_of_lt h
  · rw [failureDelay_of_le h, iterate_double, min_doublings]

theorem failureDelay_le (c : UInt32) (base : ℕ) : failureDelay c base ≤ 12 * base := by
  rw [failureDelay_eq]
  split_ifs
  · exact Nat.zero_le _
  · exact min_le_right _ _

theorem failureDelay_mono (h : c ≤ c') : failureDelay c base ≤ failureDelay c' base := by
  have hle : c.toNat ≤ c'.toNat := UInt32.le_iff_toNat_le.mp h
  by_cases hc : c < 3
  · rw [failureDelay_of_lt hc]
    exact Nat.zero_le _
  · have hc' : ¬ c' < 3 := by
      rw [UInt32.lt_iff_toNat_lt] at hc ⊢
      omega
    rw [failureDelay_eq, failureDelay_eq, if_neg hc, if_neg hc']
    refine min_le_min_right _ (Nat.mul_le_mul_left base ?_)
    exact Nat.pow_le_pow_right two_pos (by omega)

/-! ### The values on the way -/

/-- The loop as the source runs it, with its early exit, ends with the same value. -/
private theorem getLastD_delayLoop (cap n d fallback : ℕ) :
    (delayLoop cap n d).getLastD fallback = (double cap)^[n] d := by
  induction n generalizing d fallback with
  | zero => rfl
  | succ n ih =>
    rw [delayLoop, Function.iterate_succ_apply]
    split_ifs with hlt
    · rw [List.getLastD_cons, ih, double, if_pos hlt]
    · have hfix : double cap d = d := by rw [double, if_neg hlt]
      rw [hfix, Function.iterate_fixed hfix]
      rfl

/-- Only a value below the cap is doubled. -/
private theorem le_of_mem_delayLoop {n : ℕ} (hd : d ≤ 2 * cap) (hx : x ∈ delayLoop cap n d) :
    x ≤ 2 * cap := by
  induction n generalizing d with
  | zero =>
    obtain rfl := List.mem_singleton.mp hx
    exact hd
  | succ n ih =>
    rw [delayLoop] at hx
    split_ifs at hx with hlt
    · obtain rfl | hx := List.mem_cons.mp hx
      · exact hd
      · exact ih (by omega) hx
    · obtain rfl := List.mem_singleton.mp hx
      exact hd

/-- The last of the values is the result. -/
theorem getLast?_failureDelayValues (c : UInt32) (base : ℕ) :
    (failureDelayValues c base).getLast? = some (failureDelay c base) := by
  rw [failureDelayValues]
  split_ifs with h
  · rw [failureDelay_of_lt h]
    rfl
  · rw [List.getLast?_concat, failureDelay_of_le h, getLastD_delayLoop]
    split_ifs with hgt
    · rw [min_eq_right hgt.le]
    · rw [min_eq_left (not_lt.mp hgt)]

theorem le_of_mem_failureDelayValues (hx : x ∈ failureDelayValues c base) : x ≤ 24 * base := by
  rw [failureDelayValues] at hx
  split_ifs at hx with h
  · obtain rfl := List.mem_singleton.mp hx
    exact Nat.zero_le _
  · simp only [List.mem_append, List.mem_singleton] at hx
    obtain (rfl | hx) | rfl := hx
    · omega
    · have hle := le_of_mem_delayLoop (by omega) hx
      omega
    · split_ifs <;> omega

/-- **The failure delay.** Nothing for the first two failures, then the base, doubled with every
failure and never above twelve times the base; more failures never mean a shorter delay, and no
duration on the way is above twenty-four times the base. -/
theorem failureDelay_closedForm (base : ℕ) :
    (∀ c, failureDelay c base =
      if c < 3 then 0 else min (base * 2 ^ (c.toNat - 3)) (12 * base)) ∧
    (∀ c c', c ≤ c' → failureDelay c base ≤ failureDelay c' base) ∧
    (∀ c, failureDelay c base ≤ 12 * base) ∧
    ∀ c, (failureDelayValues c base).getLast? = some (failureDelay c base) ∧
      ∀ x ∈ failureDelayValues c base, x ≤ 24 * base :=
  ⟨fun c => failureDelay_eq c base, fun _ _ h => failureDelay_mono h,
    fun c => failureDelay_le c base,
    fun c => ⟨getLast?_failureDelayValues c base, fun _ hx => le_of_mem_failureDelayValues hx⟩⟩

end Swpasskey
