import Mathlib.Data.Nat.Digits.Lemmas
import Mathlib.Tactic

/-!
# Natural numbers in DER

The big-endian bytes of a natural number, and its strict DER INTEGER: contents of at least one
byte, whose top bit is clear and which have no leading zero byte but one that keeps the top bit
clear, behind a length in the short form. There is exactly one such contents for every number
(`contents_iff`), and two INTEGERs in a SEQUENCE, as in an ECDSA signature, again have one
encoding.
-/

namespace Der

/-- The number whose big-endian bytes these are. -/
def value (l : List UInt8) : ℕ := Nat.ofDigits 256 (l.reverse.map UInt8.toNat)

/-- The big-endian bytes of a number without leading zeros; there are none for zero. -/
def magnitude (n : ℕ) : List UInt8 := ((Nat.digits 256 n).map UInt8.ofNat).reverse

/-- The contents of the INTEGER of this number. -/
structure Contents (n : ℕ) (c : List UInt8) : Prop where
  value_eq : value c = n
  ne_nil : c ≠ []
  /-- It is not negative. -/
  top_clear : ∀ b l, c = b :: l → b < 0x80
  /-- It is the shortest. -/
  minimal : ∀ b l, c = 0 :: b :: l → 0x80 ≤ b

/-- The INTEGER of this number, its length in the short form. -/
def IsInteger (n : ℕ) (l : List UInt8) : Prop :=
  ∃ c, Contents n c ∧ c.length < 128 ∧ l = 0x02 :: UInt8.ofNat c.length :: c

/-- The SEQUENCE of the INTEGERs of these numbers, its length in the short form. -/
def IsPair (m n : ℕ) (l : List UInt8) : Prop :=
  ∃ i j, IsInteger m i ∧ IsInteger n j ∧ (i ++ j).length < 128 ∧
    l = 0x30 :: UInt8.ofNat (i ++ j).length :: (i ++ j)

/-- A zero byte in front, where the top bit would be set or there would be no byte at all. -/
def pad : List UInt8 → List UInt8
  | [] => [0]
  | b :: l => if b < 0x80 then b :: l else 0 :: b :: l

variable {b : UInt8} {c l : List UInt8} {m n k : ℕ}

/-! ### Big-endian bytes -/

theorem value_cons (b : UInt8) (l : List UInt8) :
    value (b :: l) = b.toNat * 256 ^ l.length + value l := by
  rw [value, List.reverse_cons, List.map_append, Nat.ofDigits_append, List.length_map,
    List.length_reverse, List.map_singleton, Nat.ofDigits_singleton, value]
  ring

theorem value_replicate_append (k : ℕ) (l : List UInt8) :
    value (List.replicate k 0 ++ l) = value l := by
  induction k with
  | zero => rfl
  | succ k ih =>
    rw [List.replicate_succ, List.cons_append, value_cons, ih, UInt8.toNat_zero, Nat.zero_mul,
      Nat.zero_add]

theorem value_lt (l : List UInt8) : value l < 256 ^ l.length := by
  have hlt : value l < 256 ^ (l.reverse.map UInt8.toNat).length := by
    refine Nat.ofDigits_lt_base_pow_length (by norm_num) fun d hd => ?_
    obtain ⟨b, -, rfl⟩ := List.mem_map.mp hd
    exact b.toNat_lt
  rwa [List.length_map, List.length_reverse] at hlt

theorem value_magnitude (n : ℕ) : value (magnitude n) = n := by
  rw [value, magnitude, List.reverse_reverse, List.map_map]
  have hid : (Nat.digits 256 n).map (UInt8.toNat ∘ UInt8.ofNat) = Nat.digits 256 n := by
    refine (List.map_congr_left fun d hd => ?_).trans (List.map_id _)
    exact UInt8.toNat_ofNat_of_lt (Nat.digits_lt_base (by norm_num) hd)
  rw [hid, Nat.ofDigits_digits]

theorem length_magnitude_le : (magnitude n).length ≤ k ↔ n < 256 ^ k := by
  rw [magnitude, List.length_reverse, List.length_map, Nat.digits_length_le_iff (by norm_num)]

/-- Bytes without a leading zero are those of their number. -/
theorem magnitude_value (h : ∀ b l', l = b :: l' → b ≠ 0) : magnitude (value l) = l := by
  have hdigits : Nat.digits 256 (value l) = l.reverse.map UInt8.toNat := by
    refine Nat.digits_ofDigits 256 (by norm_num) _ ?_ ?_
    · intro d hd
      obtain ⟨b, -, rfl⟩ := List.mem_map.mp hd
      exact b.toNat_lt
    · intro hne hzero
      cases l with
      | nil => exact hne rfl
      | cons b l =>
        rw [List.getLast_map, List.getLast_reverse, List.head_cons] at hzero
        exact h b l rfl (UInt8.toNat_inj.mp hzero)
  rw [magnitude, hdigits, List.map_map, ← List.map_reverse, List.reverse_reverse]
  refine (List.map_congr_left fun b _ => ?_).trans (List.map_id _)
  exact UInt8.ofNat_toNat

theorem head_magnitude (h : magnitude n = b :: l) : b ≠ 0 := by
  rintro rfl
  have hn : n = value l := by
    rw [← value_magnitude n, h, value_cons, UInt8.toNat_zero, Nat.zero_mul, Nat.zero_add]
  -- the other bytes alone would be enough
  have hlen : (magnitude n).length ≤ l.length := length_magnitude_le.mpr (hn ▸ value_lt l)
  rw [h, List.length_cons] at hlen
  omega

/-! ### Contents -/

theorem value_pad (l : List UInt8) : value (pad l) = value l := by
  cases l with
  | nil => rfl
  | cons b l =>
    rw [pad]
    split_ifs
    · rfl
    · rw [value_cons 0, UInt8.toNat_zero, Nat.zero_mul, Nat.zero_add]

theorem length_pad_le (l : List UInt8) : (pad l).length ≤ l.length + 1 := by
  cases l with
  | nil => exact le_rfl
  | cons b l =>
    rw [pad]
    split_ifs
    · exact Nat.le_succ _
    · exact le_rfl

theorem contents_pad (n : ℕ) : Contents n (pad (magnitude n)) := by
  cases hmag : magnitude n with
  | nil =>
    have hn : n = 0 := by
      rw [← value_magnitude n, hmag]
      rfl
    subst hn
    exact ⟨rfl, by simp [pad], by simp [pad], by simp [pad]⟩
  | cons b l =>
    have hb : b ≠ 0 := head_magnitude hmag
    refine ⟨?_, ?_, ?_, ?_⟩
    · rw [value_pad, ← hmag, value_magnitude]
    · rw [pad]
      split_ifs <;> simp
    · intro b' l' h
      rw [pad] at h
      split_ifs at h with htop <;> cases h
      · exact htop
      · decide
    · intro b' l' h
      rw [pad] at h
      split_ifs at h with htop <;> cases h
      · exact absurd rfl hb
      · exact UInt8.not_lt.mp htop

/-- Every number has one contents. -/
theorem contents_iff : Contents n c ↔ c = pad (magnitude n) := by
  refine ⟨fun h => ?_, fun h => h ▸ contents_pad n⟩
  rw [← h.value_eq]
  match c, h with
  | [], h => exact absurd rfl h.ne_nil
  | b :: l, h =>
    by_cases hb : b = 0
    · -- a leading zero stands alone, or in front of a byte with its top bit set
      subst hb
      rw [value_cons, UInt8.toNat_zero, Nat.zero_mul, Nat.zero_add]
      match l, h with
      | [], _ => rfl
      | b' :: l, h =>
        have htop : ¬ b' < 0x80 := UInt8.not_lt.mpr (h.minimal b' l rfl)
        have hb' : b' ≠ 0 := by
          rintro rfl
          exact htop (by decide)
        rw [magnitude_value (by rintro _ _ ⟨⟩; exact hb'), pad, if_neg htop]
    · rw [magnitude_value (by rintro _ _ ⟨⟩; exact hb), pad, if_pos (h.top_clear b l rfl)]

theorem IsInteger.unique {l l' : List UInt8} (h : IsInteger n l) (h' : IsInteger n l') :
    l = l' := by
  obtain ⟨c, hc, -, rfl⟩ := h
  obtain ⟨c', hc', -, rfl⟩ := h'
  rw [contents_iff.mp hc, contents_iff.mp hc']

/-- Two numbers have at most one encoding. -/
theorem IsPair.unique {l l' : List UInt8} (h : IsPair m n l) (h' : IsPair m n l') : l = l' := by
  obtain ⟨i, j, hi, hj, -, rfl⟩ := h
  obtain ⟨i', j', hi', hj', -, rfl⟩ := h'
  rw [hi.unique hi', hj.unique hj']

/-- The INTEGER of a number whose length fits the short form. -/
theorem isInteger_pad (h : n < 256 ^ 126) :
    IsInteger n (0x02 :: UInt8.ofNat (pad (magnitude n)).length :: pad (magnitude n)) := by
  have hlen := length_pad_le (magnitude n)
  have hmag : (magnitude n).length ≤ 126 := length_magnitude_le.mpr h
  exact ⟨_, contents_pad n, by omega, rfl⟩

/-! ### Reading -/

/-- An INTEGER with a length in the short form, and what is behind it. -/
def readInteger : List UInt8 → Option (ℕ × List UInt8)
  | t :: len :: l =>
    if t = 0x02 ∧ len.toNat ≤ l.length then
      some (value (l.take len.toNat), l.drop len.toNat)
    else none
  | _ => none

/-- The two INTEGERs of a SEQUENCE. -/
def readPair : List UInt8 → Option (ℕ × ℕ)
  | 0x30 :: _ :: l => do
    let (m, l) ← readInteger l
    let (n, _) ← readInteger l
    return (m, n)
  | _ => none

theorem readInteger_append (h : IsInteger n c) (l : List UInt8) :
    readInteger (c ++ l) = some (n, l) := by
  obtain ⟨c, hc, hlen, rfl⟩ := h
  have hof : (UInt8.ofNat c.length).toNat = c.length :=
    UInt8.toNat_ofNat_of_lt (hlen.trans (by decide))
  rw [List.cons_append, List.cons_append, readInteger, hof,
    if_pos ⟨rfl, by rw [List.length_append]; exact Nat.le_add_right _ _⟩, List.take_left,
    List.drop_left, hc.value_eq]

theorem readPair_of_isPair (h : IsPair m n l) : readPair l = some (m, n) := by
  obtain ⟨i, j, hi, hj, -, rfl⟩ := h
  have hj' : readInteger j = some (n, []) := by
    have hread := readInteger_append hj []
    rwa [List.append_nil] at hread
  rw [readPair, readInteger_append hi]
  simp only [Option.bind_eq_bind, Option.bind_some, hj']
  rfl

end Der
