import Swpasskey.Cbor

/-!
# The size of what is written

The writer uses shortest heads, so the length of an item is a function of the lengths of
its parts.
-/

namespace Swpasskey.Cbor

/-- The length of a head with argument `n`. -/
def headSize (n : ℕ) : ℕ :=
  if n < 24 then 1 else if n ≤ 0xFF then 2 else if n ≤ 0xFFFF then 3
  else if n ≤ 0xFFFFFFFF then 5 else 9

theorem headSize_le (n : ℕ) : headSize n ≤ 9 := by
  unfold headSize
  split_ifs <;> omega

theorem headSize_mono {m n : ℕ} (h : m ≤ n) : headSize m ≤ headSize n := by
  unfold headSize
  split_ifs <;> omega

theorem length_encodeType (major : UInt8) (n : UInt64) :
    (encodeType major n).length = headSize n.toNat := by
  unfold encodeType headSize
  simp only [UInt64.lt_iff_toNat_lt, UInt64.le_iff_toNat_le, UInt64.reduceToNat]
  split_ifs <;> rfl

theorem length_encodeUint (n : UInt64) : (encodeUint n).length = headSize n.toNat :=
  length_encodeType 0 n

/-- A length that fits a `std::size_t`. -/
theorem length_encodeBstr {v : Bytes} (h : v.length < 2 ^ 64) :
    (encodeBstr v).length = headSize v.length + v.length := by
  rw [encodeBstr, List.length_append, length_encodeType, UInt64.toNat_ofNat_of_lt' h]

theorem length_encodeBstr_le (v : Bytes) : (encodeBstr v).length ≤ 9 + v.length := by
  rw [encodeBstr, List.length_append, length_encodeType]
  have := headSize_le (UInt64.ofNat v.length).toNat
  omega

/-- A map with few entries: one byte, and the entries. -/
theorem length_encodeMap {entries : List Entry} (h : entries.length < 24) :
    (encodeMap entries).length = 1 + (entries.map fun e => e.1.length + e.2.length).sum := by
  have hperm := List.perm_insertionSort (fun a b : Entry => a.1 ≤ b.1) entries
  rw [encodeMap, List.length_append, length_encodeType,
    UInt64.toNat_ofNat_of_lt' (h.trans (by decide)), headSize, if_pos h, List.length_flatMap]
  simp only [List.length_append]
  rw [(hperm.map _).sum_eq]

end Swpasskey.Cbor
