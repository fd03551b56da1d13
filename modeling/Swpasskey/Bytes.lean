import Mathlib.Data.List.GetD
import Mathlib.Tactic

/-!
# Bytes, fixed-size blocks and text

The common carriers of the model. A C++ `std::vector<std::uint8_t>` or `std::span` is a
`Bytes`; a `std::array<std::uint8_t, n>` is a `Block n`, whose length is part of the type,
so that a 31-byte hash cannot be built; a `std::string` is again a `Bytes`, since the
source never checks its encoding. `ascii` reads the source's string literals.
-/

namespace Swpasskey

/-- A byte string of any length. -/
abbrev Bytes : Type := List UInt8

/-- A byte array of exactly `n` bytes. -/
def Block (n : ℕ) : Type := { l : Bytes // l.length = n }

namespace Block

variable {n : ℕ}

instance : DecidableEq (Block n) := inferInstanceAs (DecidableEq { l : Bytes // l.length = n })

/-- The bytes of a block. -/
def bytes (b : Block n) : Bytes := b.val

@[simp] theorem length_bytes (b : Block n) : b.bytes.length = n := b.property

@[ext] protected theorem ext {b c : Block n} (h : b.bytes = c.bytes) : b = c := Subtype.ext h

/-- The byte at index `i`, as the source's `a[i]`. -/
def get (b : Block n) (i : ℕ) : UInt8 := b.bytes.getD i 0

/-- The block all of whose bytes are `c`. -/
def replicate (n : ℕ) (c : UInt8) : Block n := ⟨List.replicate n c, List.length_replicate⟩

/-- A byte string read as a block when it has the right length (`memcpy` after a size
check). -/
def ofBytes? (n : ℕ) (l : Bytes) : Option (Block n) :=
  if h : l.length = n then some ⟨l, h⟩ else none

/-- The first `m` bytes of a longer block (`LEFT(x, m)`). -/
def left (m : ℕ) (b : Block n) (h : m ≤ n) : Block m :=
  ⟨b.bytes.take m, by simp [h]⟩

/-- A zero-filled array of `n` bytes whose front is overwritten by `l`. -/
def ofPadded (n : ℕ) (l : Bytes) : Block n :=
  ⟨(l ++ List.replicate (n - l.length) 0).take n, by
    simp only [List.length_take, List.length_append, List.length_replicate]; omega⟩

theorem bytes_ofPadded {l : Bytes} (h : l.length ≤ n) :
    (ofPadded n l).bytes = l ++ List.replicate (n - l.length) 0 :=
  List.take_of_length_le (by simp only [List.length_append, List.length_replicate]; omega)

theorem get_ofPadded {i : ℕ} {l : Bytes} (h : l.length ≤ n) :
    (ofPadded n l).get i = l.getD i 0 := by
  rw [get, bytes_ofPadded h, List.getD_eq_getElem?_getD, List.getD_eq_getElem?_getD,
    List.getElem?_append]
  split_ifs with hi
  · rfl
  · have hnone : l[i]? = none := List.getElem?_eq_none (by omega)
    rw [hnone, List.getElem?_replicate]
    split_ifs <;> rfl

end Block

/-- What holds of the 256 bytes, one by one, holds of every byte. -/
theorem forall_byte {P : UInt8 → Prop} (h : ∀ n < 256, P (UInt8.ofNat n)) (b : UInt8) : P b := by
  have hb := h b.toNat b.toNat_lt
  rwa [UInt8.ofNat_toNat] at hb

/-- A string literal of the source, as bytes. -/
def ascii (s : String) : Bytes := s.toList.map fun c => UInt8.ofNat c.toNat

/-- `v` as four big-endian bytes. -/
def be32 (v : UInt32) : Bytes :=
  [(v >>> 24).toUInt8, (v >>> 16).toUInt8, (v >>> 8).toUInt8, v.toUInt8]

/-- `v` as four little-endian bytes. -/
def le32 (v : UInt32) : Bytes :=
  [v.toUInt8, (v >>> 8).toUInt8, (v >>> 16).toUInt8, (v >>> 24).toUInt8]

/-- The four bytes put together again. -/
theorem or_le32 (v : UInt32) :
    v.toUInt8.toUInt32 ||| ((v >>> 8).toUInt8.toUInt32 <<< 8) |||
      ((v >>> 16).toUInt8.toUInt32 <<< 16) ||| ((v >>> 24).toUInt8.toUInt32 <<< 24) = v := by
  apply UInt32.toBitVec_inj.mp
  ext i hi
  simp [-UInt32.toUInt32_toUInt8, BitVec.getElem_setWidth]
  grind

end Swpasskey
