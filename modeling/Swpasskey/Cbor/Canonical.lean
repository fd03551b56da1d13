import Swpasskey.Cbor.Grammar
import Swpasskey.Cbor.Size

/-!
# The canonical order

CTAP2 orders the keys of a map by major type, then by length, then bytewise. `write_map`
sorts them bytewise. For the keys the writer can encode this is the same order
(`lt_iff_canonicalLt`): the first byte starts with the major type, and behind it a head is
the greater, bytewise, the greater its argument, in every size class and across them
(`encodeType_append_lt`), because heads are the shortest there are (`shortest_encodeType`).
-/

namespace Swpasskey.Cbor

/-! ### Big-endian numbers -/

theorem foldl_bigEndian (l : Bytes) (n : ℕ) :
    l.foldl (fun n b => n * 256 + b.toNat) n = n * 256 ^ l.length + bigEndian l := by
  induction l generalizing n with
  | nil => simp [bigEndian]
  | cons b l ih =>
    rw [bigEndian, List.foldl_cons, List.foldl_cons, ih, ih (0 * 256 + b.toNat),
      List.length_cons, pow_succ]
    ring

theorem bigEndian_cons (b : UInt8) (l : Bytes) :
    bigEndian (b :: l) = b.toNat * 256 ^ l.length + bigEndian l := by
  rw [bigEndian, List.foldl_cons, foldl_bigEndian, Nat.zero_mul, Nat.zero_add]

/-- Numbers of the same width compare like their bytes, whatever follows. -/
theorem append_lt_of_bigEndian_lt {l l' : Bytes} (hlen : l.length = l'.length)
    (hlt : bigEndian l < bigEndian l') (v v' : Bytes) : l ++ v < l' ++ v' := by
  induction l generalizing l' with
  | nil =>
    obtain rfl := List.length_eq_zero_iff.mp hlen.symm
    exact absurd hlt (lt_irrefl _)
  | cons b l ih =>
    obtain ⟨b', l', rfl⟩ := List.exists_cons_of_length_eq_add_one hlen.symm
    have hlen : l.length = l'.length := Nat.succ_injective hlen
    rw [List.cons_append, List.cons_append, List.cons_lt_cons_iff]
    rw [bigEndian_cons, bigEndian_cons, ← hlen] at hlt
    have hl := bigEndian_lt l
    have hl' := bigEndian_lt l'
    rw [← hlen] at hl'
    -- the first byte decides, or it is the same and the rest does
    rcases lt_trichotomy b.toNat b'.toNat with hb | hb | hb
    · exact .inl (UInt8.lt_iff_toNat_lt.mpr hb)
    · rw [hb] at hlt
      exact .inr ⟨UInt8.toNat_inj.mp hb, ih hlen (Nat.lt_of_add_lt_add_left hlt)⟩
    · have hle : (b'.toNat + 1) * 256 ^ l.length ≤ b.toNat * 256 ^ l.length :=
        Nat.mul_le_mul_right _ hb
      rw [Nat.add_mul] at hle
      omega

/-! ### Shortest heads -/

/-- The shortest head with this major type and this argument. -/
def Shortest (major : UInt8) (n : ℕ) (l : Bytes) : Prop :=
  Head major n l ∧ ∀ l', Head major n l' → l.length ≤ l'.length

theorem Head.headSize_le {major : UInt8} {n : ℕ} {l : Bytes} (h : Head major n l) :
    headSize n ≤ l.length := by
  cases h with
  | @inline ai h =>
    have hlt : ai.toNat < 24 := UInt8.lt_iff_toNat_lt.mp h
    rw [headSize, if_pos hlt, List.length_singleton]
  | @wide ai l h =>
    have hlt := bigEndian_lt l
    simp only [List.mem_cons, List.not_mem_nil, or_false, Prod.mk.injEq] at h
    rw [List.length_cons]
    unfold headSize
    rcases h with ⟨-, hl⟩ | ⟨-, hl⟩ | ⟨-, hl⟩ | ⟨-, hl⟩
    all_goals
      rw [hl] at hlt ⊢
      split_ifs <;> omega

theorem bigEndian_argument {p : UInt8 × ℕ} {n : UInt64}
    (hp : p ∈ [((24 : UInt8), 1), (25, 2), (26, 4), (27, 8)]) (hn : n.toNat < 256 ^ p.2) :
    bigEndian (argument n p.2) = n.toNat := by
  have hlen := length_argument (n := n) hp
  have hextra : p.2 = 1 ∨ p.2 = 2 ∨ p.2 = 4 ∨ p.2 = 8 := by
    simp only [List.mem_cons, List.not_mem_nil, or_false] at hp
    rcases hp with rfl | rfl | rfl | rfl <;> simp
  have hsame := foldl_argument n p.2 hextra hn
  have hle : (argument n p.2).length ≤ 8 := by omega
  have hlt : bigEndian (argument n p.2) < 2 ^ 64 :=
    (bigEndian_lt _).trans_le ((Nat.pow_le_pow_right (by decide) hle).trans (by decide))
  rw [Reader.foldl_eq_ofNat hle] at hsame
  rw [← UInt64.toNat_ofNat_of_lt' hlt, hsame]

/-- What the writer writes is a head with the argument given. -/
theorem head_encodeType (major : UInt8) (n : UInt64) : Head major n.toNat (encodeType major n) := by
  rcases encodeType_cases major n with ⟨hn, heq⟩ | ⟨p, hp, hn, heq⟩
  · have hlt := UInt64.lt_iff_toNat_lt.mp hn
    simp only [UInt64.reduceToNat] at hlt
    have hsame : n.toUInt8.toNat = n.toNat := by
      rw [UInt64.toNat_toUInt8]
      omega
    rw [heq, ← hsame]
    exact .inline (UInt8.lt_iff_toNat_lt.mpr (by rw [hsame]; exact hlt))
  · rw [heq, ← bigEndian_argument hp hn]
    exact .wide (by rwa [length_argument hp])

/-- Every head that is written is the shortest. -/
theorem shortest_encodeType (major : UInt8) (n : UInt64) :
    Shortest major n.toNat (encodeType major n) := by
  refine ⟨head_encodeType major n, fun l h => ?_⟩
  rw [length_encodeType]
  exact h.headSize_le

/-! ### The order of heads -/

/-- The first byte of a head, as a number. -/
theorem toNat_firstByte {major ai : UInt8} (hmajor : major < 8) (hai : ai < 32) :
    (major <<< 5 ||| ai).toNat = major.toNat * 32 + ai.toNat := by
  have hall : ∀ m : Fin 8, ∀ a : Fin 32,
      (UInt8.ofNat m <<< 5 ||| UInt8.ofNat a).toNat = (UInt8.ofNat m).toNat * 32 +
          (UInt8.ofNat a).toNat := by
    decide +kernel
  have h := hall ⟨major.toNat, UInt8.lt_iff_toNat_lt.mp hmajor⟩
    ⟨ai.toNat, UInt8.lt_iff_toNat_lt.mp hai⟩
  rwa [UInt8.ofNat_toNat, UInt8.ofNat_toNat] at h

/-- The additional information of the shortest head. -/
def additional (n : ℕ) : ℕ :=
  if n < 24 then n else if n ≤ 0xFF then 24 else if n ≤ 0xFFFF then 25
  else if n ≤ 0xFFFFFFFF then 26 else 27

theorem additional_lt (n : ℕ) : additional n < 28 := by
  unfold additional
  split_ifs <;> omega

theorem toNat_additional (n : ℕ) : (UInt8.ofNat (additional n)).toNat = additional n :=
  Nat.mod_eq_of_lt ((additional_lt n).trans (by decide))

/-- The first byte of the shortest head, as a number. -/
theorem toNat_firstByte_additional {major : UInt8} (hmajor : major < 8) (n : ℕ) :
    (major <<< 5 ||| UInt8.ofNat (additional n)).toNat = major.toNat * 32 + additional n := by
  rw [toNat_firstByte hmajor, toNat_additional]
  rw [UInt8.lt_iff_toNat_lt, toNat_additional]
  exact (additional_lt n).trans (by decide)

theorem encodeType_eq_cons (major : UInt8) (n : UInt64) : ∃ arg : Bytes,
    encodeType major n = (major <<< 5 ||| UInt8.ofNat (additional n.toNat)) :: arg ∧
      arg.length + 1 = headSize n.toNat ∧ (24 ≤ n.toNat → bigEndian arg = n.toNat) := by
  have hlen := length_encodeType major n
  rcases encodeType_cases major n with ⟨hn, heq⟩ | ⟨p, hp, hn, heq⟩
  · have hlt := UInt64.lt_iff_toNat_lt.mp hn
    simp only [UInt64.reduceToNat] at hlt
    rw [heq] at hlen ⊢
    refine ⟨[], ?_, hlen, fun hle => absurd hlt (not_lt.mpr hle)⟩
    have hsame : n.toUInt8 = UInt8.ofNat n.toNat := rfl
    rw [additional, if_pos hlt, hsame]
  · rw [heq, List.length_cons] at hlen
    refine ⟨argument n p.2, ?_, hlen, fun _ => bigEndian_argument hp hn⟩
    -- the width of the argument fixes the low bits of the first byte
    have hadditional : UInt8.ofNat (additional n.toNat) = p.1 := by
      rw [length_argument hp, headSize] at hlen
      simp only [List.mem_cons, List.not_mem_nil, or_false] at hp
      unfold additional
      rcases hp with rfl | rfl | rfl | rfl
      all_goals
        dsimp only at hlen
        split_ifs at hlen ⊢ <;> first | rfl | omega
    rw [hadditional, heq]

/-- **Heads in order.** Of two heads of one major type, the one with the smaller argument comes
first, whatever follows. -/
theorem encodeType_append_lt {major : UInt8} (hmajor : major < 8) {n n' : UInt64}
    (h : n.toNat < n'.toNat) (v v' : Bytes) :
    encodeType major n ++ v < encodeType major n' ++ v' := by
  obtain ⟨arg, heq, hlen, hvalue⟩ := encodeType_eq_cons major n
  obtain ⟨arg', heq', hlen', hvalue'⟩ := encodeType_eq_cons major n'
  rw [heq, heq', List.cons_append, List.cons_append, List.cons_lt_cons_iff]
  rcases lt_trichotomy (additional n.toNat) (additional n'.toNat) with hlt | hsame | hgt
  · refine .inl (UInt8.lt_iff_toNat_lt.mpr ?_)
    rw [toNat_firstByte_additional hmajor, toNat_firstByte_additional hmajor]
    exact Nat.add_lt_add_left hlt _
  · -- the same additional information: the same width, and the argument is behind it
    have hwide : 24 ≤ n.toNat ∧ headSize n.toNat = headSize n'.toNat := by
      unfold additional at hsame
      unfold headSize
      split_ifs at hsame ⊢ <;> omega
    refine .inr ⟨by rw [hsame], ?_⟩
    refine append_lt_of_bigEndian_lt (by omega) ?_ v v'
    rwa [hvalue hwide.1, hvalue' (hwide.1.trans h.le)]
  · unfold additional at hgt
    split_ifs at hgt <;> omega

/-! ### Keys -/

/-- What is encoded as the key of a map: an integer or a string, of a size that
`std::size_t` can hold. -/
inductive Key
  | int (n : Int64)
  | uint (n : UInt64)
  | bstr (v : Bytes) (hv : v.length < 2 ^ 64)
  | tstr (v : Bytes) (hv : v.length < 2 ^ 64)

namespace Key

def encode : Key → Bytes
  | int n => encodeInt n.toInt
  | uint n => encodeUint n
  | bstr v _ => encodeBstr v
  | tstr v _ => encodeTstr v

/-- The major type of a key. -/
def major : Key → UInt8
  | int n => if 0 ≤ n.toInt then 0 else 1
  | uint _ => 0
  | bstr _ _ => 2
  | tstr _ _ => 3

/-- The argument of a key: the integer, counted from `0` or downwards from `-1`, or the
length of the string. -/
def argument : Key → ℕ
  | int n => if 0 ≤ n.toInt then n.toInt.toNat else (-1 - n.toInt).toNat
  | uint n => n.toNat
  | bstr v _ => v.length
  | tstr v _ => v.length

/-- What stands behind the head. -/
def payload : Key → Bytes
  | int _ => []
  | uint _ => []
  | bstr v _ => v
  | tstr v _ => v

theorem major_lt (k : Key) : k.major < 8 := by
  cases k with
  | int n =>
    rw [major]
    split_ifs <;> decide
  | uint n => exact show (0 : UInt8) < 8 by decide
  | bstr v hv => exact show (2 : UInt8) < 8 by decide
  | tstr v hv => exact show (3 : UInt8) < 8 by decide

theorem argument_lt (k : Key) : k.argument < 2 ^ 64 := by
  cases k with
  | int n =>
    have hlow := n.le_toInt
    have hhigh := n.toInt_lt
    rw [argument]
    split_ifs <;> omega
  | uint n => exact n.toNat_lt
  | bstr v hv => exact hv
  | tstr v hv => exact hv

/-- A key is its head and its payload. -/
theorem encode_eq (k : Key) :
    k.encode = encodeType k.major (UInt64.ofNat k.argument) ++ k.payload := by
  cases k with
  | int n =>
    rw [encode, major, argument, payload, encodeInt, List.append_nil]
    split_ifs <;> rfl
  | uint n =>
    rw [encode, major, argument, payload, encodeUint, List.append_nil, UInt64.ofNat_toNat]
  | bstr v hv => rfl
  | tstr v hv => rfl

/-- The payload is as long as the major type and the argument say. -/
theorem length_payload (k : Key) : k.payload.length = if k.major < 2 then 0 else k.argument := by
  cases k with
  | int n =>
    rw [major]
    split_ifs <;> first | rfl | contradiction
  | uint n => rfl
  | bstr v hv => rfl
  | tstr v hv => rfl

theorem length_encode (k : Key) : k.encode.length = headSize k.argument + k.payload.length := by
  rw [encode_eq, List.length_append, length_encodeType, UInt64.toNat_ofNat_of_lt' k.argument_lt]

end Key

/-- The canonical order of CTAP2: lower major type first, then shorter, then bytewise. -/
def CanonicalLt (a b : Bytes) : Prop :=
  majorType a < majorType b ∨
    majorType a = majorType b ∧ (a.length < b.length ∨ a.length = b.length ∧ a < b)

theorem Key.majorType_encode (k : Key) : majorType k.encode = k.major := by
  obtain ⟨arg, heq, -, -⟩ := encodeType_eq_cons k.major (UInt64.ofNat k.argument)
  have hinfo : UInt8.ofNat (additional (UInt64.ofNat k.argument).toNat) < 32 := by
    rw [UInt8.lt_iff_toNat_lt, toNat_additional]
    exact (additional_lt _).trans (by decide)
  rw [encode_eq, heq]
  exact (firstByte_bits _ _ k.major_lt hinfo).1

/-- A key that comes first canonically comes first bytewise. -/
theorem Key.lt_of_canonicalLt {k k' : Key} (h : CanonicalLt k.encode k'.encode) :
    k.encode < k'.encode := by
  unfold CanonicalLt at h
  rw [k.majorType_encode, k'.majorType_encode] at h
  rcases h with hmajor | ⟨hmajor, hlen | ⟨-, hlt⟩⟩
  · obtain ⟨arg, heq, -, -⟩ := encodeType_eq_cons k.major (UInt64.ofNat k.argument)
    obtain ⟨arg', heq', -, -⟩ := encodeType_eq_cons k'.major (UInt64.ofNat k'.argument)
    rw [encode_eq, encode_eq, heq, heq', List.cons_append, List.cons_append, List.cons_lt_cons_iff]
    refine .inl (UInt8.lt_iff_toNat_lt.mpr ?_)
    rw [toNat_firstByte_additional k.major_lt, toNat_firstByte_additional k'.major_lt]
    have hinfo := additional_lt (UInt64.ofNat k.argument).toNat
    have hmajor := UInt8.lt_iff_toNat_lt.mp hmajor
    omega
  · -- with one major type the shorter key has the smaller argument
    have harg : k.argument < k'.argument := by
      by_contra hge
      have hsize := headSize_mono (not_lt.mp hge)
      rw [length_encode, length_encode, length_payload, length_payload, hmajor] at hlen
      split_ifs at hlen <;> omega
    rw [encode_eq, encode_eq, hmajor]
    refine encodeType_append_lt k'.major_lt ?_ _ _
    rwa [UInt64.toNat_ofNat_of_lt' k.argument_lt, UInt64.toNat_ofNat_of_lt' k'.argument_lt]
  · exact hlt

theorem canonicalLt_or {a b : Bytes} (hne : a ≠ b) : CanonicalLt a b ∨ CanonicalLt b a := by
  by_cases hmajor : majorType a = majorType b
  · rcases lt_trichotomy a.length b.length with hlen | hlen | hlen
    · exact .inl (.inr ⟨hmajor, .inl hlen⟩)
    · by_cases hlt : a < b
      · exact .inl (.inr ⟨hmajor, .inr ⟨hlen, hlt⟩⟩)
      · have hgt : b < a := (List.le_iff_lt_or_eq.mp (List.not_lt.mp hlt)).resolve_right
          (Ne.symm hne)
        exact .inr (.inr ⟨hmajor.symm, .inr ⟨hlen.symm, hgt⟩⟩)
    · exact .inr (.inr ⟨hmajor.symm, .inl hlen⟩)
  · exact (UInt8.lt_or_lt_of_ne hmajor).imp .inl .inl

/-- **Bytewise is canonical.** On the keys the writer encodes, the order `write_map` sorts by is
the canonical one. -/
theorem Key.lt_iff_canonicalLt (k k' : Key) :
    k.encode < k'.encode ↔ CanonicalLt k.encode k'.encode := by
  refine ⟨fun h => ?_, lt_of_canonicalLt⟩
  have hne : k.encode ≠ k'.encode := fun heq => List.lt_irrefl _ (heq ▸ h)
  refine (canonicalLt_or hne).resolve_right fun hgt => ?_
  exact List.lt_asymm h (lt_of_canonicalLt hgt)

/-! ### Maps -/

/-- What `write_map` writes of entries with these keys. -/
def writeMap (entries : List (Key × Bytes)) : Bytes :=
  encodeMap (entries.map fun e => (e.1.encode, e.2))

/-- The order `write_map` sorts by. -/
abbrev bytewiseLe (a b : Key × Bytes) : Prop := a.1.encode ≤ b.1.encode

theorem writeMap_eq (entries : List (Key × Bytes)) : writeMap entries =
    encodeType 5 (UInt64.ofNat entries.length) ++
      (entries.insertionSort bytewiseLe).flatMap fun e => e.1.encode ++ e.2 := by
  have hsort := List.map_insertionSort bytewiseLe (fun a b : Entry => a.1 ≤ b.1)
    (fun e => (e.1.encode, e.2)) entries fun _ _ _ _ => Iff.rfl
  rw [writeMap, encodeMap, List.length_map, ← hsort, List.flatMap_map]

/-- Distinct keys have one sorted order. -/
theorem sorted_unique {entries es : List (Key × Bytes)}
    (hdistinct : (entries.map fun e => e.1.encode).Nodup) (hperm : es.Perm entries)
    (hes : es.Pairwise bytewiseLe) : es = entries.insertionSort bytewiseLe := by
  refine List.Perm.eq_of_pairwise (fun a b ha hb hab hba => ?_) hes
    (List.pairwise_insertionSort bytewiseLe entries)
    (hperm.trans (List.perm_insertionSort bytewiseLe entries).symm)
  exact List.inj_on_of_nodup_map hdistinct (hperm.subset ha) ((List.mem_insertionSort _).mp hb)
    (List.le_antisymm hab hba)

/-- **Canonical maps.** A map with distinct keys is its shortest head and its entries in the
canonical order of their keys, each key with its shortest head; and it does not depend on the
order in which the entries are given. -/
theorem writeMap_canonical (entries : List (Key × Bytes)) (hlen : entries.length < 2 ^ 64)
    (hdistinct : (entries.map fun e => e.1.encode).Nodup) :
    (∃ head, ∃ sorted : List (Key × Bytes), Shortest 5 entries.length head ∧ sorted.Perm entries ∧
      sorted.Pairwise (fun a b => CanonicalLt a.1.encode b.1.encode) ∧
      writeMap entries = head ++ sorted.flatMap fun e => e.1.encode ++ e.2) ∧
    (∀ k : Key, ∃ head, Shortest k.major k.argument head ∧ k.encode = head ++ k.payload) ∧
    ∀ entries' : List (Key × Bytes), entries'.Perm entries →
        writeMap entries' = writeMap entries := by
  have hshortest : ∀ major : UInt8, ∀ n < 2 ^ 64,
      Shortest major n (encodeType major (UInt64.ofNat n)) := by
    intro major n hn
    have := shortest_encodeType major (UInt64.ofNat n)
    rwa [UInt64.toNat_ofNat_of_lt' hn] at this
  refine ⟨?_, fun k => ⟨_, hshortest _ _ k.argument_lt, k.encode_eq⟩, fun entries' hperm => ?_⟩
  · have hperm := List.perm_insertionSort bytewiseLe entries
    -- bytewise order is strict here, and then it is the canonical order
    have hnodup : (entries.insertionSort bytewiseLe).Pairwise fun a b => a.1.encode ≠ b.1.encode :=
      List.pairwise_map.mp ((hperm.map _).nodup_iff.mpr hdistinct)
    refine ⟨_, _, hshortest 5 _ hlen, hperm, ?_, writeMap_eq entries⟩
    refine ((List.pairwise_insertionSort bytewiseLe entries).and hnodup).imp ?_
    rintro a b ⟨hle, hne⟩
    exact (a.1.lt_iff_canonicalLt b.1).mp ((List.le_iff_lt_or_eq.mp hle).resolve_right hne)
  · rw [writeMap_eq, writeMap_eq, hperm.length_eq]
    -- a sorted arrangement of distinct keys is unique
    have hsame := sorted_unique hdistinct
      ((List.perm_insertionSort bytewiseLe entries').trans hperm)
      (List.pairwise_insertionSort bytewiseLe entries')
    rw [hsame]

/-- Keys of every kind, not in their order. -/
def sampleEntries : List (Key × Bytes) :=
  [(.tstr (ascii "b") (by decide), [0xF5]), (.int (-1), [1]), (.bstr [0] (by decide), [2]),
    (.uint 300, [3]), (.uint 7, [4])]

theorem writeMap_canonical_sample :
    sampleEntries.length < 2 ^ 64 ∧ (sampleEntries.map fun e => e.1.encode).Nodup ∧
      writeMap sampleEntries.reverse = writeMap sampleEntries := by
  have hdistinct : (sampleEntries.map fun e => e.1.encode).Nodup := by decide
  exact ⟨by decide, hdistinct,
    (writeMap_canonical sampleEntries (by decide) hdistinct).2.2 _ sampleEntries.reverse_perm⟩

end Swpasskey.Cbor
