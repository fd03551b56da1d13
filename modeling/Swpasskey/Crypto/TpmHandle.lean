import Swpasskey.Status

/-!
# The handle of a TPM key

`tpm2::encode_handle` and `tpm2::decode_handle`: the public and the private blob, each behind its
length in two bytes. The second length stands where the first one says, and every access is checked
here: reading past the end of the handle is `none`, not an answer.
-/

namespace Swpasskey

namespace Tpm2

/-- A length in two bytes, the high one first. -/
def writeLength (n : ℕ) : Bytes := [UInt8.ofNat (n >>> 8), UInt8.ofNat n]

def readLength (hi lo : UInt8) : ℕ := hi.toNat <<< 8 ||| lo.toNat

/-- The bytes from `first` up to `last`, as a vector built from two iterators. -/
def range? (h : Bytes) (first last : ℕ) : Option Bytes :=
  if first ≤ last ∧ last ≤ h.length then some ((h.take last).drop first) else none

/-- `encode_handle`. -/
def encodeHandle (pub priv : Bytes) : Bytes :=
  writeLength pub.length ++ pub ++ writeLength priv.length ++ priv

/-- `decode_handle`; `none` when it reads outside the handle. -/
def decodeHandle (h : Bytes) : Option (Except Status (Bytes × Bytes)) := do
  if h.length < 4 then return .error .invalidCredential
  let pl := readLength (← h[0]?) (← h[1]?)
  if h.length < 2 + pl + 2 then return .error .invalidCredential
  let vl := readLength (← h[2 + pl]?) (← h[3 + pl]?)
  if h.length ≠ 4 + pl + vl then return .error .invalidCredential
  return .ok (← range? h 2 (2 + pl), ← range? h (4 + pl) h.length)

variable {a b c e : UInt8} {n : ℕ} {h pub priv : Bytes}

/-! ### Lengths -/

theorem readLength_eq (hi lo : UInt8) : readLength hi lo = hi.toNat * 256 + lo.toNat := by
  rw [readLength, ← Nat.shiftLeft_add_eq_or_of_lt lo.toNat_lt, Nat.shiftLeft_eq]

theorem writeLength_readLength (hi lo : UInt8) : writeLength (readLength hi lo) = [hi, lo] := by
  have hhi := hi.toNat_lt
  have hlo := lo.toNat_lt
  have hhigh : UInt8.ofNat (readLength hi lo >>> 8) = hi := by
    apply UInt8.toNat_inj.mp
    rw [readLength_eq, UInt8.toNat_ofNat', Nat.shiftRight_eq_div_pow]
    omega
  have hlow : UInt8.ofNat (readLength hi lo) = lo := by
    apply UInt8.toNat_inj.mp
    rw [readLength_eq, UInt8.toNat_ofNat']
    omega
  rw [writeLength, hhigh, hlow]

theorem readLength_writeLength (hn : n < 65536) :
    readLength (UInt8.ofNat (n >>> 8)) (UInt8.ofNat n) = n := by
  rw [readLength_eq, UInt8.toNat_ofNat', UInt8.toNat_ofNat', Nat.shiftRight_eq_div_pow]
  omega

/-! ### Handles -/

/-- What is behind the bytes that were read. -/
private theorem getElem?_append_cons (l : Bytes) (x : UInt8) (r : Bytes) {i : ℕ}
    (hi : i = l.length) : (l ++ x :: r)[i]? = some x := by
  rw [hi, List.getElem?_append_right le_rfl, Nat.sub_self, List.getElem?_cons_zero]

private theorem range?_middle (l m r : Bytes) {i j : ℕ} (hi : i = l.length)
    (hj : j = i + m.length) : range? (l ++ m ++ r) i j = some m := by
  subst hi hj
  rw [range?, if_pos ⟨Nat.le_add_right _ _, by simp only [List.length_append]; omega⟩,
    ← List.length_append, List.take_left, List.drop_left]

/-- A handle whose first length is right decodes when the second one is right too. -/
theorem decodeHandle_of_pub (hpub : pub.length = readLength a b) :
    decodeHandle (a :: b :: (pub ++ c :: e :: priv)) =
      if priv.length = readLength c e then some (.ok (pub, priv))
      else some (.error .invalidCredential) := by
  have hlen : (a :: b :: (pub ++ c :: e :: priv)).length = 4 + pub.length + priv.length := by
    simp only [List.length_cons, List.length_append]
    omega
  have hc : (a :: b :: (pub ++ c :: e :: priv))[2 + pub.length]? = some c :=
    getElem?_append_cons (a :: b :: pub) c (e :: priv) (Nat.add_comm _ _)
  have he : (a :: b :: (pub ++ c :: e :: priv))[3 + pub.length]? = some e := by
    rw [List.append_cons]
    exact getElem?_append_cons (a :: b :: (pub ++ [c])) e priv (by simp; omega)
  have hpubRange : range? (a :: b :: (pub ++ c :: e :: priv)) 2 (2 + pub.length) = some pub :=
    range?_middle [a, b] pub (c :: e :: priv) rfl rfl
  rw [decodeHandle, hlen, if_neg (by omega)]
  simp only [List.getElem?_cons_zero, List.getElem?_cons_succ, Option.bind_eq_bind,
    Option.bind_some, ← hpub, hc, he, hpubRange]
  rw [if_neg (by omega)]
  by_cases hpriv : priv.length = readLength c e
  · have hprivRange : range? (a :: b :: (pub ++ c :: e :: priv)) (4 + pub.length)
        (4 + pub.length + priv.length) = some priv := by
      have hsplit : a :: b :: (pub ++ c :: e :: priv) =
          (a :: b :: (pub ++ [c, e])) ++ priv ++ [] := by simp
      rw [hsplit]
      exact range?_middle _ priv [] (by simp; omega) rfl
    rw [if_neg (by omega), if_pos hpriv, hprivRange]
    rfl
  · rw [if_pos (by omega), if_neg hpriv]
    rfl

/-- A handle is rejected, or its first length leaves room for the second one. -/
theorem decodeHandle_cases (h : Bytes) : decodeHandle h = some (.error .invalidCredential) ∨
    ∃ a b c e pub priv, h = a :: b :: (pub ++ c :: e :: priv) ∧ pub.length = readLength a b := by
  by_cases hshort : h.length < 4
  · left
    rw [decodeHandle, if_pos hshort]
    rfl
  obtain ⟨a, b, l, rfl⟩ : ∃ a b l, h = a :: b :: l := by
    match h, hshort with
    | [], hs => exact absurd (Nat.zero_lt_succ 3) hs
    | [_], hs => exact absurd (by decide : 1 < 4) hs
    | a :: b :: l, _ => exact ⟨a, b, l, rfl⟩
  by_cases hpl : l.length < readLength a b + 2
  · left
    rw [decodeHandle, if_neg hshort]
    simp only [List.getElem?_cons_zero, List.getElem?_cons_succ, Option.bind_eq_bind,
      Option.bind_some, List.length_cons]
    rw [if_pos (by omega)]
    rfl
  · right
    have hlen : (l.drop (readLength a b)).length = l.length - readLength a b := List.length_drop
    match hdrop : l.drop (readLength a b) with
    | [] => rw [hdrop, List.length_nil] at hlen; omega
    | [_] => rw [hdrop, List.length_singleton] at hlen; omega
    | c :: e :: priv =>
      refine ⟨a, b, c, e, l.take (readLength a b), priv, ?_, ?_⟩
      · rw [← hdrop, List.take_append_drop]
      · rw [List.length_take]
        omega

/-- **The handle codec.** Blobs shorter than 64 KiB come back from their handle; and whatever
bytes it is given, `decode_handle` reads none beyond them, and either rejects them or gives the two
blobs of which they are the handle. -/
theorem decodeHandle_encodeHandle :
    (∀ pub priv, pub.length < 65536 → priv.length < 65536 →
      decodeHandle (encodeHandle pub priv) = some (.ok (pub, priv))) ∧
    ∀ h, decodeHandle h = some (.error .invalidCredential) ∨
      ∃ pub priv, decodeHandle h = some (.ok (pub, priv)) ∧ encodeHandle pub priv = h := by
  constructor
  · intro pub priv hpub hpriv
    have henc : encodeHandle pub priv = UInt8.ofNat (pub.length >>> 8) :: UInt8.ofNat pub.length ::
        (pub ++ UInt8.ofNat (priv.length >>> 8) :: UInt8.ofNat priv.length :: priv) := by
      simp [encodeHandle, writeLength]
    rw [henc, decodeHandle_of_pub (readLength_writeLength hpub).symm,
      if_pos (readLength_writeLength hpriv).symm]
  · intro h
    obtain herr | ⟨a, b, c, e, pub, priv, rfl, hpub⟩ := decodeHandle_cases h
    · exact .inl herr
    rw [decodeHandle_of_pub hpub]
    by_cases hpriv : priv.length = readLength c e
    · refine .inr ⟨pub, priv, if_pos hpriv, ?_⟩
      rw [encodeHandle, hpub, hpriv, writeLength_readLength, writeLength_readLength]
      simp
    · exact .inl (if_neg hpriv)

end Tpm2

end Swpasskey
