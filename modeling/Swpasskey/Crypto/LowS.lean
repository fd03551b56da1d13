import Swpasskey.Crypto
import Swpasskey.Lib.Der
import Swpasskey.Status

/-!
# Low-S signatures

`Provider::ecdsa_p256_rs_to_der_low_s` and `Provider::ecdsa_p256_der_normalize_low_s`. A `BIGNUM`
is a natural number, and its allocation succeeds. `d2i_ECDSA_SIG` is a parameter.
-/

namespace Swpasskey

/-- `kP256N`: the order of P-256. -/
def kP256N : Block 32 :=
  ⟨[0xFF, 0xFF, 0xFF, 0xFF, 0x00, 0x00, 0x00, 0x00, 0xFF, 0xFF, 0xFF, 0xFF,
    0xFF, 0xFF, 0xFF, 0xFF, 0xBC, 0xE6, 0xFA, 0xAD, 0xA7, 0x17, 0x9E, 0x84,
    0xF3, 0xB9, 0xCA, 0xC2, 0xFC, 0x63, 0x25, 0x51], rfl⟩

/-- `BN_bin2bn`. -/
def bnBin2bn (b : Block 32) : ℕ := Der.value b.bytes

/-- `BN_bn2binpad` into a zeroed array, which a number that does not fit leaves alone. -/
def bnBn2binpad (v : ℕ) : Block 32 :=
  let b := Der.magnitude v
  (Block.ofBytes? 32 (List.replicate (32 - b.length) 0 ++ b)).getD (Block.replicate 32 0)

/-- `encode_int`. -/
def encodeDerInt (v : ℕ) : Bytes :=
  let b := Der.magnitude v
  let b := if b.isEmpty || b.headD 0 &&& 0x80 != 0 then 0 :: b else b
  [0x02, UInt8.ofNat b.length] ++ b

/-- `ecdsa_p256_rs_to_der_low_s`. -/
def ecdsaP256RsToDerLowS (r s : Block 32) : Bytes :=
  let rb := bnBin2bn r
  let sb := bnBin2bn s
  let n := bnBin2bn kP256N
  let half := n >>> 1
  -- a difference may be negative; the encoder writes its magnitude
  let sb := if sb > half then ((n : ℤ) - sb).natAbs else sb
  let ri := encodeDerInt rb
  let si := encodeDerInt sb
  [0x30, UInt8.ofNat (ri.length + si.length)] ++ ri ++ si

/-- `ecdsa_p256_der_normalize_low_s`. -/
def ecdsaP256DerNormalizeLowS (d2iEcdsaSig : Bytes → Option (ℕ × ℕ)) (der : Bytes) :
    Except Status Bytes :=
  match d2iEcdsaSig der with
  | none => .error .other
  | some (r, s) => .ok (ecdsaP256RsToDerLowS (bnBn2binpad r) (bnBn2binpad s))

variable {r s : Block 32} {v : ℕ} {d2iEcdsaSig : Bytes → Option (ℕ × ℕ)}

theorem bnBin2bn_lt (b : Block 32) : bnBin2bn b < 256 ^ 32 := by
  have hlt := Der.value_lt b.bytes
  rwa [Block.length_bytes] at hlt

theorem bnBin2bn_bnBn2binpad (h : v < 256 ^ 32) : bnBin2bn (bnBn2binpad v) = v := by
  have hmag : (Der.magnitude v).length ≤ 32 := Der.length_magnitude_le.mpr h
  have hlen :
      (List.replicate (32 - (Der.magnitude v).length) 0 ++ Der.magnitude v).length = 32 := by
    rw [List.length_append, List.length_replicate, Nat.sub_add_cancel hmag]
  rw [bnBn2binpad, Block.ofBytes?, dif_pos hlen]
  exact (Der.value_replicate_append _ _).trans (Der.value_magnitude v)

/-- `encode_int` looks at the top bit where the encoding compares the byte. -/
theorem top_bit (b : UInt8) : (b &&& 0x80 != 0) = !decide (b < 0x80) :=
  forall_byte (P := fun b => (b &&& 0x80 != 0) = !decide (b < 0x80)) (by decide +kernel) b

theorem encodeDerInt_eq (v : ℕ) : encodeDerInt v = 0x02 ::
    UInt8.ofNat (Der.pad (Der.magnitude v)).length :: Der.pad (Der.magnitude v) := by
  have hpad : (if (Der.magnitude v).isEmpty || (Der.magnitude v).headD 0 &&& 0x80 != 0 then
      0 :: Der.magnitude v else Der.magnitude v) = Der.pad (Der.magnitude v) := by
    cases Der.magnitude v with
    | nil => rfl
    | cons b l =>
      rw [List.isEmpty_cons, List.headD_cons, Bool.false_or, top_bit, Der.pad]
      by_cases htop : b < 0x80 <;> simp [htop]
  rw [encodeDerInt, hpad]
  rfl

theorem isInteger_encodeDerInt (hv : v < 256 ^ 32) : Der.IsInteger v (encodeDerInt v) := by
  rw [encodeDerInt_eq]
  exact Der.isInteger_pad (hv.trans (by norm_num))

theorem length_encodeDerInt_le (hv : v < 256 ^ 32) : (encodeDerInt v).length ≤ 35 := by
  have hpad := Der.length_pad_le (Der.magnitude v)
  have hmag := Der.length_magnitude_le.mpr hv
  rw [encodeDerInt_eq, List.length_cons, List.length_cons]
  omega

/-- `ecdsa_p256_rs_to_der_low_s` writes at most 72 bytes, whatever the numbers. -/
theorem length_ecdsaP256RsToDerLowS_le (r s : Block 32) :
    (ecdsaP256RsToDerLowS r s).length ≤ 72 := by
  have hr := length_encodeDerInt_le (bnBin2bn_lt r)
  have hs : ∀ v : ℕ, v = bnBin2bn s ∨ v = ((bnBin2bn kP256N : ℤ) - bnBin2bn s).natAbs →
      (encodeDerInt v).length ≤ 35 := by
    have hlt := bnBin2bn_lt s
    have hn := bnBin2bn_lt kP256N
    rintro v (rfl | rfl)
    · exact length_encodeDerInt_le hlt
    · exact length_encodeDerInt_le (by omega)
  rw [ecdsaP256RsToDerLowS]
  simp only [List.length_append, List.length_cons, List.length_nil]
  split_ifs
  · have := hs _ (.inr rfl)
    omega
  · have := hs _ (.inl rfl)
    omega

/-- The lesser of `s` and `n - s` is at most half the order, which is odd. -/
theorem lowS_eq (hs : 1 ≤ bnBin2bn s ∧ bnBin2bn s ≤ bnBin2bn kP256N - 1) :
    (if bnBin2bn s > bnBin2bn kP256N >>> 1 then
      ((bnBin2bn kP256N : ℤ) - bnBin2bn s).natAbs else bnBin2bn s) =
        min (bnBin2bn s) (bnBin2bn kP256N - bnBin2bn s) := by
  have hodd : bnBin2bn kP256N % 2 = 1 := by decide +kernel
  rw [Nat.shiftRight_one]
  split_ifs with hhigh <;> omega

/-- The bytes are the encoding of `r` and the lower of the two `s`. -/
theorem isPair_ecdsaP256RsToDerLowS (hs : 1 ≤ bnBin2bn s ∧ bnBin2bn s ≤ bnBin2bn kP256N - 1) :
    Der.IsPair (bnBin2bn r) (min (bnBin2bn s) (bnBin2bn kP256N - bnBin2bn s))
      (ecdsaP256RsToDerLowS r s) := by
  have hr : bnBin2bn r < 256 ^ 32 := bnBin2bn_lt r
  have hlow : min (bnBin2bn s) (bnBin2bn kP256N - bnBin2bn s) < 256 ^ 32 :=
    (min_le_left _ _).trans_lt (bnBin2bn_lt s)
  have hlenR := length_encodeDerInt_le hr
  have hlenS := length_encodeDerInt_le hlow
  refine ⟨_, _, isInteger_encodeDerInt hr, isInteger_encodeDerInt hlow, ?_, ?_⟩
  · rw [List.length_append]
    omega
  · rw [ecdsaP256RsToDerLowS]
    simp only [lowS_eq hs, List.length_append]
    rfl

/-- **Low-S signatures.** For any `r`, and an `s` between `1` and the order less one, what
`ecdsa_p256_rs_to_der_low_s` returns is the one strict DER SEQUENCE, with short lengths, of `r` and
the lesser of `s` and `n - s`, which is at most half the order; and normalising it again returns it
unchanged. -/
theorem ecdsaP256RsToDerLowS_strict
    (hd2i : ∀ r s der, Der.IsPair r s der → d2iEcdsaSig der = some (r, s))
    (hs : 1 ≤ bnBin2bn s ∧ bnBin2bn s ≤ bnBin2bn kP256N - 1) :
    (∀ der, der = ecdsaP256RsToDerLowS r s ↔
      Der.IsPair (bnBin2bn r) (min (bnBin2bn s) (bnBin2bn kP256N - bnBin2bn s)) der) ∧
    min (bnBin2bn s) (bnBin2bn kP256N - bnBin2bn s) ≤ bnBin2bn kP256N / 2 ∧
    ecdsaP256DerNormalizeLowS d2iEcdsaSig (ecdsaP256RsToDerLowS r s) =
      .ok (ecdsaP256RsToDerLowS r s) := by
  have hpair := isPair_ecdsaP256RsToDerLowS (r := r) hs
  refine ⟨fun der => ⟨fun h => h ▸ hpair, fun h => h.unique hpair⟩, by omega, ?_⟩
  obtain ⟨low, hlow⟩ : ∃ low, low = min (bnBin2bn s) (bnBin2bn kP256N - bnBin2bn s) := ⟨_, rfl⟩
  rw [← hlow] at hpair
  have hrBack : bnBin2bn (bnBn2binpad (bnBin2bn r)) = bnBin2bn r :=
    bnBin2bn_bnBn2binpad (bnBin2bn_lt r)
  have hlowBack : bnBin2bn (bnBn2binpad low) = low :=
    bnBin2bn_bnBn2binpad (hlow ▸ (min_le_left _ _).trans_lt (bnBin2bn_lt s))
  -- the second time `s` is low already
  have hagain := isPair_ecdsaP256RsToDerLowS (r := bnBn2binpad (bnBin2bn r))
    (s := bnBn2binpad low) (by rw [hlowBack]; omega)
  rw [hrBack, hlowBack, min_eq_left (by omega)] at hagain
  rw [ecdsaP256DerNormalizeLowS, hd2i _ _ _ hpair]
  exact congrArg Except.ok (hagain.unique hpair)

/-- The order less one. -/
def orderLessOne : Block 32 := ⟨kP256N.bytes.take 31 ++ [0x50], rfl⟩

/-- An `r` with its top bit set and the greatest `s`, which becomes one. -/
theorem ecdsaP256RsToDerLowS_strict_greatest :
    (1 ≤ bnBin2bn orderLessOne ∧ bnBin2bn orderLessOne ≤ bnBin2bn kP256N - 1) ∧
    Der.IsPair (bnBin2bn orderLessOne) 1 (ecdsaP256RsToDerLowS orderLessOne orderLessOne) ∧
    ecdsaP256DerNormalizeLowS Der.readPair (ecdsaP256RsToDerLowS orderLessOne orderLessOne) =
      .ok (ecdsaP256RsToDerLowS orderLessOne orderLessOne) := by
  have hs : 1 ≤ bnBin2bn orderLessOne ∧ bnBin2bn orderLessOne ≤ bnBin2bn kP256N - 1 := by
    decide +kernel
  have hd2i : ∀ m n der, Der.IsPair m n der → Der.readPair der = some (m, n) :=
    fun _ _ _ h => Der.readPair_of_isPair h
  obtain ⟨hder, -, hagain⟩ := ecdsaP256RsToDerLowS_strict (r := orderLessOne) hd2i hs
  have hmin : min (bnBin2bn orderLessOne) (bnBin2bn kP256N - bnBin2bn orderLessOne) = 1 := by
    decide +kernel
  rw [hmin] at hder
  exact ⟨hs, (hder _).mp rfl, hagain⟩

end Swpasskey
