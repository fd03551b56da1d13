import Swpasskey.Ctap.HidFramer
import Swpasskey.Ctap.U2f

/-!
# The forms of a command APDU

ISO 7816-4 has seven encodings of a command APDU: without data and Le, with one of them or with
both, in the short form and in the extended form. `parse_apdu` tells the two forms apart by the
first byte of the body, and the cases of a form by lengths alone.

It reads an extended body as Lc, data and Le, whatever its length. A body of three bytes can also
be an extended Le without Lc (`case2E`), and that one is refused unless Le is zero.
-/

namespace Swpasskey

namespace Apdu

open HidFramer

/-- The first four bytes of an APDU. -/
structure Header where
  cla : UInt8
  ins : UInt8
  p1 : UInt8
  p2 : UInt8
  deriving DecidableEq

/-- Command data whose length is written in a field that goes up to `max`. -/
structure Data (max : ℕ) where
  bytes : Bytes
  nonempty : bytes ≠ []
  length_le : bytes.length ≤ max

/-- The encoding forms: the case, short or extended. -/
inductive Form
  | case1
  | case2S (le : UInt8)
  | case3S (data : Data 255)
  | case4S (data : Data 255) (le : UInt8)
  | case2E (le : UInt16)
  | case3E (data : Data 65535)
  | case4E (data : Data 65535) (le : UInt16)

/-- The extended Lc field and the data. -/
def extendedData (l : Bytes) : Bytes := 0 :: writeU16Be (UInt16.ofNat l.length) ++ l

namespace Form

/-- The command data of a form. -/
def data : Form → Bytes
  | case3S d => d.bytes
  | case4S d _ => d.bytes
  | case3E d => d.bytes
  | case4E d _ => d.bytes
  | _ => []

/-- What follows the header. -/
def body : Form → Bytes
  | case1 => []
  | case2S le => [le]
  | case3S d => UInt8.ofNat d.bytes.length :: d.bytes
  | case4S d le => UInt8.ofNat d.bytes.length :: d.bytes ++ [le]
  | case2E le => 0 :: writeU16Be le
  | case3E d => extendedData d.bytes
  | case4E d le => extendedData d.bytes ++ writeU16Be le

end Form

/-- An APDU with this body. -/
def Header.encode (h : Header) (body : Bytes) : Bytes := h.cla :: h.ins :: h.p1 :: h.p2 :: body

/-- The parsed APDU with this data. -/
def Header.apdu (h : Header) (data : Bytes) : Apdu := ⟨h.cla, h.ins, h.p1, h.p2, data⟩

/-- Bodies of no form that `parse_apdu` accepts all the same: extended without data, and extended
with an Le of one byte. -/
inductive Lenient : Bytes → Prop
  | noData (le : Bytes) (h : le.length ≤ 2) : Lenient (extendedData [] ++ le)
  | shortLe (d : Data 65535) (le : UInt8) : Lenient (extendedData d.bytes ++ [le])

/-! ### Bodies -/

variable {h : Header} {l rest data le : Bytes} {a : Apdu} {b : UInt8}

theorem parseApdu_encode (h : Header) (rest : Bytes) : parseApdu (h.encode rest) =
    if rest.length ≤ 1 then some (h.apdu [])
    else
      let b := rest.getD 0 0
      if b = 0 ∧ rest.length < 3 then none
      else
        let lc := if b ≠ 0 then b.toNat else (rest.getD 1 0).toNat * 256 + (rest.getD 2 0).toNat
        let off := if b ≠ 0 then 1 else 3
        let maxLe := if b ≠ 0 then 1 else 2
        if rest.length < off + lc ∨ rest.length - off - lc > maxLe then none
        else some (h.apdu ((rest.drop off).take lc)) := rfl

/-- A short body with data. -/
theorem parseApdu_short (hb : b ≠ 0) (hne : l ≠ []) : parseApdu (h.encode (b :: l)) =
    if l.length < b.toNat ∨ l.length > b.toNat + 1 then none
    else some (h.apdu (l.take b.toNat)) := by
  have hpos : 0 < l.length := List.length_pos_iff.mpr hne
  rw [parseApdu_encode, if_neg (by rw [List.length_cons]; omega)]
  simp only [List.getD_cons_zero, hb, false_and, if_false, ne_eq, not_false_iff, if_true,
    List.length_cons, List.drop_succ_cons, List.drop_zero]
  congr 1
  exact propext (or_congr (by omega) (by omega))

/-- An extended body. -/
theorem parseApdu_extended (hi lo : UInt8) : parseApdu (h.encode (0 :: hi :: lo :: l)) =
    if l.length < hi.toNat * 256 + lo.toNat ∨ l.length > hi.toNat * 256 + lo.toNat + 2 then none
    else some (h.apdu (l.take (hi.toNat * 256 + lo.toNat))) := by
  rw [parseApdu_encode, if_neg (by simp)]
  simp only [List.getD_cons_zero, List.getD_cons_succ, List.length_cons, ne_eq, not_true_eq_false,
    if_false, List.drop_succ_cons, List.drop_zero]
  rw [if_neg (by omega)]
  congr 1
  exact propext (or_congr (by omega) (by omega))

theorem toNat_writeU16Be (v : UInt16) :
    (v >>> 8).toUInt8.toNat * 256 + v.toUInt8.toNat = v.toNat := by
  have hv := v.toNat_lt
  simp only [UInt16.toNat_toUInt8, UInt16.toNat_shiftRight, UInt16.reduceToNat, Nat.reduceMod,
    Nat.shiftRight_eq_div_pow, Nat.reducePow]
  omega

/-- An Lc field written for the length of the data is read back. -/
theorem parseApdu_extendedData (hl : l.length ≤ 65535) :
    parseApdu (h.encode (extendedData l ++ le)) =
      if le.length ≤ 2 then some (h.apdu l) else none := by
  have hlc := toNat_writeU16Be (UInt16.ofNat l.length)
  have hlen : (UInt16.ofNat l.length).toNat = l.length := Nat.mod_eq_of_lt (Nat.lt_succ_of_le hl)
  have hbody : extendedData l ++ le = (0 : UInt8) :: ((UInt16.ofNat l.length) >>> 8).toUInt8 ::
      (UInt16.ofNat l.length).toUInt8 :: (l ++ le) := rfl
  rw [hbody, parseApdu_extended, hlc, hlen, List.take_left, List.length_append]
  by_cases hle : le.length ≤ 2
  · rw [if_pos hle, if_neg (by omega)]
  · rw [if_neg hle, if_pos (by omega)]

/-- The same for a short body. -/
theorem parseApdu_shortData (hne : l ≠ []) (hl : l.length ≤ 255) :
    parseApdu (h.encode (UInt8.ofNat l.length :: l ++ le)) =
      if le.length ≤ 1 then some (h.apdu l) else none := by
  have hpos : 0 < l.length := List.length_pos_iff.mpr hne
  have hlen : (UInt8.ofNat l.length).toNat = l.length := Nat.mod_eq_of_lt (Nat.lt_succ_of_le hl)
  have hb : UInt8.ofNat l.length ≠ 0 := by
    intro heq
    rw [heq, UInt8.toNat_zero] at hlen
    omega
  rw [List.cons_append, parseApdu_short hb (by simp [hne]), hlen, List.take_left,
    List.length_append]
  by_cases hle : le.length ≤ 1
  · rw [if_pos hle, if_neg (by omega)]
  · rw [if_neg hle, if_pos (by omega)]

/-- Two bytes are those of the number they make. -/
theorem writeU16Be_ofNat (hi lo : UInt8) :
    writeU16Be (UInt16.ofNat (hi.toNat * 256 + lo.toNat)) = [hi, lo] := by
  have hhi := hi.toNat_lt
  have hlo := lo.toNat_lt
  obtain ⟨v, hv⟩ : ∃ v, v = UInt16.ofNat (hi.toNat * 256 + lo.toNat) := ⟨_, rfl⟩
  have hnat : v.toNat = hi.toNat * 256 + lo.toNat := by
    rw [hv]
    exact Nat.mod_eq_of_lt (by omega)
  have hparts := toNat_writeU16Be v
  have h8 : (v >>> 8).toUInt8 = hi := by
    refine UInt8.toNat_inj.mp ?_
    have := (v >>> 8).toUInt8.toNat_lt
    have := v.toUInt8.toNat_lt
    omega
  have h0 : v.toUInt8 = lo := by
    refine UInt8.toNat_inj.mp ?_
    rw [h8] at hparts
    omega
  rw [← hv, writeU16Be, h8, h0]

/-! ### Forms -/

/-- Every form is parsed as it was encoded, but for an extended Le alone that is not zero. -/
theorem parseApdu_body (h : Header) (f : Form) :
    parseApdu (h.encode f.body) = some (h.apdu f.data) ↔
    ¬ ∃ le, f = .case2E le ∧ le ≠ 0 := by
  cases f with
  | case1 => exact iff_of_true rfl (by rintro ⟨_, ⟨⟩, _⟩)
  | case2S le => exact iff_of_true rfl (by rintro ⟨_, ⟨⟩, _⟩)
  | case3S d =>
    refine iff_of_true ?_ (by rintro ⟨_, ⟨⟩, _⟩)
    have hparse := @parseApdu_shortData h _ [] d.nonempty d.length_le
    rwa [List.append_nil, if_pos (by simp)] at hparse
  | case4S d le =>
    refine iff_of_true ?_ (by rintro ⟨_, ⟨⟩, _⟩)
    exact (parseApdu_shortData d.nonempty d.length_le).trans (if_pos le_rfl)
  | case2E le =>
    -- the two bytes of Le are read as a length of data, of which none follow
    have hparse := parseApdu_extended (h := h) (l := []) (le >>> 8).toUInt8 le.toUInt8
    rw [toNat_writeU16Be, List.take_nil, List.length_nil] at hparse
    have hzero : le = 0 ↔ le.toNat = 0 := by rw [← UInt16.toNat_inj, UInt16.toNat_zero]
    refine Iff.trans (b := le = 0) ?_ ⟨?_, fun h => ?_⟩
    · change parseApdu (h.encode (0 :: (le >>> 8).toUInt8 :: le.toUInt8 :: [])) =
        some (h.apdu []) ↔ _
      rw [hparse, hzero]
      by_cases hle : le.toNat = 0
      · simp [hle]
      · simp [hle, Nat.pos_of_ne_zero hle]
    · rintro rfl ⟨_, ⟨⟩, hne⟩
      exact hne rfl
    · by_contra hne
      exact h ⟨le, rfl, hne⟩
  | case3E d =>
    refine iff_of_true ?_ (by rintro ⟨_, ⟨⟩, _⟩)
    have hparse := @parseApdu_extendedData h _ [] d.length_le
    rwa [List.append_nil, if_pos (by simp)] at hparse
  | case4E d le =>
    refine iff_of_true ?_ (by rintro ⟨_, ⟨⟩, _⟩)
    exact (parseApdu_extendedData d.length_le).trans (if_pos le_rfl)

/-- A body that is accepted is of one of the forms, or lenient. -/
theorem form_of_parseApdu (ha : parseApdu (h.encode rest) = some a) :
    (∃ f : Form, rest = f.body) ∨ Lenient rest := by
  rcases rest with _ | ⟨b, l⟩
  · exact .inl ⟨.case1, rfl⟩
  by_cases hne : l = []
  · exact .inl ⟨.case2S b, by rw [hne]; rfl⟩
  by_cases hb : b = 0
  · subst hb
    rcases l with _ | ⟨hi, _ | ⟨lo, l⟩⟩
    · exact absurd rfl hne
    · cases ha
    rw [parseApdu_extended] at ha
    obtain ⟨n, hn⟩ : ∃ n, n = hi.toNat * 256 + lo.toNat := ⟨_, rfl⟩
    have hmax : n ≤ 65535 := by
      have := hi.toNat_lt
      have := lo.toNat_lt
      omega
    rw [← hn] at ha
    split_ifs at ha with hbad
    -- the data and what is left for Le
    obtain ⟨data, le, rfl, hdata⟩ : ∃ data le, l = data ++ le ∧ data.length = n :=
      ⟨l.take n, l.drop n, (List.take_append_drop n l).symm, by rw [List.length_take]; omega⟩
    have hbody : 0 :: hi :: lo :: (data ++ le) = extendedData data ++ le := by
      rw [extendedData, hdata, hn, writeU16Be_ofNat]
      rfl
    rw [List.length_append] at hbad
    rw [hbody]
    by_cases hnil : data = []
    · subst hnil
      exact .inr (.noData le (by omega))
    · have hle : data.length ≤ 65535 := hdata.trans_le hmax
      rcases le with _ | ⟨x, _ | ⟨y, _ | ⟨z, le⟩⟩⟩
      · exact .inl ⟨.case3E ⟨data, hnil, hle⟩, List.append_nil _⟩
      · exact .inr (.shortLe ⟨data, hnil, hle⟩ x)
      · refine .inl ⟨.case4E ⟨data, hnil, hle⟩ (UInt16.ofNat (x.toNat * 256 + y.toNat)), ?_⟩
        rw [Form.body, writeU16Be_ofNat]
      · simp only [List.length_cons] at hbad
        omega
  · rw [parseApdu_short hb hne] at ha
    have hmax := b.toNat_lt
    split_ifs at ha with hbad
    obtain ⟨data, le, rfl, hdata⟩ : ∃ data le, l = data ++ le ∧ data.length = b.toNat :=
      ⟨l.take b.toNat, l.drop b.toNat, (List.take_append_drop _ l).symm, by
        rw [List.length_take]; omega⟩
    have hlc : UInt8.ofNat data.length = b := by rw [hdata, UInt8.ofNat_toNat]
    have hnil : data ≠ [] := by
      rintro rfl
      exact hb (hlc ▸ rfl)
    rw [List.length_append] at hbad
    refine .inl ?_
    rcases le with _ | ⟨x, _ | ⟨y, le⟩⟩
    · exact ⟨.case3S ⟨data, hnil, by omega⟩, by rw [Form.body, hlc, List.append_nil]⟩
    · exact ⟨.case4S ⟨data, hnil, by omega⟩ x, by rw [Form.body, hlc]; rfl⟩
    · simp only [List.length_cons] at hbad
      omega

/-- **APDU parsing.** Every form is parsed as it was encoded, if and only if it is not an extended
Le alone that is not zero; and nothing else is accepted, but for the lenient bodies. -/
theorem parseApdu_forms (h : Header) (f : Form) (l : Bytes) :
    (parseApdu (h.encode f.body) = some (h.apdu f.data) ↔ ¬ ∃ le, f = .case2E le ∧ le ≠ 0) ∧
      (4 ≤ l.length → (¬ ∃ (h : Header) (f : Form), l = h.encode f.body) →
        (¬ ∃ (h : Header) (body : Bytes), Lenient body ∧ l = h.encode body) →
          parseApdu l = none) := by
  refine ⟨parseApdu_body h f, fun hlen hform hlenient => ?_⟩
  match l, hlen with
  | cla :: ins :: p1 :: p2 :: rest, _ =>
    by_contra hsome
    obtain ⟨a, ha⟩ := Option.ne_none_iff_exists'.mp hsome
    rcases form_of_parseApdu (h := ⟨cla, ins, p1, p2⟩) ha with ⟨f, rfl⟩ | hbody
    · exact hform ⟨⟨cla, ins, p1, p2⟩, f, rfl⟩
    · exact hlenient ⟨⟨cla, ins, p1, p2⟩, rest, hbody, rfl⟩

/-- U2F_VERSION with an extended Le of 256 and no data is refused. -/
theorem not_parseApdu_case2E : (Form.case2E 256).body = [0, 1, 0] ∧
    parseApdu (Header.encode ⟨0, 3, 0, 0⟩ (Form.case2E 256).body) = none ∧
      parseApdu (Header.encode ⟨0, 3, 0, 0⟩ (Form.case2E 256).body) ≠
        some (Header.apdu ⟨0, 3, 0, 0⟩ (Form.case2E 256).data) := by
  decide

end Apdu

end Swpasskey
