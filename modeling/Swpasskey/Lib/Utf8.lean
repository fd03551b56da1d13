import Mathlib.Data.List.GetD
import Mathlib.Tactic

/-!
# UTF-8 as bytes

The bytes of a code point, of characters and of text. A surrogate is given the three bytes that its
value would have, so that texts which are not UTF-8, but encode UTF-16 unit by unit, can be compared
with those that are: `encode` is a prefix code on all of them (`decode_append`), and thus injective
on lists. The boundaries between characters are the positions of the bytes that do not continue one
(`isBoundary_iff`).
-/

namespace Utf8

/-- The bytes of a code point below `0x110000`. -/
def encode (v : ℕ) : List UInt8 :=
  if v < 0x80 then [UInt8.ofNat v]
  else if v < 0x800 then [UInt8.ofNat (v / 64 + 0xC0), UInt8.ofNat (v % 64 + 0x80)]
  else if v < 0x10000 then
    [UInt8.ofNat (v / 4096 + 0xE0), UInt8.ofNat (v / 64 % 64 + 0x80), UInt8.ofNat (v % 64 + 0x80)]
  else
    [UInt8.ofNat (v / 262144 + 0xF0), UInt8.ofNat (v / 4096 % 64 + 0x80),
      UInt8.ofNat (v / 64 % 64 + 0x80), UInt8.ofNat (v % 64 + 0x80)]

/-- The UTF-8 of a text. -/
def text (cs : List Char) : List UInt8 := cs.flatMap String.utf8EncodeChar

/-- A byte that continues a character. -/
def IsContinuation (b : UInt8) : Prop := 0x80 ≤ b.toNat ∧ b.toNat < 0xC0

instance (b : UInt8) : Decidable (IsContinuation b) := inferInstanceAs (Decidable (_ ∧ _))

/-- The code point at the front, as its first byte announces it, and what is behind it. -/
def decode : List UInt8 → Option (ℕ × List UInt8)
  | [] => none
  | a :: l =>
    let more i := (l.getD i 0).toNat - 0x80
    if a.toNat < 0x80 then some (a.toNat, l)
    else if a.toNat < 0xE0 then some ((a.toNat - 0xC0) * 64 + more 0, l.drop 1)
    else if a.toNat < 0xF0 then
      some ((a.toNat - 0xE0) * 4096 + more 0 * 64 + more 1, l.drop 2)
    else
      some ((a.toNat - 0xF0) * 262144 + more 0 * 4096 + more 1 * 64 + more 2, l.drop 3)

variable {v w n : ℕ} {b : UInt8} {c : Char} {cs ds : List Char} {vs ws : List ℕ} {l l' : List UInt8}

/-! ### Code points -/

theorem toNat_lt (c : Char) : c.toNat < 0x110000 := by
  rcases c.valid with h | h
  · exact lt_trans h (by decide)
  · exact h.2

theorem utf8EncodeChar_eq (c : Char) : String.utf8EncodeChar c = encode c.toNat := by
  have hc : c.val.toNat < 0x110000 := toNat_lt c
  unfold String.utf8EncodeChar encode Char.toNat
  obtain ⟨v, hv⟩ : ∃ v, v = c.val.toNat := ⟨_, rfl⟩
  rw [← hv] at hc ⊢
  dsimp only
  -- the reductions in the definition are those of a byte
  have h5 : v ≤ 0x7FF → v / 64 % 32 = v / 64 := fun h => Nat.mod_eq_of_lt (by omega)
  have h4 : v ≤ 0xFFFF → v / 4096 % 16 = v / 4096 := fun h => Nat.mod_eq_of_lt (by omega)
  have h3 : v / 262144 % 8 = v / 262144 := Nat.mod_eq_of_lt (by omega)
  split_ifs <;> first | omega | rfl | rw [h5 ‹_›] | rw [h4 ‹_›] | rw [h3]

private theorem toNat_ofNat (h : n < 256) : (UInt8.ofNat n).toNat = n :=
  UInt8.toNat_ofNat_of_lt h

/-- A byte that carries six bits. -/
private theorem toNat_more (n : ℕ) : (UInt8.ofNat (n % 64 + 0x80)).toNat = n % 64 + 0x80 :=
  toNat_ofNat (by omega)

theorem decode_append (hv : v < 0x110000) (l : List UInt8) :
    decode (encode v ++ l) = some (v, l) := by
  unfold encode
  split_ifs with h1 h2 h3
  · have ha : (UInt8.ofNat v).toNat = v := toNat_ofNat (by omega)
    rw [List.singleton_append, decode, ha, if_pos h1]
  · have ha : (UInt8.ofNat (v / 64 + 0xC0)).toNat = v / 64 + 0xC0 := toNat_ofNat (by omega)
    have hval : (v / 64 + 0xC0 - 0xC0) * 64 + (v % 64 + 0x80 - 0x80) = v := by omega
    rw [List.cons_append, decode, ha, if_neg (by omega), if_pos (by omega)]
    simp only [List.cons_append, List.nil_append, List.getD_cons_zero, toNat_more, hval,
      List.drop_succ_cons, List.drop_zero]
  · have ha : (UInt8.ofNat (v / 4096 + 0xE0)).toNat = v / 4096 + 0xE0 := toNat_ofNat (by omega)
    have hval : (v / 4096 + 0xE0 - 0xE0) * 4096 + (v / 64 % 64 + 0x80 - 0x80) * 64 +
        (v % 64 + 0x80 - 0x80) = v := by omega
    rw [List.cons_append, decode, ha, if_neg (by omega), if_neg (by omega), if_pos (by omega)]
    simp only [List.cons_append, List.nil_append, List.getD_cons_zero, List.getD_cons_succ,
      toNat_more, hval, List.drop_succ_cons, List.drop_zero]
  · have ha : (UInt8.ofNat (v / 262144 + 0xF0)).toNat = v / 262144 + 0xF0 :=
      toNat_ofNat (by omega)
    have hval : (v / 262144 + 0xF0 - 0xF0) * 262144 + (v / 4096 % 64 + 0x80 - 0x80) * 4096 +
        (v / 64 % 64 + 0x80 - 0x80) * 64 + (v % 64 + 0x80 - 0x80) = v := by omega
    rw [List.cons_append, decode, ha, if_neg (by omega), if_neg (by omega), if_neg (by omega)]
    simp only [List.cons_append, List.nil_append, List.getD_cons_zero, List.getD_cons_succ,
      toNat_more, hval, List.drop_succ_cons, List.drop_zero]

/-- The bytes of a list of code points determine it. -/
theorem flatMap_encode_injective (hvs : ∀ v ∈ vs, v < 0x110000) (hws : ∀ w ∈ ws, w < 0x110000)
    (h : vs.flatMap encode = ws.flatMap encode) : vs = ws := by
  induction vs generalizing ws with
  | nil =>
    cases ws with
    | nil => rfl
    | cons w ws =>
      have hw := decode_append (hws w List.mem_cons_self) (ws.flatMap encode)
      rw [← List.flatMap_cons, ← h] at hw
      cases hw
  | cons v vs ih =>
    have hv := decode_append (hvs v List.mem_cons_self) (vs.flatMap encode)
    rw [← List.flatMap_cons, h] at hv
    cases ws with
    | nil => cases hv
    | cons w ws =>
      rw [List.flatMap_cons, decode_append (hws w List.mem_cons_self)] at hv
      obtain ⟨rfl, htail⟩ := Prod.mk.inj (Option.some.inj hv)
      rw [ih (fun x hx => hvs x (List.mem_cons_of_mem _ hx))
        (fun x hx => hws x (List.mem_cons_of_mem _ hx)) htail.symm]

/-- The first byte of a code point does not continue one, and the others do. -/
theorem encode_eq_cons (hv : v < 0x110000) : ∃ b l, encode v = b :: l ∧ ¬ IsContinuation b ∧
    ∀ x ∈ l, IsContinuation x := by
  have hmore : ∀ n, IsContinuation (UInt8.ofNat (n % 64 + 0x80)) := by
    intro n
    rw [IsContinuation, toNat_more]
    omega
  unfold encode
  split_ifs with h1 h2 h3
  all_goals
    refine ⟨_, _, rfl, ?_, by simp only [List.forall_mem_cons, List.not_mem_nil, hmore,
      false_implies, implies_true, and_self]⟩
    rw [IsContinuation, toNat_ofNat (by omega)]
    omega

/-- A code point of more than one byte has none below `0x80`. -/
theorem le_of_mem_encode (hv : v < 0x110000) (h : 0x80 ≤ v) (hb : b ∈ encode v) :
    0x80 ≤ b.toNat := by
  unfold encode at hb
  rw [if_neg (not_lt.mpr h)] at hb
  split_ifs at hb with h2 h3
  all_goals
    simp only [List.mem_cons, List.not_mem_nil, or_false] at hb
    rcases hb with rfl | hb
    · rw [toNat_ofNat (by omega)]
      omega
  · rw [hb, toNat_more]
    omega
  · rcases hb with rfl | rfl <;> rw [toNat_more] <;> omega
  · rcases hb with rfl | rfl | rfl <;> rw [toNat_more] <;> omega

/-! ### Texts -/

@[simp] theorem text_nil : text [] = [] := rfl

@[simp] theorem text_cons (c : Char) (cs : List Char) :
    text (c :: cs) = encode c.toNat ++ text cs := by
  rw [text, List.flatMap_cons, utf8EncodeChar_eq]
  rfl

@[simp] theorem text_append (cs ds : List Char) : text (cs ++ ds) = text cs ++ text ds :=
  List.flatMap_append

theorem text_eq_flatMap (cs : List Char) : text cs = (cs.map Char.toNat).flatMap encode := by
  rw [text, List.flatMap_map]
  exact List.flatMap_congr fun c _ => utf8EncodeChar_eq c

theorem text_injective : Function.Injective text := by
  intro cs ds h
  rw [text_eq_flatMap, text_eq_flatMap] at h
  have hlt : ∀ cs : List Char, ∀ v ∈ cs.map Char.toNat, v < 0x110000 := by
    intro cs v hv
    obtain ⟨c, -, rfl⟩ := List.mem_map.mp hv
    exact toNat_lt c
  exact List.map_injective_iff.mpr (fun a b hab => Char.toNat_inj.mp hab)
    (flatMap_encode_injective (hlt cs) (hlt ds) h)

theorem length_text_lt {c : Char} : (text cs).length < (text (cs ++ [c])).length := by
  obtain ⟨b, l, hb, -⟩ := encode_eq_cons (toNat_lt c)
  simp [hb]

/-! ### Boundaries -/

/-- The position is one between characters. -/
def IsBoundary (cs : List Char) (i : ℕ) : Prop :=
  ∃ pre post, cs = pre ++ post ∧ i = (text pre).length

theorem isBoundary_zero (cs : List Char) : IsBoundary cs 0 := ⟨[], cs, rfl, rfl⟩

theorem isBoundary_cons : IsBoundary (c :: cs) n ↔
    n = 0 ∨ ∃ i, IsBoundary cs i ∧ n = (encode c.toNat).length + i := by
  constructor
  · rintro ⟨pre, post, hsplit, rfl⟩
    cases pre with
    | nil => exact .inl rfl
    | cons d pre =>
      obtain ⟨rfl, rfl⟩ := List.cons.inj hsplit
      exact .inr ⟨_, ⟨pre, post, rfl, rfl⟩, by rw [text_cons, List.length_append]⟩
  · rintro (rfl | ⟨i, ⟨pre, post, rfl, rfl⟩, rfl⟩)
    · exact isBoundary_zero _
    · exact ⟨c :: pre, post, rfl, by rw [text_cons, List.length_append]⟩

/-- In front of the end, the boundaries are the bytes that do not continue a character. -/
theorem isBoundary_iff (hn : n < (text cs).length) :
    IsBoundary cs n ↔ ¬ IsContinuation ((text cs).getD n 0) := by
  induction cs generalizing n with
  | nil => exact absurd hn (Nat.not_lt_zero n)
  | cons c cs ih =>
    obtain ⟨b, l, henc, hb, hl⟩ := encode_eq_cons (toNat_lt c)
    rw [text_cons, henc, List.cons_append] at hn ⊢
    rw [isBoundary_cons, henc, List.length_cons]
    cases n with
    | zero => exact iff_of_true (.inl rfl) hb
    | succ n =>
      rw [List.getD_cons_succ]
      rw [List.length_cons, List.length_append] at hn
      rcases Nat.lt_or_ge n l.length with hlt | hge
      · -- inside the first character
        rw [List.getD_append _ _ _ _ hlt, List.getD_eq_getElem _ _ hlt]
        refine iff_of_false ?_ (not_not.mpr (hl _ (List.getElem_mem hlt)))
        rintro (h | ⟨i, -, h⟩) <;> omega
      · rw [List.getD_append_right _ _ _ _ hge, ← ih (by omega)]
        constructor
        · rintro (h | ⟨i, hi, h⟩)
          · omega
          · rwa [show n - l.length = i by omega]
        · exact fun h => .inr ⟨_, h, by omega⟩

end Utf8
