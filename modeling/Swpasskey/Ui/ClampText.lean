import Swpasskey.Bytes
import Swpasskey.Lib.Utf8

/-!
# Clamping the text of a prompt

`detail::clamp_text` replaces control bytes and cuts a text that is too long. On valid UTF-8 the cut
is between characters. The C1 control characters, whose bytes are those of any other character, go
through: the text is free of control characters exactly when none of them is in the part that is
kept.
-/

namespace Swpasskey

open Utf8

/-- What `clamp_text` does to a byte. -/
def blankByte (u : UInt8) : UInt8 := if u < 0x20 || u == 0x7F then 0x20 else u

/-- The loop that backs off over continuation bytes. -/
def backOff (out : Bytes) : ℕ → ℕ
  | 0 => 0
  | n + 1 => if out.getD (n + 1) 0 &&& 0xC0 = 0x80 then backOff out n else n + 1

/-- `clamp_text`. -/
def clampText (s : Bytes) (max : ℕ := 96) : Bytes :=
  let out := s.map blankByte
  if out.length ≤ max then out else out.take (backOff out max) ++ ascii "..."

/-! ### What is shown -/

/-- C0 and DEL. -/
def IsC0 (c : Char) : Prop := c.toNat < 0x20 ∨ c.toNat = 0x7F

def IsC1 (c : Char) : Prop := 0x80 ≤ c.toNat ∧ c.toNat ≤ 0x9F

def IsControl (c : Char) : Prop := IsC0 c ∨ IsC1 c

instance (c : Char) : Decidable (IsC0 c) := inferInstanceAs (Decidable (_ ∨ _))

instance (c : Char) : Decidable (IsC1 c) := inferInstanceAs (Decidable (_ ∧ _))

instance (c : Char) : Decidable (IsControl c) := inferInstanceAs (Decidable (_ ∨ _))

/-- The character with C0 and DEL replaced by a space. -/
def blank (c : Char) : Char := if IsC0 c then ' ' else c

/-- The longest prefix of at most `max` bytes. -/
structure LongestPrefix (cs : List Char) (max : ℕ) (pre : List Char) : Prop where
  isPrefix : pre <+: cs
  length_le : (text pre).length ≤ max
  longest : ∀ pre', pre' <+: cs → (text pre').length ≤ max → pre'.length ≤ pre.length

/-- What a clamped text is to be. -/
structure Clamps (cs : List Char) (max : ℕ) (out : Bytes) : Prop where
  length_le : out.length ≤ max + 3
  fits : (text cs).length ≤ max → out = text (cs.map blank)
  cut : max < (text cs).length →
    ∃ pre, LongestPrefix (cs.map blank) max pre ∧ out = text pre ++ ascii "..."
  clean : ∃ ds, out = text ds ∧ ∀ d ∈ ds, ¬ IsControl d

variable {c : Char} {cs ds : List Char} {max n : ℕ} {out : Bytes}

theorem isContinuation_iff (b : UInt8) : b &&& 0xC0 = 0x80 ↔ IsContinuation b :=
  forall_byte (P := fun b => b &&& 0xC0 = 0x80 ↔ IsContinuation b) (by decide +kernel) b

/-- The replacement is one of characters: the bytes above `0x7F` stay. -/
theorem map_blankByte_encode (c : Char) :
    (encode c.toNat).map blankByte = encode (blank c).toNat := by
  have hblank : (blank c).toNat = if c.toNat < 0x20 ∨ c.toNat = 0x7F then 0x20 else c.toNat := by
    by_cases h : c.toNat < 0x20 ∨ c.toNat = 0x7F
    · rw [blank, if_pos (show IsC0 c from h), if_pos h]
      rfl
    · rw [blank, if_neg (show ¬ IsC0 c from h), if_neg h]
  rw [hblank]
  rcases Nat.lt_or_ge c.toNat 0x80 with hlow | hhigh
  · have hall : ∀ v < 0x80, (encode v).map blankByte =
        encode (if v < 0x20 ∨ v = 0x7F then 0x20 else v) := by decide +kernel
    exact hall _ hlow
  · rw [if_neg (by omega)]
    refine (List.map_congr_left fun b hb => ?_).trans (List.map_id _)
    have hb : 0x80 ≤ b.toNat := le_of_mem_encode (toNat_lt c) hhigh hb
    have hkeep : ¬ (b < 0x20 || b == 0x7F) = true := by
      simp only [Bool.or_eq_true, decide_eq_true_eq, beq_iff_eq, UInt8.lt_iff_toNat_lt,
        ← UInt8.toNat_inj, UInt8.reduceToNat]
      omega
    rw [blankByte, if_neg hkeep, id]

theorem map_blankByte_text (cs : List Char) : (text cs).map blankByte = text (cs.map blank) := by
  induction cs with
  | nil => rfl
  | cons c cs ih =>
    rw [text_cons, List.map_append, map_blankByte_encode, ih, List.map_cons, text_cons]

theorem length_text_map_blank (cs : List Char) :
    (text (cs.map blank)).length = (text cs).length := by
  rw [← map_blankByte_text, List.length_map]

/-- Where the loop stops: at a byte that does not continue a character, the last up to `max`. -/
theorem backOff_spec (out : Bytes) (max : ℕ) : backOff out max ≤ max ∧
    (backOff out max = 0 ∨ ¬ IsContinuation (out.getD (backOff out max) 0)) ∧
    ∀ i, backOff out max < i → i ≤ max → IsContinuation (out.getD i 0) := by
  induction max with
  | zero => exact ⟨le_rfl, .inl rfl, fun i h0 h => absurd h0 (not_lt.mpr h)⟩
  | succ max ih =>
    obtain ⟨hle, hstop, hover⟩ := ih
    rw [backOff]
    split_ifs with hcont
    · refine ⟨hle.trans max.le_succ, hstop, fun i hlt hi => ?_⟩
      obtain hi | rfl := Nat.le_succ_iff.mp hi
      · exact hover i hlt hi
      · exact (isContinuation_iff _).mp hcont
    · refine ⟨le_rfl, .inr (mt (isContinuation_iff _).mpr hcont), fun i hlt hi => ?_⟩
      exact absurd hlt (not_lt.mpr hi)

/-- On a text that is longer, the loop stops behind the longest prefix. -/
theorem longestPrefix_backOff (h : max < (text cs).length) :
    ∃ pre, LongestPrefix cs max pre ∧ (text cs).take (backOff (text cs) max) = text pre := by
  obtain ⟨hle, hstop, hover⟩ := backOff_spec (text cs) max
  have hbound : IsBoundary cs (backOff (text cs) max) := by
    rcases hstop with hzero | hcont
    · rw [hzero]
      exact isBoundary_zero cs
    · exact (isBoundary_iff (hle.trans_lt h)).mpr hcont
  obtain ⟨pre, post, hsplit, hpre⟩ := hbound
  refine ⟨pre, ⟨⟨post, hsplit.symm⟩, hpre ▸ hle, fun pre' hpre' hlen => ?_⟩, ?_⟩
  · -- a longer prefix would end at a byte that does not continue a character, further on
    by_contra hlt
    have hprefix : pre <+: pre' :=
      List.prefix_of_prefix_length_le ⟨post, hsplit.symm⟩ hpre' (not_le.mp hlt).le
    obtain ⟨rest, rfl⟩ := hprefix
    obtain ⟨post', hsplit'⟩ := hpre'
    cases rest with
    | nil => simp at hlt
    | cons d rest =>
      have hgrow : (text pre).length < (text (pre ++ d :: rest)).length := by
        rw [List.append_cons, text_append]
        exact length_text_lt.trans_le (by rw [List.length_append]; exact Nat.le_add_right _ _)
      have hbound : IsBoundary cs (text (pre ++ d :: rest)).length := ⟨_, post', hsplit'.symm, rfl⟩
      exact (isBoundary_iff (hlen.trans_lt h)).mp hbound (hover _ (hpre ▸ hgrow) hlen)
  · rw [hpre, hsplit, text_append, List.take_left]

/-! ### The result -/

theorem clampText_of_le (h : (text cs).length ≤ max) :
    clampText (text cs) max = text (cs.map blank) := by
  rw [clampText, map_blankByte_text, length_text_map_blank, if_pos h]

theorem clampText_of_lt (h : max < (text cs).length) :
    ∃ pre, LongestPrefix (cs.map blank) max pre ∧
      clampText (text cs) max = text pre ++ ascii "..." := by
  have hlt : max < (text (cs.map blank)).length := by rwa [length_text_map_blank]
  obtain ⟨pre, hpre, htake⟩ := longestPrefix_backOff hlt
  refine ⟨pre, hpre, ?_⟩
  rw [clampText, map_blankByte_text, length_text_map_blank, if_neg (not_le.mpr h), htake]

/-- Three dots, as characters. -/
theorem text_dots : text "...".toList = ascii "..." := by decide +kernel

theorem not_isC0_blank (c : Char) : ¬ IsC0 (blank c) := by
  rw [blank]
  split_ifs with h
  · decide
  · exact h

/-- A replaced character is a C1 control character only where it was one. -/
theorem isC1_blank (h : IsC1 (blank c)) : IsC1 c ∧ blank c = c := by
  rw [blank] at h ⊢
  split_ifs at h ⊢ with hc
  · exact absurd h (by decide)
  · exact ⟨h, rfl⟩

theorem blank_of_isC1 (h : IsC1 c) : blank c = c := by
  have hc : ¬ IsC0 c := by
    rw [IsC1] at h
    rw [IsC0]
    omega
  rw [blank, if_neg hc]

/-- No C1 control character ends within the first `max` bytes. -/
def NoEarlyC1 (cs : List Char) (max : ℕ) : Prop :=
  ∀ pre c post, cs = pre ++ c :: post → IsC1 c → max < (text (pre ++ [c])).length

/-- A prefix that fits is then free of control characters. -/
theorem NoEarlyC1.clean (h : NoEarlyC1 cs max) (hds : ds <+: cs.map blank)
    (hlen : (text ds).length ≤ max) : ∀ d ∈ ds, ¬ IsControl d := by
  rintro d hd hcontrol
  obtain ⟨ds₁, ds₂, rfl⟩ := List.append_of_mem hd
  obtain ⟨rest, hrest⟩ := hds
  rw [List.append_assoc, List.cons_append] at hrest
  obtain ⟨pre, tail, rfl, rfl, htail⟩ := List.map_eq_append_iff.mp hrest.symm
  obtain ⟨c, post, rfl, rfl, -⟩ := List.map_eq_cons_iff.mp htail
  obtain hC0 | hC1 := hcontrol
  · exact not_isC0_blank c hC0
  · have hlt := h pre c post rfl (isC1_blank hC1).1
    rw [← length_text_map_blank, List.map_append, List.map_singleton] at hlt
    rw [List.append_cons, text_append, List.length_append] at hlen
    omega

/-- A C1 control character within the prefix that is kept is kept. -/
theorem LongestPrefix.mem {pre : List Char} (h : LongestPrefix (cs.map blank) max pre)
    {cs₁ cs₂ : List Char} (hsplit : cs = cs₁ ++ c :: cs₂) (hc : IsC1 c)
    (hlen : (text (cs₁ ++ [c])).length ≤ max) : c ∈ pre := by
  have hprefix : (cs₁ ++ [c]).map blank <+: cs.map blank := by
    rw [hsplit, List.append_cons cs₁ c cs₂]
    exact (List.prefix_append _ cs₂).map blank
  have hle := h.longest _ hprefix (by rwa [length_text_map_blank])
  refine (List.prefix_of_prefix_length_le hprefix h.isPrefix hle).subset ?_
  rw [List.map_append, List.map_singleton, blank_of_isC1 hc]
  exact List.mem_append_right _ (List.mem_singleton_self c)

/-- **The clamping of prompt text.** On valid UTF-8, what `clamp_text` returns is valid UTF-8 of at
most `max + 3` bytes, the text itself with C0 and DEL replaced when it fits, and its longest
fitting prefix with three dots when not. It is free of control characters if and only if no C1
control character of the text ends within the first `max` bytes. -/
theorem clampText_clamps_iff (cs : List Char) (max : ℕ) :
    Clamps cs max (clampText (text cs) max) ↔ NoEarlyC1 cs max := by
  constructor
  · rintro hclamps pre c post hsplit hc
    by_contra hle
    obtain ⟨ds, hds, hclean⟩ := hclamps.clean
    refine hclean c ?_ (.inr hc)
    rcases Nat.lt_or_ge max (text cs).length with hlt | hfit
    · obtain ⟨kept, hkept, hout⟩ := hclamps.cut hlt
      rw [hout, ← text_dots, ← text_append] at hds
      rw [← text_injective hds]
      exact List.mem_append_left _ (hkept.mem hsplit hc (not_lt.mp hle))
    · rw [hclamps.fits hfit] at hds
      rw [← text_injective hds, ← blank_of_isC1 hc]
      exact List.mem_map_of_mem (hsplit ▸ List.mem_append_right _ List.mem_cons_self)
  · intro h
    rcases Nat.lt_or_ge max (text cs).length with hlt | hfit
    · obtain ⟨pre, hpre, hout⟩ := clampText_of_lt hlt
      refine ⟨?_, fun hle => absurd hle (not_le.mpr hlt), fun _ => ⟨pre, hpre, hout⟩, ?_⟩
      · rw [hout, List.length_append]
        exact Nat.add_le_add_right hpre.length_le 3
      · refine ⟨pre ++ "...".toList, by rw [hout, text_append, text_dots], fun d hd => ?_⟩
        rcases List.mem_append.mp hd with hd | hd
        · exact h.clean hpre.isPrefix hpre.length_le d hd
        · obtain rfl : d = '.' := by simpa using hd
          decide
    · have hout := clampText_of_le hfit
      refine ⟨?_, fun _ => hout, fun hlt => absurd hlt (not_lt.mpr hfit), _, hout, ?_⟩
      · rw [hout, length_text_map_blank]
        omega
      · exact h.clean (List.prefix_refl _) (by rwa [length_text_map_blank])

/-- U+009B, which terminals take for the start of an escape sequence, goes through. -/
theorem not_clamps_csi : ¬ Clamps [Char.ofNat 0x9B] 96 (clampText (text [Char.ofNat 0x9B])) := by
  intro h
  obtain ⟨ds, hds, hclean⟩ := h.clean
  have hout : clampText (text [Char.ofNat 0x9B]) = text [Char.ofNat 0x9B] := by decide +kernel
  rw [hout] at hds
  rw [← text_injective hds] at hclean
  exact hclean _ (List.mem_singleton_self _) (by decide)

end Swpasskey
