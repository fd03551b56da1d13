import Swpasskey.Lib.Text
import Swpasskey.Ctl.Json

/-!
# Quoted words in JSON text

A text of string literals, each with something behind it that has no quote in it. A word between
quotes that occurs in such a text is the end of one of the literals: all of it, or what is behind
the last quote in it (`exists_of_quoted_eq`). So a search for `"key":` finds keys only, while one
for `"cred_id"` also finds the value of another field.
-/

namespace Swpasskey

open JsonWriter Text

/-- The literals, each with what stands behind it. -/
def quoted (ps : List (Bytes × Bytes)) : Bytes := ps.flatMap fun p => quote p.1 ++ p.2

/-- Nothing in the word is escaped. -/
def IsPlain (w : Bytes) : Prop := ∀ c ∈ w, escape c = [c]

instance (w : Bytes) : Decidable (IsPlain w) := List.decidableBAll _ w

/-- The string ends in the word, and nothing or a quote is in front of it. -/
def EndsIn (w s : Bytes) : Prop := s = w ∨ 0x22 :: w <:+ s

instance (w s : Bytes) : Decidable (EndsIn w s) := inferInstanceAs (Decidable (_ ∨ _))

variable {v w s a x y z : Bytes} {c : UInt8} {ps : List (Bytes × Bytes)}

/-! ### Escapes -/

theorem escape_eq_or (c : UInt8) : escape c = [c] ∨ ∃ l, escape c = 0x5C :: l := by
  have hhead : ∀ c : UInt8, escape c = [c] ∨ (escape c).head? = some 0x5C :=
    forall_byte (by decide +kernel)
  refine (hhead c).imp_right fun h => ?_
  obtain ⟨l, hl⟩ := List.head?_eq_some_iff.mp h
  exact ⟨l, hl⟩

theorem quote_notMem_escape (hc : c ≠ 0x22) : (0x22 : UInt8) ∉ escape c := by
  have hbyte : ∀ c : UInt8, c ≠ 0x22 → (0x22 : UInt8) ∉ escape c :=
    forall_byte (by decide +kernel)
  exact hbyte c hc

theorem IsPlain.flatMap_escape (hw : IsPlain w) : w.flatMap escape = w := by
  rw [List.flatMap_congr hw, List.flatMap_singleton']

theorem IsPlain.quote_eq (hw : IsPlain w) : quote w = 0x22 :: (w ++ [0x22]) := by
  rw [quote, hw.flatMap_escape, List.cons_append]

theorem IsPlain.quote_notMem (hw : IsPlain w) : (0x22 : UInt8) ∉ w := fun h =>
  absurd (hw _ h) (by decide)

/-- A plain word up to a quote is a whole string. -/
theorem eq_of_escaped_eq (hw : IsPlain w)
    (h : v.flatMap escape ++ 0x22 :: y = w ++ 0x22 :: z) : v = w ∧ y = z := by
  induction w generalizing v with
  | nil =>
    cases v with
    | nil => exact ⟨rfl, (List.cons.inj h).2⟩
    | cons b v =>
      rw [List.flatMap_cons, List.append_assoc] at h
      rcases escape_eq_or b with hb | ⟨l, hb⟩ <;> rw [hb] at h
      · have hquote : b = 0x22 := (List.cons.inj h).1
        subst hquote
        exact absurd hb (by decide)
      · exact absurd (List.cons.inj h).1 (by decide)
  | cons c w ih =>
    obtain ⟨hc, hplain⟩ := List.forall_mem_cons.mp hw
    cases v with
    | nil =>
      rw [← (List.cons.inj h).1] at hc
      exact absurd hc (by decide)
    | cons b v =>
      rw [List.flatMap_cons, List.append_assoc] at h
      rcases escape_eq_or b with hb | ⟨l, hb⟩ <;> rw [hb] at h
      · obtain ⟨rfl, htail⟩ := List.cons.inj h
        obtain ⟨rfl, rfl⟩ := ih hplain htail
        exact ⟨rfl, rfl⟩
      · rw [← (List.cons.inj h).1] at hc
        exact absurd hc (by decide)

/-- Where a quote stands in an escaped string and what is behind it. -/
theorem escaped_append_eq (h : v.flatMap escape ++ y = a ++ 0x22 :: z) :
    (∃ p v', v = p ++ 0x22 :: v' ∧ a = p.flatMap escape ++ [0x5C] ∧
      v'.flatMap escape ++ y = z) ∨ ∃ a', a = v.flatMap escape ++ a' ∧ y = a' ++ 0x22 :: z := by
  induction v generalizing a with
  | nil => exact .inr ⟨a, rfl, h⟩
  | cons b v ih =>
    rw [List.flatMap_cons, List.append_assoc] at h
    have hlater : ∀ a', a = escape b ++ a' → v.flatMap escape ++ y = a' ++ 0x22 :: z →
        (∃ p v', b :: v = p ++ 0x22 :: v' ∧ a = p.flatMap escape ++ [0x5C] ∧
          v'.flatMap escape ++ y = z) ∨
        ∃ a', a = (b :: v).flatMap escape ++ a' ∧ y = a' ++ 0x22 :: z := by
      intro a' ha' hrest
      rcases ih hrest with ⟨p, v', rfl, rfl, hz⟩ | ⟨a'', rfl, hy⟩
      · exact Or.inl ⟨b :: p, v', rfl, by rw [ha', List.flatMap_cons, List.append_assoc], hz⟩
      · exact Or.inr ⟨a'', by rw [ha', List.flatMap_cons, List.append_assoc], hy⟩
    rcases eq_or_ne b 0x22 with rfl | hb
    · have hesc : escape 0x22 = [0x5C, 0x22] := by decide
      rw [hesc] at h hlater
      rcases a with _ | ⟨a₁, _ | ⟨a₂, a⟩⟩
      · exact absurd (List.cons.inj h).1 (by decide)
      · obtain ⟨ha₁, htail⟩ := List.cons.inj h
        subst ha₁
        exact .inl ⟨[], v, rfl, rfl, (List.cons.inj htail).2⟩
      · obtain ⟨rfl, htail⟩ := List.cons.inj h
        obtain ⟨rfl, hrest⟩ := List.cons.inj htail
        exact hlater a rfl hrest
    · obtain ⟨a', ha', hrest⟩ := eq_append_of_notMem h (quote_notMem_escape hb)
      exact hlater a' ha' hrest

/-! ### Quoted words -/

theorem quoted_nil : quoted [] = [] := rfl

theorem quoted_cons (s x : Bytes) (ps : List (Bytes × Bytes)) : quoted ((s, x) :: ps) =
    0x22 :: (s.flatMap escape ++ 0x22 :: (x ++ quoted ps)) := by
  simp [quoted, quote]

theorem quoted_append (ps qs : List (Bytes × Bytes)) : quoted (ps ++ qs) = quoted ps ++ quoted qs :=
  List.flatMap_append

theorem quote_append_cons (hw : IsPlain w) (p : Bytes) :
    quote (p ++ 0x22 :: w) = 0x22 :: (p.flatMap escape ++ [0x5C]) ++ 0x22 :: (w ++ [0x22]) := by
  have hesc : escape 0x22 = [0x5C, 0x22] := by decide
  rw [quote, List.flatMap_append, List.flatMap_cons, hesc, hw.flatMap_escape]
  simp

/-- A literal that ends in the word ends in the quoted word. -/
theorem EndsIn.suffix_quote (hw : IsPlain w) (hs : EndsIn w s) :
    0x22 :: (w ++ [0x22]) <:+ quote s := by
  rcases hs with rfl | ⟨p, rfl⟩
  · rw [hw.quote_eq]
  · rw [quote_append_cons hw]
    exact List.suffix_append _ _

/-- A quoted word does not begin with the quote that closes a literal. -/
theorem quoted_ne_of_close (hw : IsPlain w) (hx : (0x22 : UInt8) ∉ x) (hne : x ≠ w) :
    x ++ quoted ps ≠ w ++ 0x22 :: z := by
  intro h
  obtain ⟨w', rfl, hrest⟩ := eq_append_of_notMem h hx
  cases ps with
  | nil =>
    rw [quoted_nil] at hrest
    exact absurd hrest (by simp)
  | cons p ps =>
    rw [quoted_cons] at hrest
    cases w' with
    | nil => exact hne (List.append_nil x).symm
    | cons c w' =>
      rw [← (List.cons.inj hrest).1] at hw
      exact hw.quote_notMem (by simp)

/-- **Where a quoted word occurs**: at the end of a literal. -/
theorem exists_of_quoted_eq (hw : IsPlain w) (hps : ∀ p ∈ ps, (0x22 : UInt8) ∉ p.2 ∧ p.2 ≠ w)
    (h : quoted ps = a ++ 0x22 :: (w ++ 0x22 :: z)) : ∃ pre s x post, ps = pre ++ (s, x) :: post ∧
      EndsIn w s ∧ quoted pre <+: a ∧ a ++ 0x22 :: (w ++ [0x22]) = quoted pre ++ quote s ∧
      z = x ++ quoted post := by
  induction ps generalizing a with
  | nil =>
    rw [quoted_nil] at h
    exact absurd h (by simp)
  | cons p ps ih =>
    obtain ⟨s, x⟩ := p
    obtain ⟨⟨hx, hne⟩, hps⟩ := List.forall_mem_cons.mp hps
    rw [quoted_cons] at h
    cases a with
    | nil =>
      obtain ⟨rfl, rfl⟩ := eq_of_escaped_eq hw (List.cons.inj h).2
      exact ⟨[], s, x, ps, rfl, .inl rfl, List.nil_prefix, hw.quote_eq.symm, rfl⟩
    | cons c a =>
      obtain ⟨rfl, hrest⟩ := List.cons.inj h
      rcases escaped_append_eq hrest with ⟨p, v, rfl, rfl, hv⟩ | ⟨a', rfl, hclose⟩
      · -- behind a quote inside the literal
        obtain ⟨rfl, rfl⟩ := eq_of_escaped_eq hw hv
        exact ⟨[], _, x, ps, rfl, .inr (List.suffix_append _ _), List.nil_prefix,
          (quote_append_cons hw p).symm, rfl⟩
      · cases a' with
        | nil => exact absurd (List.cons.inj hclose).2 (quoted_ne_of_close hw hx hne)
        | cons c a' =>
          -- behind the literal
          obtain ⟨rfl, hbehind⟩ := List.cons.inj hclose
          obtain ⟨a', rfl, hlater⟩ := eq_append_of_notMem hbehind hx
          obtain ⟨pre, s', x', post, rfl, hs', ⟨a', rfl⟩, heq, hz⟩ := ih hps hlater
          refine ⟨(s, x) :: pre, s', x', post, rfl, hs', ⟨a', ?_⟩, ?_, hz⟩
          · simp [quoted_cons]
          · rw [quoted_cons]
            simpa using heq

/-! ### Keys -/

/-- What may stand behind a literal. -/
def IsSeparator (x : Bytes) : Prop :=
  (0x22 : UInt8) ∉ x ∧ (x.head? = some 0x3A ∨ x.head? = some 0x2C)

instance (x : Bytes) : Decidable (IsSeparator x) := inferInstanceAs (Decidable (_ ∧ _))

/-- A plain word that does not begin like a separator. -/
def IsKey (k : Bytes) : Prop := IsPlain k ∧ k.head? ≠ some 0x3A ∧ k.head? ≠ some 0x2C

instance (k : Bytes) : Decidable (IsKey k) := inferInstanceAs (Decidable (_ ∧ _))

variable {k : Bytes} {qs : List (Bytes × Bytes)}

theorem IsSeparator.ne_key (hx : IsSeparator x) (hk : IsKey k) : x ≠ k := by
  rintro rfl
  rcases hx.2 with h | h
  · exact hk.2.1 h
  · exact hk.2.2 h

/-- Where `"key":` occurs: at a literal with a colon behind it. -/
theorem exists_of_key_eq (hk : IsKey k) (hps : ∀ p ∈ ps, IsSeparator p.2)
    (h : quoted ps = a ++ 0x22 :: (k ++ 0x22 :: 0x3A :: z)) : ∃ pre s x post,
    ps = pre ++ (s, x) :: post ∧ EndsIn k s ∧ quoted pre <+: a ∧ x.head? = some 0x3A := by
  obtain ⟨pre, s, x, post, rfl, hs, hpre, -, hz⟩ :=
    exists_of_quoted_eq hk.1 (fun p hp => ⟨(hps p hp).1, (hps p hp).ne_key hk⟩) h
  refine ⟨pre, s, x, post, rfl, hs, hpre, ?_⟩
  cases x with
  | nil =>
    have hsep : IsSeparator [] := hps _ (List.mem_append_right pre List.mem_cons_self)
    exact absurd hsep (by decide)
  | cons c x => rw [← (List.cons.inj hz).1, List.head?_cons]

/-- The search for `"key":` from somewhere in front of the key, where it is not the name of an
earlier member. -/
theorem find_key {b : UInt8} {u f : Bytes} (hk : IsKey k) (hb : b ≠ 0x22)
    (hps : ∀ p ∈ ps ++ (k, 0x3A :: x) :: qs, IsSeparator p.2)
    (hfirst : ∀ p ∈ ps, p.2.head? = some 0x3A → ¬ EndsIn k p.1)
    (hf : b :: quoted ps = u ++ f) :
    find (0x22 :: k ++ ascii "\":") (f ++ quoted ((k, 0x3A :: x) :: qs)) =
      some (0x22 :: k ++ ascii "\":" ++ (x ++ quoted qs)) := by
  have hkey : quoted ((k, 0x3A :: x) :: qs) = 0x22 :: k ++ ascii "\":" ++ (x ++ quoted qs) := by
    have hascii : ascii "\":" = [0x22, 0x3A] := rfl
    rw [quoted_cons, hk.1.flatMap_escape, hascii]
    simp
  rw [find_append, hkey, find_of_prefix (List.prefix_append _ _)]
  rintro s hs ⟨f', rfl⟩ ⟨y, hy⟩
  -- an earlier occurrence
  have hall : b :: quoted (ps ++ (k, 0x3A :: x) :: qs) =
      u ++ f' ++ 0x22 :: (k ++ 0x22 :: 0x3A :: y) := by
    have hascii : ascii "\":" = [0x22, 0x3A] := rfl
    rw [quoted_append, ← List.cons_append, hf, List.append_assoc, List.append_assoc, ← hy,
      hascii, List.append_assoc]
    simp
  obtain ⟨a, ha, hbehind⟩ := exists_of_cons_eq hall hb
  obtain ⟨pre, s', x', post, hsplit, hs', hpre, hx'⟩ := exists_of_key_eq hk hps hbehind
  have hlt : a.length < (quoted ps).length := by
    have hlen := congrArg List.length hf
    have hlen' := congrArg List.length ha
    have hpos := List.length_pos_iff.mpr hs
    simp only [List.length_cons, List.length_append] at hlen hlen'
    omega
  have hshort : ¬ ps <+: pre := by
    rintro ⟨pre', rfl⟩
    rw [quoted_append] at hpre
    have hle := ((List.prefix_append _ _).trans hpre).length_le
    omega
  rcases List.append_eq_append_iff.mp hsplit with ⟨l, rfl, -⟩ | ⟨l, rfl, hl⟩
  · exact hshort (List.prefix_append _ _)
  · cases l with
    | nil => exact hshort (by simp)
    | cons p l =>
      rw [← (List.cons.inj hl).1] at hfirst
      exact hfirst (s', x') (by simp) hx' hs'

end Swpasskey
