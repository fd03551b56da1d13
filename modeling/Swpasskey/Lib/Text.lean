import Mathlib.Data.List.Infix
import Mathlib.Tactic

/-!
# Searching and cutting text

`find` is the search for a substring. `cuts` cuts a text into the pieces from an opening character
to the next closing one, without any nesting: an opening character inside a piece is part of it. The
piece that is still open where the text ends is `opened`.
-/

namespace Text

variable {α : Type} [DecidableEq α]

/-! ### Search -/

/-- The text from the first occurrence of the pattern on. -/
def find (p : List α) : List α → Option (List α)
  | [] => if p = [] then some [] else none
  | a :: l => if p <+: a :: l then some (a :: l) else find p l

section Find

variable {p l l' : List α} {a : α}

theorem find_cons (p : List α) (a : α) (l : List α) :
    find p (a :: l) = if p <+: a :: l then some (a :: l) else find p l := rfl

theorem find_cons_of_neg (h : ¬ p <+: a :: l) : find p (a :: l) = find p l := by
  rw [find_cons, if_neg h]

theorem find_of_prefix (h : p <+: l) : find p l = some l := by
  cases l with
  | nil => exact if_pos (List.prefix_nil.mp h)
  | cons a l => rw [find_cons, if_pos h]

theorem isSome_find : (find p l).isSome = true ↔ p <:+: l := by
  induction l with
  | nil =>
    change (if p = [] then some [] else none).isSome = true ↔ _
    by_cases h : p = [] <;> simp [h]
  | cons a l ih =>
    rw [find_cons, List.infix_cons_iff]
    split_ifs with h
    · simp [h]
    · rw [ih]
      simp [h]

/-- Where no occurrence begins, the search goes on behind. -/
theorem find_append (h : ∀ s, s ≠ [] → s <:+ l → ¬ p <+: s ++ l') :
    find p (l ++ l') = find p l' := by
  induction l with
  | nil => rfl
  | cons a l ih =>
    have hhead : ¬ p <+: a :: (l ++ l') := h _ (List.cons_ne_nil a l) (List.suffix_refl _)
    rw [List.cons_append, find_cons_of_neg hhead]
    exact ih fun s hs hl => h s hs (hl.trans (List.suffix_cons a l))

end Find

/-! ### Pieces -/

variable (o c : α)

/-- The pieces that are closed in the text, where this piece is open in front of it. -/
def cuts : Option (List α) → List α → List (List α)
  | _, [] => []
  | none, a :: l => if a = o then cuts (some [a]) l else cuts none l
  | some s, a :: l => if a = c then (s ++ [a]) :: cuts none l else cuts (some (s ++ [a])) l

/-- The piece that is open behind the text. -/
def opened : Option (List α) → List α → Option (List α)
  | st, [] => st
  | none, a :: l => if a = o then opened (some [a]) l else opened none l
  | some s, a :: l => if a = c then opened none l else opened (some (s ++ [a])) l

/-- Whether a piece is open behind the text. -/
def isOpen (i : Bool) (l : List α) : Bool :=
  l.foldl (fun i a => if a = o then true else if a = c then false else i) i

variable {o c} {st : Option (List α)} {s t l l' : List α} {i : Bool} {a : α}

section Pieces

theorem cuts_nil (st : Option (List α)) : cuts o c st [] = [] := by cases st <;> rfl

theorem cuts_none_cons (a : α) (l : List α) : cuts o c none (a :: l) =
    if a = o then cuts o c (some [a]) l else cuts o c none l := rfl

theorem cuts_some_cons (s : List α) (a : α) (l : List α) : cuts o c (some s) (a :: l) =
    if a = c then (s ++ [a]) :: cuts o c none l else cuts o c (some (s ++ [a])) l := rfl

theorem opened_nil (st : Option (List α)) : opened o c st [] = st := by cases st <;> rfl

theorem opened_none_cons (a : α) (l : List α) : opened o c none (a :: l) =
    if a = o then opened o c (some [a]) l else opened o c none l := rfl

theorem opened_some_cons (s : List α) (a : α) (l : List α) : opened o c (some s) (a :: l) =
    if a = c then opened o c none l else opened o c (some (s ++ [a])) l := rfl

omit [DecidableEq α] in
/-- What comes in front of a character, where this does not occur in a prefix. -/
theorem eq_append_of_notMem {x y w z : List α} (h : x ++ y = w ++ a :: z) (ha : a ∉ x) :
    ∃ w', w = x ++ w' ∧ y = w' ++ a :: z := by
  rcases List.append_eq_append_iff.mp h with ⟨w', hw, hy⟩ | ⟨x', hx, hz⟩
  · exact ⟨w', hw, hy⟩
  · cases x' with
    | nil => exact ⟨[], by rw [hx, List.append_nil, List.append_nil], hz.symm⟩
    | cons b x' =>
      rw [List.cons_append] at hz
      rw [hx, (List.cons.inj hz).1] at ha
      exact absurd (List.mem_append_right _ List.mem_cons_self) ha

omit [DecidableEq α] in
theorem exists_of_cons_eq {b : α} {w z : List α} (h : b :: l = w ++ a :: z) (hb : b ≠ a) :
    ∃ w', w = b :: w' ∧ l = w' ++ a :: z := by
  rcases List.cons_eq_append_iff.mp h with ⟨-, hcons⟩ | hw
  · exact absurd (List.cons.inj hcons).1.symm hb
  · exact hw

theorem cuts_append (st : Option (List α)) (l l' : List α) :
    cuts o c st (l ++ l') = cuts o c st l ++ cuts o c (opened o c st l) l' := by
  induction l generalizing st with
  | nil => rw [cuts_nil, opened_nil, List.nil_append, List.nil_append]
  | cons a l ih =>
    cases st with
    | none =>
      rw [List.cons_append, cuts_none_cons, cuts_none_cons, opened_none_cons]
      split_ifs <;> exact ih _
    | some s =>
      rw [List.cons_append, cuts_some_cons, cuts_some_cons, opened_some_cons]
      split_ifs <;> simp only [ih, List.cons_append]

theorem opened_append (st : Option (List α)) (l l' : List α) :
    opened o c st (l ++ l') = opened o c (opened o c st l) l' := by
  induction l generalizing st with
  | nil => rw [opened_nil, List.nil_append]
  | cons a l ih =>
    cases st with
    | none =>
      rw [List.cons_append, opened_none_cons, opened_none_cons]
      split_ifs <;> exact ih _
    | some s =>
      rw [List.cons_append, opened_some_cons, opened_some_cons]
      split_ifs <;> exact ih _

theorem cuts_none (h : o ∉ l) : cuts o c none l = [] := by
  induction l with
  | nil => rfl
  | cons a l ih =>
    rw [List.mem_cons, not_or] at h
    rw [cuts_none_cons, if_neg (Ne.symm h.1), ih h.2]

theorem opened_none (h : o ∉ l) : opened o c none l = none := by
  induction l with
  | nil => rfl
  | cons a l ih =>
    rw [List.mem_cons, not_or] at h
    rw [opened_none_cons, if_neg (Ne.symm h.1), ih h.2]

theorem opened_some (h : c ∉ l) (s : List α) : opened o c (some s) l = some (s ++ l) := by
  induction l generalizing s with
  | nil => rw [opened_nil, List.append_nil]
  | cons a l ih =>
    rw [List.mem_cons, not_or] at h
    rw [opened_some_cons, if_neg (Ne.symm h.1), ih h.2, List.append_assoc, List.singleton_append]

theorem cuts_some (h : c ∉ l) (s : List α) : cuts o c (some s) l = [] := by
  induction l generalizing s with
  | nil => rfl
  | cons a l ih =>
    rw [List.mem_cons, not_or] at h
    rw [cuts_some_cons, if_neg (Ne.symm h.1), ih h.2]

/-- The open piece is closed by the next closing character. -/
theorem cuts_some_append_cons (h : c ∉ l) (s l' : List α) :
    cuts o c (some s) (l ++ c :: l') = (s ++ l ++ [c]) :: cuts o c none l' := by
  rw [cuts_append, cuts_some h, opened_some h, List.nil_append, cuts_some_cons, if_pos rfl]

theorem opened_some_append_cons (h : c ∉ l) (s l' : List α) :
    opened o c (some s) (l ++ c :: l') = opened o c none l' := by
  rw [opened_append, opened_some h, opened_some_cons, if_pos rfl]

theorem cuts_append_cons (h : o ∉ l) (l' : List α) :
    cuts o c none (l ++ o :: l') = cuts o c (some [o]) l' := by
  rw [cuts_append, cuts_none h, opened_none h, List.nil_append, cuts_none_cons, if_pos rfl]

theorem opened_append_cons (h : o ∉ l) (l' : List α) :
    opened o c none (l ++ o :: l') = opened o c (some [o]) l' := by
  rw [opened_append, opened_none h, opened_none_cons, if_pos rfl]

/-- A text is outside of any piece, or ends inside its first piece, or goes on behind that. -/
@[elab_as_elim]
theorem pieces_induction {P : List α → Prop} (o c : α) (outside : ∀ x, o ∉ x → P x)
    (inside : ∀ x y, o ∉ x → c ∉ y → P (x ++ o :: y))
    (piece : ∀ x y z, o ∉ x → c ∉ y → P z → P (x ++ o :: (y ++ c :: z))) (l : List α) : P l := by
  induction hn : l.length using Nat.strong_induction_on generalizing l with
  | _ n ih =>
    by_cases ho : o ∈ l
    · obtain ⟨x, l₁, rfl, hx⟩ := List.eq_append_cons_of_mem ho
      by_cases hc : c ∈ l₁
      · obtain ⟨y, z, rfl, hy⟩ := List.eq_append_cons_of_mem hc
        have hlt : z.length < n := by
          rw [← hn]
          simp only [List.length_append, List.length_cons]
          omega
        exact piece x y z hx hy (ih _ hlt z rfl)
      · exact inside x l₁ hx hc
    · exact outside l ho

/-- Where a piece comes from. -/
theorem exists_of_mem_cuts (h : s ∈ cuts o c none l) :
    ∃ x y z, l = x ++ o :: (y ++ c :: z) ∧ s = o :: y ++ [c] ∧ c ∉ y := by
  induction l using pieces_induction o c with
  | outside x hx =>
    rw [cuts_none hx] at h
    exact absurd h List.not_mem_nil
  | inside x y hx hy =>
    rw [cuts_append_cons hx, cuts_some hy] at h
    exact absurd h List.not_mem_nil
  | piece x y z hx hy ih =>
    rw [cuts_append_cons hx, cuts_some_append_cons hy, List.mem_cons] at h
    rcases h with rfl | h
    · exact ⟨x, y, z, rfl, rfl, hy⟩
    · obtain ⟨x', y', z', rfl, hs⟩ := ih h
      exact ⟨x ++ o :: (y ++ c :: x'), y', z', by simp, hs⟩

/-- The piece that is open is the end of the text. -/
theorem exists_of_opened (h : opened o c none l = some s) :
    ∃ x y, l = x ++ o :: y ∧ s = o :: y := by
  induction l using pieces_induction o c with
  | outside x hx =>
    rw [opened_none hx] at h
    cases h
  | inside x y hx hy =>
    rw [opened_append_cons hx, opened_some hy] at h
    exact ⟨x, y, rfl, (Option.some.inj h).symm⟩
  | piece x y z hx hy ih =>
    rw [opened_append_cons hx, opened_some_append_cons hy] at h
    obtain ⟨x', y', rfl, hs⟩ := ih h
    exact ⟨x ++ o :: (y ++ c :: x'), y', by simp, hs⟩

theorem isOpen_append (i : Bool) (l l' : List α) :
    isOpen o c i (l ++ l') = isOpen o c (isOpen o c i l) l' := List.foldl_append

theorem isOpen_cons (i : Bool) (a : α) (l : List α) : isOpen o c i (a :: l) =
    isOpen o c (if a = o then true else if a = c then false else i) l := rfl

theorem isOpen_of_notMem (h : c ∉ l) : isOpen o c true l = true := by
  induction l with
  | nil => rfl
  | cons a l ih =>
    rw [List.mem_cons, not_or] at h
    rw [isOpen_cons, if_neg (Ne.symm h.1), ite_self]
    exact ih h.2

/-- Only the delimiters count. -/
theorem isOpen_filter (i : Bool) (l : List α) :
    isOpen o c i (l.filter fun a => a = o ∨ a = c) = isOpen o c i l := by
  induction l generalizing i with
  | nil => rfl
  | cons a l ih =>
    rw [isOpen_cons]
    by_cases h : a = o ∨ a = c
    · rw [List.filter_cons_of_pos (by simpa using h), isOpen_cons, ih]
    · rw [List.filter_cons_of_neg (by simpa using h), ih]
      rw [not_or] at h
      rw [if_neg h.1, if_neg h.2]

/-- Whether a piece is open is known from its delimiters alone. -/
theorem isSome_opened (hoc : o ≠ c) (st : Option (List α)) (l : List α) :
    (opened o c st l).isSome = isOpen o c st.isSome l := by
  induction l generalizing st with
  | nil => cases st <;> rfl
  | cons a l ih =>
    rw [isOpen_cons]
    cases st with
    | none =>
      rw [opened_none_cons]
      split_ifs <;> rw [ih] <;> rfl
    | some s =>
      rw [opened_some_cons]
      by_cases ha : a = o
      · rw [if_neg (by rw [ha]; exact hoc), if_pos ha, ih]
        rfl
      · rw [if_neg ha]
        split_ifs <;> rw [ih] <;> rfl

end Pieces

end Text
