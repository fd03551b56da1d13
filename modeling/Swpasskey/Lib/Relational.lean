import Mathlib.Data.List.Forall2
import Mathlib.Data.List.Sort
import Swpasskey.Lib.Proc

/-!
# Two runs side by side

A relational companion of `Proc.Run`: `Proc.Sim R V m m'` says that `m` and `m'`, from states
related by `R`, end in the same way, in states related by `R` again; the values they return
are related by `V` and their errors are equal. With `m = m'` this is noninterference: what two
states related by `R` differ in has no influence on how `m` ends, nor on what it returns up to
`V`. The rules follow the constructors of procedures; a branch is taken in both runs or in
neither, so its condition must be one that `R` and `V` decide.
-/

namespace Proc

variable {σ ε ε' α β : Type}

/-- Two runs that end in the same way. -/
inductive Ends (R : σ → σ → Prop) (V : α → α → Prop) : Outcome ε α × σ → Outcome ε α × σ → Prop
  | ok {a a' : α} {s s' : σ} (hv : V a a') (hs : R s s') : Ends R V (.ok a, s) (.ok a', s')
  | err {e : ε} {s s' : σ} (hs : R s s') : Ends R V (.err e, s) (.err e, s')
  | died {s s' : σ} (hs : R s s') : Ends R V (.died, s) (.died, s')

namespace Ends

variable {R : σ → σ → Prop} {V : α → α → Prop} {U : β → β → Prop} {m m' : Proc σ ε α} {s s' : σ}

/-- Sequencing at two states: what follows may use how the first run came there. -/
theorem bind {f f' : α → Proc σ ε β} (hm : Ends R V (m s) (m' s'))
    (hf : ∀ a a' t t', m s = (.ok a, t) → V a a' → R t t' → Ends R U (f a t) (f' a' t')) :
    Ends R U ((m >>= f) s) ((m' >>= f') s') := by
  rw [bind_apply, bind_apply]
  generalize hr : m s = r at hm hf
  generalize m' s' = r' at hm
  rcases hm with ⟨hv, ht⟩ | ht | ht
  · exact hf _ _ _ _ rfl hv ht
  · exact .err ht
  · exact .died ht

theorem mapErr (hm : Ends R V (m s) (m' s')) (f : ε → ε') :
    Ends R V (m.mapErr f s) (m'.mapErr f s') := by
  unfold Proc.mapErr
  generalize m s = r at hm
  generalize m' s' = r' at hm
  rcases hm with ⟨hv, ht⟩ | ht | ht
  · exact .ok hv ht
  · exact .err ht
  · exact .died ht

end Ends

/-- **The relational triple.** -/
def Sim (R : σ → σ → Prop) (V : α → α → Prop) (m m' : Proc σ ε α) : Prop :=
  ∀ s s', R s s' → Ends R V (m s) (m' s')

namespace Sim

variable {R : σ → σ → Prop} {V : α → α → Prop} {U : β → β → Prop} {m m' : Proc σ ε α}

theorem mono {V' : α → α → Prop} (h : Sim R V m m') (hV : ∀ a a', V a a' → V' a a') :
    Sim R V' m m' := by
  intro s s' hs
  have hends := h s s' hs
  generalize m s = r at hends
  generalize m' s' = r' at hends
  rcases hends with ⟨hv, ht⟩ | ht | ht
  · exact .ok (hV _ _ hv) ht
  · exact .err ht
  · exact .died ht

theorem pure {a a' : α} (h : V a a') : Sim R V (pure a : Proc σ ε α) (pure a') :=
  fun _ _ hs => .ok h hs

theorem throw (e : ε) : Sim R V (throw e : Proc σ ε α) (throw e) := fun _ _ hs => .err hs

theorem gets {f : σ → α} (h : ∀ s s', R s s' → V (f s) (f s')) :
    Sim R V (gets f : Proc σ ε α) (gets f) :=
  fun s s' hs => .ok (h s s' hs) hs

theorem modify {f f' : σ → σ} (h : ∀ s s', R s s' → R (f s) (f' s')) :
    Sim R Eq (modify f : Proc σ ε Unit) (modify f') :=
  fun s s' hs => .ok rfl (h s s' hs)

/-- Sequencing. -/
theorem bind {f f' : α → Proc σ ε β} (hm : Sim R V m m')
    (hf : ∀ a a', V a a' → Sim R U (f a) (f' a')) : Sim R U (m >>= f) (m' >>= f') :=
  fun s s' hs => (hm s s' hs).bind fun a a' t t' _ hv ht => hf a a' hv t t' ht

/-- Sequencing after a value that is the same in both runs. -/
theorem bind_eq {f f' : α → Proc σ ε β} (hm : Sim R Eq m m')
    (hf : ∀ a, Sim R U (f a) (f' a)) : Sim R U (m >>= f) (m' >>= f') :=
  hm.bind fun a _ h => h ▸ hf a

theorem attempt (hm : Sim R V m m') : Sim R (fun x x' =>
    (∃ a a', x = .ok a ∧ x' = .ok a' ∧ V a a') ∨ ∃ e, x = .error e ∧ x' = .error e)
    m.attempt m'.attempt := by
  intro s s' hs
  have hends := hm s s' hs
  unfold Proc.attempt
  generalize m s = r at hends
  generalize m' s' = r' at hends
  rcases hends with ⟨hv, ht⟩ | ht | ht
  · exact .ok (.inl ⟨_, _, rfl, rfl, hv⟩) ht
  · exact .ok (.inr ⟨_, rfl, rfl⟩) ht
  · exact .died ht

theorem mapErr (hm : Sim R V m m') (f : ε → ε') : Sim R V (m.mapErr f) (m'.mapErr f) :=
  fun s s' hs => (hm s s' hs).mapErr f

theorem orFail (hm : Sim R V m m') (e : ε') : Sim R V (m.orFail e) (m'.orFail e) := hm.mapErr _

/-- A check that decides both runs alike. -/
theorem require {c c' : Bool} (h : c = c') (e : ε) :
    Sim R Eq (require c e : Proc σ ε Unit) (require c' e) := by
  subst h
  cases c
  · exact Sim.throw e
  · exact Sim.pure rfl

theorem ofExcept (x : Except ε α) : Sim R Eq (ofExcept x : Proc σ ε α) (ofExcept x) := by
  cases x
  · exact Sim.throw _
  · exact Sim.pure rfl

theorem ite {c : Prop} [Decidable c] {n n' : Proc σ ε α} (hm : Sim R V m m') (hn : Sim R V n n') :
    Sim R V (if c then m else n) (if c then m' else n') := by
  split
  · exact hm
  · exact hn

end Sim

end Proc

/-! ### Related lists -/

namespace List.Forall₂

variable {α : Type} {R : α → α → Prop} {l l' : List α}

theorem find? {p : α → Bool} (h : Forall₂ R l l') (hp : ∀ a a', R a a' → p a = p a') :
    (l.find? p = none ∧ l'.find? p = none) ∨
      ∃ a a', l.find? p = some a ∧ l'.find? p = some a' ∧ R a a' := by
  induction h with
  | nil => exact .inl ⟨rfl, rfl⟩
  | @cons a a' l l' ha hl ih =>
    rw [List.find?_cons, List.find?_cons, ← hp a a' ha]
    cases p a
    · exact ih
    · exact .inr ⟨a, a', rfl, rfl, ha⟩

theorem any_eq {p p' : α → Bool} (h : Forall₂ R l l') (hp : ∀ a a', R a a' → p a = p' a') :
    l.any p = l'.any p' := by
  induction h with
  | nil => rfl
  | cons ha hl ih => rw [List.any_cons, List.any_cons, hp _ _ ha, ih]

theorem filter_eq {p : α → Bool} (h : Forall₂ R l l') (hp : ∀ a a', R a a' → p a = p a') :
    Forall₂ R (l.filter p) (l'.filter p) := by
  induction h with
  | nil => exact .nil
  | @cons a a' l l' ha hl ih =>
    rw [List.filter_cons, List.filter_cons, ← hp a a' ha]
    cases p a
    · exact ih
    · exact .cons ha ih

section Sorting

variable {r : α → α → Prop} [DecidableRel r] (hr : ∀ a a' b b', R a a' → R b b' → (r a b ↔ r a' b'))

include hr

theorem orderedInsert {a a' : α} (ha : R a a') (h : Forall₂ R l l') :
    Forall₂ R (l.orderedInsert r a) (l'.orderedInsert r a') := by
  induction h with
  | nil => exact .cons ha .nil
  | @cons b b' l l' hb hl ih =>
    rw [List.orderedInsert, List.orderedInsert]
    by_cases hab : r a b
    · rw [if_pos hab, if_pos ((hr _ _ _ _ ha hb).mp hab)]
      exact .cons ha (.cons hb hl)
    · rw [if_neg hab, if_neg fun h => hab ((hr _ _ _ _ ha hb).mpr h)]
      exact .cons hb ih

theorem insertionSort (h : Forall₂ R l l') :
    Forall₂ R (l.insertionSort r) (l'.insertionSort r) := by
  induction h with
  | nil => exact .nil
  | cons ha _ ih => exact orderedInsert hr ha ih

end Sorting

end List.Forall₂
