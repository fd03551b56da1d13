import Mathlib.Logic.Basic
import Mathlib.Tactic

/-!
# Stateful procedures that can fail or die

A small program logic for sequential code over an explicit state. A `Proc σ ε α` reads and
writes a state `σ` and ends in one of three ways: it returns a value, it fails with an
error `ε`, or the process **dies**. An error can be caught (`attempt`); death cannot, and
what it leaves behind is the state at that moment. So a fact proved of the died outcome is
a fact about a crash at any point of the procedure.

* `Proc.Run m s Q E C` is the triple of the logic, at one initial state: a return ends in
  `Q`, an error in `E`, a death in `C`. The rule of `bind` keeps `E` and `C` fixed, so an
  early exit is discharged where it happens.
* `Proc.Guarantees R m` bounds the whole effect of `m`, however it ends, by a reflexive and
  transitive relation `R` between the states before and after: the frame of `m`.
-/

/-- How a procedure ends. -/
inductive Outcome (ε α : Type)
  | ok (a : α)
  | err (e : ε)
  | died
  deriving DecidableEq, Repr

/-- A procedure over the state `σ` with errors `ε`. -/
def Proc (σ ε α : Type) : Type := σ → Outcome ε α × σ

namespace Proc

variable {σ ε ε' α β : Type}

/-! ### Procedures -/

/-- Return a value. -/
protected def pure (a : α) : Proc σ ε α := fun s => (.ok a, s)

/-- Fail. -/
def throw (e : ε) : Proc σ ε α := fun s => (.err e, s)

/-- Die. -/
def die : Proc σ ε α := fun s => (.died, s)

/-- Run `m`, then `f` on its value; an error or a death of `m` ends the whole. -/
protected def bind (m : Proc σ ε α) (f : α → Proc σ ε β) : Proc σ ε β := fun s =>
  match m s with
  | (.ok a, s') => f a s'
  | (.err e, s') => (.err e, s')
  | (.died, s') => (.died, s')

instance : Monad (Proc σ ε) where
  pure := Proc.pure
  bind := Proc.bind

/-- Read a component of the state. -/
def gets (f : σ → α) : Proc σ ε α := fun s => (.ok (f s), s)

/-- Update the state. -/
def modify (f : σ → σ) : Proc σ ε Unit := fun s => (.ok (), f s)

/-- Run `m` and hand its error, if any, to the caller as a value. -/
def attempt (m : Proc σ ε α) : Proc σ ε (Except ε α) := fun s =>
  match m s with
  | (.ok a, s') => (.ok (.ok a), s')
  | (.err e, s') => (.ok (.error e), s')
  | (.died, s') => (.died, s')

/-- Run `m` with its error, if any, translated. -/
def mapErr (f : ε → ε') (m : Proc σ ε α) : Proc σ ε' α := fun s =>
  match m s with
  | (.ok a, s') => (.ok a, s')
  | (.err e, s') => (.err (f e), s')
  | (.died, s') => (.died, s')

/-- Run `m`; whatever its error, fail with `e`. -/
def orFail (m : Proc σ ε α) (e : ε') : Proc σ ε' α := m.mapErr fun _ => e

/-- Fail unless the condition holds. -/
def require (c : Bool) (e : ε) : Proc σ ε Unit := if c then Proc.pure () else throw e

/-- The value of a pure computation that may fail. -/
def ofExcept : Except ε α → Proc σ ε α
  | .ok a => Proc.pure a
  | .error e => throw e

/-- Run `f` on every element in order. -/
def forEach (f : α → Proc σ ε Unit) : List α → Proc σ ε Unit
  | [] => Proc.pure ()
  | a :: l => f a >>= fun _ => forEach f l

/-- Run `f` `n` times, threading a value. -/
def loop (f : β → Proc σ ε β) : ℕ → β → Proc σ ε β
  | 0, b => Proc.pure b
  | n + 1, b => f b >>= loop f n

/-! ### What each one does at a state -/

@[simp] theorem pure_apply (a : α) (s : σ) : (pure a : Proc σ ε α) s = (.ok a, s) := rfl

@[simp] theorem throw_apply (e : ε) (s : σ) : (throw e : Proc σ ε α) s = (.err e, s) := rfl

@[simp] theorem gets_apply (f : σ → α) (s : σ) : (gets f : Proc σ ε α) s = (.ok (f s), s) := rfl

@[simp] theorem modify_apply (f : σ → σ) (s : σ) :
    (modify f : Proc σ ε Unit) s = (.ok (), f s) := rfl

theorem bind_apply (m : Proc σ ε α) (f : α → Proc σ ε β) (s : σ) :
    (m >>= f) s = match m s with
      | (.ok a, s') => f a s'
      | (.err e, s') => (.err e, s')
      | (.died, s') => (.died, s') := rfl

theorem bind_apply_ok {m : Proc σ ε α} {f : α → Proc σ ε β} {s s' : σ} {a : α}
    (h : m s = (.ok a, s')) : (m >>= f) s = f a s' := by
  rw [bind_apply, h]

theorem bind_apply_err {m : Proc σ ε α} {f : α → Proc σ ε β} {s s' : σ} {e : ε}
    (h : m s = (.err e, s')) : (m >>= f) s = (.err e, s') := by
  rw [bind_apply, h]

theorem bind_apply_died {m : Proc σ ε α} {f : α → Proc σ ε β} {s s' : σ}
    (h : m s = (.died, s')) : (m >>= f) s = (.died, s') := by
  rw [bind_apply, h]

instance : LawfulMonad (Proc σ ε) := LawfulMonad.mk' (Proc σ ε)
  (fun m => funext fun s => by
    change Proc.bind m _ s = m s
    unfold Proc.bind
    rcases m s with ⟨a | r | _, t⟩ <;> rfl)
  (fun _ _ => rfl)
  (fun m f g => funext fun s => by
    change Proc.bind (Proc.bind m f) g s = Proc.bind m (fun a => Proc.bind (f a) g) s
    unfold Proc.bind
    rcases m s with ⟨a | r | _, t⟩ <;> rfl)

/-- How a sequence can end in an error. -/
theorem bind_apply_eq_err {m : Proc σ ε α} {f : α → Proc σ ε β} {s s' : σ} {e : ε}
    (h : (m >>= f) s = (.err e, s')) :
    m s = (.err e, s') ∨ ∃ a t, m s = (.ok a, t) ∧ f a t = (.err e, s') := by
  rcases hm : m s with ⟨a | r | _, t⟩
  · exact .inr ⟨a, t, rfl, (bind_apply_ok hm).symm.trans h⟩
  · obtain ⟨rfl, rfl⟩ : r = e ∧ t = s' := by simpa [bind_apply, hm] using h
    exact .inl rfl
  · simp [bind_apply, hm] at h

/-- A first part that does not fail need not have its error translated. -/
theorem orFail_bind_apply {m : Proc σ ε α} {f : α → Proc σ ε β} {e : ε} {s : σ}
    (h : ∀ r t, m s ≠ (.err r, t)) : (m >>= f).orFail e s = (m >>= fun a => (f a).orFail e) s := by
  change mapErr _ (Proc.bind m f) s = Proc.bind m (fun a => mapErr _ (f a)) s
  unfold mapErr Proc.bind
  rcases hm : m s with ⟨a | r | _, t⟩
  · rfl
  · exact absurd hm (h r t)
  · rfl

/-! ### The triple -/

/-- **The triple.** From `s`, a return of `m` ends in `Q`, an error in `E`, a death in
`C`. -/
def Run (m : Proc σ ε α) (s : σ) (Q : α → σ → Prop) (E : ε → σ → Prop) (C : σ → Prop) : Prop :=
  match m s with
  | (.ok a, s') => Q a s'
  | (.err e, s') => E e s'
  | (.died, s') => C s'

section Rules

variable {m : Proc σ ε α} {s : σ} {Q Q' : α → σ → Prop} {E E' : ε → σ → Prop} {C C' : σ → Prop}

theorem run_iff : m.Run s Q E C ↔
    (∀ a s', m s = (.ok a, s') → Q a s') ∧ (∀ e s', m s = (.err e, s') → E e s') ∧
      ∀ s', m s = (.died, s') → C s' := by
  unfold Run
  rcases m s with ⟨a | e | _, s'⟩ <;> simp

theorem Run.ok {a : α} {s' : σ} (h : m.Run s Q E C) (hm : m s = (.ok a, s')) : Q a s' :=
  (run_iff.mp h).1 a s' hm

theorem Run.err {e : ε} {s' : σ} (h : m.Run s Q E C) (hm : m s = (.err e, s')) : E e s' :=
  (run_iff.mp h).2.1 e s' hm

theorem Run.died {s' : σ} (h : m.Run s Q E C) (hm : m s = (.died, s')) : C s' :=
  (run_iff.mp h).2.2 s' hm

/-- Consequence. -/
theorem Run.mono (h : m.Run s Q E C) (hQ : ∀ a s', Q a s' → Q' a s')
    (hE : ∀ e s', E e s' → E' e s') (hC : ∀ s', C s' → C' s') : m.Run s Q' E' C' := by
  rw [run_iff] at h ⊢
  exact ⟨fun a s' hm => hQ a s' (h.1 a s' hm), fun e s' hm => hE e s' (h.2.1 e s' hm),
    fun s' hm => hC s' (h.2.2 s' hm)⟩

/-- Consequence on the returned value only. -/
theorem Run.weaken (h : m.Run s Q E C) (hQ : ∀ a s', Q a s' → Q' a s') : m.Run s Q' E C :=
  h.mono hQ (fun _ _ => id) fun _ => id

/-- A triple that says nothing of errors and crashes. -/
theorem run_onReturn :
    m.Run s Q (fun _ _ => True) (fun _ => True) ↔ ∀ a s', m s = (.ok a, s') → Q a s' := by
  rw [run_iff]
  exact ⟨fun h => h.1, fun h => ⟨h, fun _ _ _ => trivial, fun _ _ => trivial⟩⟩

/-- Consequence on the returned value, with nothing said of errors and crashes. -/
theorem Run.onReturn (h : m.Run s Q E C) (hQ : ∀ a s', Q a s' → Q' a s') :
    m.Run s Q' (fun _ _ => True) fun _ => True :=
  h.mono hQ (fun _ _ _ => trivial) fun _ _ => trivial

/-- Two triples of one run hold together. -/
theorem Run.and (h : m.Run s Q E C) (h' : m.Run s Q' E' C') :
    m.Run s (fun a s' => Q a s' ∧ Q' a s') (fun e s' => E e s' ∧ E' e s')
      fun s' => C s' ∧ C' s' := by
  rw [run_iff] at h h' ⊢
  exact ⟨fun a s' hm => ⟨h.1 a s' hm, h'.1 a s' hm⟩, fun e s' hm => ⟨h.2.1 e s' hm, h'.2.1 e s' hm⟩,
    fun s' hm => ⟨h.2.2 s' hm, h'.2.2 s' hm⟩⟩

theorem run_pure {a : α} : (pure a : Proc σ ε α).Run s Q E C ↔ Q a s := Iff.rfl

theorem run_throw {e : ε} : (throw e : Proc σ ε α).Run s Q E C ↔ E e s := Iff.rfl

theorem run_die : (die : Proc σ ε α).Run s Q E C ↔ C s := Iff.rfl

theorem run_gets {f : σ → α} : (gets f : Proc σ ε α).Run s Q E C ↔ Q (f s) s := Iff.rfl

theorem run_modify {f : σ → σ} {Q : Unit → σ → Prop} :
    (modify f : Proc σ ε Unit).Run s Q E C ↔ Q () (f s) := Iff.rfl

/-- Sequencing: the exceptional postconditions stay fixed. -/
theorem run_bind {f : α → Proc σ ε β} {Q : β → σ → Prop} :
    (m >>= f).Run s Q E C ↔ m.Run s (fun a s' => (f a).Run s' Q E C) E C := by
  unfold Run
  rw [bind_apply]
  rcases m s with ⟨a | e | _, s'⟩ <;> rfl

theorem Run.bind {f : α → Proc σ ε β} {R : α → σ → Prop} {Q : β → σ → Prop}
    (h : m.Run s R E C) (hf : ∀ a s', R a s' → (f a).Run s' Q E C) : (m >>= f).Run s Q E C :=
  run_bind.mpr (h.weaken hf)

theorem run_attempt {Q : Except ε α → σ → Prop} :
    m.attempt.Run s Q E C ↔ m.Run s (fun a => Q (.ok a)) (fun e => Q (.error e)) C := by
  unfold Run attempt
  rcases m s with ⟨a | e | _, s'⟩ <;> rfl

theorem run_mapErr {f : ε → ε'} {E : ε' → σ → Prop} :
    (m.mapErr f).Run s Q E C ↔ m.Run s Q (fun e => E (f e)) C := by
  unfold Run mapErr
  rcases m s with ⟨a | e | _, s'⟩ <;> rfl

theorem run_orFail {e : ε'} {E : ε' → σ → Prop} :
    (m.orFail e).Run s Q E C ↔ m.Run s Q (fun _ => E e) C :=
  run_mapErr

theorem run_ite {c : Prop} [Decidable c] {m' : Proc σ ε α} :
    (if c then m else m').Run s Q E C ↔ (c → m.Run s Q E C) ∧ (¬ c → m'.Run s Q E C) := by
  split_ifs with h <;> simp [h]

theorem run_require {c : Bool} {e : ε} {Q : Unit → σ → Prop} :
    (require c e : Proc σ ε Unit).Run s Q E C ↔ (c = true → Q () s) ∧ (c = false → E e s) := by
  cases c <;> simp [require, Run, Proc.pure, throw]

theorem run_ofExcept {x : Except ε α} :
    (ofExcept x : Proc σ ε α).Run s Q E C ↔ (∀ a, x = .ok a → Q a s) ∧
        ∀ e, x = .error e → E e s := by
  cases x <;> simp [ofExcept, Run, Proc.pure, throw]

/-- The loop rule: an invariant `I` of the elements still to do. -/
theorem Run.forEach {f : α → Proc σ ε Unit} {I : List α → σ → Prop}
    (hstep : ∀ a l s, I (a :: l) s → (f a).Run s (fun _ => I l) E C) :
    ∀ (l : List α) (s : σ), I l s → (Proc.forEach f l).Run s (fun _ => I []) E C
  | [], _, h => h
  | a :: l, s, h => (hstep a l s h).bind fun _ s' h' => Run.forEach hstep l s' h'

end Rules

/-! ### Returned values -/

/-- Whatever `m` returns, from any state, satisfies `P`. -/
def Returns (m : Proc σ ε α) (P : α → Prop) : Prop :=
  ∀ s, m.Run s (fun a _ => P a) (fun _ _ => True) fun _ => True

namespace Returns

variable {m : Proc σ ε α} {P : α → Prop}

theorem pure {a : α} (h : P a) : Returns (pure a : Proc σ ε α) P := fun _ => h

theorem throw (e : ε) : Returns (throw e : Proc σ ε α) P := fun _ => trivial

theorem gets {f : σ → α} (h : ∀ s, P (f s)) : Returns (gets f : Proc σ ε α) P := h

theorem mono {Q : α → Prop} (hm : Returns m P) (h : ∀ a, P a → Q a) : Returns m Q :=
  fun s => (hm s).weaken fun a _ => h a

theorem bind {f : α → Proc σ ε β} {Q : β → Prop} (hm : Returns m P)
    (hf : ∀ a, P a → Returns (f a) Q) : Returns (m >>= f) Q :=
  fun s => (hm s).bind fun a s' h => hf a h s'

/-- Only the last value counts. -/
theorem bind_right {f : α → Proc σ ε β} {Q : β → Prop} (hf : ∀ a, Returns (f a) Q) :
    Returns (m >>= f) Q :=
  fun _ => run_bind.mpr (run_onReturn.mpr fun a s' _ => hf a s')

theorem attempt (hm : Returns m P) : Returns m.attempt fun x => ∀ a, x = .ok a → P a := by
  intro s
  refine run_attempt.mpr ((hm s).mono (fun a _ h b hb => ?_) (fun _ _ _ _ hb => ?_)
    fun _ _ => trivial)
  · exact Except.ok.inj hb ▸ h
  · cases hb

theorem require {c : Bool} {e : ε} {P : Unit → Prop} (h : c = true → P ()) :
    Returns (require c e : Proc σ ε Unit) P := by
  cases c
  · exact fun _ => trivial
  · exact fun _ => h rfl

theorem orFail {e : ε'} (hm : Returns m P) : Returns (m.orFail e) P :=
  fun s => run_orFail.mpr ((hm s).onReturn fun _ _ => id)

theorem ite {c : Prop} [Decidable c] {m' : Proc σ ε α} (hm : Returns m P) (hm' : Returns m' P) :
    Returns (if c then m else m') P := by
  split
  · exact hm
  · exact hm'

end Returns

/-! ### Frames -/

/-- A frame: a reflexive and transitive relation between the states before and after, and
what is still true of them when the process has died on the way. -/
structure Frame (σ : Type) where
  /-- The relation. -/
  rel : σ → σ → Prop
  refl : ∀ s, rel s s
  trans : ∀ {s t u}, rel s t → rel t u → rel s u
  /-- The relation to a state the process died in. -/
  lost : σ → σ → Prop
  lost_of_rel : ∀ {s t}, rel s t → lost s t
  trans_lost : ∀ {s t u}, rel s t → lost t u → lost s u

namespace Frame

/-- The frame of a relation that holds at every moment. -/
def ofRel (rel : σ → σ → Prop) (refl : ∀ s, rel s s)
    (trans : ∀ {s t u}, rel s t → rel t u → rel s u) : Frame σ where
  rel
  refl
  trans
  lost := rel
  lost_of_rel := id
  trans_lost := trans

/-- The frame that keeps a component of the state. -/
def keeps {τ : Type} (f : σ → τ) : Frame σ :=
  ofRel (fun s s' => f s' = f s) (fun _ => rfl) fun h h' => h'.trans h

/-- The frame that keeps an invariant, or dies in a state that satisfies a weaker one. -/
def invariantOr (I C : σ → Prop) (h : ∀ s, I s → C s) : Frame σ where
  rel s s' := I s → I s'
  refl _ := id
  trans h h' := h' ∘ h
  lost s s' := I s → C s'
  lost_of_rel hr hs := h _ (hr hs)
  trans_lost hr hl := hl ∘ hr

/-- The frame that keeps an invariant. -/
def invariant (I : σ → Prop) : Frame σ := invariantOr I I fun _ => id

/-- Two frames at once. -/
def and (R S : Frame σ) : Frame σ where
  rel s s' := R.rel s s' ∧ S.rel s s'
  refl s := ⟨R.refl s, S.refl s⟩
  trans h h' := ⟨R.trans h.1 h'.1, S.trans h.2 h'.2⟩
  lost s s' := R.lost s s' ∧ S.lost s s'
  lost_of_rel h := ⟨R.lost_of_rel h.1, S.lost_of_rel h.2⟩
  trans_lost h h' := ⟨R.trans_lost h.1 h'.1, S.trans_lost h.2 h'.2⟩

end Frame

/-- **The frame of a procedure.** However `m` ends, the state before and the state after
are related by `R`. -/
def Guarantees (R : Frame σ) (m : Proc σ ε α) : Prop :=
  ∀ s, m.Run s (fun _ => R.rel s) (fun _ => R.rel s) (R.lost s)

namespace Guarantees

variable {R : Frame σ} {m : Proc σ ε α}

theorem run (h : Guarantees R m) (s : σ) :
    m.Run s (fun _ => R.rel s) (fun _ => R.rel s) (R.lost s) :=
  h s

theorem apply (h : Guarantees R m) {s s' : σ} {o : Outcome ε α} (hm : m s = (o, s')) :
    R.lost s s' := by
  rcases o with a | e | _
  · exact R.lost_of_rel ((h s).ok hm)
  · exact R.lost_of_rel ((h s).err hm)
  · exact (h s).died hm

/-- A relation that holds even where the process dies. -/
theorem of_run (h : ∀ s, m.Run s (fun _ => R.rel s) (fun _ => R.rel s) (R.rel s)) :
    Guarantees R m :=
  fun s => (h s).mono (fun _ _ => id) (fun _ _ => id) fun _ => R.lost_of_rel

theorem mono {R' : Frame σ} (h : Guarantees R m) (hR : ∀ s s', R.rel s s' → R'.rel s s')
    (hL : ∀ s s', R.lost s s' → R'.lost s s') : Guarantees R' m :=
  fun s => (h s).mono (fun _ => hR s) (fun _ => hR s) (hL s)

theorem and {S : Frame σ} (h : Guarantees R m) (h' : Guarantees S m) : Guarantees (R.and S) m :=
  fun s => (h s).and (h' s)

/-- What keeps an invariant, or dies in a state that satisfies the weaker one. -/
theorem of_invariantOr {I C : σ → Prop} {h : ∀ s, I s → C s}
    (hm : ∀ s, I s → m.Run s (fun _ => I) (fun _ => I) C) :
    Guarantees (Frame.invariantOr I C h) m := by
  intro s
  by_cases hs : I s
  · exact (hm s hs).mono (fun _ _ h' _ => h') (fun _ _ h' _ => h') fun _ h' _ => h'
  · exact run_iff.mpr ⟨fun _ _ _ hI => absurd hI hs, fun _ _ _ hI => absurd hI hs,
      fun _ _ hI => absurd hI hs⟩

theorem pure (a : α) : Guarantees R (pure a : Proc σ ε α) := fun s => R.refl s

theorem throw (e : ε) : Guarantees R (throw e : Proc σ ε α) := fun s => R.refl s

theorem gets (f : σ → α) : Guarantees R (gets f : Proc σ ε α) := fun s => R.refl s

theorem modify {f : σ → σ} (h : ∀ s, R.rel s (f s)) : Guarantees R (modify f : Proc σ ε Unit) :=
  h

theorem require (c : Bool) (e : ε) : Guarantees R (require c e : Proc σ ε Unit) := by
  cases c
  · exact Guarantees.throw e
  · exact Guarantees.pure ()

theorem ofExcept (x : Except ε α) : Guarantees R (ofExcept x : Proc σ ε α) := by
  cases x
  · exact Guarantees.throw _
  · exact Guarantees.pure _

theorem bind {f : α → Proc σ ε β} (hm : Guarantees R m) (hf : ∀ a, Guarantees R (f a)) :
    Guarantees R (m >>= f) :=
  fun s => (hm s).bind fun a s' h => ((hf a) s').mono
    (fun _ _ h' => R.trans h h') (fun _ _ h' => R.trans h h') fun _ h' => R.trans_lost h h'

theorem attempt (hm : Guarantees R m) : Guarantees R m.attempt :=
  fun s => run_attempt.mpr (hm s)

theorem mapErr (hm : Guarantees R m) (f : ε → ε') : Guarantees R (m.mapErr f) :=
  fun s => run_mapErr.mpr (hm s)

theorem orFail (hm : Guarantees R m) (e : ε') : Guarantees R (m.orFail e) :=
  hm.mapErr _

theorem ite {c : Prop} [Decidable c] {m' : Proc σ ε α} (hm : Guarantees R m)
    (hm' : Guarantees R m') : Guarantees R (if c then m else m') := by
  split
  · exact hm
  · exact hm'

theorem forEach {f : α → Proc σ ε Unit} (hf : ∀ a, Guarantees R (f a)) :
    ∀ l : List α, Guarantees R (forEach f l)
  | [] => Guarantees.pure ()
  | a :: l => (hf a).bind fun _ => Guarantees.forEach hf l

theorem loop {f : β → Proc σ ε β} (hf : ∀ b, Guarantees R (f b)) :
    ∀ (n : ℕ) (b : β), Guarantees R (loop f n b)
  | 0, b => Guarantees.pure b
  | n + 1, b => (hf b).bind fun b' => Guarantees.loop hf n b'

end Guarantees

end Proc
