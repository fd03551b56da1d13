import Mathlib.Data.List.Induction

/-!
# Machines that step by actions

A machine is a partial function from a state and an action to the next state: `none` when the
action is not enabled. A run is a list of actions. An invariant of the steps is an invariant
of the runs, also when it speaks about the actions so far, and also when the steps are only
those that meet a condition.
-/

namespace Machine

variable {σ α : Type} (step : σ → α → Option σ)

/-- The state after these actions, if each of them is enabled. -/
def run (s : σ) (as : List α) : Option σ := as.foldlM step s

variable {step} {s s' : σ} {a : α} {as : List α}

theorem run_concat : run step s (as ++ [a]) = (run step s as).bind fun s' => step s' a := by
  simp [run]

theorem run_concat_eq_some (h : run step s (as ++ [a]) = some s') :
    ∃ s₁, run step s as = some s₁ ∧ step s₁ a = some s' :=
  Option.bind_eq_some_iff.mp (run_concat.symm.trans h)

/-- A concrete run is checked by evaluating it. -/
theorem exists_run_of_any (step : σ → α → Option σ) (s : σ) (as : List α) (P : σ → Prop)
    [DecidablePred P] (h : (run step s as).any (fun s' => P s') = true) :
    ∃ s', run step s as = some s' ∧ P s' := by
  obtain ⟨s', hs', hP⟩ := (Option.any_eq_true _ _).mp h
  exact ⟨s', hs', of_decide_eq_true hP⟩

/-- Every step of a run meets the condition. -/
def Along (step : σ → α → Option σ) (P : σ → α → Prop) (s : σ) (as : List α) : Prop :=
  ∀ as₁ a as₂ s₁, as = as₁ ++ a :: as₂ → run step s as₁ = some s₁ → P s₁ a

theorem Along.concat {P : σ → α → Prop} (h : Along step P s (as ++ [a])) :
    Along step P s as ∧ ∀ s₁, run step s as = some s₁ → P s₁ a := by
  refine ⟨fun as₁ b as₂ s₁ has => ?_, fun s₁ => h as a [] s₁ rfl⟩
  refine h as₁ b (as₂ ++ [a]) s₁ ?_
  rw [has]
  simp

theorem along_cons_iff {P : σ → α → Prop} :
    Along step P s (a :: as) ↔ P s a ∧ ∀ s' ∈ step s a, Along step P s' as := by
  constructor
  · intro h
    refine ⟨h [] a as s rfl rfl, fun s' hs' as₁ b as₂ s₁ has hs₁ => ?_⟩
    refine h (a :: as₁) b as₂ s₁ (by rw [has, List.cons_append]) ?_
    rwa [run, List.foldlM_cons, Option.mem_def.mp hs']
  · rintro ⟨ha, hrest⟩ (_ | ⟨b, as₁⟩) c as₂ s₁ has hs₁
    · cases has
      cases hs₁
      exact ha
    · cases has
      rw [run, List.foldlM_cons] at hs₁
      obtain ⟨s', hs', hs₁⟩ := Option.bind_eq_some_iff.mp hs₁
      exact hrest s' hs' as₁ c as₂ s₁ rfl hs₁

instance decidableAlong {P : σ → α → Prop} [∀ s a, Decidable (P s a)] :
    (s : σ) → (as : List α) → Decidable (Along step P s as)
  | _, [] => isTrue fun as₁ a as₂ _ has => absurd has.symm (by simp)
  | s, a :: as =>
    have (s' : σ) : Decidable (Along step P s' as) := decidableAlong s' as
    decidable_of_iff (P s a ∧ ∀ s' ∈ step s a, Along step P s' as) along_cons_iff.symm

/-- **The rule of runs.** What holds at the start and is kept by every step that meets the
condition holds after every run along it. The invariant may speak about the actions so far. -/
theorem run_induction {P : σ → α → Prop} {I : List α → σ → Prop} (h0 : I [] s)
    (hstep : ∀ as s₁ a s₂, run step s as = some s₁ → P s₁ a → step s₁ a = some s₂ → I as s₁ →
      I (as ++ [a]) s₂)
    (hP : Along step P s as) (h : run step s as = some s') : I as s' := by
  induction as using List.reverseRecOn generalizing s' with
  | nil =>
    cases h
    exact h0
  | append_singleton as a ih =>
    obtain ⟨s₁, hs₁, ha⟩ := run_concat_eq_some h
    exact hstep as s₁ a s' hs₁ (hP.concat.2 s₁ hs₁) ha (ih hP.concat.1 hs₁)

/-- The rule of runs, for an invariant of the state and steps without a condition. -/
theorem run_invariant {I : σ → Prop} (h0 : I s)
    (hstep : ∀ s₁ a s₂, step s₁ a = some s₂ → I s₁ → I s₂) (h : run step s as = some s') : I s' :=
  run_induction (P := fun _ _ => True) (I := fun _ => I) h0 (fun _ s₁ a s₂ _ _ => hstep s₁ a s₂)
    (fun _ _ _ _ _ _ => trivial) h

end Machine
