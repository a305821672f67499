import CommissionRules.Proofs.Evaluation.Failure

/-!
# Results of computations

What holds of the value that a computation gives.  `Gives` says it of an operation on values, and
`Returns` of a computation, whatever the number of steps before it.  Neither says anything of one
that fails.
-/

namespace CommissionRules

/-- The property holds of the result of an operation on values, if it has one. -/
def Gives {α : Type} (holds : α → Prop) (x : Except EvalError α) : Prop := ∀ a, x = .ok a → holds a

section Gives

variable {α β : Type} {holds : α → Prop} {holds' : β → Prop}

theorem gives_ok {a : α} (h : holds a) : Gives holds (.ok a) := by
  intro a' h'
  cases h'
  exact h

theorem gives_error (error : EvalError) : Gives holds (.error error) := by
  intro a h
  cases h

theorem gives_bind {x : Except EvalError α} {f : α → Except EvalError β}
    (hf : ∀ a, Gives holds' (f a)) : Gives holds' (x >>= f) := by
  intro b h
  obtain ⟨a, -, h⟩ := bind_eq_ok.mp h
  exact hf a b h

end Gives

namespace Eval

variable {α β : Type} {holds : α → Prop} {holds' : β → Prop} {m : Eval α}

/-- The property holds of the value that a computation gives, if it gives one. -/
def Returns (holds : α → Prop) (m : Eval α) : Prop :=
  ∀ steps a, (m.run.run steps).1 = .ok a → holds a

theorem returns_pure {a : α} (h : holds a) : Returns holds (pure a) := by
  intro steps a' h'
  cases h'
  exact h

theorem returns_throw (error : EvalError) : Returns holds (throw error : Eval α) := by
  intro steps a h
  cases h

theorem returns_true (m : Eval α) : Returns (fun _ => True) m := fun _ _ _ => trivial

theorem Returns.imp {holds'' : α → Prop} (h : Returns holds m) (himp : ∀ a, holds a → holds'' a) :
    Returns holds'' m := fun steps a hrun => himp a (h steps a hrun)

theorem returns_bind {f : α → Eval β} (hm : Returns holds m)
    (hf : ∀ a, holds a → Returns holds' (f a)) : Returns holds' (m >>= f) := by
  intro steps b h
  rw [run_bind] at h
  rcases hrun : m.run.run steps with ⟨result, steps'⟩
  rw [hrun] at h
  cases result with
  | ok a =>
    have ha : holds a := hm steps a (by rw [hrun])
    exact hf a ha steps' b h
  | error e => cases h

/-- A computation goes on where the one before it gave a value. -/
theorem run_bind_of_ok {f : α → Eval β} {steps steps' : Nat} {a : α}
    (h : m.run.run steps = (.ok a, steps')) : (m >>= f).run.run steps = (f a).run.run steps' := by
  rw [run_bind, h]

theorem exists_of_run_bind_eq_ok {f : α → Eval β} {steps steps'' : Nat} {b : β}
    (h : (m >>= f).run.run steps = (.ok b, steps'')) :
    ∃ a steps', m.run.run steps = (.ok a, steps') ∧ (f a).run.run steps' = (.ok b, steps'') := by
  rw [run_bind] at h
  rcases hrun : m.run.run steps with ⟨result, steps'⟩
  rw [hrun] at h
  cases result with
  | ok a => exact ⟨a, steps', rfl, h⟩
  | error e => cases h

theorem returns_ofExcept {x : Except EvalError α} (h : Gives holds x) :
    Returns holds (ofExcept x) := by
  cases x with
  | ok a => exact returns_pure (h a rfl)
  | error e => exact returns_throw e

/-- What follows a computation has to be looked at on its values only. -/
theorem failsOnly_bind_of_returns {allowed : EvalError → Prop} {f : α → Eval β}
    (hm : FailsOnly allowed m) (returns : Returns holds m)
    (hf : ∀ a, holds a → FailsOnly allowed (f a)) : FailsOnly allowed (m >>= f) := by
  intro steps error h
  rw [run_bind] at h
  rcases hrun : m.run.run steps with ⟨result, steps'⟩
  rw [hrun] at h
  cases result with
  | ok a =>
    have ha : holds a := returns steps a (by rw [hrun])
    exact hf a ha steps' error h
  | error e =>
    have heq : (m.run.run steps).1 = .error error := by
      rw [hrun]
      exact congrArg Except.error (Except.error.inj h)
    exact hm steps error heq

theorem bind_congr_of_returns {f g : α → Eval β} (returns : Returns holds m)
    (h : ∀ a, holds a → f a = g a) : (m >>= f) = (m >>= g) := by
  have hrun : ∀ steps, (m >>= f).run.run steps = (m >>= g).run.run steps := by
    intro steps
    rw [run_bind, run_bind]
    rcases hm : m.run.run steps with ⟨result, steps'⟩
    cases result with
    | ok a =>
      have ha : holds a := returns steps a (by rw [hm])
      exact congrArg (fun next => next.run.run steps') (h a ha)
    | error e => rfl
  exact ExceptT.ext (StateT.ext hrun)

end Eval

namespace Run

open Eval

variable (run : Run)

theorem enter_returns {α : Type} {holds : α → Prop} {depth : Nat} {node : Eval α}
    (h : Returns holds node) : Returns holds (run.enter depth node) := by
  rw [enter]
  split
  · exact returns_throw _
  · exact returns_bind (returns_true _) fun _ _ => h

theorem evalArgs_returns_length (args : List Expr) (locals : Locals) (depth : Nat) :
    Returns (fun values => values.length = args.length) (run.evalArgs args locals depth) := by
  induction args with
  | nil =>
    rw [evalArgs]
    exact returns_pure rfl
  | cons arg rest ih =>
    rw [evalArgs]
    refine returns_bind (returns_true _) fun value _ => ?_
    refine returns_bind ih fun values hlength => returns_pure ?_
    rw [List.length_cons, List.length_cons, hlength]

end Run

end CommissionRules
