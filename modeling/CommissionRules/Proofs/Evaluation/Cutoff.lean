import CommissionRules.Proofs.Evaluation.Families

/-!
# Cutting evaluations off

A budget decides how far an evaluation gets and nothing else.  Up to a depth, an expression has one
outcome and one number of steps in a context, whatever the limit on steps and the clock are: a run
takes these steps one after the other and ends at the first that its allowance refuses
(`Run.exists_spend`).  A run to a greater depth does the same as long as the smaller depth is not
exceeded (`Run.evaluate_deeper`).  `Run.budget_cuts_off` says what this means for a limit on steps
and for a clock that has never, or always, run out.
-/

namespace CommissionRules

/-- Holds of the errors that end an evaluation at a step. -/
def EvalError.ofStep : EvalError → Bool
  | stepBudgetExceeded _ | timedOut _ => true
  | _ => false

theorem EvalError.not_ofStep_of_not_ofBudget {error : EvalError} (h : error.ofBudget = false) :
    error.ofStep = false := by
  cases error with
  | stepBudgetExceeded | timedOut => cases h
  | _ => rfl

/-- What a run may use apart from depth: a number of steps, and milliseconds on a clock. -/
structure Allowance where
  maxSteps : Nat
  timeout : Nat
  elapsed : (steps : Nat) → Nat

namespace Allowance

variable (allowance : Allowance) {α : Type}

/-- The run in a context to a depth. -/
def run (context : Context) (maxDepth : Nat) : Run :=
  ⟨context, ⟨maxDepth, allowance.maxSteps, allowance.timeout⟩, allowance.elapsed⟩

/-- The error with which a step is refused, given its number. -/
def refusal? (step : Nat) : Option EvalError :=
  if allowance.maxSteps < step then some (.stepBudgetExceeded allowance.maxSteps)
  else if step % Run.clockInterval = 0 && allowance.timeout < allowance.elapsed step then
    some (.timedOut allowance.timeout)
  else none

/-- Takes so many steps towards an outcome, after the steps that were taken before: the outcome, or
the error of the first step that is refused, with the number of steps then. -/
def spend : (n steps : Nat) → Except EvalError α → Except EvalError α × Nat
  | 0, steps, outcome => (outcome, steps)
  | n + 1, steps, outcome =>
      match allowance.refusal? (steps + 1) with
      | some error => (.error error, steps + 1)
      | none => spend n (steps + 1) outcome

variable {allowance}

theorem spend_of_none {n steps : Nat} {outcome : Except EvalError α}
    (h : ∀ step, steps < step → step ≤ steps + n → allowance.refusal? step = none) :
    allowance.spend n steps outcome = (outcome, steps + n) := by
  induction n generalizing steps with
  | zero => rfl
  | succ n ih =>
    rw [spend, h (steps + 1) (by omega) (by omega)]
    dsimp only
    rw [ih fun step hlt hle => h step (by omega) (by omega), Nat.add_right_comm, Nat.add_assoc]

theorem spend_of_some {n steps last : Nat} {error : EvalError} {outcome : Except EvalError α}
    (hlt : steps < last) (hle : last ≤ steps + n)
    (h : ∀ step, steps < step → step < last → allowance.refusal? step = none)
    (hlast : allowance.refusal? last = some error) :
    allowance.spend n steps outcome = (.error error, last) := by
  induction n generalizing steps with
  | zero => omega
  | succ n ih =>
    rw [spend]
    rcases Nat.lt_or_eq_of_le (Nat.succ_le_of_lt hlt) with hnext | rfl
    · rw [h (steps + 1) (by omega) hnext]
      exact ih hnext (by omega) fun step hstep => h step (by omega)
    · rw [hlast]

/-- A clock that has not run out at a step leaves the limit on steps to refuse it. -/
theorem refusal?_of_not_expired {step : Nat}
    (h : step % Run.clockInterval = 0 → allowance.elapsed step ≤ allowance.timeout) :
    allowance.refusal? step = if allowance.maxSteps < step then
      some (.stepBudgetExceeded allowance.maxSteps) else none := by
  have hclock : (step % Run.clockInterval = 0 && allowance.timeout < allowance.elapsed step)
      = false := by
    rw [Bool.and_eq_false_iff, decide_eq_false_iff_not, decide_eq_false_iff_not, Nat.not_lt]
    exact Decidable.not_or_of_imp h
  rw [refusal?, hclock, if_neg Bool.false_ne_true]

end Allowance

/-! ## Steps and the clock -/

/-- Under every allowance the member of a family takes so many steps towards an outcome. -/
def Eval.Takes {α : Type} (n : Nat) (outcome : Except EvalError α)
    (family : Allowance → Eval α) : Prop :=
  ∀ allowance steps, (family allowance).run.run steps = allowance.spend n steps outcome

namespace Eval

open Allowance

variable {α β : Type} {first : Allowance → Eval α} {next : Allowance → α → Eval β} {m n : Nat}

theorem takes_bind_error {error : EvalError} (h : Takes m (.error error) first) :
    Takes m (.error error) fun allowance => first allowance >>= next allowance := by
  intro allowance steps
  rw [run_bind, h]
  clear h
  induction m generalizing steps with
  | zero => rfl
  | succ m ih =>
    rw [spend, spend]
    cases allowance.refusal? (steps + 1) with
    | some refused => rfl
    | none => exact ih (steps + 1)

theorem takes_bind_ok {a : α} {outcome : Except EvalError β} (h : Takes m (.ok a) first)
    (hnext : Takes n outcome fun allowance => next allowance a) :
    Takes (m + n) outcome fun allowance => first allowance >>= next allowance := by
  intro allowance steps
  rw [run_bind, h]
  clear h
  induction m generalizing steps with
  | zero =>
    rw [Nat.zero_add]
    exact hnext allowance steps
  | succ m ih =>
    rw [Nat.add_right_comm, spend, spend]
    cases allowance.refusal? (steps + 1) with
    | some refused => rfl
    | none => exact ih (steps + 1)

end Eval

open Eval

/-- Under every allowance the members of a family take the same number of steps towards the same
outcome, which is no refusal of a step. -/
def FamilyLaw.metered : FamilyLaw Allowance where
  Holds family := ∃ n outcome, ErrorsIn (·.ofStep = false) outcome ∧ Takes n outcome family
  value a := ⟨0, .ok a, errorsIn_ok a, fun _ _ => rfl⟩
  failure h := ⟨0, _, errorsIn_error (EvalError.not_ofStep_of_not_ofBudget h), fun _ _ => rfl⟩
  sequence := by
    intro α β first next hfirst hnext
    obtain ⟨m, outcome, herrors, htakes⟩ := hfirst
    cases outcome with
    | error error =>
      exact ⟨m, .error error, errorsIn_error (herrors error rfl), takes_bind_error htakes⟩
    | ok a =>
      obtain ⟨n, outcome, herrors, hrest⟩ := hnext a
      exact ⟨m + n, outcome, herrors, takes_bind_ok htakes hrest⟩

namespace Run

theorem enter_of_lt (run : Run) {α : Type} {depth : Nat} (h : run.budget.maxDepth < depth)
    (node : Eval α) : run.enter depth node = throw (.depthExceeded run.budget.maxDepth) := by
  rw [enter]
  exact if_pos h

theorem enter_of_le (run : Run) {α : Type} {depth : Nat} (h : depth ≤ run.budget.maxDepth)
    (node : Eval α) : run.enter depth node = run.tick >>= fun _ => node := by
  rw [enter]
  exact if_neg (Nat.not_lt.mpr h)

theorem tick_takes (context : Context) (maxDepth : Nat) :
    Takes 1 (.ok ()) fun allowance => (allowance.run context maxDepth).tick := by
  intro allowance steps
  rw [Allowance.spend, Allowance.refusal?]
  show (if allowance.maxSteps < steps + 1 then throw (.stepBudgetExceeded allowance.maxSteps)
    else if (steps + 1) % clockInterval = 0 && allowance.timeout < allowance.elapsed (steps + 1)
      then throw (.timedOut allowance.timeout) else pure () : Eval Unit).run.run (steps + 1) = _
  by_cases hsteps : allowance.maxSteps < steps + 1
  · rw [if_pos hsteps, if_pos hsteps]
    rfl
  · rw [if_neg hsteps, if_neg hsteps]
    split
    · rfl
    · rfl

theorem metered_ofRuns (context : Context) (maxDepth : Nat) :
    FamilyLaw.metered.OfRuns fun allowance => allowance.run context maxDepth := by
  have htick : FamilyLaw.metered.Holds fun allowance => (allowance.run context maxDepth).tick :=
    ⟨1, .ok (), errorsIn_ok (), tick_takes context maxDepth⟩
  refine ⟨htick, fun depth node hnode => ?_, fun locals source => ?_⟩
  · by_cases hdepth : maxDepth < depth
    · have hthrow (allowance : Allowance) := enter_of_lt (allowance.run context maxDepth) hdepth
        (node allowance)
      simp only [hthrow]
      exact ⟨0, .error (.depthExceeded maxDepth), errorsIn_error rfl, fun _ _ => rfl⟩
    · have hnode' (allowance : Allowance) := enter_of_le (allowance.run context maxDepth)
        (Nat.not_lt.mp hdepth) (node allowance)
      simp only [hnode']
      exact FamilyLaw.metered.sequence htick fun _ => hnode
  · exact FamilyLaw.metered.ofExcept (resolve_aboutValues ⟨context, ⟨0, 0, 0⟩, fun _ => 0⟩ _ _)

/-- Up to a depth an expression has one outcome and one number of steps in a context. -/
theorem exists_spend (context : Context) (maxDepth : Nat) (e : Expr) :
    ∃ n outcome, ErrorsIn (·.ofStep = false) outcome ∧
      ∀ allowance : Allowance,
        (allowance.run context maxDepth).evaluate e = allowance.spend n 0 outcome := by
  obtain ⟨n, outcome, herrors, htakes⟩ := (metered_ofRuns context maxDepth).eval e [] 1
  exact ⟨n, outcome, herrors, fun allowance => htakes allowance 0⟩

end Run

/-! ## Depth -/

/-- Everywhere but at the smallest depth of a family its members do the same, unless this depth is
exceeded. -/
def FamilyLaw.deepening (smallest : Nat) : FamilyLaw Nat where
  Holds family := ∀ steps,
    ((family smallest).run.run steps).1 = .error (.depthExceeded smallest) ∨
      ∀ maxDepth, smallest ≤ maxDepth →
        (family maxDepth).run.run steps = (family smallest).run.run steps
  value a := fun _ => .inr fun _ _ => rfl
  failure _ := fun _ => .inr fun _ _ => rfl
  sequence := by
    intro α β first next hfirst hnext steps
    rcases hfirst steps with hexceeded | hsame
    · refine .inl ?_
      rw [run_bind]
      rcases hrun : (first smallest).run.run steps with ⟨outcome, steps'⟩
      rw [hrun] at hexceeded
      rw [show outcome = .error (.depthExceeded smallest) from hexceeded]
    · simp only [run_bind]
      rcases hrun : (first smallest).run.run steps with ⟨outcome, steps'⟩
      cases outcome with
      | error error =>
        refine .inr fun maxDepth hle => ?_
        rw [hsame maxDepth hle, hrun]
      | ok a =>
        refine (hnext a steps').imp id fun hrest maxDepth hle => ?_
        rw [hsame maxDepth hle, hrun]
        exact hrest maxDepth hle

namespace Run

variable (allowance : Allowance) (context : Context)

theorem deepening_ofRuns (smallest : Nat) :
    (FamilyLaw.deepening smallest).OfRuns fun maxDepth => allowance.run context maxDepth := by
  have htick : (FamilyLaw.deepening smallest).Holds fun maxDepth =>
      (allowance.run context maxDepth).tick := fun _ => .inr fun _ _ => rfl
  refine ⟨htick, fun depth node hnode steps => ?_, fun locals source => ?_⟩
  · dsimp only
    by_cases hdepth : smallest < depth
    · have hthrow := enter_of_lt (allowance.run context smallest) hdepth (node smallest)
      exact .inl (by rw [hthrow]; rfl)
    · have henter (maxDepth : Nat) (hle : smallest ≤ maxDepth) :
          (allowance.run context maxDepth).enter depth (node maxDepth) =
            (allowance.run context maxDepth).tick >>= fun _ => node maxDepth :=
        enter_of_le _ (by show depth ≤ maxDepth; omega) _
      have hsequence := (FamilyLaw.deepening smallest).sequence htick (fun _ => hnode) steps
      rw [henter smallest (Nat.le_refl _)]
      refine hsequence.imp id fun hsame maxDepth hle => ?_
      rw [henter maxDepth hle]
      exact hsame maxDepth hle
  · exact (FamilyLaw.deepening smallest).ofExcept
      (resolve_aboutValues ⟨context, ⟨0, 0, 0⟩, fun _ => 0⟩ _ _)

/-- A run to a greater depth does the same, unless the smaller depth is exceeded. -/
theorem evaluate_deeper {maxDepth maxDepth' : Nat} (hle : maxDepth ≤ maxDepth') (e : Expr)
    (h : ((allowance.run context maxDepth).evaluate e).1 ≠ .error (.depthExceeded maxDepth)) :
    (allowance.run context maxDepth').evaluate e = (allowance.run context maxDepth).evaluate e :=
  ((deepening_ofRuns allowance context maxDepth).eval e [] 1 0).resolve_left h maxDepth' hle

end Run

/-! ## Limits and clocks -/

namespace Allowance

variable (allowance : Allowance)

def NeverExpires : Prop := ∀ steps, allowance.elapsed steps ≤ allowance.timeout

def AlwaysExpired : Prop := ∀ steps, allowance.timeout < allowance.elapsed steps

variable {allowance} {α : Type} {n : Nat} {outcome : Except EvalError α}

/-- What a limit on steps makes of an outcome that takes so many steps. -/
def cutOff (maxSteps n : Nat) (outcome : Except EvalError α) : Except EvalError α × Nat :=
  if n ≤ maxSteps then (outcome, n) else (.error (.stepBudgetExceeded maxSteps), maxSteps + 1)

/-- A clock that has not run out where it is looked at leaves the cutting off to the limit. -/
theorem spend_of_not_expired (h : ∀ step, step % Run.clockInterval = 0 → 0 < step → step ≤ n →
      step ≤ allowance.maxSteps → allowance.elapsed step ≤ allowance.timeout) :
    allowance.spend n 0 outcome = cutOff allowance.maxSteps n outcome := by
  have hnone (step : Nat) (hpos : 0 < step) (hn : step ≤ n) (hle : step ≤ allowance.maxSteps) :
      allowance.refusal? step = none := by
    rw [refusal?_of_not_expired fun hmod => h step hmod hpos hn hle]
    exact if_neg (Nat.not_lt.mpr hle)
  rw [cutOff]
  by_cases hn : n ≤ allowance.maxSteps
  · rw [if_pos hn, spend_of_none fun step hpos hle => hnone step hpos (by omega) (by omega),
      Nat.zero_add]
  · rw [if_neg hn]
    refine spend_of_some (by omega) (by omega)
      (fun step hpos hlt => hnone step hpos (by omega) (by omega)) ?_
    rw [refusal?]
    exact if_pos (Nat.lt_succ_self _)

theorem spend_of_expired (h : allowance.AlwaysExpired) (hn : Run.clockInterval ≤ n)
    (hsteps : Run.clockInterval ≤ allowance.maxSteps) :
    allowance.spend n 0 outcome = (.error (.timedOut allowance.timeout), Run.clockInterval) := by
  refine spend_of_some (by decide) (by omega) (fun step hpos hlt => ?_) ?_
  · rw [refusal?_of_not_expired fun hmod => ?_]
    · exact if_neg (by omega)
    · rw [Nat.mod_eq_of_lt hlt] at hmod
      omega
  · have hclock : (Run.clockInterval % Run.clockInterval = 0 &&
        allowance.timeout < allowance.elapsed Run.clockInterval) = true := by
      rw [Nat.mod_self, Bool.and_eq_true, decide_eq_true_eq]
      exact ⟨rfl, decide_eq_true (h Run.clockInterval)⟩
    rw [refusal?, if_neg (Nat.not_lt.mpr hsteps), if_pos hclock]

end Allowance

namespace Run

open Allowance

/-- An expression ends so, after so many steps, where nothing cuts its evaluation off: in every run
with steps enough, on a clock that never runs out. -/
def Unlimited (context : Context) (maxDepth : Nat) (e : Expr) (outcome : Except EvalError Value)
    (n : Nat) : Prop :=
  ∃ enough, ∀ allowance : Allowance, enough ≤ allowance.maxSteps → allowance.NeverExpires →
    (allowance.run context maxDepth).evaluate e = (outcome, n)

/-- An expression has one outcome and one number of steps without a limit on steps and time.  Under
a limit on steps the outcome is the same if there are steps enough, and else the excess of the
limit.  Under a clock that has always run out it is the same, unless the evaluation gets as far as
the first look at the clock.  A greater depth changes nothing but an excess of the depth. -/
theorem budget_cuts_off (context : Context) (maxDepth : Nat) (e : Expr) :
    ∃ outcome n,
      (∀ outcome' n', Unlimited context maxDepth e outcome' n' ↔ outcome' = outcome ∧ n' = n) ∧
      ∀ allowance : Allowance,
        let result := (allowance.run context maxDepth).evaluate e
        (allowance.NeverExpires → result = cutOff allowance.maxSteps n outcome) ∧
        (allowance.AlwaysExpired →
          (result.1 = .error (.timedOut allowance.timeout) ↔
            256 ≤ n ∧ 256 ≤ allowance.maxSteps) ∧
          (¬ (256 ≤ n ∧ 256 ≤ allowance.maxSteps) →
            result = cutOff allowance.maxSteps n outcome)) ∧
        ∀ maxDepth', maxDepth ≤ maxDepth' → result.1 ≠ .error (.depthExceeded maxDepth) →
          (allowance.run context maxDepth').evaluate e = result := by
  obtain ⟨n, outcome, herrors, hspend⟩ := exists_spend context maxDepth e
  have hnever (allowance : Allowance) (h : allowance.NeverExpires) :
      (allowance.run context maxDepth).evaluate e = cutOff allowance.maxSteps n outcome := by
    rw [hspend]
    exact spend_of_not_expired fun step _ _ _ _ => h step
  have hunlimited : Unlimited context maxDepth e outcome n :=
    ⟨n, fun allowance hle h => (hnever allowance h).trans (if_pos hle)⟩
  refine ⟨outcome, n, fun outcome' n' => ⟨fun h => ?_, fun h => ?_⟩, fun allowance => ?_⟩
  · obtain ⟨enough, h⟩ := h
    obtain ⟨enough', h'⟩ := hunlimited
    let allowance : Allowance := ⟨max enough enough', 0, fun _ => 0⟩
    have heq := h allowance (Nat.le_max_left _ _) fun _ => Nat.le_refl _
    rw [h' allowance (Nat.le_max_right _ _) fun _ => Nat.le_refl _, Prod.mk.injEq] at heq
    exact ⟨heq.1.symm, heq.2.symm⟩
  · rw [h.1, h.2]
    exact hunlimited
  · refine ⟨hnever allowance, fun hexpired => ?_, fun maxDepth' hle => evaluate_deeper _ _ hle e⟩
    have hcut (h : ¬ (256 ≤ n ∧ 256 ≤ allowance.maxSteps)) :
        (allowance.run context maxDepth).evaluate e = cutOff allowance.maxSteps n outcome := by
      rw [hspend]
      refine spend_of_not_expired fun step hmod hpos hn hle => absurd ?_ h
      have := Nat.le_of_dvd hpos (Nat.dvd_of_mod_eq_zero hmod)
      rw [clockInterval] at this
      omega
    refine ⟨⟨fun h => ?_, fun h => ?_⟩, hcut⟩
    · refine Decidable.byContradiction fun hfew => ?_
      rw [hcut hfew, cutOff] at h
      split at h
      · cases herrors _ h
      · cases h
    · rw [hspend, spend_of_expired hexpired h.1 h.2]

/-- The test of a number of items by a lambda. -/
def rowTest (items : Nat) (test : Expr) : Expr :=
  .method (.literal (.list (List.replicate items .null))) "all" (.lambda "item" test)

/-- A lambda that tests ten items, applied to eleven, which takes 256 steps. -/
def nestedTest : Expr := .unary .not (rowTest 11 (rowTest 10 (.literal (.bool true))))

/-- The last step of the nested test is the first to look at the clock, and is not taken if the
limit is one step less, to a depth of four as to a greater one. -/
theorem budget_cuts_off_nestedTest :
    (Allowance.AlwaysExpired ⟨256, 0, fun _ => 1⟩ ∧
      ((Allowance.run ⟨256, 0, fun _ => 1⟩ .empty 4).evaluate nestedTest).1
        = .error (.timedOut 0)) ∧
    (Allowance.run ⟨255, 0, fun _ => 1⟩ .empty 9).evaluate nestedTest
      = (.error (.stepBudgetExceeded 255), 256) := by
  obtain ⟨outcome, n, -, h⟩ := budget_cuts_off .empty 4 nestedTest
  have hlate : ∀ steps, Allowance.AlwaysExpired ⟨steps, 0, fun _ => 1⟩ := fun _ _ => Nat.one_pos
  have heval : (Allowance.run ⟨256, 0, fun _ => 0⟩ .empty 4).evaluate nestedTest
      = (.ok (.bool false), 256) := by
    rfl
  have hn : n = 256 := by
    have hcut := (h ⟨256, 0, fun _ => 0⟩).1 fun _ => Nat.le_refl _
    rw [heval, cutOff] at hcut
    split at hcut
    · exact (Prod.mk.inj hcut).2.symm
    · cases (Prod.mk.inj hcut).1
  subst hn
  have hshort : (Allowance.run ⟨255, 0, fun _ => 1⟩ .empty 4).evaluate nestedTest
      = (.error (.stepBudgetExceeded 255), 256) :=
    ((h _).2.1 (hlate 255)).2 (by decide)
  refine ⟨⟨hlate 256, ((h _).2.1 (hlate 256)).1.mpr (by decide)⟩, ?_⟩
  rw [(h ⟨255, 0, fun _ => 1⟩).2.2 9 (by decide) (by rw [hshort]; nofun)]
  exact hshort

end Run

end CommissionRules
