import Mathlib.Tactic.Choose
import CommissionRules.Proofs.Evaluation.Cutoff
import CommissionRules.Proofs.Evaluation.Items
import CommissionRules.Proofs.Counts

/-!
# Testing the items of collections

A computation settles to an outcome if this is what it ends with, however many steps have been taken
before, unless it exceeds the budget.  In a run every expression settles to one outcome
(`Run.exists_settles`), and so does a test of an item.  Hence the methods that test items agree,
although two of them stop early: if every item has a truth value, then all three settle to what
these values say, and if one item has none, then filtering fails, whatever stands around the item.
`Run.tests_agree` says this of their results.
-/

namespace CommissionRules

namespace Eval

variable {α β : Type}

/-- The computation has this outcome after any number of steps, unless it exceeds the budget. -/
def Settles (m : Eval α) (outcome : Except EvalError α) : Prop :=
  ∀ steps, (m.run.run steps).1 = outcome ∨
    ∃ error, error.ofBudget = true ∧ (m.run.run steps).1 = .error error

theorem settles_pure (a : α) : Settles (pure a) (.ok a) := fun _ => .inl rfl

theorem settles_throw (error : EvalError) : Settles (throw error : Eval α) (.error error) :=
  fun _ => .inl rfl

theorem Settles.eq {m : Eval α} {outcome : Except EvalError α} (h : Settles m outcome)
    {steps : Nat} (within : AboutValues (m.run.run steps).1) : (m.run.run steps).1 = outcome := by
  rcases h steps with heq | ⟨error, hbudget, herror⟩
  · exact heq
  · rw [within error herror] at hbudget
    cases hbudget

section Bind

variable {m : Eval α} {f : α → Eval β}

theorem settles_bind_error {error : EvalError} (h : Settles m (.error error)) :
    Settles (m >>= f) (.error error) := by
  intro steps
  have hm := h steps
  rw [run_bind]
  rcases hrun : m.run.run steps with ⟨result, steps'⟩
  rw [hrun] at hm
  rcases hm with rfl | ⟨error', hbudget, rfl⟩
  · exact .inl rfl
  · exact .inr ⟨error', hbudget, rfl⟩

theorem settles_bind {a : α} {outcome : Except EvalError β} (h : Settles m (.ok a))
    (hf : Settles (f a) outcome) : Settles (m >>= f) outcome := by
  intro steps
  have hm := h steps
  rw [run_bind]
  rcases hrun : m.run.run steps with ⟨result, steps'⟩
  rw [hrun] at hm
  rcases hm with rfl | ⟨error, hbudget, rfl⟩
  · exact hf steps'
  · exact .inr ⟨error, hbudget, rfl⟩

/-- A computation that settles gives no other value. -/
theorem Settles.ne {outcome : Except EvalError α} {a : α} (h : Settles m outcome)
    (hne : outcome ≠ .ok a) (steps : Nat) : (m.run.run steps).1 ≠ .ok a := by
  rcases h steps with heq | ⟨error, -, herror⟩
  · rwa [heq]
  · rw [herror]
    nofun

theorem Settles.map {outcome : Except EvalError α} (h : Settles m outcome) (g : α → β) :
    Settles (m >>= fun a => pure (g a)) (outcome.map g) := by
  cases outcome with
  | error error => exact settles_bind_error h
  | ok a => exact settles_bind h (settles_pure (g a))

end Bind

end Eval

/-- Steps towards an outcome end with it or with an excess of the budget. -/
theorem Allowance.spend_settles {α : Type} (allowance : Allowance) (n steps : Nat)
    (outcome : Except EvalError α) : (allowance.spend n steps outcome).1 = outcome ∨
      ∃ error, error.ofBudget = true ∧ (allowance.spend n steps outcome).1 = .error error := by
  induction n generalizing steps with
  | zero => exact .inl rfl
  | succ n ih =>
    rw [spend]
    cases hrefusal : allowance.refusal? (steps + 1) with
    | none => exact ih (steps + 1)
    | some error =>
      refine .inr ⟨error, ?_, rfl⟩
      rw [refusal?] at hrefusal
      split at hrefusal
      · cases hrefusal
        rfl
      · split at hrefusal
        · cases hrefusal
          rfl
        · cases hrefusal

open Eval

theorem Eval.Takes.settles {α : Type} {n : Nat} {outcome : Except EvalError α}
    {family : Allowance → Eval α} (h : Takes n outcome family) (allowance : Allowance) :
    Settles (family allowance) outcome := by
  intro steps
  rw [h allowance steps]
  exact allowance.spend_settles n steps outcome

namespace Run

variable (run : Run) (param : String) (body : Expr) (locals : Locals) (depth : Nat)

def allowance : Allowance := ⟨run.budget.maxSteps, run.budget.timeout, run.elapsed⟩

/-- What a lambda gives for an item. -/
def applied (item : Value) : Eval Value := do
  run.tick
  run.eval body ((param, item) :: locals) depth

theorem operand_lambda :
    run.operand (.lambda param body) locals depth =
      .lambda (run.applied param body locals depth) := by
  rw [operand]
  rfl

/-- For every item a lambda settles to one outcome. -/
theorem exists_settles_applied (item : Value) :
    ∃ outcome, Settles (run.applied param body locals depth item) outcome := by
  have htick := tick_takes run.context run.budget.maxDepth
  obtain ⟨n, outcome, -, hbody⟩ :=
    (metered_ofRuns run.context run.budget.maxDepth).eval body ((param, item) :: locals) depth
  have htakes : Takes (1 + n) outcome fun allowance =>
      (allowance.run run.context run.budget.maxDepth).applied param body locals depth item :=
    takes_bind_ok htick hbody
  exact ⟨outcome, htakes.settles run.allowance⟩

end Run

namespace Collection

/-! ## Filtering and searching -/

section Settling

variable {apply : Value → Eval Value} {items : List Value}

theorem test_settles {item : Value} {b : Bool} (h : Settles (apply item) (.ok (.bool b)))
    (method : String) : Settles (test method (.lambda apply) item) (.ok b) :=
  settles_bind h (settles_pure b)

/-- An item has a truth value, or every test of it fails. -/
theorem test_cases {item : Value} (h : ∃ outcome, Settles (apply item) outcome) :
    (∃ b, Settles (apply item) (.ok (.bool b))) ∨
      ∀ method, ∃ error, Settles (test method (.lambda apply) item) (.error error) := by
  obtain ⟨outcome, h⟩ := h
  cases outcome with
  | error error => exact .inr fun method => ⟨error, settles_bind_error h⟩
  | ok value =>
    cases value with
    | bool b => exact .inl ⟨b, h⟩
    | _ => exact .inr fun method => ⟨_, settles_bind h (settles_throw _)⟩

section Truth

variable {truth : Value → Bool}
  (htruth : ∀ item ∈ items, Settles (apply item) (.ok (.bool (truth item))))

include htruth

theorem keep_settles (method : String) :
    Settles (keep method (.lambda apply) items) (.ok (items.filter truth)) := by
  induction items with
  | nil => exact settles_pure []
  | cons item rest ih =>
    have hitem := test_settles (htruth item List.mem_cons_self) method
    have hrest := ih fun other hother => htruth other (List.mem_cons_of_mem _ hother)
    refine settles_bind hitem (settles_bind hrest ?_)
    rw [List.filter_cons]
    exact settles_pure _

theorem find_settles (method : String) (wanted : Bool) :
    Settles (find method (.lambda apply) wanted items)
      (.ok (items.any fun item => truth item == wanted)) := by
  induction items with
  | nil => exact settles_pure false
  | cons item rest ih =>
    have hitem := test_settles (htruth item List.mem_cons_self) method
    have hrest := ih fun other hother => htruth other (List.mem_cons_of_mem _ hother)
    refine settles_bind hitem ?_
    rw [List.any_cons]
    by_cases h : truth item = wanted
    · rw [if_pos h, beq_iff_eq.mpr h, Bool.true_or]
      exact settles_pure true
    · rw [if_neg h, beq_eq_false_iff_ne.mpr h, Bool.false_or]
      exact hrest

end Truth

section Failure

variable (settles : ∀ item, ∃ outcome, Settles (apply item) outcome) {failing : Value}
  (hfailing : failing ∈ items)
  (fails : ∀ method, ∃ error, Settles (test method (.lambda apply) failing) (.error error))

include settles hfailing fails

theorem keep_fails (method : String) :
    ∃ error, Settles (keep method (.lambda apply) items) (.error error) := by
  induction items with
  | nil => cases hfailing
  | cons item rest ih =>
    rcases List.mem_cons.mp hfailing with rfl | hrest
    · obtain ⟨error, herror⟩ := fails method
      exact ⟨error, settles_bind_error herror⟩
    · rcases test_cases (settles item) with ⟨b, hb⟩ | hfails
      · obtain ⟨error, herror⟩ := ih hrest
        exact ⟨error, settles_bind (test_settles hb method) (settles_bind_error herror)⟩
      · obtain ⟨error, herror⟩ := hfails method
        exact ⟨error, settles_bind_error herror⟩

/-- A search fails as well, unless it finds something before. -/
theorem find_fails (method : String) (wanted : Bool) :
    Settles (find method (.lambda apply) wanted items) (.ok true) ∨
      ∃ error, Settles (find method (.lambda apply) wanted items) (.error error) := by
  induction items with
  | nil => cases hfailing
  | cons item rest ih =>
    rcases List.mem_cons.mp hfailing with rfl | hrest
    · obtain ⟨error, herror⟩ := fails method
      exact .inr ⟨error, settles_bind_error herror⟩
    · rcases test_cases (settles item) with ⟨b, hb⟩ | hfails
      · have hitem := test_settles hb method
        by_cases h : b = wanted
        · refine .inl (settles_bind hitem ?_)
          rw [if_pos h]
          exact settles_pure true
        · rcases ih hrest with hfound | ⟨error, herror⟩
          · refine .inl (settles_bind hitem ?_)
            rw [if_neg h]
            exact hfound
          · refine .inr ⟨error, settles_bind hitem ?_⟩
            rw [if_neg h]
            exact herror
      · obtain ⟨error, herror⟩ := hfails method
        exact .inr ⟨error, settles_bind_error herror⟩

end Failure

end Settling

/-! ## Counting -/

/-- What a method of a list ends with after a number of steps. -/
def outcome (name : String) (items : List Value) (operand : Operand) (steps : Nat) :
    Except EvalError Value := ((apply name items operand).run.run steps).1

theorem outcome_count (items : List Value) (operand : Operand) (steps : Nat) :
    outcome "count" items operand steps = .ok (.number (.ofNat items.length)) := rfl

/-- Whether a count is greater than zero, in the language, for any count. -/
theorem count_greater_zero (n : Nat) :
    BinaryOp.greater.evaluate (.number (.ofNat n)) (.number .zero) =
      .ok (.bool (decide (0 < n))) := by
  show Except.ok (Value.bool (((Number.compare? (.ofNat n) .zero).map Ordering.isGT).getD false)) = _
  have hcompare : Number.compare? (.ofNat n) .zero = some (compare (Number.ofNat n).position 0) := by
    rw [Number.compare?, Number.not_isNaN_ofNat]
    rfl
  rw [hcompare, Option.map_some, Option.getD_some]
  rcases Nat.eq_zero_or_pos n with rfl | h
  · rfl
  · rw [Std.compare_eq_gt.mpr (Number.position_ofNat_pos h), decide_eq_true h]
    rfl

/-- Whether two counts are equal, in the language, for counts that are exact as numbers. -/
theorem count_equal_count {m n : Nat} (hm : m ≤ 2 ^ 53) (hn : n ≤ 2 ^ 53) :
    BinaryOp.looseEqual.evaluate (.number (.ofNat m)) (.number (.ofNat n)) =
      .ok (.bool (decide (m = n))) := by
  show Except.ok (Value.bool (Number.equal (.ofNat m) (.ofNat n))) = _
  rw [Bool.eq_iff_iff.mpr ((Number.ofNat_equal_iff hm hn).trans decide_eq_true_iff.symm)]

end Collection

namespace Run

open Collection

variable (run : Run) (param : String) (body : Expr) (locals : Locals) (depth : Nat)

/-! ## Agreement -/

/-- The truth value that a lambda gives for an item: after some number of steps it does, and after
any other number it does too, unless it exceeds the budget. -/
def Decides (item : Value) (b : Bool) : Prop :=
  (∃ steps, ((run.applied param body locals depth item).run.run steps).1 = .ok (.bool b)) ∧
    Settles (run.applied param body locals depth item) (.ok (.bool b))

/-- A lambda decides about every item of a list that can be filtered by it. -/
theorem exists_decides_of_keep {method : String} {items kept : List Value} {steps steps' : Nat}
    (h : (keep method (.lambda (run.applied param body locals depth)) items).run.run steps =
      (.ok kept, steps')) : ∀ item ∈ items, ∃ b, run.Decides param body locals depth item b := by
  induction items generalizing kept steps steps' with
  | nil => nofun
  | cons item rest ih =>
    obtain ⟨b, middle, htest, hrest⟩ := exists_of_run_bind_eq_ok h
    obtain ⟨others, last, hothers, -⟩ := exists_of_run_bind_eq_ok hrest
    refine List.forall_mem_cons.mpr ⟨⟨b, ?_⟩, ih hothers⟩
    obtain ⟨value, before, hvalue, htruth⟩ := exists_of_run_bind_eq_ok htest
    have hgiven : ((run.applied param body locals depth item).run.run steps).1 =
        .ok (.bool b) := by
      cases value with
      | bool b' =>
        cases htruth
        exact congrArg Prod.fst hvalue
      | _ => cases htruth
    obtain ⟨outcome, hsettles⟩ := run.exists_settles_applied param body locals depth item
    have houtcome := hsettles.eq (hgiven ▸ errorsIn_ok _)
    rw [hgiven] at houtcome
    exact ⟨⟨steps, hgiven⟩, houtcome ▸ hsettles⟩

theorem exists_decides_of_where {items : List Value} {value : Value} {steps : Nat}
    (h : outcome "where" items (run.operand (.lambda param body) locals depth) steps = .ok value) :
    ∀ item ∈ items, ∃ b, run.Decides param body locals depth item b := by
  rw [operand_lambda] at h
  rw [outcome] at h
  obtain ⟨kept, steps', hkept, -⟩ := exists_of_run_bind_eq_ok (Prod.ext h rfl)
  exact run.exists_decides_of_keep param body locals depth hkept

/-- What a filtered list says of the items, and what the two methods that look for an item, in
`found` and `always`, say of it. -/
structure Filtered (items kept : List Value) (found always : Except EvalError Value) : Prop where
  /-- The items that are kept are those on which the lambda is true. -/
  exact : ∃ truth : Value → Bool,
    (∀ item ∈ items, run.Decides param body locals depth item (truth item)) ∧
      kept = items.filter truth
  found_eq : found = .ok (.bool (decide (0 < kept.length)))
  always_eq : always = .ok (.bool (decide (kept.length = items.length)))
  /-- In the language, something is found if the count of what is kept is greater than zero. -/
  found_count : ∀ operand steps, ∃ n, outcome "count" kept operand steps = .ok n ∧
    BinaryOp.greater.evaluate n (.number .zero) = found
  /-- As long as a number can tell the counts apart, the lambda is always true if they are equal. -/
  always_count : items.length ≤ 2 ^ 53 → ∀ operand steps, ∃ m n,
    outcome "count" kept operand steps = .ok m ∧ outcome "count" items operand steps = .ok n ∧
      BinaryOp.looseEqual.evaluate m n = always

/-- What the three methods settle to if the lambda has a truth value for every item. -/
theorem outcomes_of_truth {truth : Value → Bool} {items : List Value}
    (htruth : ∀ item ∈ items,
      Settles (run.applied param body locals depth item) (.ok (.bool (truth item)))) :
    let operand := run.operand (.lambda param body) locals depth
    Settles (apply "where" items operand) (.ok (.list (items.filter truth))) ∧
      Settles (apply "any" items operand)
        (.ok (.bool (decide (0 < (items.filter truth).length)))) ∧
      Settles (apply "all" items operand)
        (.ok (.bool (decide ((items.filter truth).length = items.length)))) := by
  dsimp only
  rw [operand_lambda]
  have hany : (items.any fun item => truth item == true) =
      decide (0 < (items.filter truth).length) := by
    rw [Bool.eq_iff_iff, decide_eq_true_iff, List.length_pos_iff]
    simp
  have hall : (!items.any fun item => truth item == false) =
      decide ((items.filter truth).length = items.length) := by
    rw [Bool.eq_iff_iff, decide_eq_true_iff, List.length_filter_eq_length_iff]
    simp
  rw [← hany, ← hall]
  exact ⟨(keep_settles htruth "where").map Value.list,
    (find_settles htruth "any" true).map Value.bool,
    (find_settles htruth "all" false).map fun b => Value.bool !b⟩

/-- What the three methods give, or not, if every test of some item fails. -/
theorem outcomes_of_failing {items : List Value} {failing : Value} (hfailing : failing ∈ items)
    (fails : ∀ method, ∃ error,
      Settles (test method (.lambda (run.applied param body locals depth)) failing)
        (.error error)) :
    let operand := run.operand (.lambda param body) locals depth
    (∃ error, Settles (apply "where" items operand) (.error error)) ∧
      ∀ steps, outcome "any" items operand steps ≠ .ok (.bool false) ∧
        outcome "all" items operand steps ≠ .ok (.bool true) := by
  dsimp only
  rw [operand_lambda]
  have hsettles := run.exists_settles_applied param body locals depth
  obtain ⟨error, herror⟩ := keep_fails hsettles hfailing fails "where"
  refine ⟨⟨error, herror.map Value.list⟩, fun steps => ⟨?_, ?_⟩⟩
  · rcases find_fails hsettles hfailing fails "any" true with hfound | ⟨error, herror⟩
    · exact (hfound.map Value.bool).ne (by nofun) steps
    · exact (herror.map Value.bool).ne (by nofun) steps
  · rcases find_fails hsettles hfailing fails "all" false with hfound | ⟨error, herror⟩
    · exact (hfound.map fun b => Value.bool !b).ne (by nofun) steps
    · exact (herror.map fun b => Value.bool !b).ne (by nofun) steps

/-- A list that can be filtered, where nothing exceeds the budget. -/
theorem filtered_of_truth {truth : Value → Bool} {items : List Value} {atWhere atAny atAll : Nat}
    (htruth : ∀ item ∈ items,
      Settles (run.applied param body locals depth item) (.ok (.bool (truth item)))) :
    let operand := run.operand (.lambda param body) locals depth
    AboutValues (outcome "where" items operand atWhere) →
    AboutValues (outcome "any" items operand atAny) →
    AboutValues (outcome "all" items operand atAll) →
      outcome "where" items operand atWhere = .ok (.list (items.filter truth)) ∧
        run.Filtered param body locals depth items (items.filter truth)
          (outcome "any" items operand atAny) (outcome "all" items operand atAll) := by
  intro operand hwithin hwithinAny hwithinAll
  obtain ⟨hwhere, hany, hall⟩ := run.outcomes_of_truth param body locals depth htruth
  have hkept := hwhere.eq hwithin
  have hfound := hany.eq hwithinAny
  have halways := hall.eq hwithinAll
  refine ⟨hkept, ⟨truth, fun item hitem => ⟨?_, htruth item hitem⟩, rfl⟩, hfound, halways,
    fun operand steps => ⟨_, outcome_count _ _ _, ?_⟩,
    fun hexact operand steps => ⟨_, _, outcome_count _ _ _, outcome_count _ _ _, ?_⟩⟩
  · have hdecides := run.exists_decides_of_where param body locals depth hkept
    obtain ⟨b, hgives, hsettles⟩ := hdecides item hitem
    obtain ⟨steps, hgiven⟩ := hgives
    have hb := (htruth item hitem).eq (hgiven ▸ errorsIn_ok _)
    rw [hgiven] at hb
    exact ⟨steps, hgiven.trans hb⟩
  · exact (count_greater_zero _).trans hfound.symm
  · have hle : (items.filter truth).length ≤ 2 ^ 53 :=
      Nat.le_trans (List.length_filter_le _ _) hexact
    exact (count_equal_count hle hexact).trans halways.symm

/-- A method that tests items gives a truth value as soon as it can.  Still, if none of the three
methods exceeds the budget, whenever each of them is run: if a list can be filtered by a lambda,
then the other two methods give what the filtered list says; what they say without looking at all
items is so; and if one of them fails, then the list cannot be filtered. -/
theorem tests_agree {items : List Value} {atWhere atAny atAll : Nat} :
    let operand := run.operand (.lambda param body) locals depth
    let filtered := outcome "where" items operand atWhere
    let found := outcome "any" items operand atAny
    let always := outcome "all" items operand atAll
    AboutValues filtered → AboutValues found → AboutValues always →
      (∀ value, filtered = .ok value → ∃ kept, value = .list kept ∧
        run.Filtered param body locals depth items kept found always) ∧
      (found = .ok (.bool false) → filtered = .ok (.list [])) ∧
      (always = .ok (.bool true) → filtered = .ok (.list items)) ∧
      ∀ error, found = .error error ∨ always = .error error →
        ∃ error', filtered = .error error' := by
  intro operand filtered found always hwithin hwithinAny hwithinAll
  by_cases htruth : ∀ item ∈ items, ∃ b,
      Settles (run.applied param body locals depth item) (.ok (.bool b))
  · choose! truth htruth using htruth
    obtain ⟨hkept, hfiltered⟩ :=
      run.filtered_of_truth param body locals depth htruth hwithin hwithinAny hwithinAll
    refine ⟨fun value h => ⟨_, ?_, hfiltered⟩, fun h => ?_, fun h => ?_, fun error h => ?_⟩
    · cases hkept.symm.trans h
      rfl
    · injection hfiltered.found_eq.symm.trans h with hbool
      injection hbool with hnone
      have hempty := Nat.eq_zero_of_not_pos (of_decide_eq_false hnone)
      rw [List.eq_nil_of_length_eq_zero hempty] at hkept
      exact hkept
    · injection hfiltered.always_eq.symm.trans h with hbool
      injection hbool with hlength
      rw [List.filter_sublist.eq_of_length (of_decide_eq_true hlength)] at hkept
      exact hkept
    · rcases h with h | h
      · cases hfiltered.found_eq.symm.trans h
      · cases hfiltered.always_eq.symm.trans h
  · have hcases := fun item => test_cases (run.exists_settles_applied param body locals depth item)
    simp only [not_forall] at htruth
    obtain ⟨failing, hfailing, hnone⟩ := htruth
    have fails := (hcases failing).resolve_left hnone
    obtain ⟨⟨error, hwhere⟩, hnot⟩ :=
      run.outcomes_of_failing param body locals depth hfailing fails
    have hfiltered := hwhere.eq hwithin
    refine ⟨fun value h => ?_, fun h => ?_, fun h => ?_, fun _ _ => ⟨error, hfiltered⟩⟩
    · cases hfiltered.symm.trans h
    · exact absurd h (hnot atAny).1
    · exact absurd h (hnot atAll).2

/-- A lambda on numbers only.  Where the list has another item, a number may be found before it, but
the list cannot be filtered. -/
theorem tests_agree_positive :
    let run : Run := ⟨.empty, ⟨8, 40, 0⟩, fun _ => 0⟩
    let body : Expr := .binary .greater (.ref "x" []) (.literal (.number .zero))
    let positive := run.operand (.lambda "x" body) [] 1
    let numbers : List Value := [.number .zero, .number (.ofNat 2), .number (.ofNat 3)]
    let mixed : List Value := [.number (.ofNat 2), .null]
    (∃ kept, outcome "where" numbers positive 3 = .ok (.list kept) ∧
        run.Filtered "x" body [] 1 numbers kept (outcome "any" numbers positive 20)
          (outcome "all" numbers positive 0)) ∧
      outcome "any" mixed positive 20 = .ok (.bool true) ∧
        ∃ error, outcome "where" mixed positive 3 = .error error := by
  intro run body positive numbers mixed
  have hnumbers : outcome "where" numbers positive 3 =
      .ok (.list [.number (.ofNat 2), .number (.ofNat 3)]) := rfl
  have hfound : outcome "any" numbers positive 20 = .ok (.bool true) := rfl
  have halways : outcome "all" numbers positive 0 = .ok (.bool false) := rfl
  obtain ⟨hvalue, -⟩ := run.tests_agree "x" body [] 1 (hnumbers ▸ errorsIn_ok _)
    (hfound ▸ errorsIn_ok _) (halways ▸ errorsIn_ok _)
  obtain ⟨kept, hkept, hfiltered⟩ := hvalue _ hnumbers
  have hmixed : outcome "any" mixed positive 20 = .ok (.bool true) := rfl
  obtain ⟨error, hfails, hbudget⟩ : ∃ error, outcome "all" mixed positive 0 = .error error ∧
      error.ofBudget = false := ⟨_, rfl, rfl⟩
  obtain ⟨error', hfails', hbudget'⟩ : ∃ error, outcome "where" mixed positive 3 = .error error ∧
      error.ofBudget = false := ⟨_, rfl, rfl⟩
  obtain ⟨-, -, -, hfailure⟩ := run.tests_agree "x" body [] 1 (hfails' ▸ errorsIn_error hbudget')
    (hmixed ▸ errorsIn_ok _) (hfails ▸ errorsIn_error hbudget)
  exact ⟨⟨kept, hkept ▸ hnumbers, hfiltered⟩, hmixed, hfailure error (.inr hfails)⟩

end Run

end CommissionRules
