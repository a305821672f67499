import CommissionRules.Proofs.Evaluation.Outcome

/-!
# Items of collections

What the collection methods do with the items that they get: the items that they give are among
them, and they apply a lambda to nothing else (`apply_congr`).
-/

namespace CommissionRules

namespace Eval

variable {α β : Type}

theorem all_congr {f g : α → Eval β} {items : List α} (h : ∀ item ∈ items, f item = g item) :
    all f items = all g items := by
  induction items with
  | nil => rfl
  | cons item rest ih =>
    have hrest := ih fun other hother => h other (List.mem_cons_of_mem _ hother)
    rw [all, all, h item List.mem_cons_self, hrest]

theorem all_returns {holds : β → Prop} {f : α → Eval β} {items : List α}
    (h : ∀ item ∈ items, Returns holds (f item)) :
    Returns (fun results => ∀ result ∈ results, holds result) (all f items) := by
  induction items with
  | nil => exact returns_pure nofun
  | cons item rest ih =>
    have hrest := ih fun other hother => h other (List.mem_cons_of_mem _ hother)
    refine returns_bind (h item List.mem_cons_self) fun result hresult => ?_
    exact returns_bind hrest fun results hresults =>
      returns_pure (List.forall_mem_cons.mpr ⟨hresult, hresults⟩)

theorem length_of_all_run {f : α → Eval β} {items : List α} {results : List β}
    {steps steps' : Nat} (h : (all f items).run.run steps = (.ok results, steps')) :
    results.length = items.length := by
  induction items generalizing steps results with
  | nil =>
    cases h
    rfl
  | cons item rest ih =>
    obtain ⟨result, middle, -, hrest⟩ := exists_of_run_bind_eq_ok h
    obtain ⟨others, last, hothers, hpure⟩ := exists_of_run_bind_eq_ok hrest
    cases hpure
    rw [List.length_cons, List.length_cons, ih hothers]

end Eval

namespace Collection

open Eval

variable {method : String} {operand : Operand} {items : List Value}

/-! ## The items that are given -/

theorem keep_returns :
    Returns (fun kept => ∀ item ∈ kept, item ∈ items) (keep method operand items) := by
  induction items with
  | nil => exact returns_pure nofun
  | cons item rest ih =>
    refine returns_bind (returns_true _) fun kept _ => returns_bind ih fun others hothers => ?_
    have hrest : ∀ other ∈ others, other ∈ item :: rest := fun other hother =>
      List.mem_cons_of_mem _ (hothers other hother)
    refine returns_pure ?_
    split
    · exact List.forall_mem_cons.mpr ⟨List.mem_cons_self, hrest⟩
    · exact hrest

theorem pick_returns {item : Option Value} :
    Returns (fun value => item = some value) (pick method item) := by
  cases item with
  | some value => exact returns_pure rfl
  | none => exact returns_throw _

theorem keyed_returns :
    Returns (fun pairs => ∀ pair ∈ pairs, pair.2 ∈ items) (keyed method operand items) :=
  all_returns fun _ hitem => returns_bind (returns_true _) fun _ _ => returns_pure hitem

/-- Where the lambda gives a key for every item, the keys are paired with the items. -/
theorem keyed_run {apply : Value → Eval Value} {keys : List Value} {steps steps' : Nat}
    (h : (Eval.all apply items).run.run steps = (.ok keys, steps')) :
    (keyed method (.lambda apply) items).run.run steps = (.ok (keys.zip items), steps') := by
  induction items generalizing steps keys with
  | nil =>
    cases h
    rfl
  | cons item rest ih =>
    obtain ⟨key, middle, hkey, hrest⟩ := exists_of_run_bind_eq_ok h
    obtain ⟨others, last, hothers, hpure⟩ := exists_of_run_bind_eq_ok hrest
    cases hpure
    have hpair : (do
        let key ← applyTo method (.lambda apply) item
        pure (key, item) : Eval (Value × Value)).run.run steps = (.ok (key, item), middle) :=
      run_bind_of_ok hkey
    rw [keyed, Eval.all, run_bind_of_ok hpair]
    exact run_bind_of_ok (ih hothers)

theorem mem_of_mem_sorted {descending : Bool} {pairs : List (Value × Value)} {item : Value}
    (h : item ∈ sorted descending pairs) : ∃ pair ∈ pairs, pair.2 = item := by
  obtain ⟨pair, hpair, rfl⟩ := List.mem_map.mp h
  exact ⟨pair, List.mem_mergeSort.mp hpair, rfl⟩

theorem mem_of_mem_distinctAfter {kept : List Value} {item : Value}
    (h : item ∈ distinctAfter kept items) : item ∈ kept ∨ item ∈ items := by
  induction items generalizing kept with
  | nil => exact .inl (List.mem_reverse.mp h)
  | cons other rest ih =>
    rw [distinctAfter] at h
    split at h
    · exact (ih h).imp_right (List.mem_cons_of_mem _)
    · rcases ih h with hkept | hrest
      · rcases List.mem_cons.mp hkept with rfl | hkept
        · exact .inr List.mem_cons_self
        · exact .inl hkept
      · exact .inr (List.mem_cons_of_mem _ hrest)

theorem mem_of_mem_distinct {item : Value} (h : item ∈ distinct items) : item ∈ items :=
  (mem_of_mem_distinctAfter h).resolve_left nofun

/-! ## The items that a lambda is applied to -/

section Congruence

variable {f g : Value → Eval Value} (agree : ∀ item ∈ items, f item = g item)

include agree

theorem test_congr {item : Value} (hitem : item ∈ items) :
    test method (.lambda f) item = test method (.lambda g) item := by
  rw [test, test, applyTo, applyTo, agree item hitem]

theorem project_congr {item : Value} (hitem : item ∈ items) :
    project method (.lambda f) item = project method (.lambda g) item := by
  rw [project, project, applyTo, applyTo, agree item hitem]

theorem keep_congr : keep method (.lambda f) items = keep method (.lambda g) items := by
  induction items with
  | nil => rfl
  | cons item rest ih =>
    have hrest := ih fun other hother => agree other (List.mem_cons_of_mem _ hother)
    rw [keep, keep, test_congr agree List.mem_cons_self, hrest]

theorem find_congr (wanted : Bool) :
    find method (.lambda f) wanted items = find method (.lambda g) wanted items := by
  induction items with
  | nil => rfl
  | cons item rest ih =>
    have hrest := ih fun other hother => agree other (List.mem_cons_of_mem _ hother)
    rw [find, find, test_congr agree List.mem_cons_self, hrest]

theorem keyed_congr : keyed method (.lambda f) items = keyed method (.lambda g) items :=
  all_congr fun item hitem => by rw [applyTo, applyTo, agree item hitem]

theorem numbers_congr :
    Eval.all (project method (.lambda f)) items =
      Eval.all (project method (.lambda g)) items :=
  all_congr fun _ hitem => project_congr agree hitem

/-- A method applies its lambda to items of the collection only. -/
theorem apply_congr (method : String) :
    apply method items (.lambda f) = apply method items (.lambda g) := by
  unfold apply
  split
  · rw [keep_congr agree]
  · rw [numbers_congr agree]
  · rw [numbers_congr agree]
  · rw [numbers_congr agree]
  · rw [numbers_congr agree]
  · rfl
  · rw [find_congr agree]
  · rw [find_congr agree]
  · rfl
  · rfl
  · rw [keyed_congr agree]
  · rw [keyed_congr agree]
  · rw [keyed_congr agree]
  · rfl
  · rfl
  · rfl
  · rfl

end Congruence

end Collection

end CommissionRules
