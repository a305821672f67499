import Mathlib.Data.List.Pairwise
import CommissionRules.Evaluation.Operation

/-!
# The order of values

`Value.sortCompare` orders all values by their types first and then numbers by rank, texts and
booleans: it is a total preorder, in which values of any other type are all alike.  The operators of
the language compare fewer values, and never the other way round.  Equal values are alike in this
order, but for one pair of numbers: the two zeros, which are equal and have ranks of their own.
-/

namespace CommissionRules

namespace Number

variable {a b : Number}

/-- One of the numbers is zero and the other one is negative zero. -/
def OppositeZeros (a b : Number) : Prop := a.isZero ∧ b.isZero ∧ a.signed ≠ b.signed

theorem position_le_of_rank_le (h : a.rank ≤ b.rank) : a.position ≤ b.position := by
  rw [rank, rank] at h
  rw [position, position]
  split at h <;> split at h <;> split <;> omega

theorem isZero_iff : a.isZero = true ↔ a.magnitude.toNat = 0 := by
  rw [isZero, beq_iff_eq, ← UInt64.toNat_inj]
  rfl

theorem position_eq_of_equal (h : a.equal b = true) : a.position = b.position := by
  rw [equal, compare?, beq_iff_eq] at h
  split at h
  · cases h
  · exact Std.compare_eq_iff_eq.mp (Option.some.inj h)

/-- Zeros of different sign share a position, and no other two numbers of different rank do. -/
theorem rank_eq_iff_of_equal (h : a.equal b = true) : a.rank = b.rank ↔ ¬a.OppositeZeros b := by
  have hposition := position_eq_of_equal h
  rw [position, position] at hposition
  rw [rank, rank, OppositeZeros, isZero_iff, isZero_iff]
  cases ha : a.signed <;> cases hb : b.signed <;>
    simp only [ha, hb, reduceIte, Bool.false_eq_true, ne_eq, not_true_eq_false, and_false,
      not_false_eq_true, iff_true, reduceCtorEq, and_true] at hposition ⊢ <;>
    omega

theorem OppositeZeros.symm (h : a.OppositeZeros b) : b.OppositeZeros a :=
  ⟨h.2.1, h.1, h.2.2.symm⟩

theorem position_of_isZero (h : a.isZero = true) : a.position = 0 := by
  rw [position, isZero_iff.mp h]
  split <;> rfl

theorem not_isNaN_of_isZero (h : a.isZero = true) : a.isNaN = false := by
  rw [isNaN, beq_iff_eq.mp h]
  rfl

theorem OppositeZeros.equal (h : a.OppositeZeros b) : a.equal b = true := by
  rw [Number.equal, compare?, not_isNaN_of_isZero h.1, not_isNaN_of_isZero h.2.1,
    position_of_isZero h.1, position_of_isZero h.2.1]
  rfl

theorem OppositeZeros.lt_or_lt (h : a.OppositeZeros b) :
    a.totalCompare b = .lt ∨ b.totalCompare a = .lt := by
  have hrank : a.rank ≠ b.rank := fun heq => (rank_eq_iff_of_equal h.equal).mp heq h
  rw [totalCompare, totalCompare, Std.compare_eq_lt, Std.compare_eq_lt]
  omega

end Number

namespace Value

variable {a b : Value}

/-! ## A total preorder -/

/-- Values of different types are ordered by their types. -/
theorem sortCompare_of_ne (h : a.typeName ≠ b.typeName) :
    a.sortCompare b = compare a.typeName b.typeName := by
  rw [sortCompare.eq_def]
  split <;> first | exact absurd rfl h | rfl

theorem sortCompare_eq_compareLex : sortCompare =
    compareLex (compareOn typeName) (compareLex (compareOn fun v => v.asNumber?.map Number.rank)
      (compareLex (compareOn asText?) (compareOn asBool?))) := by
  funext a b
  simp only [compareLex, compareOn]
  by_cases h : a.typeName = b.typeName
  · rw [h, Std.compare_self, Ordering.eq_then]
    cases a <;> cases b <;> first | (simp [typeName] at h; done) | skip
    all_goals simp [sortCompare, asNumber?, asText?, asBool?, Number.totalCompare, typeName]
    all_goals rfl
  · have hne : compare a.typeName b.typeName ≠ .eq := fun heq => h (Std.compare_eq_iff_eq.mp heq)
    rw [sortCompare_of_ne h]
    cases hcompare : compare a.typeName b.typeName with
    | eq => exact absurd hcompare hne
    | lt => rfl
    | gt => rfl

instance : Std.TransCmp sortCompare := by
  rw [sortCompare_eq_compareLex]
  infer_instance

/-! ## Equality -/

/-- The values are numbers that are equal without being alike in the order. -/
def OppositeZeros : Value → Value → Prop
  | number a, number b => a.OppositeZeros b
  | _, _ => False

theorem sortCompare_eq_iff_of_equal (h : a.equal b = true) :
    a.sortCompare b = .eq ↔ ¬a.OppositeZeros b := by
  cases a with
  | null =>
    cases b with
    | null => exact iff_of_true rfl not_false
    | _ => cases h
  | bool x =>
    cases b with
    | bool y =>
      obtain rfl : x = y := beq_iff_eq.mp h
      exact iff_of_true Std.compare_self not_false
    | _ => cases h
  | number m =>
    cases b with
    | number n => exact Std.compare_eq_iff_eq.trans (Number.rank_eq_iff_of_equal h)
    | _ => cases h
  | str s =>
    cases b with
    | str t =>
      obtain rfl : s = t := beq_iff_eq.mp h
      exact iff_of_true Std.compare_self not_false
    | _ => cases h
  | list items =>
    cases b with
    | list items' => exact iff_of_true (by simp [sortCompare, typeName]) not_false
    | _ => cases h
  | record fields =>
    cases b with
    | record fields' => exact iff_of_true (by simp [sortCompare, typeName]) not_false
    | _ => cases h

theorem OppositeZeros.symm (h : a.OppositeZeros b) : b.OppositeZeros a := by
  cases a <;> cases b <;> first | exact h.elim | exact Number.OppositeZeros.symm h

theorem OppositeZeros.equal (h : a.OppositeZeros b) : a.equal b = true := by
  cases a <;> cases b <;> first | exact h.elim | exact Number.OppositeZeros.equal h

theorem OppositeZeros.lt_or_lt (h : a.OppositeZeros b) :
    a.sortCompare b = .lt ∨ b.sortCompare a = .lt := by
  cases a <;> cases b <;> first | exact h.elim | exact Number.OppositeZeros.lt_or_lt h

/-! ## Operators -/

/-- Two numbers, or two texts. -/
inductive Comparable : Value → Value → Prop
  | numbers (m n : Number) : Comparable (number m) (number n)
  | texts (s t : String) : Comparable (str s) (str t)

theorem Comparable.symm (h : a.Comparable b) : b.Comparable a := by
  cases h with
  | numbers m n => exact .numbers n m
  | texts s t => exact .texts t s

theorem isGT_eq_false {ordering : Ordering} (h : ordering.isLE) : ordering.isGT = false := by
  rw [← Ordering.not_isLE_eq_isGT, h]
  rfl

theorem compare_position_isGT {m n : Number} (h : ((number m).sortCompare (number n)).isLE) :
    (compare m.position n.position).isGT = false :=
  isGT_eq_false (Int.isLE_compare.mpr (Number.position_le_of_rank_le (Int.isLE_compare.mp h)))

theorem greater_eq_false (hcomparable : a.Comparable b) (h : (a.sortCompare b).isLE) :
    BinaryOp.greater.evaluate a b = .ok (.bool false) := by
  cases hcomparable with
  | numbers m n =>
    show Except.ok (bool (((m.compare? n).map Ordering.isGT).getD false)) = _
    rw [Number.compare?]
    split
    · rfl
    · rw [Option.map_some, Option.getD_some, compare_position_isGT h]
  | texts s t =>
    have hcompare : (compare s t).isGT = false := isGT_eq_false h
    show Except.ok (bool (compare s t).isGT) = _
    rw [hcompare]

theorem less_eq_false (hcomparable : a.Comparable b) (h : (a.sortCompare b).isLE) :
    BinaryOp.less.evaluate b a = .ok (.bool false) := by
  cases hcomparable with
  | numbers m n =>
    show Except.ok (bool (((n.compare? m).map Ordering.isLT).getD false)) = _
    rw [Number.compare?]
    split
    · rfl
    · rw [Option.map_some, Option.getD_some, ← Std.OrientedCmp.isGT_eq_isLT,
        compare_position_isGT h]
  | texts s t =>
    have hcompare : (compare s t).isGT = false := isGT_eq_false h
    show Except.ok (bool (compare t s).isLT) = _
    rw [← Std.OrientedCmp.isGT_eq_isLT, hcompare]

end Value

end CommissionRules
