import Mathlib.Algebra.Group.Nat.Defs
import CommissionRules.Proofs.Ordering

/-!
# The equality of values

`Value.equal` compares two values part by part.  Two numbers are equal if neither is a NaN and their
canonical bits are the same, so that the canonical form of a value, with the canonical bits for each
number in it, decides the rest: two values are equal if no NaN is inside and their canonical forms
are the same (`Value.equal_iff`).  Hence equality is symmetric and transitive, and what it is not
reflexive on are the values with a NaN inside: `Value.equal_self_iff`.
-/

namespace CommissionRules

namespace Number

variable {a b : Number}

/-- The number with the bits that stand for all numbers of equal value. -/
def canonical (a : Number) : Number := ⟨a.canonicalBits⟩

theorem magnitude_toNat (a : Number) : a.magnitude.toNat = a.bits.toNat % 2 ^ 63 := by
  rw [magnitude, UInt64.toNat_and]
  exact Nat.and_two_pow_sub_one_eq_mod _ 63

theorem bits_toNat (a : Number) :
    a.bits.toNat = a.magnitude.toNat + if a.signed then 2 ^ 63 else 0 := by
  have hlt := a.bits.toNat_lt
  have hsigned : (a.signed = true) ↔ 2 ^ 63 ≤ a.bits.toNat := by
    rw [signed, decide_eq_true_iff, UInt64.le_iff_toNat_le]
    rfl
  rw [magnitude_toNat]
  split
  · next h =>
    have := hsigned.mp h
    omega
  · next h =>
    have := mt hsigned.mpr h
    omega

theorem not_isNaN_iff : a.isNaN = false ↔ a.magnitude.toNat ≤ 0x7ff0000000000000 := by
  rw [isNaN, decide_eq_false_iff_not, UInt64.lt_iff_toNat_lt, Nat.not_lt]
  rfl

theorem equal_iff_position :
    a.equal b = true ↔ a.isNaN = false ∧ b.isNaN = false ∧ a.position = b.position := by
  rw [equal, compare?]
  cases a.isNaN <;> cases b.isNaN <;> simp

/-- Numbers of the same sign and magnitude have the same bits. -/
theorem eq_of_magnitude (hsigned : a.signed = b.signed)
    (h : a.magnitude.toNat = b.magnitude.toNat) : a = b := by
  have hbits : a.bits.toNat = b.bits.toNat := by
    rw [a.bits_toNat, b.bits_toNat, hsigned, h]
  obtain ⟨x⟩ := a
  obtain ⟨y⟩ := b
  exact congrArg Number.mk (UInt64.toNat_inj.mp hbits)

theorem magnitude_eq_of_position_eq (h : a.position = b.position) :
    a.magnitude.toNat = b.magnitude.toNat ∧
      (a.signed = b.signed ∨ a.magnitude.toNat = 0) := by
  rw [position, position] at h
  cases ha : a.signed <;> cases hb : b.signed <;>
    simp only [ha, hb, reduceIte, Bool.false_eq_true] at h <;> simp <;> omega

theorem canonical_of_isZero (h : a.isZero = true) : a.canonical = zero := by
  rw [canonical, canonicalBits, if_pos h]
  rfl

theorem canonical_of_isNaN (h : a.isNaN = true) : a.canonical = nan := by
  have hzero : a.isZero = false := by
    refine Bool.eq_false_iff.mpr fun hzero => ?_
    rw [not_isNaN_of_isZero hzero] at h
    cases h
  rw [canonical, canonicalBits, if_neg (Bool.eq_false_iff.mp hzero), if_pos h]

theorem canonical_of_not (hzero : a.isZero = false) (hnan : a.isNaN = false) : a.canonical = a := by
  rw [canonical, canonicalBits, if_neg (Bool.eq_false_iff.mp hzero),
    if_neg (Bool.eq_false_iff.mp hnan)]

theorem canonical_canonical (a : Number) : a.canonical.canonical = a.canonical := by
  cases hzero : a.isZero with
  | true =>
    rw [canonical_of_isZero hzero]
    rfl
  | false =>
    cases hnan : a.isNaN with
    | true =>
      rw [canonical_of_isNaN hnan]
      rfl
    | false => rw [canonical_of_not hzero hnan, canonical_of_not hzero hnan]

theorem isNaN_canonical (a : Number) : a.canonical.isNaN = a.isNaN := by
  cases hnan : a.isNaN with
  | true =>
    rw [canonical_of_isNaN hnan]
    rfl
  | false =>
    cases hzero : a.isZero with
    | true =>
      rw [canonical_of_isZero hzero]
      rfl
    | false => rw [canonical_of_not hzero hnan, hnan]

theorem position_canonical (h : a.isNaN = false) : a.canonical.position = a.position := by
  cases hzero : a.isZero with
  | true =>
    rw [canonical_of_isZero hzero, position_of_isZero hzero]
    rfl
  | false => rw [canonical_of_not hzero h]

theorem canonical_eq_of_position_eq (h : a.position = b.position) : a.canonical = b.canonical := by
  obtain ⟨hmagnitude, hsigned⟩ := magnitude_eq_of_position_eq h
  rcases hsigned with hsigned | hzero
  · rw [eq_of_magnitude hsigned hmagnitude]
  · rw [canonical_of_isZero (isZero_iff.mpr hzero),
      canonical_of_isZero (isZero_iff.mpr (hmagnitude ▸ hzero))]

/-- Numbers are equal just if they are no NaNs and have the same canonical bits. -/
theorem equal_iff : a.equal b = true ↔ a.isNaN = false ∧ a.canonical = b.canonical := by
  rw [equal_iff_position]
  constructor
  · intro h
    exact ⟨h.1, canonical_eq_of_position_eq h.2.2⟩
  · intro h
    have hb : b.isNaN = false := by rw [← isNaN_canonical, ← h.2, isNaN_canonical, h.1]
    exact ⟨h.1, hb, by rw [← position_canonical h.1, h.2, position_canonical hb]⟩

end Number

namespace Value

mutual

/-- Holds if one of the numbers inside the value is a NaN. -/
def holdsNaN : Value → Bool
  | number n => n.isNaN
  | list items => itemsHoldNaN items
  | record fields => fieldsHoldNaN fields
  | _ => false

def itemsHoldNaN : List Value → Bool
  | [] => false
  | v :: rest => holdsNaN v || itemsHoldNaN rest

def fieldsHoldNaN : List (String × Value) → Bool
  | [] => false
  | (_, v) :: rest => holdsNaN v || fieldsHoldNaN rest

end

mutual

/-- The value with each number inside in its canonical form. -/
def canonical : Value → Value
  | number n => number n.canonical
  | list items => list (canonicalItems items)
  | record fields => record (canonicalFields fields)
  | v => v

def canonicalItems : List Value → List Value
  | [] => []
  | v :: rest => canonical v :: canonicalItems rest

def canonicalFields : List (String × Value) → List (String × Value)
  | [] => []
  | (k, v) :: rest => (k, canonical v) :: canonicalFields rest

end

theorem length_canonicalItems (items : List Value) :
    (canonicalItems items).length = items.length := by
  induction items with
  | nil => rfl
  | cons v rest ih => rw [canonicalItems, List.length_cons, List.length_cons, ih]

mutual

theorem holdsNaN_canonical : (v : Value) → v.canonical.holdsNaN = v.holdsNaN
  | null => rfl
  | bool _ => rfl
  | number n => n.isNaN_canonical
  | str _ => rfl
  | list items => by rw [canonical, holdsNaN, holdsNaN, itemsHoldNaN_canonical items]
  | record fields => by rw [canonical, holdsNaN, holdsNaN, fieldsHoldNaN_canonical fields]

theorem itemsHoldNaN_canonical : (items : List Value) →
    itemsHoldNaN (canonicalItems items) = itemsHoldNaN items
  | [] => rfl
  | v :: rest => by
    rw [canonicalItems, itemsHoldNaN, itemsHoldNaN, holdsNaN_canonical v,
      itemsHoldNaN_canonical rest]

theorem fieldsHoldNaN_canonical : (fields : List (String × Value)) →
    fieldsHoldNaN (canonicalFields fields) = fieldsHoldNaN fields
  | [] => rfl
  | (k, v) :: rest => by
    rw [canonicalFields, fieldsHoldNaN, fieldsHoldNaN, holdsNaN_canonical v,
      fieldsHoldNaN_canonical rest]

end

mutual

/-- Values are equal just if no NaN is inside and their canonical forms are the same.  The cases are
those of the value on the left, a list and a record part by part. -/
theorem equal_iff : (a b : Value) →
    (a.equal b = true ↔ a.holdsNaN = false ∧ a.canonical = b.canonical)
  | null, b => by cases b <;> simp [equal, holdsNaN, canonical]
  | bool x, b => by cases b <;> simp [equal, holdsNaN, canonical]
  | number m, b => by cases b <;> simp [equal, holdsNaN, canonical, Number.equal_iff]
  | str s, b => by cases b <;> simp [equal, holdsNaN, canonical]
  | list as, b => by
    cases b with
    | list bs =>
      rw [equal, holdsNaN, canonical, canonical, list.injEq]
      exact equalItems_iff as bs
    | _ => simp [equal, holdsNaN, canonical]
  | record as, b => by
    cases b with
    | record bs =>
      rw [equal, holdsNaN, canonical, canonical, record.injEq]
      exact equalFields_iff as bs
    | _ => simp [equal, holdsNaN, canonical]

theorem equalItems_iff : (as bs : List Value) →
    (equalItems as bs = true ↔ itemsHoldNaN as = false ∧ canonicalItems as = canonicalItems bs)
  | [], bs => by cases bs <;> simp [equalItems, itemsHoldNaN, canonicalItems]
  | a :: as, [] => by simp [equalItems, canonicalItems]
  | a :: as, b :: bs => by
    rw [equalItems, itemsHoldNaN, canonicalItems, canonicalItems, Bool.and_eq_true,
      Bool.or_eq_false_iff, List.cons.injEq, equal_iff a b, equalItems_iff as bs]
    exact and_and_and_comm

theorem equalFields_iff : (as bs : List (String × Value)) →
    (equalFields as bs = true ↔
      fieldsHoldNaN as = false ∧ canonicalFields as = canonicalFields bs)
  | [], bs => by cases bs <;> simp [equalFields, fieldsHoldNaN, canonicalFields]
  | (k, a) :: as, [] => by simp [equalFields, canonicalFields]
  | (k, a) :: as, (l, b) :: bs => by
    rw [equalFields, fieldsHoldNaN, canonicalFields, canonicalFields, Bool.and_eq_true,
      Bool.and_eq_true, Bool.or_eq_false_iff, List.cons.injEq, Prod.mk.injEq, equal_iff a b,
      equalFields_iff as bs, beq_iff_eq]
    constructor
    · rintro ⟨⟨hkey, hnan, hvalue⟩, hnans, hrest⟩
      exact ⟨⟨hnan, hnans⟩, ⟨hkey, hvalue⟩, hrest⟩
    · rintro ⟨⟨hnan, hnans⟩, ⟨hkey, hvalue⟩, hrest⟩
      exact ⟨⟨hkey, hnan, hvalue⟩, hnans, hrest⟩

end

variable {a b c : Value}

theorem equal_self_iff : a.equal a = true ↔ a.holdsNaN = false := by
  rw [equal_iff]
  exact and_iff_left rfl

theorem equal_symm (h : a.equal b = true) : b.equal a = true := by
  obtain ⟨hnan, hcanonical⟩ := (equal_iff a b).mp h
  have hnan' : b.holdsNaN = false := by
    rw [← holdsNaN_canonical, ← hcanonical, holdsNaN_canonical, hnan]
  exact (equal_iff b a).mpr ⟨hnan', hcanonical.symm⟩

theorem equal_comm (a b : Value) : a.equal b = b.equal a :=
  Bool.eq_iff_iff.mpr ⟨equal_symm, equal_symm⟩

theorem equal_trans (h : a.equal b = true) (h' : b.equal c = true) : a.equal c = true := by
  obtain ⟨hnan, hcanonical⟩ := (equal_iff a b).mp h
  obtain ⟨-, hcanonical'⟩ := (equal_iff b c).mp h'
  exact (equal_iff a c).mpr ⟨hnan, hcanonical.trans hcanonical'⟩

/-- What is equal to something is equal to itself. -/
theorem equal_self_of_equal (h : a.equal b = true) : a.equal a = true :=
  equal_trans h (equal_symm h)

end Value

end CommissionRules
