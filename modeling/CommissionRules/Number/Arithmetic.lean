import CommissionRules.Number.Rounding

/-!
# Arithmetic

The rounded operations.  A NaN operand is passed on with its payload, made quiet; an operation
without a value on numbers (such as infinity minus infinity) gives the NaN `invalid`, whose sign
bit is set.  The remainder is exact.
-/

namespace CommissionRules.Number

/-- The NaN of an operation that has no value. -/
def invalid : Number := ⟨0xfff8000000000000⟩

/-- A NaN with its quiet bit set. -/
def quiet (a : Number) : Number := ⟨a.bits ||| 0x8000000000000⟩

def toFloat (a : Number) : Float := Float.ofBits a.bits

/-- The result of a machine operation on operands that are not NaN. -/
def ofFloat (x : Float) : Number := if x.isNaN then invalid else ⟨x.toBits⟩

/-- A machine operation with the rule for NaN operands: the first one is passed on. -/
def binary (op : Float → Float → Float) (a b : Number) : Number :=
  if a.isNaN then a.quiet
  else if b.isNaN then b.quiet
  else ofFloat (op a.toFloat b.toFloat)

def add (a b : Number) : Number := binary (· + ·) a b

def sub (a b : Number) : Number := binary (· - ·) a b

def mul (a b : Number) : Number := binary (· * ·) a b

def div (a b : Number) : Number := binary (· / ·) a b

/-- The square root; a NaN is passed on. -/
def sqrt (a : Number) : Number :=
  if a.isNaN then a.quiet else ofFloat a.toFloat.sqrt

/-- The power.  One to any power and anything to the power zero are one, also for NaN. -/
def pow (a b : Number) : Number :=
  let result := Float.pow a.toFloat b.toFloat
  if result.isNaN then
    if a.isNaN then a.quiet else if b.isNaN then b.quiet else invalid
  else ⟨result.toBits⟩

/-- The remainder of the division that truncates, exactly; it has the sign of the dividend. -/
def rem (a b : Number) : Number :=
  if a.isNaN then a.quiet
  else if b.isNaN then b.quiet
  else if !a.isFinite || b.isZero then invalid
  else if !b.isFinite then a
  else
    let e := min a.exponent b.exponent
    let m := a.significand * Nat.pow 2 (a.exponent - e).toNat
    let n := b.significand * Nat.pow 2 (b.exponent - e).toNat
    let (num, den) := scaleDown (m % n) 1 (-e)
    ofRatio a.signed num den

/-- The smaller of two numbers; of a NaN and a number it is the number, and of two equal ones the
first. -/
def least (a b : Number) : Number := if a.isNaN || lt b a then b else a

/-- The larger of two numbers; of a NaN and a number it is the number, and of two equal ones the
first. -/
def greatest (a b : Number) : Number := if a.isNaN || lt a b then b else a

end CommissionRules.Number
