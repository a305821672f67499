/-!
# Numbers

A number is an IEEE binary64 datum, kept as its 64 bits: a sign, eleven exponent bits and
fifty-two fraction bits.  Keeping the bits makes every datum a value of its own, so that signed
zeros and the signs and payloads of NaNs are told apart where they matter (the total order, the
binary form) and identified where they are not (equality).

Everything here is defined on the bits or on the exact value `significand * 2 ^ exponent`.  Only
the rounded operations of `Number.Arithmetic` use the machine's arithmetic.
-/

namespace CommissionRules

structure Number where
  bits : UInt64
deriving DecidableEq, Inhabited

namespace Number

def zero : Number := ⟨0⟩

def infinity : Number := ⟨0x7ff0000000000000⟩

/-- The quiet NaN with the sign bit clear and an empty payload. -/
def nan : Number := ⟨0x7ff8000000000000⟩

/-- The sign bit; it is set on `-0`, on the negative numbers and on half of the NaNs. -/
def signed (a : Number) : Bool := 0x8000000000000000 ≤ a.bits

/-- All bits but the sign. -/
def magnitude (a : Number) : UInt64 := a.bits &&& 0x7fffffffffffffff

def isNaN (a : Number) : Bool := 0x7ff0000000000000 < a.magnitude

def isFinite (a : Number) : Bool := a.magnitude < 0x7ff0000000000000

/-- Holds of both zeros. -/
def isZero (a : Number) : Bool := a.magnitude == 0

def withSign (negative : Bool) (magnitude : UInt64) : Number :=
  ⟨if negative then magnitude ||| 0x8000000000000000 else magnitude⟩

/-- Changes the sign bit, also of zeros and NaNs. -/
def neg (a : Number) : Number := ⟨a.bits ^^^ 0x8000000000000000⟩

def abs (a : Number) : Number := ⟨a.magnitude⟩

/-! ## The exact value of a finite number -/

/-- The integer part of `value = significand * 2 ^ exponent`. -/
def significand (a : Number) : Nat :=
  let fraction := a.magnitude.toNat % 0x10000000000000
  if a.magnitude < 0x10000000000000 then fraction else fraction + 0x10000000000000

/-- The power of two in `value = significand * 2 ^ exponent`. -/
def exponent (a : Number) : Int :=
  if a.magnitude < 0x10000000000000 then -1074
  else (a.magnitude.toNat / 0x10000000000000 : Nat) - 1075

/-- The denominator of the fractional part: `significand / ulps` is the number's magnitude when
the exponent is negative. -/
def ulps (a : Number) : Nat := Nat.pow 2 (-a.exponent).toNat

/-- Holds when the number is finite and has no fractional part. -/
def isWhole (a : Number) : Bool :=
  a.isFinite && a.significand % a.ulps == 0

/-- The integer nearest to zero next to the magnitude of a finite number. -/
def floorMagnitude (a : Number) : Nat :=
  a.significand * Nat.pow 2 a.exponent.toNat / a.ulps

/-- The value of a finite number without its fractional part. -/
def truncate (a : Number) : Int :=
  if a.signed then -(a.floorMagnitude : Int) else a.floorMagnitude

/-- The integer part as a signed 64-bit word: out of range it is the nearest word, and NaN is
zero. -/
def toInt64 (a : Number) : Int :=
  if a.isNaN then 0
  else if a.isFinite then max (-0x8000000000000000) (min 0x7fffffffffffffff a.truncate)
  else if a.signed then -0x8000000000000000
  else 0x7fffffffffffffff

/-- The integer part as an unsigned 64-bit word: out of range it is the nearest word, and NaN is
zero. -/
def toUInt64 (a : Number) : Nat :=
  if a.isNaN || a.signed then 0
  else if a.isFinite then min 0xffffffffffffffff a.floorMagnitude
  else 0xffffffffffffffff

/-! ## Order -/

/-- The place of a number among the others when the two zeros share one. -/
def position (a : Number) : Int :=
  if a.signed then -(a.magnitude.toNat : Int) else a.magnitude.toNat

/-- The place of a number in the total order of all data: by sign, then by magnitude, so that
`-0` lies before `0` and the NaNs lie at both ends. -/
def rank (a : Number) : Int :=
  if a.signed then -(a.magnitude.toNat : Int) - 1 else a.magnitude.toNat

def totalCompare (a b : Number) : Ordering := compare a.rank b.rank

/-- The order of the values: NaN is unordered, and the two zeros are equal. -/
def compare? (a b : Number) : Option Ordering :=
  if a.isNaN || b.isNaN then none else some (compare a.position b.position)

/-- Equality of values: NaN differs from everything, and the two zeros are equal. -/
def equal (a b : Number) : Bool := compare? a b == some .eq

def lt (a b : Number) : Bool := compare? a b == some .lt

/-- The bits that stand for all numbers of equal value: both zeros share a pattern, and so do all
NaNs. -/
def canonicalBits (a : Number) : UInt64 :=
  if a.isZero then 0 else if a.isNaN then nan.bits else a.bits

end Number

end CommissionRules
