import CommissionRules.Number

/-!
# Rounding to a number

`Number.ofRatio` gives the binary64 datum nearest to a ratio of natural numbers, ties to even, in
exact integer arithmetic.  Every conversion of a count, an integer or a decimal text to a number
goes through it.
-/

namespace CommissionRules.Number

/-- `num / den` rounded to the nearest natural number, a half to the even neighbour. -/
def roundHalfEven (num den : Nat) : Nat :=
  let q := num / den
  let r := num % den
  if 2 * r > den || (2 * r == den && q % 2 == 1) then q + 1 else q

/-- `num / den * 2 ^ (-e)` as a ratio. -/
def scaleDown (num den : Nat) (e : Int) : Nat × Nat :=
  if 0 ≤ e then (num, den * Nat.pow 2 e.toNat) else (num * Nat.pow 2 (-e).toNat, den)

/-- The exponent of the last place of the number nearest to `num / den`: the quotient has 53 bits
there, or the exponent is the least one. -/
def lastPlace (num den : Nat) : Int :=
  let e : Int := (num.log2 : Int) - den.log2 - 52
  let (n, d) := scaleDown num den e
  max (-1074) (if n / d < 0x10000000000000 then e - 1 else e)

/-- The number nearest to `num / den`, ties to even, with the given sign.  A quotient of 53 bits
at exponent `e` has the bit pattern `(e + 1074) * 2 ^ 52 + quotient`, and so has a subnormal one
at the least exponent; carries go where they belong. -/
def ofRatio (negative : Bool) (num den : Nat) : Number :=
  if num = 0 then withSign negative 0
  else
    let e := lastPlace num den
    let (n, d) := scaleDown num den e
    let pattern := (e + 1074).toNat * 0x10000000000000 + roundHalfEven n d
    withSign negative (min pattern 0x7ff0000000000000).toUInt64

def ofNat (n : Nat) : Number := ofRatio false n 1

def ofInt (n : Int) : Number := ofRatio (n < 0) n.natAbs 1

/-- The number nearest to `digits * 10 ^ e`.  Far outside the range of the numbers the answer is
infinity or zero without computing the power. -/
def ofDecimal (negative : Bool) (digits : Nat) (e : Int) : Number :=
  let places : Int := (Nat.toDigits 10 digits).length
  if digits = 0 then withSign negative 0
  else if places + e > 310 then withSign negative infinity.bits
  else if places + e < -330 then withSign negative 0
  else if 0 ≤ e then ofRatio negative (digits * Nat.pow 10 e.toNat) 1
  else ofRatio negative digits (Nat.pow 10 (-e).toNat)

/-! ## Rounding to an integer -/

/-- Drops the fractional part of a finite number, then moves the magnitude up by one where `up`
says so of the sign, the fractional part and its denominator.  The sign stays, also on zero. -/
def roundWith (up : Bool → Nat → Nat → Bool) (a : Number) : Number :=
  if !a.isFinite || 0 ≤ a.exponent then a
  else
    let r := a.significand % a.ulps
    let q := a.significand / a.ulps
    ofRatio a.signed (if up a.signed r a.ulps then q + 1 else q) 1

def floor (a : Number) : Number := roundWith (fun negative r _ => negative && r != 0) a

def ceil (a : Number) : Number := roundWith (fun negative r _ => !negative && r != 0) a

/-- Rounds to the nearest integer, a half away from zero. -/
def round (a : Number) : Number := roundWith (fun _ r den => den ≤ 2 * r) a

end CommissionRules.Number
