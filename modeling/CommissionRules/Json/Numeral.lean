import CommissionRules.Json
import CommissionRules.Number.Arithmetic

/-!
# JSON numerals

The grammar of JSON numbers and the number that each stands for.  A numeral without a fraction
and an exponent whose value fits into 64 bits is an integer.  Of any other numeral the leading
digits that fit into 64 bits are read, rounded, and scaled by one rounded multiplication or
division by a power of ten; so a numeral of few digits is rounded correctly, and one of many
digits may be off by a unit in the last place.
-/

namespace CommissionRules.Json

structure Numeral where
  negative : Bool
  whole : List Char
  fraction : List Char
  /-- The sign and the digits of the exponent. -/
  exponent : Option (Bool × List Char)
  integral : Bool

namespace Numeral

/-- The run of digits at the start of a text, and what follows it. -/
def digits (cs : List Char) : List Char × List Char :=
  (cs.takeWhile Char.isDigit, cs.dropWhile Char.isDigit)

def scan? (cs : List Char) : Option (Numeral × List Char) := do
  let (negative, cs) := match cs with
    | '-' :: rest => (true, rest)
    | _ => (false, cs)
  let (whole, cs) := digits cs
  if whole.isEmpty || (whole.head? == some '0' && whole.length > 1) then none
  let (point, fraction, cs) := match cs with
    | '.' :: rest => (true, digits rest)
    | _ => (false, [], cs)
  if point && fraction.isEmpty then none
  let (exponent, cs) ← match cs with
    | c :: rest =>
        if c == 'e' || c == 'E' then
          let (negative, rest) := match rest with
            | '-' :: rest => (true, rest)
            | '+' :: rest => (false, rest)
            | _ => (false, rest)
          let (ds, rest) := digits rest
          if ds.isEmpty then none else some (some (negative, ds), rest)
        else some (none, cs)
    | [] => some (none, cs)
  return ({ negative, whole, fraction, exponent, integral := !point && exponent.isNone }, cs)

/-- Appends digits to a significand until it would leave 64 bits; the digits from there on are
left. -/
def fill (significand : Nat) : List Char → Nat × List Char
  | [] => (significand, [])
  | c :: rest =>
      let next := significand * 10 + (c.toNat - '0'.toNat)
      if next < 0x10000000000000000 then fill next rest else (significand, c :: rest)

def powerOfTen (n : Nat) : Number := .ofRatio false (Nat.pow 10 n) 1

/-- `a / 10 ^ n`, dividing by at most 10^308 at a time. -/
def divideByPower (a : Number) (n : Nat) : Number :=
  if n ≤ 308 then a.div (powerOfTen n)
  else if a.isZero then a
  else divideByPower (a.div (powerOfTen 308)) (n - 308)
termination_by n

/-- `a * 10 ^ e`, unless it is out of range. -/
def scale? (a : Number) (e : Int) : Option Number :=
  if e < 0 then some (divideByPower a (-e).toNat)
  else if e ≤ 308 then
    let product := a.mul (powerOfTen e.toNat)
    if product.isFinite then some product else none
  else if a.isZero then some a
  else none

/-- The magnitude of the numeral as a rounded number, unless it is out of range. -/
def magnitude? (n : Numeral) : Option Number :=
  let (significand, dropped) := fill 0 n.whole
  let (significand, ignored) := fill significand n.fraction
  let places : Int := dropped.length - (n.fraction.length - ignored.length : Nat)
  let a := Number.ofNat significand
  match n.exponent with
  | none => scale? a places
  | some (negative, ds) =>
      let e := Number.digitsValue ds
      if e < 0x80000000 then scale? a (if negative then places - e else places + e)
      else if negative || a.isZero then some .zero
      else none

/-- The value of a numeral.  Minus zero is not an integer. -/
def value (n : Numeral) : Raw :=
  let whole := Number.digitsValue n.whole
  if n.integral && !n.negative && whole < 0x10000000000000000 then .int whole
  else if n.integral && n.negative && 0 < whole && whole ≤ 0x8000000000000000 then
    .int (-(whole : Int))
  else match n.magnitude? with
    | none => .unusable
    | some a => .real (if n.negative then a.neg else a)

end Numeral

end CommissionRules.Json
