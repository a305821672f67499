import CommissionRules.Number.Rounding

/-!
# Numbers as decimal text

The text of a number is the shortest decimal that reads back as the same number, nearest to it
among those of that length, written without an exponent.  The search is exact: for one digit, two
digits and so on it tests the two neighbours of the value on that decimal grid against the
interval of the ratios that round to the number.

Reading a decimal is rounding its exact value: `Number.ofDecimal`.
-/

namespace CommissionRules

/-- A positive decimal `0.d₁d₂… * 10 ^ point`; its first digit is not zero. -/
structure Decimal where
  digits : List Nat
  point : Int
deriving Repr, DecidableEq

namespace Decimal

/-- `digits` and `point` of `n * 10 ^ e`, without trailing zeros, for a positive `n`. -/
def ofScaled (n : Nat) (e : Int) : Decimal :=
  let all := (Nat.toDigits 10 n).map fun c => c.toNat - '0'.toNat
  { digits := (all.reverse.dropWhile (· == 0)).reverse, point := all.length + e }

/-- `num / den < 10 ^ k`. -/
def belowPower (num den : Nat) (k : Int) : Bool :=
  if 0 ≤ k then num < den * Nat.pow 10 k.toNat else num * Nat.pow 10 (-k).toNat < den

/-- The least `k` with `num / den < 10 ^ k`.  The bit lengths give it up to one or two steps. -/
def leadingPlace (num den : Nat) : Int :=
  let bits : Int := (num.log2 : Int) - den.log2
  let guess := (bits - 1) * 30103 / 100000
  let candidates := (List.range 4).map fun (i : Nat) => guess + (i : Int)
  (candidates.find? (belowPower num den)).getD (guess + 4)

end Decimal

namespace Number

/-- The open or closed interval of the ratios that round to a positive finite number, over the
common denominator `4 * den`, where `num / den` is the number itself. -/
structure RoundingInterval where
  num : Nat
  den : Nat
  low : Nat
  high : Nat
  closed : Bool

/-- Half the gap to either neighbour belongs to the number; below a power of two the gap is half
as wide.  The ends round to the number when its significand is even. -/
def roundingInterval (a : Number) : RoundingInterval :=
  let (num, den) := scaleDown a.significand 1 (-a.exponent)
  let unit := if 0 ≤ a.exponent then Nat.pow 2 a.exponent.toNat else 1
  let narrow := a.significand == 0x10000000000000 && a.exponent != -1074
  { num, den
    low := 4 * num - (if narrow then unit else 2 * unit)
    high := 4 * num + 2 * unit
    closed := a.significand % 2 == 0 }

/-- Holds when `n * 10 ^ e` rounds to the number of the interval. -/
def RoundingInterval.holds (i : RoundingInterval) (n : Nat) (e : Int) : Bool :=
  let (x, d) := scaleDownTen (4 * i.den * n) e
  if i.closed then i.low * d ≤ x && x ≤ i.high * d else i.low * d < x && x < i.high * d
where
  scaleDownTen (x : Nat) (e : Int) : Nat × Nat :=
    if 0 ≤ e then (x * Nat.pow 10 e.toNat, 1) else (x, Nat.pow 10 (-e).toNat)

/-- The decimal of `count` digits that rounds to the number, if there is one: the neighbour of the
value on the grid of that many digits that is nearer, and the upper one in the middle. -/
def decimalOfLength? (i : RoundingInterval) (place : Int) (count : Nat) : Option Decimal :=
  let e := place - count
  let (num, den) :=
    if 0 ≤ e then (i.num, i.den * Nat.pow 10 e.toNat) else (i.num * Nat.pow 10 (-e).toNat, i.den)
  let lower := num / den
  let twice := 2 * (num % den)
  match i.holds lower e, i.holds (lower + 1) e with
  | true, true => some (.ofScaled (if twice < den then lower else lower + 1) e)
  | true, false => some (.ofScaled lower e)
  | false, true => some (.ofScaled (lower + 1) e)
  | false, false => none

/-- The shortest decimal of a positive finite number.  Seventeen digits always suffice. -/
def shortest (a : Number) : Decimal :=
  let i := a.roundingInterval
  let place := Decimal.leadingPlace i.num i.den
  ((List.range 17).map (· + 1)).findSome? (decimalOfLength? i place)
    |>.getD (.ofScaled a.floorMagnitude 0)

end Number

namespace Decimal

def digitText (digits : List Nat) : String :=
  String.ofList (digits.map fun d => Char.ofNat ('0'.toNat + d))

def zeros (n : Nat) : String := String.ofList (List.replicate n '0')

/-- Positional notation, without an exponent and without a fraction of zero. -/
def positional (d : Decimal) : String :=
  if d.point ≤ 0 then "0." ++ zeros (-d.point).toNat ++ digitText d.digits
  else
    let n := d.point.toNat
    if d.digits.length ≤ n then digitText d.digits ++ zeros (n - d.digits.length)
    else digitText (d.digits.take n) ++ "." ++ digitText (d.digits.drop n)

/-- Scientific notation: one digit before the point, and the exponent after `e`. -/
def scientific (d : Decimal) : String :=
  let fraction := d.digits.drop 1
  digitText (d.digits.take 1)
    ++ (if fraction.isEmpty then "" else "." ++ digitText fraction)
    ++ "e" ++ toString (d.point - 1)

end Decimal

/-- The text of a number: positional shortest decimal, with a sign also on `-0`. -/
def Number.text (a : Number) : String :=
  if a.isNaN then "NaN"
  else
    let sign := if a.signed then "-" else ""
    if !a.isFinite then sign ++ "inf"
    else if a.isZero then sign ++ "0"
    else sign ++ a.shortest.positional

/-! ## Reading a decimal -/

namespace Number

def digitsValue (digits : List Char) : Nat :=
  digits.foldl (fun acc c => acc * 10 + (c.toNat - '0'.toNat)) 0

/-- A number from the digits before and after its point, times a power of ten. -/
def ofDigits (negative : Bool) (whole fraction : List Char) (e : Int) : Number :=
  ofDecimal negative (digitsValue (whole ++ fraction)) (e - fraction.length)

/-- Reads an exponent: a sign if any, then digits up to the end. -/
def readExponent? (cs : List Char) : Option Int :=
  let (negative, digits) := match cs with
    | '-' :: rest => (true, rest)
    | '+' :: rest => (false, rest)
    | _ => (false, cs)
  if digits.isEmpty || !digits.all Char.isDigit then none
  else
    let n : Int := digitsValue digits
    some (if negative then -n else n)

/-- Reads an unsigned decimal that takes up the whole text: digits with an optional point, at
least one of them, and an optional exponent. -/
def readDecimal? (negative : Bool) (cs : List Char) : Option Number :=
  let whole := cs.takeWhile Char.isDigit
  let rest := cs.dropWhile Char.isDigit
  let (fraction, rest) := match rest with
    | '.' :: rest => (rest.takeWhile Char.isDigit, rest.dropWhile Char.isDigit)
    | _ => ([], rest)
  if whole.isEmpty && fraction.isEmpty then none
  else match rest with
    | [] => some (ofDigits negative whole fraction 0)
    | c :: rest =>
        if c == 'e' || c == 'E' then
          (readExponent? rest).map fun e => ofDigits negative whole fraction e
        else none

/-- Reads a number that takes up the whole text: an optional sign, then a decimal or one of the
words `inf`, `infinity` and `nan` in any case. -/
def read? (text : String) : Option Number :=
  let (negative, cs) := match text.toList with
    | '-' :: rest => (true, rest)
    | '+' :: rest => (false, rest)
    | cs => (false, cs)
  match readDecimal? negative cs with
  | some a => some a
  | none =>
      let word := String.ofList (cs.map Char.toLower)
      if word == "inf" || word == "infinity" then some (withSign negative infinity.bits)
      else if word == "nan" then some (withSign negative nan.bits)
      else none

end Number

end CommissionRules
