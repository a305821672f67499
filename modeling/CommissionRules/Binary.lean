/-!
# Binary form

How numbers, texts and lists are written as bytes and read back.  Integers of fixed width have
their least significant byte first.  A count is one byte below 251; the bytes 251, 252 and 253
announce an integer of two, four or eight bytes.  A text is the count of its UTF-8 bytes followed
by them, and a list is its count followed by its items.

A reader takes bytes off the front of its input.  It accepts counts that are written wider than
they need to be.
-/

namespace CommissionRules.Binary

/-! ## Writing -/

/-- The lowest `width` bytes of a natural number, the least significant first. -/
def littleEndian : (width : Nat) → Nat → List UInt8
  | 0, _ => []
  | width + 1, n => n.toUInt8 :: littleEndian width (n / 256)

def count (n : Nat) : List UInt8 :=
  if n < 251 then [n.toUInt8]
  else if n < 0x10000 then 251 :: littleEndian 2 n
  else if n < 0x100000000 then 252 :: littleEndian 4 n
  else 253 :: littleEndian 8 n

def utf8 (s : String) : List UInt8 := s.toByteArray.data.toList

def text (s : String) : List UInt8 := count (utf8 s).length ++ utf8 s

def bool (b : Bool) : List UInt8 := [if b then 1 else 0]

/-- A list whose items are written by the given function. -/
def list {α : Type} (item : α → List UInt8) (items : List α) : List UInt8 :=
  count items.length ++ items.flatMap item

/-! ## Reading -/

/-- Reads a part from the front of some bytes, unless they do not start with one. -/
abbrev Reader := StateT (List UInt8) Option

namespace Reader

variable {α : Type}

def fail : Reader α := fun _ => none

def byte : Reader UInt8 := fun bytes =>
  match bytes with
  | b :: rest => some (b, rest)
  | [] => none

def take (n : Nat) : Reader (List UInt8) := fun bytes =>
  if n ≤ bytes.length then some (bytes.take n, bytes.drop n) else none

def littleEndian : (width : Nat) → Reader Nat
  | 0 => pure 0
  | width + 1 => do
      let low ← byte
      let high ← littleEndian width
      pure (low.toNat + 256 * high)

def count : Reader Nat := do
  let first ← byte
  if first < 251 then pure first.toNat
  else if first = 251 then littleEndian 2
  else if first = 252 then littleEndian 4
  else if first = 253 then littleEndian 8
  else fail

/-- The number of a variant, which has at most four bytes. -/
def variant : Reader Nat := do
  let first ← byte
  if first < 251 then pure first.toNat
  else if first = 251 then littleEndian 2
  else if first = 252 then littleEndian 4
  else fail

def text : Reader String := do
  let n ← count
  let bytes ← take n
  match String.fromUTF8? ⟨bytes.toArray⟩ with
  | some s => pure s
  | none => fail

def bool : Reader Bool := do
  let b ← byte
  if b = 0 then pure false
  else if b = 1 then pure true
  else fail

def items (item : Reader α) : (n : Nat) → Reader (List α)
  | 0 => pure []
  | n + 1 => do
      let first ← item
      let rest ← items item n
      pure (first :: rest)

def list (item : Reader α) : Reader (List α) := do
  let n ← count
  items item n

/-- The variant at a number in a list of all variants. -/
def oneOf (variants : List α) : Reader α := do
  let n ← variant
  match variants[n]? with
  | some a => pure a
  | none => fail

end Reader

end CommissionRules.Binary
