import Mathlib.Algebra.Group.Nat.Defs
import CommissionRules.Binary

/-!
# Reading back what was written

A reader `Reads` some bytes as a part if it takes just these bytes off the front of any input and
gives the part.  Readers in sequence read the bytes of their parts in sequence, so that the reader
of a structure is put together from those of its fields.  A count is read back below `2 ^ 64`, at
each of its four widths.
-/

namespace CommissionRules.Binary

variable {α β : Type}

/-- Whatever follows these bytes, the reader takes them off and gives this part. -/
def Reads (reader : Reader α) (bytes : List UInt8) (a : α) : Prop :=
  ∀ rest, reader (bytes ++ rest) = some (a, rest)

namespace Reads

variable {first : Reader α} {next : α → Reader β} {bytes bytes' : List UInt8} {a : α} {b : β}

theorem pure (a : α) : Reads (Pure.pure a) [] a := fun _ => rfl

theorem bind (h : Reads first bytes a) (h' : Reads (next a) bytes' b) :
    Reads (first >>= next) (bytes ++ bytes') b := by
  intro rest
  show (first (bytes ++ bytes' ++ rest)).bind (fun p => next p.1 p.2) = _
  rw [List.append_assoc, h]
  exact h' rest

/-- Nothing is read after the last part. -/
theorem last (h : Reads first bytes a) (h' : Reads (next a) [] b) :
    Reads (first >>= next) bytes b := by
  have hbind := h.bind h'
  rwa [List.append_nil] at hbind

end Reads

/-! ## Numbers -/

theorem reads_byte (b : UInt8) : Reads Reader.byte [b] b := fun _ => rfl

theorem reads_littleEndian {width n : Nat} (h : n < 256 ^ width) :
    Reads (Reader.littleEndian width) (littleEndian width n) n := by
  induction width generalizing n with
  | zero =>
    obtain rfl : n = 0 := by omega
    exact .pure 0
  | succ width ih =>
    have hhigh : n / 256 < 256 ^ width := by
      rw [Nat.pow_succ] at h
      exact Nat.div_lt_of_lt_mul (by omega)
    have hlow : n.toUInt8.toNat = n % 256 := UInt8.toNat_ofNat'
    refine .bind (reads_byte n.toUInt8) (.last (ih hhigh) ?_)
    rw [hlow, Nat.mod_add_div]
    exact .pure n

theorem reads_first {first : UInt8} {bytes : List UInt8} {a : α} {next : UInt8 → Reader α}
    (h : Reads (next first) bytes a) : Reads (Reader.byte >>= next) (first :: bytes) a :=
  .bind (reads_byte first) h

/-- A count that is its own first byte. -/
theorem toNat_toUInt8 {n : Nat} (h : n < 251) : n.toUInt8.toNat = n :=
  UInt8.toNat_ofNat_of_lt (Nat.lt_trans h (by decide))

theorem toUInt8_lt {n : Nat} (h : n < 251) : n.toUInt8 < 251 := by
  rw [UInt8.lt_iff_toNat_lt, toNat_toUInt8 h]
  exact h

theorem reads_count {n : Nat} (h : n < 2 ^ 64) : Reads Reader.count (count n) n := by
  rw [count]
  by_cases hbyte : n < 251
  · rw [if_pos hbyte]
    refine reads_first ?_
    rw [if_pos (toUInt8_lt hbyte), toNat_toUInt8 hbyte]
    exact .pure n
  · rw [if_neg hbyte]
    by_cases hshort : n < 0x10000
    · rw [if_pos hshort]
      exact reads_first (reads_littleEndian hshort)
    · rw [if_neg hshort]
      by_cases hmiddle : n < 0x100000000
      · rw [if_pos hmiddle]
        exact reads_first (reads_littleEndian hmiddle)
      · rw [if_neg hmiddle]
        exact reads_first (reads_littleEndian h)

/-- A variant whose number is one byte, followed by its fields. -/
theorem reads_tagged {tag : UInt8} {next : Nat → Reader α} {bytes : List UInt8} {a : α}
    (htag : tag < 251) (h : Reads (next tag.toNat) bytes a) :
    Reads (Reader.variant >>= next) (tag :: bytes) a := by
  have hvariant : Reads Reader.variant [tag] tag.toNat := by
    refine reads_first ?_
    rw [if_pos htag]
    exact .pure tag.toNat
  exact hvariant.bind h

/-! ## Texts and lists -/

theorem reads_take (bytes : List UInt8) : Reads (Reader.take bytes.length) bytes bytes := by
  intro rest
  show (if bytes.length ≤ (bytes ++ rest).length then
    some ((bytes ++ rest).take bytes.length, (bytes ++ rest).drop bytes.length) else none) = _
  rw [if_pos (by simp), List.take_left, List.drop_left]

theorem fromUTF8?_utf8 (s : String) : String.fromUTF8? ⟨(utf8 s).toArray⟩ = some s := by
  show String.fromUTF8? s.toByteArray = some s
  rw [String.fromUTF8?, dif_pos s.isValidUTF8]
  rfl

theorem reads_text {s : String} (h : (utf8 s).length < 2 ^ 64) : Reads Reader.text (text s) s := by
  refine .bind (reads_count h) (.last (reads_take (utf8 s)) ?_)
  rw [fromUTF8?_utf8]
  exact .pure s

theorem reads_bool (b : Bool) : Reads Reader.bool (bool b) b := by
  cases b <;> exact fun _ => rfl

theorem reads_items {reader : Reader α} {item : α → List UInt8} {items : List α}
    (h : ∀ a ∈ items, Reads reader (item a) a) :
    Reads (Reader.items reader items.length) (items.flatMap item) items := by
  induction items with
  | nil => exact .pure []
  | cons a rest ih =>
    rw [List.forall_mem_cons] at h
    exact .bind h.1 (.last (ih h.2) (.pure (a :: rest)))

theorem reads_list {reader : Reader α} {item : α → List UInt8} {items : List α}
    (hlength : items.length < 2 ^ 64) (h : ∀ a ∈ items, Reads reader (item a) a) :
    Reads (Reader.list reader) (list item items) items :=
  .bind (reads_count hlength) (reads_items h)

/-- The number of a variant without fields among all of them. -/
theorem reads_oneOf [BEq α] [LawfulBEq α] {all : List α} {a : α} (hmem : a ∈ all)
    (hfew : all.length ≤ 251) : Reads (Reader.oneOf all) (count (all.idxOf a)) a := by
  have hlt : all.idxOf a < all.length := List.idxOf_lt_length_of_mem hmem
  have hbyte : all.idxOf a < 251 := by omega
  have hfound : all[all.idxOf a]? = some a := by
    rw [List.getElem?_eq_getElem hlt, List.getElem_idxOf]
  rw [count, if_pos hbyte]
  refine reads_tagged (toUInt8_lt hbyte) ?_
  rw [toNat_toUInt8 hbyte, hfound]
  exact .pure a

end CommissionRules.Binary
