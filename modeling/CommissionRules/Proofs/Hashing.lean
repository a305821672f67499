import CommissionRules.Proofs.Equality

/-!
# Hashing values

A hasher gets a value in pieces, one for each call, and the digest of the value is the bytes of the
pieces.  A value and its canonical form have the same pieces, so that equal values have: whatever a
hasher makes of the pieces, their hashes are the same (`Value.pieces_eq_of_equal`,
`Value.digest_eq_of_equal`).

A hash table compares a key only with some of its entries, those with the hash of the key among
them.  As equal keys have the same hash it misses no equal one: a key is found just if a search
through all entries finds it (`HashTable.contains_eq_any`).  As long as no two keys of the table are
equal, which insertions see to, both find the same entry (`HashTable.place?_eq_findIdx?`).  Nothing
of this asks that a key is equal to itself, which a key with a NaN inside is not.
-/

namespace CommissionRules

namespace Value

open Binary (littleEndian)

/-! ## Pieces -/

/-- What a hasher gets of a value in one call. -/
inductive Piece where
  | variant (n : Nat)
  | truth (b : Bool)
  | bits (n : UInt64)
  | text (s : String)
  | length (n : Nat)

def Piece.bytes : Piece → List UInt8
  | variant n => littleEndian 8 n
  | truth b => [if b then 1 else 0]
  | bits n => littleEndian 8 n.toNat
  | text s => digestText s
  | length n => littleEndian 8 n

mutual

/-- The pieces of a value in the order of the calls.  A list tells its length, and a record does
not. -/
def pieces : Value → List Piece
  | null => [.variant 0]
  | bool b => [.variant 1, .truth b]
  | number n => [.variant 2, .bits n.canonicalBits]
  | str s => [.variant 3, .text s]
  | list items => .variant 4 :: .length items.length :: piecesOfItems items
  | record fields => .variant 5 :: piecesOfFields fields

def piecesOfItems : List Value → List Piece
  | [] => []
  | v :: rest => pieces v ++ piecesOfItems rest

def piecesOfFields : List (String × Value) → List Piece
  | [] => []
  | (k, v) :: rest => .text k :: (pieces v ++ piecesOfFields rest)

end

mutual

/-- The digest is the bytes of the pieces, one after the other. -/
theorem digest_eq_flatMap : (v : Value) → v.digest = v.pieces.flatMap Piece.bytes
  | null => rfl
  | bool _ => rfl
  | number n => by simp [digest, pieces, Piece.bytes]
  | str s => by simp [digest, pieces, Piece.bytes]
  | list items => by
    rw [digest, digestItems_eq_flatMap items]
    simp [pieces, Piece.bytes]
  | record fields => by
    rw [digest, digestFields_eq_flatMap fields]
    simp [pieces, Piece.bytes]

theorem digestItems_eq_flatMap : (items : List Value) →
    digestItems items = (piecesOfItems items).flatMap Piece.bytes
  | [] => rfl
  | v :: rest => by
    rw [digestItems, piecesOfItems, List.flatMap_append, digest_eq_flatMap v,
      digestItems_eq_flatMap rest]

theorem digestFields_eq_flatMap : (fields : List (String × Value)) →
    digestFields fields = (piecesOfFields fields).flatMap Piece.bytes
  | [] => rfl
  | (k, v) :: rest => by
    rw [digestFields, digest_eq_flatMap v, digestFields_eq_flatMap rest]
    simp [piecesOfFields, Piece.bytes]

end

mutual

/-- A hasher is fed the canonical bits of the numbers only. -/
theorem pieces_canonical : (v : Value) → v.canonical.pieces = v.pieces
  | null => rfl
  | bool _ => rfl
  | number n => by
    have hbits : n.canonical.canonicalBits = n.canonicalBits :=
      congrArg Number.bits n.canonical_canonical
    rw [canonical, pieces, pieces, hbits]
  | str _ => rfl
  | list items => by
    rw [canonical, pieces, pieces, length_canonicalItems, piecesOfItems_canonical items]
  | record fields => by rw [canonical, pieces, pieces, piecesOfFields_canonical fields]

theorem piecesOfItems_canonical : (items : List Value) →
    piecesOfItems (canonicalItems items) = piecesOfItems items
  | [] => rfl
  | v :: rest => by
    rw [canonicalItems, piecesOfItems, piecesOfItems, pieces_canonical v,
      piecesOfItems_canonical rest]

theorem piecesOfFields_canonical : (fields : List (String × Value)) →
    piecesOfFields (canonicalFields fields) = piecesOfFields fields
  | [] => rfl
  | (k, v) :: rest => by
    rw [canonicalFields, piecesOfFields, piecesOfFields, pieces_canonical v,
      piecesOfFields_canonical rest]

end

variable {a b : Value}

/-- Equal values have the same pieces, as they have the same canonical form. -/
theorem pieces_eq_of_equal (h : a.equal b = true) : a.pieces = b.pieces := by
  obtain ⟨-, hcanonical⟩ := (equal_iff a b).mp h
  rw [← pieces_canonical a, hcanonical, pieces_canonical b]

theorem digest_eq_of_equal (h : a.equal b = true) : a.digest = b.digest := by
  rw [digest_eq_flatMap, digest_eq_flatMap, pieces_eq_of_equal h]

/-- The reverse does not hold: NaNs feed the same bytes whatever their bits are. -/
example : (number .nan).digest = (number Number.nan.neg).digest ∧
    (number .nan).equal (number Number.nan.neg) = false := by
  decide

end Value

/-! ## Hash tables -/

/-- How a hash table is laid out, be it by buckets or by probing.  Where it puts its entries, and so
which of them a look-up comes across, depends on their hashes in the order in which they were
added. -/
structure HashTable.Layout where
  /-- The numbers of the entries that a look-up compares with its key, one after the other. -/
  compared : (stored : List UInt64) → (hash : UInt64) → List Nat
  /-- A look-up comes across all entries with its hash, and maybe across others. -/
  mem_compared : ∀ {stored : List UInt64} {hash : UInt64} {place : Nat},
    stored[place]? = some hash → place ∈ compared stored hash

/-- Entries with hashes of the same remainder share a bucket.  How many buckets there are depends on
how many entries. -/
def HashTable.Layout.buckets (count : Nat → UInt64) : Layout where
  compared stored hash := (List.range stored.length).filter fun place =>
    stored[place]?.any fun other => other % count stored.length = hash % count stored.length
  mem_compared := by
    intro stored hash place h
    obtain ⟨hplace, -⟩ := List.getElem?_eq_some_iff.mp h
    refine List.mem_filter.mpr ⟨List.mem_range.mpr hplace, ?_⟩
    rw [h]
    exact decide_eq_true rfl

/-- A hash table whose keys are values, with its entries in the order in which they were added. -/
structure HashTable (α : Type) where
  hasher : List Value.Piece → UInt64
  layout : HashTable.Layout
  entries : List (Value × α)

theorem map_fst_modify {α β : Type} (entries : List (α × β)) (place : Nat) (f : β → β) :
    (entries.modify place (Prod.map id f)).map Prod.fst = entries.map Prod.fst := by
  refine List.ext_getElem? fun i => ?_
  rw [List.getElem?_map, List.getElem?_map, List.getElem?_modify]
  cases entries[i]? with
  | none => rfl
  | some entry => by_cases h : place = i <;> simp [h]

namespace HashTable

variable {α : Type}

def empty (hasher : List Value.Piece → UInt64) (layout : Layout) : HashTable α :=
  ⟨hasher, layout, []⟩

variable (table : HashTable α)

def keys : List Value := table.entries.map (·.1)

/-- The hashes of the keys. -/
def hashes : List UInt64 := table.keys.map fun key => table.hasher key.pieces

/-- Where the entry of an equal key is: the first place that has one among those that a look-up
comes across. -/
def place? (key : Value) : Option Nat :=
  (table.layout.compared table.hashes (table.hasher key.pieces)).find? fun place =>
    table.keys[place]?.any fun other => other.equal key

def contains (key : Value) : Bool := (table.place? key).isSome

def get? (key : Value) : Option α :=
  (table.place? key).bind fun place => (table.entries[place]?).map (·.2)

/-- Puts a value into the entry of an equal key, which keeps its own key, or else into a new
entry. -/
def insert (key : Value) (value : α) : HashTable α :=
  match table.place? key with
  | some place =>
    ⟨table.hasher, table.layout, table.entries.modify place (Prod.map id fun _ => value)⟩
  | none => ⟨table.hasher, table.layout, table.entries ++ [(key, value)]⟩

/-- No two keys of the table are equal. -/
def Unequal : Prop := table.keys.Pairwise fun p q => p.equal q = false

variable {table} {key : Value}

/-! ### Look-ups -/

theorem equal_of_place? {place : Nat} (h : table.place? key = some place) :
    ∃ other, table.keys[place]? = some other ∧ other.equal key = true := by
  have hany := List.find?_some h
  exact (Option.any_eq_true _ _).mp hany

/-- An entry of an equal key is among those that a look-up comes across. -/
theorem mem_compared_of_equal {place : Nat} {other : Value} (h : table.keys[place]? = some other)
    (hequal : other.equal key = true) :
    place ∈ table.layout.compared table.hashes (table.hasher key.pieces) := by
  -- Here equal keys need to have the same hash.
  refine table.layout.mem_compared ?_
  rw [hashes, List.getElem?_map, h, Option.map_some, Value.pieces_eq_of_equal hequal]

/-- A look-up finds a key just if a search through all entries finds one that is equal to it. -/
theorem contains_eq_any (table : HashTable α) (key : Value) :
    table.contains key = table.keys.any fun other => other.equal key := by
  rw [Bool.eq_iff_iff, contains, List.any_eq_true]
  constructor
  · intro h
    obtain ⟨place, hplace⟩ := Option.isSome_iff_exists.mp h
    obtain ⟨other, hother, hequal⟩ := equal_of_place? hplace
    exact ⟨other, List.mem_of_getElem? hother, hequal⟩
  · rintro ⟨other, hmem, hequal⟩
    obtain ⟨place, hplace⟩ := List.mem_iff_getElem?.mp hmem
    refine List.find?_isSome.mpr ⟨place, mem_compared_of_equal hplace hequal, ?_⟩
    rw [hplace]
    exact hequal

theorem place?_eq_none_iff : table.place? key = none ↔ table.contains key = false := by
  rw [contains, Option.isSome_eq_false_iff, Option.isNone_iff_eq_none]

/-- Of two entries with keys equal to the same key, none stands before the other. -/
theorem Unequal.le_of_equal (h : table.Unequal) {i j : Nat} {p q : Value}
    (hi : table.keys[i]? = some p) (hj : table.keys[j]? = some q) (hp : p.equal key = true)
    (hq : q.equal key = true) : j ≤ i := by
  refine Nat.not_lt.mp fun hlt => ?_
  obtain ⟨hi', rfl⟩ := List.getElem?_eq_some_iff.mp hi
  obtain ⟨hj', rfl⟩ := List.getElem?_eq_some_iff.mp hj
  have hunequal := List.pairwise_iff_getElem.mp h i j hi' hj' hlt
  rw [Value.equal_trans hp (Value.equal_symm hq)] at hunequal
  cases hunequal

/-- Where no two keys are equal, a look-up finds the place at which a search from the first entry on
ends. -/
theorem place?_eq_findIdx? (h : table.Unequal) (key : Value) :
    table.place? key = table.keys.findIdx? fun other => other.equal key := by
  cases hplace : table.place? key with
  | none =>
    have hany := place?_eq_none_iff.mp hplace
    rw [contains_eq_any, List.any_eq_false] at hany
    refine (List.findIdx?_eq_none_iff.mpr fun other hother => ?_).symm
    exact Bool.eq_false_iff.mpr (hany other hother)
  | some place =>
    obtain ⟨other, hother, hequal⟩ := equal_of_place? hplace
    have hsome : (table.keys.findIdx? fun other => other.equal key).isSome := by
      rw [List.findIdx?_isSome, ← contains_eq_any, contains, hplace]
      rfl
    obtain ⟨first, hfirst⟩ := Option.isSome_iff_exists.mp hsome
    obtain ⟨hlt, hequal', -⟩ := List.findIdx?_eq_some_iff_getElem.mp hfirst
    have hother' := List.getElem?_eq_getElem hlt
    rw [hfirst, Nat.le_antisymm (h.le_of_equal hother' hother hequal' hequal)
      (h.le_of_equal hother hother' hequal hequal')]

/-! ### Insertions -/

theorem entries_insert_of_not_contains (h : table.contains key = false) (value : α) :
    (table.insert key value).entries = table.entries ++ [(key, value)] := by
  rw [insert, place?_eq_none_iff.mpr h]

theorem keys_insert_of_not_contains (h : table.contains key = false) (value : α) :
    (table.insert key value).keys = table.keys ++ [key] := by
  rw [keys, entries_insert_of_not_contains h, List.map_append]
  rfl

theorem keys_insert_of_contains (h : table.contains key = true) (value : α) :
    (table.insert key value).keys = table.keys := by
  obtain ⟨place, hplace⟩ := Option.isSome_iff_exists.mp h
  rw [insert, hplace]
  exact map_fst_modify table.entries place fun _ => value

theorem unequal_empty (hasher : List Value.Piece → UInt64) (layout : Layout) :
    (empty hasher layout : HashTable α).Unequal :=
  .nil

/-- An insertion leaves the keys as they are, or adds one that is equal to none of them. -/
theorem Unequal.insert (h : table.Unequal) (key : Value) (value : α) :
    (table.insert key value).Unequal := by
  rw [Unequal]
  cases hcontains : table.contains key with
  | true =>
    rw [keys_insert_of_contains hcontains]
    exact h
  | false =>
    rw [keys_insert_of_not_contains hcontains]
    refine List.pairwise_append.mpr ⟨h, List.pairwise_singleton _ _, fun p hp q hq => ?_⟩
    obtain rfl := List.mem_singleton.mp hq
    rw [contains_eq_any, List.any_eq_false] at hcontains
    exact Bool.eq_false_iff.mpr (hcontains p hp)

end HashTable

end CommissionRules
