import CommissionRules.Proofs.Evaluation.Grouping
import CommissionRules.Proofs.Hashing

/-!
# Hash tables of the collection methods

Grouping looks for the group of a key in a hash table, and the choice of distinct items looks for an
item in another one.  `Grouping` and `Sieve` are the states of these loops.  Each step keeps that
the keys of the table are those of the groups (`Grouping.Indexed`), or the items that were kept
(`Sieve.Seen`).  So a look-up finds what a search through the groups or the kept items finds, and
what comes out are the groups and the distinct items that are found without a table
(`Collection.look_ups_agree_with_searches`).
-/

namespace CommissionRules

namespace Collection

variable (hasher : List Value.Piece → UInt64) (layout : HashTable.Layout)

/-! ## Groups -/

/-- The groups so far, and a table with the place of the group of each key. -/
structure Grouping where
  groups : List (Value × List Value)
  index : HashTable Nat

namespace Grouping

def start : Grouping := ⟨[], .empty hasher layout⟩

/-- Adds an item to the group at the place that the table has for its key, or to a new group. -/
def add (state : Grouping) (key item : Value) : Grouping :=
  match state.index.get? key with
  | some slot => ⟨state.groups.modify slot (Prod.map id (· ++ [item])), state.index⟩
  | none => ⟨state.groups ++ [(key, [item])], state.index.insert key state.groups.length⟩

def addAll (state : Grouping) (pairs : List (Value × Value)) : Grouping :=
  pairs.foldl (fun state (key, item) => state.add key item) state

/-- Adds the items of a list.  The key of an item is evaluated when all items before it are in their
groups. -/
def addItems (operand : Operand) (state : Grouping) : List Value → Eval Grouping
  | [] => pure state
  | item :: rest => do
      let key ← applyTo "groupBy" operand item
      addItems operand (state.add key item) rest

/-- The table has an entry for each group, with its key and its place. -/
structure Indexed (state : Grouping) : Prop where
  entries : state.index.entries = (state.groups.map (·.1)).zipIdx
  unequal : state.index.Unequal

variable {hasher layout} {state : Grouping}

theorem Indexed.keys (h : state.Indexed) : state.index.keys = state.groups.map (·.1) := by
  rw [HashTable.keys, h.entries]
  exact List.zipIdx_map_fst 0 _

/-- A look-up in the table finds the group that a search through the groups finds. -/
theorem Indexed.get?_eq_findIdx? (h : state.Indexed) (key : Value) :
    state.index.get? key = state.groups.findIdx? fun group => group.1.equal key := by
  have hplace : state.index.place? key = state.groups.findIdx? fun group => group.1.equal key := by
    rw [HashTable.place?_eq_findIdx? h.unequal, h.keys, List.findIdx?_map]
    rfl
  rw [HashTable.get?, hplace]
  cases hfirst : state.groups.findIdx? fun group => group.1.equal key with
  | none => rfl
  | some slot =>
    obtain ⟨hlt, -⟩ := List.findIdx?_eq_some_iff_getElem.mp hfirst
    simp [h.entries, List.getElem?_zipIdx, List.getElem?_eq_getElem hlt]

theorem Indexed.contains_eq_false (h : state.Indexed) {key : Value}
    (hnone : state.index.get? key = none) : state.index.contains key = false := by
  rw [h.get?_eq_findIdx?, List.findIdx?_eq_none_iff] at hnone
  rw [HashTable.contains_eq_any, h.keys, List.any_map, List.any_eq_false]
  exact fun group hgroup => Bool.eq_false_iff.mp (hnone group hgroup)

theorem indexed_start : (start hasher layout).Indexed :=
  ⟨rfl, HashTable.unequal_empty hasher layout⟩

theorem Indexed.add (h : state.Indexed) (key item : Value) : (state.add key item).Indexed := by
  rw [Grouping.add]
  cases hslot : state.index.get? key with
  | some slot =>
    refine ⟨?_, h.unequal⟩
    rw [map_fst_modify]
    exact h.entries
  | none =>
    -- The new group is the last one, and so is the new entry.
    refine ⟨?_, h.unequal.insert key _⟩
    rw [HashTable.entries_insert_of_not_contains (h.contains_eq_false hslot), List.map_append,
      List.zipIdx_append, ← h.entries]
    simp

/-- The search that `addToGroup` makes, apart from what it does with the group. -/
theorem addToGroup_eq (key item : Value) (groups : List (Value × List Value)) :
    addToGroup key item groups =
      match groups.findIdx? fun group => group.1.equal key with
      | some slot => groups.modify slot (Prod.map id (· ++ [item]))
      | none => groups ++ [(key, [item])] := by
  induction groups with
  | nil => rfl
  | cons group rest ih =>
    obtain ⟨k, members⟩ := group
    rw [addToGroup, List.findIdx?_cons]
    cases hequal : k.equal key with
    | true => rfl
    | false =>
      rw [ih]
      cases rest.findIdx? fun group => group.1.equal key <;> rfl

theorem Indexed.groups_add (h : state.Indexed) (key item : Value) :
    (state.add key item).groups = addToGroup key item state.groups := by
  rw [Grouping.add, h.get?_eq_findIdx?, addToGroup_eq]
  cases state.groups.findIdx? fun group => group.1.equal key <;> rfl

theorem Indexed.addAll (h : state.Indexed) (pairs : List (Value × Value)) :
    (state.addAll pairs).Indexed ∧ (state.addAll pairs).groups =
      pairs.foldl (fun acc (key, item) => addToGroup key item acc) state.groups := by
  induction pairs generalizing state with
  | nil => exact ⟨h, rfl⟩
  | cons pair rest ih =>
    obtain ⟨key, item⟩ := pair
    have hrest := ih (h.add key item)
    rw [h.groups_add key item] at hrest
    exact hrest

/-- As the table has no part in the evaluation, the keys may all be evaluated first. -/
theorem addItems_eq_map (operand : Operand) (state : Grouping) (items : List Value) :
    state.addItems operand items = state.addAll <$> keyed "groupBy" operand items := by
  induction items generalizing state with
  | nil => rfl
  | cons item rest ih =>
    have hrest (key : Value) : addItems operand (state.add key item) rest = (do
        let others ← keyed "groupBy" operand rest
        pure (state.addAll ((key, item) :: others))) := by
      rw [ih, map_eq_pure_bind]
      rfl
    rw [addItems, keyed, Eval.all]
    simp only [hrest, map_bind, bind_assoc, pure_bind, map_pure]
    rfl

end Grouping

/-- Groups items by a hash table of their keys. -/
def groupByTable (operand : Operand) (items : List Value) : Eval Value := do
  let state ← (Grouping.start hasher layout).addItems operand items
  pure (.list (state.groups.map groupRecord))

theorem groupByTable_eq_apply (operand : Operand) (items : List Value) :
    groupByTable hasher layout operand items = Collection.apply "groupBy" items operand := by
  have hgroups (pairs : List (Value × Value)) :
      ((Grouping.start hasher layout).addAll pairs).groups = groups pairs :=
    (Grouping.indexed_start.addAll pairs).2
  show _ = (do
    let pairs ← keyed "groupBy" operand items
    pure (Value.list ((groups pairs).map groupRecord)))
  rw [groupByTable, Grouping.addItems_eq_map, bind_map_left]
  simp only [hgroups]

/-! ## Distinct items -/

/-- The items that were kept so far, and a table of them. -/
structure Sieve where
  kept : List Value
  seen : HashTable Unit

namespace Sieve

def start : Sieve := ⟨[], .empty hasher layout⟩

/-- Keeps an item unless the table has it. -/
def add (state : Sieve) (item : Value) : Sieve :=
  if state.seen.contains item then state else ⟨state.kept ++ [item], state.seen.insert item ()⟩

def addAll (state : Sieve) (items : List Value) : Sieve := items.foldl add state

/-- The table has the items that were kept. -/
def Seen (state : Sieve) : Prop := state.seen.keys = state.kept

variable {hasher layout} {state : Sieve}

/-- A look-up in the table finds an item just if a search through the kept items does. -/
theorem Seen.contains_eq_any (h : state.Seen) (item : Value) :
    state.seen.contains item = state.kept.any fun other => other.equal item := by
  rw [HashTable.contains_eq_any, h]

theorem seen_start : (start hasher layout).Seen := rfl

theorem Seen.add (h : state.Seen) (item : Value) : (state.add item).Seen := by
  rw [Sieve.add]
  split
  · exact h
  · next hcontains =>
    rw [Seen, HashTable.keys_insert_of_not_contains (Bool.eq_false_iff.mpr hcontains), h]

theorem Seen.addAll (h : state.Seen) (items : List Value) :
    (state.addAll items).Seen ∧
      (state.addAll items).kept = distinctAfter state.kept.reverse items := by
  induction items generalizing state with
  | nil => exact ⟨h, (List.reverse_reverse _).symm⟩
  | cons item rest ih =>
    -- The one loop adds kept items at the end, the other one at the front.
    have hkept : distinctAfter (state.add item).kept.reverse rest =
        distinctAfter state.kept.reverse (item :: rest) := by
      rw [Sieve.add, h.contains_eq_any, distinctAfter, List.any_reverse]
      split
      · rfl
      · rw [List.reverse_append]
        rfl
    have hrest := ih (h.add item)
    rw [hkept] at hrest
    exact hrest

end Sieve

/-! ## Look-ups and searches -/

/-- Equal values feed a hasher the same pieces and so the same bytes.  Hence, whatever the hasher
and the layout of the tables are, a look-up for a key finds the group that a search through the
groups so far finds, if any, and a look-up for an item finds it just if a search through the items
kept so far does.  What comes out is what the methods give. -/
theorem look_ups_agree_with_searches (hasher : List Value.Piece → UInt64)
    (layout : HashTable.Layout) :
    (∀ a : Value, a.digest = a.pieces.flatMap Value.Piece.bytes) ∧
      (∀ a b : Value, a.equal b = true → a.pieces = b.pieces ∧ a.digest = b.digest) ∧
      (∀ (pairs : List (Value × Value)) (key : Value),
        let state := (Grouping.start hasher layout).addAll pairs
        state.index.get? key = state.groups.findIdx? fun group => group.1.equal key) ∧
      (∀ (items : List Value) (item : Value),
        let state := (Sieve.start hasher layout).addAll items
        state.seen.contains item = state.kept.any fun other => other.equal item) ∧
      ∀ (items : List Value) (operand : Operand),
        groupByTable hasher layout operand items = Collection.apply "groupBy" items operand ∧
          pure (.list ((Sieve.start hasher layout).addAll items).kept) =
            Collection.apply "distinct" items operand := by
  refine ⟨Value.digest_eq_flatMap, fun a b h => ?_, fun pairs key => ?_, fun items item => ?_,
    fun items operand => ⟨groupByTable_eq_apply hasher layout operand items, ?_⟩⟩
  · exact ⟨Value.pieces_eq_of_equal h, Value.digest_eq_of_equal h⟩
  · exact (Grouping.indexed_start.addAll pairs).1.get?_eq_findIdx? key
  · exact (Sieve.seen_start.addAll items).1.contains_eq_any item
  · rw [(Sieve.seen_start.addAll items).2]
    rfl

/-- The FNV-1a hash of the bytes. -/
def fnv (pieces : List Value.Piece) : UInt64 :=
  (pieces.flatMap Value.Piece.bytes).foldl
    (fun state byte => (state ^^^ byte.toUInt64) * 0x100000001b3) 0xcbf29ce484222325

/-- A look-up for a key with a negative zero inside finds the group of the key with a zero, and one
for a NaN finds nothing, though there is a group with this key. -/
theorem look_ups_agree_with_searches_zeros :
    let row (amount : Number) : Value :=
      .record [("Amounts", .list [.null, .number amount]), ("Region", .str "north")]
    let keys := [.bool true, row .zero, .number .nan]
    let state := (Grouping.start fnv (.buckets fun _ => 2)).addAll (keys.zip keys)
    (row .zero).equal (row Number.zero.neg) = true ∧
      (row .zero).digest = (row Number.zero.neg).digest ∧
      state.index.get? (row Number.zero.neg) = some 1 ∧
      state.index.get? (.number .nan) = none := by
  intro row keys state
  obtain ⟨-, hfed, hindex, -⟩ := look_ups_agree_with_searches fnv (.buckets fun _ => 2)
  have hequal : (row .zero).equal (row Number.zero.neg) = true := by decide
  refine ⟨hequal, (hfed _ _ hequal).2, ?_, ?_⟩
  · rw [hindex]
    decide +kernel
  · rw [hindex]
    decide +kernel

end Collection

end CommissionRules
