import CommissionRules.Proofs.Evaluation.Items
import CommissionRules.Proofs.Ordering

/-!
# Sorting collections

The methods that sort evaluate a key for each item and put the items in the order of their keys.  An
`Entry` is an item with its key and its place in the list, so that items can be told apart in the
result even if they are equal.  The entries of the result are those of the list, their keys do not
decrease, or increase, and those whose keys are alike keep their order (`Collection.sorts_stably`).
That goes for equal keys too, unless a zero and a negative zero are among the keys: these are equal,
but one of the methods puts all of the one kind before all of the other, and the other method does
the reverse (`Collection.equal_keys_in_order_iff`).
-/

namespace CommissionRules

namespace Collection

open Eval

/-! ## Entries -/

/-- An item with its key, and its place in the list. -/
abbrev Entry := (Value × Value) × Nat

namespace Entry

def key (entry : Entry) : Value := entry.1.1

def item (entry : Entry) : Value := entry.1.2

def place (entry : Entry) : Nat := entry.2

end Entry

def entries (keys items : List Value) : List Entry := (keys.zip items).zipIdx

theorem key_mem_of_mem_entries {keys items : List Value} {entry : Entry}
    (h : entry ∈ entries keys items) : entry.key ∈ keys := by
  have hpair : entry.1 ∈ keys.zip items :=
    List.mem_of_getElem? (List.mem_zipIdx_iff_getElem?.mp h)
  exact (List.of_mem_zip hpair).1

theorem exists_entry {keys items : List Value} (hlength : keys.length = items.length)
    {key : Value} (h : key ∈ keys) : ∃ entry ∈ entries keys items, entry.key = key := by
  obtain ⟨i, hi, rfl⟩ := List.mem_iff_getElem.mp h
  refine ⟨((keys[i], items[i]), i), ?_, rfl⟩
  rw [entries, List.mk_mem_zipIdx_iff_getElem?, List.getElem?_eq_getElem (by simp; omega),
    List.getElem_zip]

theorem nodup_places (keys items : List Value) : ((entries keys items).map Entry.place).Nodup := by
  have hplaces : (entries keys items).map Entry.place = List.range' 0 (keys.zip items).length :=
    List.zipIdx_map_snd 0 _
  rw [hplaces]
  exact List.nodup_range'

/-! ## The order of entries -/

/-- The method that sorts in one of the two directions. -/
def sortingMethod (descending : Bool) : String :=
  if descending then "orderByDescending" else "orderBy"

/-- The order of keys in one of the two directions. -/
def directed (descending : Bool) (a b : Value) : Ordering :=
  if descending then b.sortCompare a else a.sortCompare b

instance (descending : Bool) : Std.TransCmp (directed descending) := by
  cases descending with
  | false => exact inferInstanceAs (Std.TransCmp Value.sortCompare)
  | true =>
    show Std.TransCmp fun a b => Value.sortCompare b a
    exact Std.TransCmp.opposite

theorem directed_total (descending : Bool) (a b : Value) :
    ((directed descending a b).isLE || (directed descending b a).isLE) = true := by
  have hswap : directed descending a b = (directed descending b a).swap := Std.OrientedCmp.eq_swap
  rw [hswap]
  cases directed descending b a <;> rfl

theorem directed_isLE_of_eq {descending : Bool} {a b : Value} (h : a.sortCompare b = .eq) :
    (directed descending b a).isLE := by
  have hswap : b.sortCompare a = .eq := Std.OrientedCmp.eq_symm h
  cases descending with
  | false => exact Ordering.isLE_of_eq_eq hswap
  | true => exact Ordering.isLE_of_eq_eq h

/-- The entries in the order in which a sorting method puts their items. -/
def placed (descending : Bool) (keys items : List Value) : List Entry :=
  (entries keys items).mergeSort (List.zipIdxLE fun a b => (directed descending a.1 b.1).isLE)

theorem sorted_eq_placed (descending : Bool) (keys items : List Value) :
    sorted descending (keys.zip items) = (placed descending keys items).map Entry.item := by
  have hsorted : sorted descending (keys.zip items) =
      ((keys.zip items).mergeSort fun a b => (directed descending a.1 b.1).isLE).map (·.2) := by
    cases descending <;> rfl
  rw [hsorted, ← List.mergeSort_zipIdx, List.map_map]
  rfl

theorem apply_sorting {descending : Bool} {apply : Value → Eval Value} {items keys : List Value}
    {steps steps' : Nat} (h : (Eval.all apply items).run.run steps = (.ok keys, steps')) :
    (Collection.apply (sortingMethod descending) items (.lambda apply)).run.run steps =
      (.ok (.list ((placed descending keys items).map Entry.item)), steps') := by
  rw [← sorted_eq_placed]
  cases descending
  · exact run_bind_of_ok (keyed_run h)
  · exact run_bind_of_ok (keyed_run h)

theorem placed_perm (descending : Bool) (keys items : List Value) :
    (placed descending keys items).Perm (entries keys items) :=
  List.mergeSort_perm _ _

/-- The sorted entries have their keys in order, and their places where the keys are alike. -/
theorem placed_pairwise (descending : Bool) (keys items : List Value) :
    (placed descending keys items).Pairwise fun p q =>
      (directed descending p.key q.key).isLE ∧
        (p.key.sortCompare q.key = .eq → p.place < q.place) := by
  have hsorted : (placed descending keys items).Pairwise fun p q =>
      List.zipIdxLE (fun a b => (directed descending a.1 b.1).isLE) p q :=
    List.pairwise_mergeSort (List.zipIdxLE_trans fun a b c => Std.TransCmp.isLE_trans)
      (List.zipIdxLE_total fun a b => directed_total descending a.1 b.1) _
  have hplaces : (placed descending keys items).Pairwise fun p q => p.place ≠ q.place :=
    List.pairwise_map.mp (((placed_perm descending keys items).map Entry.place).nodup_iff.mpr
      (nodup_places keys items))
  refine hsorted.imp₂ (fun p q hle hne => ?_) hplaces
  rw [List.zipIdxLE] at hle
  split at hle
  case isFalse => cases hle
  case isTrue hkeys =>
    refine ⟨hkeys, fun halike => ?_⟩
    have hback : (directed descending q.1.1 p.1.1).isLE := directed_isLE_of_eq halike
    rw [if_pos hback] at hle
    exact Nat.lt_of_le_of_ne (of_decide_eq_true hle) hne

/-! ## Stability -/

/-- The operator of the language by which a key would have to come sooner in a direction. -/
def sooner (descending : Bool) : BinaryOp := if descending then .greater else .less

/-- The entries of a list in an order in which their keys are sorted. -/
structure SortedStably (descending : Bool) (keys items : List Value) (listed : List Entry) :
    Prop where
  length : keys.length = items.length
  perm : listed.Perm (entries keys items)
  sorted : listed.Pairwise fun p q => (directed descending p.key q.key).isLE
  stable : listed.Pairwise fun p q => p.key.sortCompare q.key = .eq → p.place < q.place
  /-- No later key is `<`, or `>`, an earlier one. -/
  compared : ((∀ key ∈ keys, ∃ n, key = .number n) ∨ ∀ key ∈ keys, ∃ s, key = .str s) →
    listed.Pairwise fun p q => (sooner descending).evaluate q.key p.key = .ok (.bool false)

theorem comparable_of_keys {keys : List Value} {a b : Value}
    (h : (∀ key ∈ keys, ∃ n, key = .number n) ∨ ∀ key ∈ keys, ∃ s, key = .str s)
    (ha : a ∈ keys) (hb : b ∈ keys) : a.Comparable b := by
  rcases h with h | h
  · obtain ⟨m, rfl⟩ := h a ha
    obtain ⟨n, rfl⟩ := h b hb
    exact .numbers m n
  · obtain ⟨s, rfl⟩ := h a ha
    obtain ⟨t, rfl⟩ := h b hb
    exact .texts s t

theorem sooner_eq_false {descending : Bool} {a b : Value} (hcomparable : a.Comparable b)
    (h : (directed descending a b).isLE) :
    (sooner descending).evaluate b a = .ok (.bool false) := by
  cases descending with
  | false => exact Value.less_eq_false hcomparable h
  | true => exact Value.greater_eq_false hcomparable.symm h

theorem placed_sortedStably (descending : Bool) {keys items : List Value}
    (hlength : keys.length = items.length) :
    SortedStably descending keys items (placed descending keys items) where
  length := hlength
  perm := placed_perm descending keys items
  sorted := (placed_pairwise descending keys items).imp And.left
  stable := (placed_pairwise descending keys items).imp And.right
  compared := by
    intro hkeys
    refine (placed_pairwise descending keys items).imp_of_mem fun {p q} hp hq h => ?_
    have key_mem {entry : Entry} (hentry : entry ∈ placed descending keys items) :
        entry.key ∈ keys :=
      key_mem_of_mem_entries ((placed_perm descending keys items).mem_iff.mp hentry)
    exact sooner_eq_false (comparable_of_keys hkeys (key_mem hp) (key_mem hq)) h.1

/-- The order of keys is a total preorder on all values.  If a lambda gives a key for every item of
a list, then both sorting methods succeed, in the same number of steps, and give the items of the
list sorted stably by these keys. -/
theorem sorts_stably :
    (∀ a : Value, a.sortCompare a = .eq) ∧
      (∀ a b : Value, b.sortCompare a = (a.sortCompare b).swap) ∧
      (∀ a b c : Value, (a.sortCompare b).isLE → (b.sortCompare c).isLE →
        (a.sortCompare c).isLE) ∧
      ∀ (descending : Bool) (apply : Value → Eval Value) (items keys : List Value)
        (steps steps' : Nat), (Eval.all apply items).run.run steps = (.ok keys, steps') →
          ∃ listed, SortedStably descending keys items listed ∧
            (Collection.apply (sortingMethod descending) items (.lambda apply)).run.run steps =
              (.ok (.list (listed.map Entry.item)), steps') := by
  refine ⟨fun a => Std.ReflCmp.compare_self, fun a b => Std.OrientedCmp.eq_swap,
    fun a b c => Std.TransCmp.isLE_trans, ?_⟩
  intro descending apply items keys steps steps' h
  have hsorted := placed_sortedStably descending (length_of_all_run h)
  exact ⟨placed descending keys items, hsorted, apply_sorting h⟩

/-- A row of a table with a key. -/
def row (key : Value) (name : String) : Value := .ofFields [("key", key), ("name", .str name)]

def keyOf (item : Value) : Eval Value := .ofExcept (item.property "key")

/-- Numbers with a repetition, a NaN and a negative zero among them. -/
theorem sorts_stably_numbers :
    let keys : List Value := [.number ⟨0x4000000000000000⟩, .number .nan,
      .number Number.zero.neg, .number ⟨0x4000000000000000⟩]
    let items := keys.zipWith row ["a", "b", "c", "d"]
    (Eval.all keyOf items).run.run 5 = (.ok keys, 5) ∧
      ∃ listed, SortedStably true keys items listed ∧
        (Collection.apply "orderByDescending" items (.lambda keyOf)).run.run 5 =
          (.ok (.list (listed.map Entry.item)), 5) := by
  intro keys items
  have h : (Eval.all keyOf items).run.run 5 = (.ok keys, 5) := rfl
  exact ⟨h, sorts_stably.2.2.2 true keyOf items keys 5 5 h⟩

/-! ## Equal keys -/

/-- An entry whose key comes first in a direction stands before the other one, in everything that
holds along the sorted entries. -/
theorem rel_of_directed_lt {descending : Bool} {keys items : List Value} {R : Entry → Entry → Prop}
    (h : (placed descending keys items).Pairwise R) {p q : Entry}
    (hp : p ∈ entries keys items) (hq : q ∈ entries keys items)
    (hlt : directed descending p.key q.key = .lt) : R p q := by
  have hperm := placed_perm descending keys items
  obtain ⟨i, hi, rfl⟩ := List.mem_iff_getElem.mp (hperm.mem_iff.mpr hp)
  obtain ⟨j, hj, rfl⟩ := List.mem_iff_getElem.mp (hperm.mem_iff.mpr hq)
  rcases Nat.lt_trichotomy i j with hbefore | rfl | hbehind
  · exact List.pairwise_iff_getElem.mp h i j hi hj hbefore
  · cases hlt.symm.trans Std.ReflCmp.compare_self
  · obtain ⟨hle, -⟩ :=
      List.pairwise_iff_getElem.mp (placed_pairwise descending keys items) j i hj hi hbehind
    rw [Std.OrientedCmp.gt_of_lt hlt] at hle
    cases hle

/-- Equal keys keep their order in both directions just where no zeros of different sign are among
the keys. -/
theorem places_iff_no_oppositeZeros {keys items : List Value}
    (hlength : keys.length = items.length) :
    (∀ descending, (placed descending keys items).Pairwise fun p q =>
      p.key.equal q.key = true → p.place < q.place) ↔
        ∀ a ∈ keys, ∀ b ∈ keys, ¬a.OppositeZeros b := by
  constructor
  · intro h a ha b hb hzeros
    obtain ⟨p, hp, rfl⟩ := exists_entry hlength ha
    obtain ⟨q, hq, rfl⟩ := exists_entry hlength hb
    have hequal := hzeros.equal
    have hequal' := hzeros.symm.equal
    -- Each of the two comes first in one of the directions.
    rcases hzeros.lt_or_lt with hlt | hlt
    · have hforth := rel_of_directed_lt (h false) hp hq hlt hequal
      have hback := rel_of_directed_lt (h true) hq hp hlt hequal'
      omega
    · have hforth := rel_of_directed_lt (h false) hq hp hlt hequal'
      have hback := rel_of_directed_lt (h true) hp hq hlt hequal
      omega
  · intro h descending
    have hperm := placed_perm descending keys items
    refine (placed_pairwise descending keys items).imp_of_mem fun {p q} hp hq hpq hequal => ?_
    have hpkey := key_mem_of_mem_entries (hperm.mem_iff.mp hp)
    have hqkey := key_mem_of_mem_entries (hperm.mem_iff.mp hq)
    exact hpq.2 ((Value.sortCompare_eq_iff_of_equal hequal).mpr (h _ hpkey _ hqkey))

/-- If a lambda gives a key for every item of a list, then both sorting methods keep the order of
the items whose keys are equal just where no zeros of different sign are among the keys.  These are
the only equal values that are not alike in the order of keys. -/
theorem equal_keys_in_order_iff {apply : Value → Eval Value} {items keys : List Value}
    {steps steps' : Nat} (h : (Eval.all apply items).run.run steps = (.ok keys, steps')) :
    (∀ descending, (placed descending keys items).Perm (entries keys items) ∧
      (Collection.apply (sortingMethod descending) items (.lambda apply)).run.run steps =
        (.ok (.list ((placed descending keys items).map Entry.item)), steps')) ∧
      ((∀ descending, (placed descending keys items).Pairwise fun p q =>
        p.key.equal q.key = true → p.place < q.place) ↔
          ∀ a ∈ keys, ∀ b ∈ keys, ¬a.OppositeZeros b) ∧
      ∀ a b : Value, a.equal b = true → (a.sortCompare b = .eq ↔ ¬a.OppositeZeros b) :=
  ⟨fun descending => ⟨placed_perm descending keys items, apply_sorting h⟩,
    places_iff_no_oppositeZeros (length_of_all_run h),
    fun _ _ => Value.sortCompare_eq_iff_of_equal⟩

/-- Negative zeros alone keep their order. -/
theorem equal_keys_in_order_negative :
    let keys : List Value := [.number Number.zero.neg, .null, .number Number.zero.neg]
    let items := keys.zipWith row ["a", "b", "c"]
    (Eval.all keyOf items).run.run 0 = (.ok keys, 0) ∧
      ∀ descending, (placed descending keys items).Pairwise fun p q =>
        p.key.equal q.key = true → p.place < q.place := by
  intro keys items
  have h : (Eval.all keyOf items).run.run 0 = (.ok keys, 0) := rfl
  refine ⟨h, (equal_keys_in_order_iff h).2.1.mpr fun a ha b hb hzeros => ?_⟩
  simp only [keys, List.mem_cons, List.not_mem_nil, or_false] at ha hb
  rcases ha with rfl | rfl | rfl <;> rcases hb with rfl | rfl | rfl <;>
    first | exact hzeros.elim | exact hzeros.2.2 rfl

theorem sorted_pair_of_gt {key key' : Value} (item item' : Value)
    (h : key.sortCompare key' = .gt) :
    sorted false [(key, item), (key', item')] = [item', item] := by
  simp [sorted, List.mergeSort, List.MergeSort.Internal.splitInTwo, h]

/-- A zero before a negative zero: the keys are equal, and the items change places. -/
theorem equal_keys_reordered :
    let items := [row (.number .zero) "a", row (.number Number.zero.neg) "b"]
    (Eval.all keyOf items).run.run 0 =
        (.ok [.number .zero, .number Number.zero.neg], 0) ∧
      (Value.number .zero).equal (.number Number.zero.neg) = true ∧
      (Value.number .zero).sortCompare (.number Number.zero.neg) = .gt ∧
      (Collection.apply "orderBy" items (.lambda keyOf)).run.run 0 =
        (.ok (.list [row (.number Number.zero.neg) "b", row (.number .zero) "a"]), 0) := by
  intro items
  have hkeys : (Eval.all keyOf items).run.run 0 =
      (.ok [.number .zero, .number Number.zero.neg], 0) := rfl
  have hgt : (Value.number .zero).sortCompare (.number Number.zero.neg) = .gt := by decide
  refine ⟨hkeys, by decide, hgt, (run_bind_of_ok (keyed_run hkeys)).trans ?_⟩
  show (Except.ok (Value.list (sorted false _)), 0) = _
  rw [List.zip_cons_cons, List.zip_cons_cons, List.zip_nil_right, sorted_pair_of_gt _ _ hgt]

end Collection

end CommissionRules
