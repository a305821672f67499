import CommissionRules.Proofs.Equality
import CommissionRules.Proofs.Evaluation.Sorting

/-!
# Grouping collections

The first item of a list opens a group, all later items with an equal key join it, and the rest of
the list is grouped in the same way: `Collection.groups_cons`.  A `Group` is such a group of
entries, which say where the items stand in the list.  The groups are a partition of the list into
items with equal keys, each in the order of the list, and the groups in the order of their first
items: `Collection.groups_stably`.  A key that is not equal to itself has a group for each item.
-/

namespace CommissionRules

namespace Collection

open Eval

/-! ## Groups of entries -/

/-- The entries of a group, in their order.  There is a first one, and its key is that of the
group. -/
structure Group where
  first : Entry
  others : List Entry

namespace Group

variable (group : Group)

def key : Value := group.first.key

def members : List Entry := group.first :: group.others

/-- The record that a group becomes. -/
def value : Value := groupRecord (group.key, group.members.map Entry.item)

theorem value_key : group.value.property "Key" = .ok group.key := by
  simp [value, groupRecord, Value.ofFields, Value.property, Entries.insertAll, Entries.get?_insert]

theorem value_items :
    group.value.property "Items" = .ok (.list (group.members.map Entry.item)) := by
  simp [value, groupRecord, Value.ofFields, Value.property, Entries.insertAll, Entries.get?_insert]

end Group

/-- The entries with a key that equals the given one. -/
def sharing (key : Value) (listed : List Entry) : List Entry :=
  listed.filter fun entry => key.equal entry.key

/-- The other entries. -/
def remaining (key : Value) (listed : List Entry) : List Entry :=
  listed.filter fun entry => !key.equal entry.key

/-- The groups of entries with equal keys. -/
def grouped : List Entry → List Group
  | [] => []
  | first :: rest => ⟨first, sharing first.key rest⟩ :: grouped (remaining first.key rest)
termination_by listed => listed.length
decreasing_by exact Nat.lt_succ_of_le (List.length_filter_le _ _)

/-! ## The loop -/

/-- Where there is a group, the items with a key equal to its key are added to it, and the other
items are added to the groups behind it. -/
theorem foldl_addToGroup (pairs : List (Value × Value)) (key : Value) (members : List Value)
    (behind : List (Value × List Value)) :
    pairs.foldl (fun acc (key, item) => addToGroup key item acc) ((key, members) :: behind) =
      (key, members ++ (pairs.filter fun pair => key.equal pair.1).map (·.2)) ::
        (pairs.filter fun pair => !key.equal pair.1).foldl
          (fun acc (key, item) => addToGroup key item acc) behind := by
  induction pairs generalizing members behind with
  | nil => simp
  | cons pair rest ih =>
    rw [List.foldl_cons]
    dsimp only
    cases hequal : key.equal pair.1 with
    | true => simp [addToGroup, hequal, ih]
    | false => simp [addToGroup, hequal, ih]

theorem groups_cons (key item : Value) (rest : List (Value × Value)) :
    groups ((key, item) :: rest) =
      (key, item :: (rest.filter fun pair => key.equal pair.1).map (·.2)) ::
        groups (rest.filter fun pair => !key.equal pair.1) :=
  foldl_addToGroup rest key [item] []

theorem groups_map (listed : List Entry) :
    groups (listed.map (·.1)) =
      (grouped listed).map fun group => (group.key, group.members.map Entry.item) := by
  induction listed using grouped.induct with
  | case1 =>
    rw [grouped]
    rfl
  | case2 first rest ih =>
    have hcons := groups_cons first.key first.item (rest.map (·.1))
    rw [List.filter_map, List.filter_map, List.map_map] at hcons
    rw [grouped, List.map_cons, List.map_cons, ← ih]
    exact hcons

/-! ## The partition -/

theorem firsts_sublist (listed : List Entry) :
    ((grouped listed).map Group.first).Sublist listed := by
  induction listed using grouped.induct with
  | case1 =>
    rw [grouped]
    exact .slnil
  | case2 first rest ih =>
    rw [grouped, List.map_cons]
    exact (ih.trans List.filter_sublist).cons_cons first

theorem first_mem_of_mem_grouped {listed : List Entry} {group : Group}
    (h : group ∈ grouped listed) : group.first ∈ listed :=
  (firsts_sublist listed).subset (List.mem_map_of_mem h)

theorem members_perm (listed : List Entry) :
    ((grouped listed).flatMap Group.members).Perm listed := by
  induction listed using grouped.induct with
  | case1 =>
    rw [grouped]
    exact .nil
  | case2 first rest ih =>
    rw [grouped, List.flatMap_cons]
    exact ((ih.append_left _).trans (List.filter_append_perm _ rest)).cons first

/-- Of an entry that opened a group none of the later groups has an equal key. -/
theorem unequal_of_mem_grouped {key : Value} {rest : List Entry} {group : Group}
    (h : group ∈ grouped (remaining key rest)) : key.equal group.key = false := by
  have hfirst := (List.mem_filter.mp (first_mem_of_mem_grouped h)).2
  exact Bool.not_eq_true' _ ▸ hfirst

theorem sharing_cons_of_equal {key : Value} {first : Entry} (h : key.equal first.key = true)
    (rest : List Entry) : sharing key (first :: rest) = first :: sharing key rest := by
  simp [sharing, h]

/-- An entry that joined a group has no key that equals the key of a later group. -/
theorem sharing_remaining {key key' : Value} (h : key.equal key' = false) (listed : List Entry) :
    sharing key' (remaining key listed) = sharing key' listed := by
  rw [sharing, sharing, remaining, List.filter_filter]
  refine List.filter_congr fun entry _ => ?_
  cases hentry : key'.equal entry.key with
  | false => rfl
  | true =>
    have hother : key.equal entry.key = false := by
      refine Bool.eq_false_iff.mpr fun hequal => ?_
      rw [Value.equal_trans hequal (Value.equal_symm hentry)] at h
      cases h
    rw [hother]
    rfl

theorem members_eq_sharing {listed : List Entry} {group : Group} (h : group ∈ grouped listed)
    (hself : group.key.equal group.key = true) : group.members = sharing group.key listed := by
  induction listed using grouped.induct with
  | case1 =>
    rw [grouped] at h
    cases h
  | case2 first rest ih =>
    rw [grouped] at h
    rcases List.mem_cons.mp h with rfl | h
    · exact (sharing_cons_of_equal hself rest).symm
    · have hunequal := unequal_of_mem_grouped h
      have hfirst : group.key.equal first.key = false := Value.equal_comm _ _ ▸ hunequal
      rw [ih h, sharing_remaining hunequal]
      simp [sharing, hfirst]

/-- The entries of a group stand in the order of the list, and all of their keys equal the first. -/
theorem members_of_mem_grouped {listed : List Entry} {group : Group} (h : group ∈ grouped listed) :
    group.members.Sublist listed ∧
      ∀ entry ∈ group.others, group.key.equal entry.key = true := by
  induction listed using grouped.induct with
  | case1 =>
    rw [grouped] at h
    cases h
  | case2 first rest ih =>
    rw [grouped] at h
    rcases List.mem_cons.mp h with rfl | h
    · exact ⟨List.filter_sublist.cons_cons first, fun entry hentry => (List.mem_filter.mp hentry).2⟩
    · obtain ⟨hsublist, hequal⟩ := ih h
      exact ⟨(hsublist.trans List.filter_sublist).cons first, hequal⟩

/-- An entry with a key that is not equal to itself, and so to no other one, has its own group. -/
theorem alone_mem_grouped {listed : List Entry} {entry : Entry} (h : entry ∈ listed)
    (hself : entry.key.equal entry.key = false) : ⟨entry, []⟩ ∈ grouped listed := by
  induction listed using grouped.induct with
  | case1 => cases h
  | case2 first rest ih =>
    rw [grouped]
    rcases List.mem_cons.mp h with rfl | h
    · have hothers : sharing entry.key rest = [] := by
        refine List.filter_eq_nil_iff.mpr fun other _ hequal => ?_
        rw [Value.equal_self_of_equal hequal] at hself
        cases hself
      rw [hothers]
      exact List.mem_cons_self
    · refine List.mem_cons_of_mem _ (ih (List.mem_filter.mpr ⟨h, ?_⟩))
      refine Bool.not_eq_true' _ ▸ Bool.eq_false_iff.mpr fun hequal => ?_
      rw [Value.equal_self_of_equal (Value.equal_symm hequal)] at hself
      cases hself

theorem keys_unequal (listed : List Entry) :
    (grouped listed).Pairwise fun p q => p.key.equal q.key = false ∧ q.key.equal p.key = false := by
  induction listed using grouped.induct with
  | case1 =>
    rw [grouped]
    exact .nil
  | case2 first rest ih =>
    rw [grouped]
    refine List.pairwise_cons.mpr ⟨fun group hgroup => ?_, ih⟩
    have hunequal := unequal_of_mem_grouped hgroup
    exact ⟨hunequal, Value.equal_comm _ _ ▸ hunequal⟩

/-- The groups of the items of a list.  No group is empty, as it has a first entry. -/
structure Partition (keys items : List Value) (groups : List Group) : Prop where
  length : keys.length = items.length
  perm : (groups.flatMap Group.members).Perm (entries keys items)
  /-- A group has the entries with keys that equal its own, in their order. -/
  members : ∀ group ∈ groups, group.key.equal group.key = true →
    group.members = sharing group.key (entries keys items)
  /-- An entry with a key that is not equal to itself is the only one in its group. -/
  alone : ∀ entry ∈ entries keys items, entry.key.equal entry.key = false → ⟨entry, []⟩ ∈ groups
  unequal : groups.Pairwise fun p q => p.key.equal q.key = false ∧ q.key.equal p.key = false
  /-- The groups stand in the order of the entries that are the first with their keys. -/
  ordered : groups.Pairwise fun p q => p.first.place < q.first.place

theorem entries_ordered (keys items : List Value) :
    (entries keys items).Pairwise fun p q => p.place < q.place := by
  have hplaces : (entries keys items).map Entry.place = List.range' 0 (keys.zip items).length :=
    List.zipIdx_map_snd 0 _
  have hordered : ((entries keys items).map Entry.place).Pairwise (· < ·) := by
    rw [hplaces]
    exact List.pairwise_lt_range'
  exact List.pairwise_map.mp hordered

theorem grouped_partition {keys items : List Value} (hlength : keys.length = items.length) :
    Partition keys items (grouped (entries keys items)) where
  length := hlength
  perm := members_perm _
  members _ := members_eq_sharing
  alone _ := alone_mem_grouped
  unequal := keys_unequal _
  ordered := by
    have hfirsts := (entries_ordered keys items).sublist (firsts_sublist (entries keys items))
    rwa [List.pairwise_map] at hfirsts

theorem apply_groupBy {apply : Value → Eval Value} {items keys : List Value} {steps steps' : Nat}
    (h : (Eval.all apply items).run.run steps = (.ok keys, steps')) :
    (Collection.apply "groupBy" items (.lambda apply)).run.run steps =
      (.ok (.list ((grouped (entries keys items)).map Group.value)), steps') := by
  have hgroups : (groups (keys.zip items)).map groupRecord =
      (grouped (entries keys items)).map Group.value := by
    have hpairs : (entries keys items).map (·.1) = keys.zip items := List.zipIdx_map_fst 0 _
    rw [← hpairs, groups_map, List.map_map]
    rfl
  rw [← hgroups]
  exact run_bind_of_ok (keyed_run h)

/-- If a lambda gives a key for every item of a list, then the items are grouped by these keys in
the same number of steps.  The groups are a stable partition, and each becomes a record of its key
and its items.  The keys that are not equal to themselves are those with a NaN inside. -/
theorem groups_stably :
    (∀ key : Value, key.equal key = false ↔ key.holdsNaN = true) ∧
      ∀ (apply : Value → Eval Value) (items keys : List Value) (steps steps' : Nat),
        (Eval.all apply items).run.run steps = (.ok keys, steps') →
          ∃ groups, Partition keys items groups ∧
            (Collection.apply "groupBy" items (.lambda apply)).run.run steps =
              (.ok (.list (groups.map Group.value)), steps') ∧
            ∀ group ∈ groups, group.value.property "Key" = .ok group.key ∧
              group.value.property "Items" = .ok (.list (group.members.map Entry.item)) := by
  refine ⟨fun key => ?_, fun apply items keys steps steps' h => ?_⟩
  · rw [← Bool.not_eq_true, Value.equal_self_iff, Bool.not_eq_false]
  · have hpartition := grouped_partition (length_of_all_run h)
    exact ⟨_, hpartition, apply_groupBy h, fun group _ => ⟨group.value_key, group.value_items⟩⟩

/-- Zeros of both signs share a group, and two NaNs have one each. -/
theorem groups_stably_numbers :
    let keys : List Value := [.number .nan, .number .zero, .number .nan,
      .number Number.zero.neg]
    let items := keys.zipWith row ["a", "b", "c", "d"]
    (Eval.all keyOf items).run.run 5 = (.ok keys, 5) ∧
      ∃ groups, Partition keys items groups ∧
        (Collection.apply "groupBy" items (.lambda keyOf)).run.run 5 =
          (.ok (.list (groups.map Group.value)), 5) := by
  intro keys items
  have h : (Eval.all keyOf items).run.run 5 = (.ok keys, 5) := rfl
  obtain ⟨groups, hpartition, hrun, -⟩ := groups_stably.2 keyOf items keys 5 5 h
  exact ⟨h, groups, hpartition, hrun⟩

end Collection

end CommissionRules
