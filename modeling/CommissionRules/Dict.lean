/-!
# Dictionaries with sorted keys

A dictionary is its list of entries in strictly increasing key order, so that two dictionaries
with the same look-ups are the same list: `Dict.ext_get?`.  Keys compare by code point, which
for text is the order of the UTF-8 bytes as well.

The functions on bare entry lists stand in `Entries`, because a record value holds its fields as
such a list (a value cannot carry the proof that they are sorted).
-/

namespace CommissionRules

namespace Entries

variable {α : Type}

def get? (key : String) : List (String × α) → Option α
  | [] => none
  | (k, v) :: rest => if key = k then some v else get? key rest

/-- Stores a value under a key, in its place by key order; an entry of the same key is replaced. -/
def insert (key : String) (value : α) : List (String × α) → List (String × α)
  | [] => [(key, value)]
  | (k, v) :: rest =>
      if key = k then (key, value) :: rest
      else if key < k then (key, value) :: (k, v) :: rest
      else (k, v) :: insert key value rest

def erase (key : String) : List (String × α) → List (String × α)
  | [] => []
  | (k, v) :: rest => if key = k then rest else (k, v) :: erase key rest

/-- Inserts entries one after the other, so that the last one of a key stays. -/
def insertAll (entries start : List (String × α)) : List (String × α) :=
  entries.foldl (fun acc entry => insert entry.1 entry.2 acc) start

def Sorted (entries : List (String × α)) : Prop :=
  entries.Pairwise fun a b => a.1 < b.1

theorem lt_of_not_lt_of_ne {a b : String} (h : ¬ a < b) (hne : a ≠ b) : b < a :=
  Std.lt_of_le_of_ne h (Ne.symm hne)

theorem mem_insert {key : String} {value : α} {entries : List (String × α)}
    {entry : String × α} (h : entry ∈ insert key value entries) :
    entry = (key, value) ∨ entry ∈ entries := by
  induction entries with
  | nil => simpa [insert] using h
  | cons head rest ih =>
    obtain ⟨k, v⟩ := head
    unfold insert at h
    split at h
    · rcases List.mem_cons.1 h with h | h
      · exact .inl h
      · exact .inr (List.mem_cons_of_mem _ h)
    · split at h
      · rcases List.mem_cons.1 h with h | h
        · exact .inl h
        · exact .inr h
      · rcases List.mem_cons.1 h with h | h
        · exact .inr (by simp [h])
        · rcases ih h with h | h
          · exact .inl h
          · exact .inr (List.mem_cons_of_mem _ h)

theorem insert_sorted (key : String) (value : α) {entries : List (String × α)}
    (h : Sorted entries) : Sorted (insert key value entries) := by
  induction entries with
  | nil => simp [insert, Sorted]
  | cons head rest ih =>
    obtain ⟨k, v⟩ := head
    obtain ⟨hhead, hrest⟩ := List.pairwise_cons.1 h
    unfold insert
    split
    · next heq =>
      subst heq
      exact List.pairwise_cons.2 ⟨hhead, hrest⟩
    · next hne =>
      split
      · next hlt =>
        refine List.pairwise_cons.2 ⟨?_, h⟩
        intro entry hmem
        rcases List.mem_cons.1 hmem with hmem | hmem
        · rw [hmem]; exact hlt
        · exact String.lt_trans hlt (hhead entry hmem)
      · next hlt =>
        refine List.pairwise_cons.2 ⟨?_, ih hrest⟩
        intro entry hmem
        rcases mem_insert hmem with hmem | hmem
        · rw [hmem]; exact lt_of_not_lt_of_ne hlt hne
        · exact hhead entry hmem

theorem erase_sublist (key : String) (entries : List (String × α)) :
    (erase key entries).Sublist entries := by
  induction entries with
  | nil => exact List.Sublist.refl _
  | cons head rest ih =>
    obtain ⟨k, v⟩ := head
    unfold erase
    split
    · exact List.sublist_cons_self _ _
    · exact ih.cons_cons _

theorem erase_sorted (key : String) {entries : List (String × α)} (h : Sorted entries) :
    Sorted (erase key entries) :=
  List.Pairwise.sublist (erase_sublist key entries) h

theorem insertAll_sorted (entries : List (String × α)) {start : List (String × α)}
    (h : Sorted start) : Sorted (insertAll entries start) := by
  induction entries generalizing start with
  | nil => exact h
  | cons head rest ih => exact ih (insert_sorted _ _ h)

theorem insert_of_forall_lt {key : String} {entries : List (String × α)}
    (h : ∀ entry ∈ entries, entry.1 < key) (value : α) :
    insert key value entries = entries ++ [(key, value)] := by
  induction entries with
  | nil => rfl
  | cons head rest ih =>
    obtain ⟨hhead, hrest⟩ := List.forall_mem_cons.1 h
    have hne : key ≠ head.1 := fun heq => String.lt_irrefl key (heq ▸ hhead)
    have hlt : ¬ key < head.1 := fun hlt => String.lt_irrefl key (String.lt_trans hlt hhead)
    rw [insert, if_neg hne, if_neg hlt, ih hrest]
    rfl

/-- Entries in key order are appended one after the other. -/
theorem insertAll_of_sorted {entries start : List (String × α)} (h : Sorted (start ++ entries)) :
    insertAll entries start = start ++ entries := by
  induction entries generalizing start with
  | nil => exact (List.append_nil start).symm
  | cons head rest ih =>
    have hlt : ∀ entry ∈ start, entry.1 < head.1 := fun entry hmem =>
      (List.pairwise_append.1 h).2.2 entry hmem head List.mem_cons_self
    show insertAll rest (insert head.1 head.2 start) = start ++ head :: rest
    rw [List.append_cons] at h ⊢
    rw [insert_of_forall_lt hlt]
    exact ih h

theorem get?_insert (key key' : String) (value : α) (entries : List (String × α)) :
    get? key' (insert key value entries) =
      if key' = key then some value else get? key' entries := by
  induction entries with
  | nil => simp [insert, get?]
  | cons head rest ih =>
    obtain ⟨k, v⟩ := head
    unfold insert
    split
    · next heq =>
      subst heq
      by_cases h : key' = key <;> simp [get?, h]
    · next hne =>
      split
      · simp [get?]
      · by_cases h : key' = k
        · subst h
          simp [get?, Ne.symm hne]
        · simp [get?, h, ih]

theorem get?_eq_none_of_lt {key : String} {entries : List (String × α)}
    (h : ∀ entry ∈ entries, key < entry.1) : get? key entries = none := by
  induction entries with
  | nil => rfl
  | cons head rest ih =>
    obtain ⟨k, v⟩ := head
    have hk : key ≠ k := fun heq =>
      String.lt_irrefl k (heq ▸ h (k, v) List.mem_cons_self)
    simp only [get?, hk, if_false]
    exact ih fun entry hmem => h entry (List.mem_cons_of_mem _ hmem)

theorem get?_erase (key key' : String) {entries : List (String × α)} (h : Sorted entries) :
    get? key' (erase key entries) = if key' = key then none else get? key' entries := by
  induction entries with
  | nil => simp [erase, get?]
  | cons head rest ih =>
    obtain ⟨k, v⟩ := head
    obtain ⟨hhead, hrest⟩ := List.pairwise_cons.1 h
    unfold erase
    split
    · next heq =>
      subst heq
      by_cases hk : key' = key
      · subst hk
        simpa using get?_eq_none_of_lt hhead
      · simp [get?, hk]
    · next hne =>
      by_cases hk : key' = k
      · subst hk
        simp [get?, Ne.symm hne]
      · simp [get?, hk, ih hrest]

theorem get?_isSome_iff {key : String} {entries : List (String × α)} :
    (get? key entries).isSome ↔ key ∈ entries.map (·.1) := by
  induction entries with
  | nil => simp [get?]
  | cons head rest ih =>
    obtain ⟨k, v⟩ := head
    by_cases h : key = k
    · simp [get?, h]
    · simp [get?, h, ih]

/-- Sorted entry lists with the same look-ups are the same list. -/
theorem ext_get? {a b : List (String × α)} (ha : Sorted a) (hb : Sorted b)
    (h : ∀ key, get? key a = get? key b) : a = b := by
  induction a generalizing b with
  | nil =>
    cases b with
    | nil => rfl
    | cons head rest =>
      have := h head.1
      simp [get?] at this
  | cons x xs ih =>
    obtain ⟨k, v⟩ := x
    obtain ⟨hx, hxs⟩ := List.pairwise_cons.1 ha
    cases b with
    | nil =>
      have := h k
      simp [get?] at this
    | cons y ys =>
      obtain ⟨l, w⟩ := y
      obtain ⟨hy, hys⟩ := List.pairwise_cons.1 hb
      have hkl : k = l := by
        apply Decidable.byContradiction
        intro hne
        have hcases : k < l ∨ l < k :=
          if hlt : k < l then .inl hlt else .inr (lt_of_not_lt_of_ne hlt hne)
        rcases hcases with hlt | hlt
        · have hnone : get? k ys = none := get?_eq_none_of_lt fun entry hmem =>
            String.lt_trans hlt (hy entry hmem)
          have := h k
          simp [get?, hne, hnone] at this
        · have hnone : get? l xs = none := get?_eq_none_of_lt fun entry hmem =>
            String.lt_trans hlt (hx entry hmem)
          have := h l
          simp [get?, Ne.symm hne, hnone] at this
      subst hkl
      have hvw : v = w := by
        have := h k
        simpa [get?] using this
      subst hvw
      have htail : xs = ys := ih hxs hys fun key => by
        by_cases hk : key = k
        · subst hk
          rw [get?_eq_none_of_lt hx, get?_eq_none_of_lt hy]
        · have := h key
          simpa [get?, hk] using this
      rw [htail]

end Entries

structure Dict (α : Type) where
  entries : List (String × α)
  sorted : Entries.Sorted entries

namespace Dict

variable {α : Type}

def empty : Dict α := ⟨[], .nil⟩

instance : Inhabited (Dict α) := ⟨empty⟩

instance [DecidableEq α] : DecidableEq (Dict α) := fun a b =>
  decidable_of_iff (a.entries = b.entries) (by cases a; cases b; simp)

def size (d : Dict α) : Nat := d.entries.length

def isEmpty (d : Dict α) : Bool := d.entries.isEmpty

def keys (d : Dict α) : List String := d.entries.map (·.1)

def get? (d : Dict α) (key : String) : Option α := Entries.get? key d.entries

def contains (d : Dict α) (key : String) : Bool := (d.get? key).isSome

def insert (d : Dict α) (key : String) (value : α) : Dict α :=
  ⟨Entries.insert key value d.entries, Entries.insert_sorted key value d.sorted⟩

def erase (d : Dict α) (key : String) : Dict α :=
  ⟨Entries.erase key d.entries, Entries.erase_sorted key d.sorted⟩

/-- The dictionary of a list of entries in any order; the last one of a key stays. -/
def ofList (entries : List (String × α)) : Dict α :=
  ⟨Entries.insertAll entries [], Entries.insertAll_sorted entries .nil⟩

@[simp] theorem get?_empty (key : String) : (empty : Dict α).get? key = none := rfl

theorem get?_insert (d : Dict α) (key key' : String) (value : α) :
    (d.insert key value).get? key' = if key' = key then some value else d.get? key' :=
  Entries.get?_insert key key' value d.entries

theorem get?_erase (d : Dict α) (key key' : String) :
    (d.erase key).get? key' = if key' = key then none else d.get? key' :=
  Entries.get?_erase key key' d.sorted

theorem mem_keys {d : Dict α} {key : String} : key ∈ d.keys ↔ d.contains key :=
  Entries.get?_isSome_iff.symm

theorem length_keys (d : Dict α) : d.keys.length = d.size := List.length_map _

theorem nodup_keys (d : Dict α) : d.keys.Nodup := by
  refine List.pairwise_map.mpr (d.sorted.imp fun {a b} h heq => ?_)
  rw [heq] at h
  exact String.lt_irrefl _ h

theorem ext_get? {a b : Dict α} (h : ∀ key, a.get? key = b.get? key) : a = b := by
  have := Entries.ext_get? a.sorted b.sorted h
  cases a
  cases b
  simp_all

end Dict

end CommissionRules
