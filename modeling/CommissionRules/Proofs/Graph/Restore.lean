import CommissionRules.Proofs.Graph.Ids
import CommissionRules.Proofs.Graph.Import
import CommissionRules.Proofs.Graph.Indexing

/-!
# Restored graphs

The graph of a snapshot is rebuilt in two passes.  The first inserts the nodes in their order, which
gives the index and the lists of children: `RuleGraph.indexed_ofSnapshot`.  The second reads the
number at the end of each id and raises the counter of the node's own type to it, so that no such
number is above the counter: `RuleGraph.count_le_foldl_restore`.  An id can read like one of another
type than that of its node; the counter of that other type is not raised.
-/

namespace CommissionRules

/-! ## Numbers in ids -/

namespace Node

theorem readInt64?_toString {n : Nat} (h : n < 2 ^ 63) :
    readInt64? (toString n).toList = some (Int64.ofNat n) := by
  have htext : (toString n).toList = Nat.toDigits 10 n := by
    rw [Nat.toString_eq_ofList_toDigits, String.toList_ofList]
  have hdigit : ∀ c ∈ Nat.toDigits 10 n, c.isDigit := fun c hc =>
    Nat.isDigit_of_mem_toDigits (by decide) (by decide) hc
  have hvalue :
      (Nat.toDigits 10 n).foldl (fun acc c => acc * 10 + (c.toNat - '0'.toNat)) 0 = n := by
    have hread := Nat.ofDigitChars_ten_toDigits (n := n)
    rw [Nat.ofDigitChars_eq_foldl] at hread
    simpa only [Nat.mul_comm] using hread
  have hsign {sign : Char} (hsign : sign.isDigit = false) (rest : List Char) :
      Nat.toDigits 10 n ≠ sign :: rest := by
    intro heq
    rw [hdigit sign (heq ▸ List.mem_cons_self)] at hsign
    cases hsign
  have hdigits :
      ((Nat.toDigits 10 n).isEmpty || !(Nat.toDigits 10 n).all Char.isDigit) = false := by
    rw [List.all_eq_true.mpr hdigit, Bool.or_eq_false_iff, List.isEmpty_eq_false_iff]
    exact ⟨Nat.toDigits_ne_nil, rfl⟩
  rw [htext, readInt64?]
  · dsimp only
    rw [hvalue, hdigits, if_neg Bool.false_ne_true, if_neg Bool.false_ne_true]
    exact if_pos h
  · exact hsign (by decide)
  · exact hsign (by decide)

/-- The number of an id is what stands after its last hyphen. -/
theorem suffix?_idText (type : NodeType) {number : String} (h : '-' ∉ number.toList) :
    suffix? (type.text ++ "-" ++ number) = readInt64? number.toList := by
  have hreversed : (type.text ++ "-" ++ number).toList.reverse =
      number.toList.reverse ++ '-' :: type.text.toList.reverse := by simp
  have hother : ∀ c ∈ number.toList.reverse, (c != '-') = true := by
    intro c hc
    rw [bne_iff_ne]
    intro heq
    subst heq
    exact h (List.mem_reverse.mp hc)
  rw [suffix?, hreversed]
  rw [if_pos (by simp), List.takeWhile_append_of_pos hother, List.takeWhile_cons_of_neg (by simp),
    List.append_nil, List.reverse_reverse]

theorem suffix?_counterId (type : NodeType) {count : UInt64} (h : count.toNat < 2 ^ 63) :
    suffix? (RuleGraph.counterId type count) = some (Int64.ofNat count.toNat) := by
  have hdigits : '-' ∉ (toString count.toNat).toList := by
    rw [Nat.toString_eq_ofList_toDigits, String.toList_ofList]
    intro hmem
    cases Nat.isDigit_of_mem_toDigits (by decide) (by decide) hmem
  exact (suffix?_idText type hdigits).trans (readInt64?_toString h)

end Node

theorem NodeCounter.set_recorded (counter : NodeCounter) {type : NodeType} {count : UInt64}
    (h : counter.recorded? type = some count) : counter.set type count = counter := by
  cases counter
  cases type <;> cases h <;> rfl

namespace RuleGraph

variable {g : RuleGraph}

/-! ## The restored store -/

/-- The store of a snapshot, before the counters are restored. -/
def storeOf (s : GraphSnapshot) : RuleGraph := s.sortedNodes.foldl insert (empty .standard)

/-- The graph of a snapshot. -/
def graphOf (s : GraphSnapshot) : RuleGraph :=
  (storeOf s).nodes.foldl restore { storeOf s with counter := s.counter }

theorem ofSnapshot_eq_ok {s : GraphSnapshot} :
    ofSnapshot s = .ok g ↔ s.check = .ok () ∧ graphOf s = g := by
  rw [ofSnapshot, bind_eq_ok]
  constructor
  · intro h
    obtain ⟨_, hcheck, hg⟩ := h
    exact ⟨hcheck, Except.ok.inj hg⟩
  · intro h
    obtain ⟨hcheck, hg⟩ := h
    exact ⟨(), hcheck, congrArg Except.ok hg⟩

theorem nodes_storeOf (s : GraphSnapshot) : (storeOf s).nodes = s.sortedNodes :=
  nodes_foldl_insert _

theorem Indexed.foldl_insert (h : g.Indexed) {nodes : List Node}
    (hnodup : ((g.nodes ++ nodes).map Node.id).Nodup) :
    (nodes.foldl RuleGraph.insert g).Indexed := by
  induction nodes generalizing g with
  | nil => exact h
  | cons node nodes ih =>
    have hsplit : g.nodes ++ node :: nodes = (g.insert node).nodes ++ nodes := by
      rw [nodes_insert, List.append_assoc, List.singleton_append]
    refine ih (h.insert fun other hother hid => ?_) (hsplit ▸ hnodup)
    rw [List.map_append, List.map_cons, List.nodup_append] at hnodup
    exact hnodup.2.2 _ (List.mem_map_of_mem hother) _ List.mem_cons_self hid

theorem Indexed.recount (h : g.Indexed) (counter : NodeCounter) (lastToken : Int64) :
    ({ g with counter, lastToken } : RuleGraph).Indexed := ⟨h.index, h.children⟩

theorem nodup_of_check {s : GraphSnapshot} (h : s.check = .ok ()) :
    (s.nodes.map Node.id).Nodup :=
  (GraphSnapshot.nodup_of_firstDuplicate? (GraphSnapshot.check_eq_ok.mp h).1).1

/-- The graph of a snapshot differs from its store in the counters only. -/
theorem graphOf_eq (s : GraphSnapshot) :
    ∃ counter lastToken, graphOf s = { storeOf s with counter, lastToken } :=
  foldl_restore (g := { storeOf s with counter := s.counter }) _

theorem nodes_graphOf (s : GraphSnapshot) : (graphOf s).nodes = s.sortedNodes := by
  obtain ⟨counter, lastToken, heq⟩ := graphOf_eq s
  rw [heq]
  exact nodes_storeOf s

theorem selection_graphOf (s : GraphSnapshot) : (graphOf s).selection = none := by
  have hstore (nodes : List Node) (g : RuleGraph) :
      (nodes.foldl insert g).selection = g.selection := by
    induction nodes generalizing g with
    | nil => rfl
    | cons node nodes ih => exact ih (g.insert node)
  obtain ⟨counter, lastToken, heq⟩ := graphOf_eq s
  rw [heq]
  exact hstore s.sortedNodes (empty .standard)

theorem indexed_graphOf {s : GraphSnapshot} (h : (s.nodes.map Node.id).Nodup) :
    (graphOf s).Indexed := by
  have hstore : (storeOf s).Indexed := by
    refine (Indexed.empty .standard).foldl_insert ?_
    exact (s.sortedNodes_perm.map Node.id).nodup_iff.mpr h
  obtain ⟨counter, lastToken, heq⟩ := graphOf_eq s
  rw [heq]
  exact hstore.recount counter lastToken

theorem indexed_ofSnapshot {s : GraphSnapshot} (h : ofSnapshot s = .ok g) : g.Indexed := by
  obtain ⟨hcheck, rfl⟩ := ofSnapshot_eq_ok.mp h
  exact indexed_graphOf (nodup_of_check hcheck)

/-! ## The restored counters -/

theorem toNat_max (a b : UInt64) : (max a b).toNat = max a.toNat b.toNat := by
  have hmax : max a b = if a ≤ b then b else a := rfl
  rw [hmax, apply_ite UInt64.toNat, max_def]
  rfl

/-- The number to which a node raises the counter of its type. -/
def countOf? (node : Node) : Option UInt64 :=
  if node.type.requiresGroup then none
  else (Node.suffix? node.id).map fun suffix => (max 0 suffix).toUInt64

theorem countOf?_counterId {node : Node} (htype : node.type.requiresGroup = false)
    {type : NodeType} {count : UInt64} (hid : node.id = counterId type count)
    (hcount : count.toNat < 2 ^ 63) : countOf? node = some count := by
  have hnonneg : 0 ≤ Int64.ofNat count.toNat := by
    rw [Int64.le_iff_toInt_le, Int64.toInt_ofNat_of_lt hcount]
    exact Int.natCast_nonneg _
  have hmax : max 0 (Int64.ofNat count.toNat) = Int64.ofNat count.toNat := if_pos hnonneg
  rw [countOf?, htype, if_neg Bool.false_ne_true, hid, Node.suffix?_counterId type hcount,
    Option.map_some, hmax]
  exact congrArg some UInt64.ofNat_toNat

theorem counter_restore (node : Node) :
    (g.restore node).counter = match countOf? node with
      | none => g.counter
      | some count => g.counter.raiseTo node.type count := by
  rw [restore, countOf?]
  by_cases htype : node.type.requiresGroup
  · rw [if_pos htype]
    cases Node.suffix? node.id with
    | none => rfl
    | some suffix =>
      dsimp only
      rw [if_pos htype]
  · rw [if_neg htype]
    cases Node.suffix? node.id with
    | none => rfl
    | some suffix =>
      dsimp only
      rw [if_neg htype]
      rfl

theorem toNat_get_raiseTo (counter : NodeCounter) (type type' : NodeType) (floor : UInt64) :
    ((counter.raiseTo type floor).get type').toNat =
      if type' = type then max (counter.get type').toNat floor.toNat
      else (counter.get type').toNat := by
  rw [NodeCounter.raiseTo, NodeCounter.get_set]
  split
  · next heq => rw [heq, toNat_max]
  · rfl

theorem get_le_restore (node : Node) (type : NodeType) :
    g.counter.get type ≤ (g.restore node).counter.get type := by
  rw [counter_restore, UInt64.le_iff_toNat_le]
  cases countOf? node with
  | none => exact Nat.le_refl _
  | some count =>
    dsimp only
    rw [toNat_get_raiseTo]
    split
    · exact Nat.le_max_left _ _
    · exact Nat.le_refl _

theorem get_le_foldl_restore (nodes : List Node) (type : NodeType) :
    g.counter.get type ≤ (nodes.foldl restore g).counter.get type := by
  induction nodes generalizing g with
  | nil => exact UInt64.le_refl _
  | cons node nodes ih => exact UInt64.le_trans (get_le_restore node type) ih

/-- The restored counter of a type is at least the number of every node of it. -/
theorem count_le_foldl_restore {nodes : List Node} {node : Node} (hmem : node ∈ nodes)
    {count : UInt64} (hcount : countOf? node = some count) :
    count ≤ (nodes.foldl restore g).counter.get node.type := by
  induction nodes generalizing g with
  | nil => cases hmem
  | cons first nodes ih =>
    rcases List.mem_cons.mp hmem with rfl | hmem
    · refine UInt64.le_trans ?_ (get_le_foldl_restore (g := g.restore node) nodes node.type)
      rw [counter_restore, hcount, UInt64.le_iff_toNat_le]
      dsimp only
      rw [toNat_get_raiseTo, if_pos rfl]
      exact Nat.le_max_right _ _
    · exact ih hmem

/-- A counter that has an entry and is not below the number of a node stays as it is. -/
theorem counter_restore_of_le {node : Node} (h : ∀ count, countOf? node = some count →
    ∃ entry, g.counter.recorded? node.type = some entry ∧ count ≤ entry) :
    (g.restore node).counter = g.counter := by
  rw [counter_restore]
  cases hcount : countOf? node with
  | none => rfl
  | some count =>
    obtain ⟨entry, hentry, hle⟩ := h count hcount
    have hget : g.counter.get node.type = entry := congrArg (·.getD 0) hentry
    have hmax : max entry count = entry := by
      rw [← UInt64.toNat_inj, toNat_max]
      exact Nat.max_eq_left (UInt64.le_iff_toNat_le.mp hle)
    dsimp only
    rw [NodeCounter.raiseTo, hget, hmax]
    exact g.counter.set_recorded hentry

theorem counter_foldl_restore_of_le {nodes : List Node} (h : ∀ node ∈ nodes, ∀ count,
    countOf? node = some count →
      ∃ entry, g.counter.recorded? node.type = some entry ∧ count ≤ entry) :
    (nodes.foldl restore g).counter = g.counter := by
  induction nodes generalizing g with
  | nil => rfl
  | cons node nodes ih =>
    have hfirst := counter_restore_of_le (h node List.mem_cons_self)
    rw [List.foldl_cons, ih, hfirst]
    rw [hfirst]
    exact fun other hmem => h other (List.mem_cons_of_mem _ hmem)

end RuleGraph

end CommissionRules
