import CommissionRules.Proofs.Graph.RoundTrip

/-!
# Imports in any order

Whether a snapshot is accepted does not depend on the order of its nodes, and neither does the graph
if the order of creation names all of them, because no two nodes have the same rank then.  The
export of an imported graph is imported as the same graph: its nodes stand in the order of their
ranks already, and its counter has been raised to the numbers in the ids.
-/

namespace CommissionRules

namespace GraphSnapshot

variable {s t : GraphSnapshot}

/-! ## The order of the nodes -/

theorem lastIndex?_eq_some {id : String} {order : List String} {start place : Nat}
    (h : lastIndex? id start order = some place) :
    start ≤ place ∧ order[place - start]? = some id := by
  induction order generalizing start with
  | nil => cases h
  | cons other order ih =>
    rw [lastIndex?] at h
    cases hlater : lastIndex? id (start + 1) order with
    | some later =>
      rw [hlater] at h
      cases h
      obtain ⟨hle, hplace⟩ := ih hlater
      have hsub : place - start = place - (start + 1) + 1 := by omega
      rw [hsub, List.getElem?_cons_succ]
      exact ⟨by omega, hplace⟩
    | none =>
      rw [hlater] at h
      dsimp only at h
      split at h
      · next heq =>
        cases h
        rw [Nat.sub_self, heq]
        exact ⟨Nat.le_refl _, rfl⟩
      · cases h

theorem exists_lastIndex? {id : String} {order : List String} (h : id ∈ order) (start : Nat) :
    ∃ place, lastIndex? id start order = some place := by
  induction order generalizing start with
  | nil => cases h
  | cons other order ih =>
    rw [lastIndex?]
    cases hlater : lastIndex? id (start + 1) order with
    | some later => exact ⟨later, rfl⟩
    | none =>
      rcases List.mem_cons.mp h with rfl | h
      · exact ⟨start, if_pos rfl⟩
      · obtain ⟨place, hplace⟩ := ih h (start + 1)
        rw [hlater] at hplace
        cases hplace

/-- Nodes that an order names have different ranks, unless they have the same id. -/
theorem id_eq_of_rank_eq {order : List String} {node other : Node} (h : node.id ∈ order)
    (hother : other.id ∈ order) (heq : rank order node = rank order other) :
    node.id = other.id := by
  obtain ⟨place, hplace⟩ := exists_lastIndex? h 0
  obtain ⟨place', hplace'⟩ := exists_lastIndex? hother 0
  rw [rank, rank, hplace, hplace'] at heq
  cases heq
  have hid := (lastIndex?_eq_some hplace).2
  rw [(lastIndex?_eq_some hplace').2] at hid
  exact (Option.some.inj hid).symm

theorem sortedNodes_pairwise (s : GraphSnapshot) :
    s.sortedNodes.Pairwise fun a b => rank s.order a ≤ rank s.order b := by
  let ranked := s.nodes.map fun node => (rank s.order node, node)
  have hrank (pair : Nat × Node) (hmem : pair ∈ ranked.mergeSort fun a b => a.1 ≤ b.1) :
      pair.1 = rank s.order pair.2 := by
    obtain ⟨node, -, rfl⟩ := List.mem_map.mp (List.mem_mergeSort.mp hmem)
    rfl
  have htrans (a b c : Nat × Node) (hab : decide (a.1 ≤ b.1) = true)
      (hbc : decide (b.1 ≤ c.1) = true) : decide (a.1 ≤ c.1) = true := by
    rw [decide_eq_true_iff] at hab hbc ⊢
    omega
  have htotal (a b : Nat × Node) : (decide (a.1 ≤ b.1) || decide (b.1 ≤ a.1)) = true := by
    rw [Bool.or_eq_true, decide_eq_true_iff, decide_eq_true_iff]
    omega
  have hsorted := List.pairwise_mergeSort htrans htotal ranked
  show ((ranked.mergeSort fun a b => a.1 ≤ b.1).map (·.2)).Pairwise _
  rw [List.pairwise_map]
  refine hsorted.imp_of_mem fun {a b} ha hb hle => ?_
  rwa [decide_eq_true_iff, hrank a ha, hrank b hb] at hle

/-- If the order names all nodes, it alone decides how they are sorted. -/
theorem sortedNodes_eq_of_perm (hids : (s.nodes.map Node.id).Nodup) (hnodes : s.nodes.Perm t.nodes)
    (horder : s.order = t.order) (hnamed : ∀ node ∈ s.nodes, node.id ∈ s.order) :
    s.sortedNodes = t.sortedNodes := by
  have hperm : s.sortedNodes.Perm t.sortedNodes :=
    s.sortedNodes_perm.trans (hnodes.trans t.sortedNodes_perm.symm)
  have hsorted := t.sortedNodes_pairwise
  rw [← horder] at hsorted
  refine hperm.eq_of_pairwise (fun a b ha hb hle hge => ?_) s.sortedNodes_pairwise hsorted
  have ha' : a ∈ s.nodes := s.sortedNodes_perm.mem_iff.mp ha
  have hb' : b ∈ s.nodes := s.sortedNodes_perm.mem_iff.mp (hperm.mem_iff.mpr hb)
  refine List.inj_on_of_nodup_map hids ha' hb' ?_
  exact id_eq_of_rank_eq (hnamed a ha') (hnamed b hb') (Nat.le_antisymm hle hge)

end GraphSnapshot

namespace RuleGraph

variable {g g' : RuleGraph}

/-! ## Counters that were restored -/

theorem recorded_foldl_restore_of {nodes : List Node} {type : NodeType}
    (h : (g.counter.recorded? type).isSome) :
    ((nodes.foldl restore g).counter.recorded? type).isSome := by
  induction nodes generalizing g with
  | nil => exact h
  | cons node nodes ih =>
    refine ih ?_
    rw [counter_restore]
    cases countOf? node with
    | none => exact h
    | some count =>
      dsimp only
      rw [NodeCounter.raiseTo, NodeCounter.recorded?_set]
      split
      · rfl
      · exact h

/-- A type of which a node has a number gets an entry. -/
theorem recorded_foldl_restore {nodes : List Node} {node : Node} (hmem : node ∈ nodes)
    {count : UInt64} (hcount : countOf? node = some count) :
    ((nodes.foldl restore g).counter.recorded? node.type).isSome := by
  induction nodes generalizing g with
  | nil => cases hmem
  | cons first nodes ih =>
    rcases List.mem_cons.mp hmem with rfl | hmem
    · rw [List.foldl_cons]
      refine recorded_foldl_restore_of ?_
      rw [counter_restore, hcount]
      dsimp only
      rw [NodeCounter.raiseTo, NodeCounter.recorded?_set, if_pos rfl]
      rfl
    · exact ih hmem

/-- Restoring from a counter that was restored leaves it as it is. -/
theorem counter_foldl_restore_again (nodes : List Node)
    (h : g'.counter = (nodes.foldl restore g).counter) :
    (nodes.foldl restore g').counter = g'.counter := by
  refine counter_foldl_restore_of_le fun node hmem count hcount => ?_
  obtain ⟨entry, hentry⟩ :=
    Option.isSome_iff_exists.mp (recorded_foldl_restore (g := g) hmem hcount)
  have hget : (nodes.foldl restore g).counter.get node.type = entry :=
    congrArg (·.getD 0) hentry
  refine ⟨entry, h ▸ hentry, ?_⟩
  rw [← hget]
  exact count_le_foldl_restore hmem hcount

theorem lastToken_foldl_restore_congr (nodes : List Node) (h : g'.lastToken = g.lastToken) :
    (nodes.foldl restore g').lastToken = (nodes.foldl restore g).lastToken := by
  induction nodes generalizing g g' with
  | nil => exact h
  | cons node nodes ih =>
    refine ih ?_
    rw [restore, restore]
    split
    · exact h
    · split
      · show max g'.lastToken _ = max g.lastToken _
        rw [h]
      · exact h

/-! ## Imported graphs -/

theorem graphOf_congr {s t : GraphSnapshot} (hsorted : s.sortedNodes = t.sortedNodes)
    (hcounter : s.counter = t.counter) : graphOf s = graphOf t := by
  have hstore : storeOf s = storeOf t := congrArg (List.foldl insert (empty .standard)) hsorted
  rw [graphOf, graphOf, hstore, hcounter]

theorem graphOf_toSnapshot {s : GraphSnapshot} (hids : (s.nodes.map Node.id).Nodup) :
    graphOf (graphOf s).toSnapshot = graphOf s := by
  let t := (graphOf s).toSnapshot
  have hnodes : t.nodes = s.sortedNodes := nodes_graphOf s
  have hids' : (t.nodes.map Node.id).Nodup := by
    rw [hnodes]
    exact (s.sortedNodes_perm.map Node.id).nodup_iff.mpr hids
  have hsorted : t.sortedNodes = s.sortedNodes :=
    (GraphSnapshot.sortedNodes_of_order hids' rfl).trans hnodes
  have hstore : storeOf t = storeOf s := congrArg (List.foldl insert (empty .standard)) hsorted
  obtain ⟨counter, lastToken, hs⟩ := graphOf_eq s
  obtain ⟨counter', lastToken', ht⟩ := graphOf_eq t
  have hcounter : (graphOf t).counter = (graphOf s).counter := by
    rw [graphOf, hstore]
    exact counter_foldl_restore_again _ rfl
  have hlast : (graphOf t).lastToken = (graphOf s).lastToken := by
    rw [graphOf, hstore]
    exact lastToken_foldl_restore_congr _ rfl
  show graphOf t = graphOf s
  rw [hs, ht] at hcounter hlast ⊢
  cases hcounter
  cases hlast
  rw [hstore]

/-- Of two snapshots that differ in nothing but the order of their nodes both are accepted or none,
and if the order of creation names all nodes, they give the same graph.  The export of an imported
graph is imported as this graph. -/
theorem import_independent_of_order {s t : GraphSnapshot} (hnodes : s.nodes.Perm t.nodes)
    (hcounter : s.counter = t.counter) (horder : s.order = t.order) :
    ((∃ g, ofSnapshot s = .ok g) ↔ ∃ g, ofSnapshot t = .ok g) ∧
      ((∀ node ∈ s.nodes, node.id ∈ s.order) →
        ∀ g, ofSnapshot s = .ok g ↔ ofSnapshot t = .ok g) ∧
      ∀ g, ofSnapshot s = .ok g → ofSnapshot g.toSnapshot = .ok g := by
  have hwell : GraphSnapshot.WellFormed s.nodes ↔ GraphSnapshot.WellFormed t.nodes :=
    ⟨fun h => h.perm hnodes, fun h => h.perm hnodes.symm⟩
  refine ⟨?_, fun hnamed g => ?_, fun g hg => ?_⟩
  · rw [exists_ofSnapshot_iff, exists_ofSnapshot_iff, hwell]
  · rw [ofSnapshot_eq_ok, ofSnapshot_eq_ok, GraphSnapshot.check_iff_wellFormed,
      GraphSnapshot.check_iff_wellFormed, ← hwell]
    refine and_congr_right fun h => ?_
    have hsorted := GraphSnapshot.sortedNodes_eq_of_perm h.ids hnodes horder hnamed
    rw [graphOf_congr hsorted hcounter]
  · have hexport : g.toSnapshot.check = .ok () :=
      GraphSnapshot.check_of_wellFormed (wellFormed_ofSnapshot hg)
    obtain ⟨hcheck, rfl⟩ := ofSnapshot_eq_ok.mp hg
    exact ofSnapshot_eq_ok.mpr ⟨hexport, graphOf_toSnapshot (nodup_of_check hcheck)⟩

/-- The stray group with an order of creation, once as it was and once with its name node first. -/
theorem import_independent_of_order_stray : ∃ g,
    ofSnapshot { strayGroup with order := ["A", "B"] } = .ok g ∧
      ofSnapshot { strayGroup with nodes := strayGroup.nodes.reverse, order := ["A", "B"] } =
        .ok g ∧
      ofSnapshot g.toSnapshot = .ok g := by
  let s : GraphSnapshot := { strayGroup with order := ["A", "B"] }
  let t : GraphSnapshot := { s with nodes := strayGroup.nodes.reverse }
  have hcheck : s.check = .ok () := by rfl
  have hnamed : ∀ node ∈ s.nodes, node.id ∈ s.order := by decide
  obtain ⟨-, hsame, hexport⟩ :=
    import_independent_of_order (s := s) (t := t) (List.reverse_perm _).symm rfl rfl
  have hs : ofSnapshot s = .ok (graphOf s) := ofSnapshot_eq_ok.mpr ⟨hcheck, rfl⟩
  exact ⟨graphOf s, hs, (hsame hnamed _).mp hs, hexport _ hs⟩

end RuleGraph

end CommissionRules
