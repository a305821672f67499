import CommissionRules.Proofs.Evaluation.Grouping
import CommissionRules.Proofs.Evaluation.Renaming

/-!
# Distinct items

The distinct items of a list are the keys of its groups where every item is its own key:
`Collection.distinct_eq_keys`.  So what is known of groups holds of them.  They are a part of the
list in which no two are equal, and what is left out equals an item that stands before it:
`Collection.Thinned`.  In the language the keys are those of grouping by a lambda that gives each
item back, which takes two steps for an item: `Run.distinct_agrees_with_groupBy`.
-/

namespace CommissionRules

namespace Collection

/-! ## Keys of groups -/

theorem distinctAfter_eq_loop (kept items : List Value) :
    distinctAfter kept items = List.eraseDupsBy.loop (fun a b => b.equal a) items kept := by
  induction items generalizing kept with
  | nil => rfl
  | cons item rest ih =>
    rw [distinctAfter, List.eraseDupsBy.loop, ih, ih]
    cases kept.any fun other => other.equal item <;> rfl

theorem distinct_cons (item : Value) (rest : List Value) :
    distinct (item :: rest) = item :: distinct (rest.filter fun other => !item.equal other) := by
  have hloop (items : List Value) : distinct items = items.eraseDupsBy fun a b => b.equal a :=
    distinctAfter_eq_loop [] items
  rw [hloop, List.eraseDupsBy_cons, hloop]
  simp

theorem distinct_map_key (listed : List Entry) :
    distinct (listed.map Entry.key) = (grouped listed).map Group.key := by
  induction listed using grouped.induct with
  | case1 =>
    rw [grouped]
    rfl
  | case2 first rest ih =>
    rw [grouped, List.map_cons, List.map_cons, distinct_cons, List.filter_map, ← ih]
    rfl

/-- Where the items are their own keys, an entry is an item with its place. -/
theorem entries_self (items : List Value) :
    (entries items items).map (fun entry => (entry.key, entry.place)) = items.zipIdx := by
  have hzip : items.zip items = items.map fun item => (item, item) := by
    induction items with
    | nil => rfl
    | cons item rest ih => rw [List.zip_cons_cons, ih, List.map_cons]
  rw [entries, hzip, List.zipIdx_map, List.map_map]
  exact List.map_id _

theorem distinct_eq_keys (items : List Value) :
    distinct items = (grouped (entries items items)).map Group.key := by
  have hkeys : (entries items items).map Entry.key = items := by
    have hfirst := congrArg (List.map (·.1)) (entries_self items)
    rwa [List.map_map, List.zipIdx_map_fst] at hfirst
  rw [← distinct_map_key, hkeys]

theorem distinct_of_unequal {items : List Value}
    (h : items.Pairwise fun a b => a.equal b = false) : distinct items = items := by
  induction items with
  | nil => rfl
  | cons item rest ih =>
    obtain ⟨hitem, hrest⟩ := List.pairwise_cons.mp h
    have hstay : (rest.filter fun other => !item.equal other) = rest :=
      List.filter_eq_self.mpr fun other hother => by rw [hitem other hother]; rfl
    rw [distinct_cons, hstay, ih hrest]

/-! ## What stays -/

/-- The second list has what stays of the first one if of equal values only the first may stay. -/
structure Thinned (items kept : List Value) : Prop where
  unequal : kept.Pairwise fun a b => a.equal b = false ∧ b.equal a = false
  /-- What does not stay in its place is equal to an earlier value that does. -/
  stays : ∃ places : List (Value × Nat), places.Sublist items.zipIdx ∧ places.map (·.1) = kept ∧
    ∀ entry ∈ items.zipIdx, entry ∈ places ∨
      ∃ earlier ∈ places, earlier.2 < entry.2 ∧ earlier.1.equal entry.1 = true

theorem distinct_thinned (items : List Value) : Thinned items (distinct items) where
  unequal := by
    rw [distinct_eq_keys, List.pairwise_map]
    exact keys_unequal _
  stays := by
    refine ⟨(grouped (entries items items)).map fun group => (group.key, group.first.place),
      ?_, ?_, fun entry hentry => ?_⟩
    · have hfirsts := (firsts_sublist (entries items items)).map fun entry =>
        (entry.key, entry.place)
      rwa [entries_self, List.map_map] at hfirsts
    · rw [distinct_eq_keys, List.map_map]
      rfl
    · rw [← entries_self] at hentry
      obtain ⟨listed, hlisted, rfl⟩ := List.mem_map.mp hentry
      obtain ⟨group, hgroup, hmember⟩ :=
        List.mem_flatMap.mp ((members_perm (entries items items)).mem_iff.mpr hlisted)
      rcases List.mem_cons.mp hmember with rfl | hother
      · exact .inl (List.mem_map.mpr ⟨group, hgroup, rfl⟩)
      · obtain ⟨hsublist, hequal⟩ := members_of_mem_grouped hgroup
        have hordered := (entries_ordered items items).sublist hsublist
        exact .inr ⟨_, List.mem_map.mpr ⟨group, hgroup, rfl⟩,
          List.rel_of_pairwise_cons hordered hother, hequal listed hother⟩

/-- What stays once stays again. -/
theorem distinct_distinct (items : List Value) : distinct (distinct items) = distinct items :=
  distinct_of_unequal ((distinct_thinned items).unequal.imp And.left)

end Collection

namespace Run

open Eval

variable (run : Run)

/-! ## The lambda that gives each item back -/

theorem tick_run {steps : Nat} (hsteps : steps < run.budget.maxSteps)
    (hclock : ∀ n, run.elapsed n ≤ run.budget.timeout) :
    run.tick.run.run steps = (.ok (), steps + 1) := by
  show (if run.budget.maxSteps < steps + 1 then throw (.stepBudgetExceeded run.budget.maxSteps)
    else if (steps + 1) % clockInterval = 0 && run.budget.timeout < run.elapsed (steps + 1)
      then throw (.timedOut run.budget.timeout) else pure () : Eval Unit).run.run (steps + 1) = _
  have hexpired : ((steps + 1) % clockInterval = 0 &&
      run.budget.timeout < run.elapsed (steps + 1)) = false := by
    rw [Bool.and_eq_false_iff, decide_eq_false_iff_not, decide_eq_false_iff_not, Nat.not_lt]
    exact .inr (hclock _)
  rw [if_neg (Nat.not_lt.mpr hsteps), hexpired]
  rfl

theorem eval_parameter {depth steps : Nat} (hdepth : depth ≤ run.budget.maxDepth)
    (hsteps : steps < run.budget.maxSteps) (hclock : ∀ n, run.elapsed n ≤ run.budget.timeout)
    (param : String) (item : Value) (locals : Locals) :
    (run.eval (.ref param []) ((param, item) :: locals) depth).run.run steps =
      (.ok item, steps + 1) := by
  rw [eval, run.enter_of_le hdepth, run_bind_of_ok (run.tick_run hsteps hclock),
    resolve_cons_self]
  rfl

/-- A step for the application of the lambda and one for the parameter, for each item. -/
theorem all_parameters {depth steps : Nat} {items : List Value}
    (hdepth : depth ≤ run.budget.maxDepth) (hsteps : steps + 2 * items.length ≤ run.budget.maxSteps)
    (hclock : ∀ n, run.elapsed n ≤ run.budget.timeout) (param : String) (locals : Locals) :
    (Eval.all (fun item => do
      run.tick
      run.eval (.ref param []) ((param, item) :: locals) depth) items).run.run steps =
        (.ok items, steps + 2 * items.length) := by
  induction items generalizing steps with
  | nil => rfl
  | cons item rest ih =>
    rw [List.length_cons] at hsteps ⊢
    have htick := run.tick_run (by omega : steps < run.budget.maxSteps) hclock
    have hitem := run.eval_parameter hdepth (by omega : steps + 1 < run.budget.maxSteps) hclock
      param item locals
    have hrest := ih (by omega : steps + 2 + 2 * rest.length ≤ run.budget.maxSteps)
    rw [Eval.all, run_bind_of_ok ((run_bind_of_ok htick).trans hitem), run_bind_of_ok hrest]
    show (Except.ok (item :: rest), steps + 2 + 2 * rest.length) = _
    rw [Nat.mul_add, Nat.add_right_comm, Nat.add_assoc]

/-- A method of a list is applied to the items where its node does not exceed the budget. -/
theorem eval_method_of_list {receiver : Expr} {items : List Value} {locals : Locals}
    {depth steps steps' : Nat} (hdepth : depth ≤ run.budget.maxDepth)
    (hsteps : steps < run.budget.maxSteps) (hclock : ∀ n, run.elapsed n ≤ run.budget.timeout)
    (hreceiver : (run.eval receiver locals (depth + 1)).run.run (steps + 1) =
      (.ok (.list items), steps')) (name : String) (argument : Argument Expr) :
    (run.eval (.method receiver name argument) locals depth).run.run steps =
      (Collection.apply name items (run.operand argument locals (depth + 1))).run.run steps' := by
  rw [eval, run.enter_of_le hdepth, run_bind_of_ok (run.tick_run hsteps hclock),
    run_bind_of_ok hreceiver]

/-- Under a budget that suffices, the distinct items of a list are the keys of its groups by a
lambda that gives each item back.  They are what stays where of equal items only the first one may
stay, and all of them stay if this is done again. -/
theorem distinct_agrees_with_groupBy {receiver : Expr} {items : List Value} {locals : Locals}
    {depth steps steps' : Nat} (hdepth : depth < run.budget.maxDepth)
    (hfirst : steps < run.budget.maxSteps)
    (hsteps : steps' + 2 * items.length ≤ run.budget.maxSteps)
    (hclock : ∀ n, run.elapsed n ≤ run.budget.timeout)
    (hreceiver : (run.eval receiver locals (depth + 1)).run.run (steps + 1) =
      (.ok (.list items), steps')) (param : String) :
    ∃ kept groups : List Value,
      (run.eval (.method receiver "distinct" .none) locals depth).run.run steps =
        (.ok (.list kept), steps') ∧
      (run.eval (.method receiver "groupBy" (.lambda param (.ref param []))) locals depth).run.run
        steps = (.ok (.list groups), steps' + 2 * items.length) ∧
      groups.map (Value.property "Key") = kept.map .ok ∧
      Collection.Thinned items kept ∧
      ∀ operand, Collection.apply "distinct" kept operand = pure (.list kept) := by
  have happly := run.eval_method_of_list (Nat.le_of_lt hdepth) hfirst hclock hreceiver
  have hkeys := run.all_parameters hdepth hsteps hclock param locals
  refine ⟨Collection.distinct items, (Collection.grouped (Collection.entries items items)).map
    Collection.Group.value, ?_, ?_, ?_, Collection.distinct_thinned items, fun operand => ?_⟩
  · rw [happly]
    rfl
  · rw [happly, operand, Collection.apply_groupBy hkeys]
  · rw [Collection.distinct_eq_keys, List.map_map, List.map_map]
    exact List.map_congr_left fun group _ => group.value_key
  · show pure (Value.list (Collection.distinct (Collection.distinct items))) = _
    rw [Collection.distinct_distinct]

/-- Of two lists with a zero of either sign the first one stays, and of two NaNs both do.  The
budget is just enough. -/
theorem distinct_agrees_with_groupBy_zeros :
    let zeros (zero : Number) : Value := .list [.null, .number zero]
    let items : List Value :=
      [zeros .zero, .number .nan, zeros Number.zero.neg, .number .nan]
    let run : Run := ⟨.empty, ⟨2, 10, 0⟩, fun _ => 0⟩
    (run.eval (.literal (.list items)) [] 2).run.run 1 = (.ok (.list items), 2) ∧
      ∃ groups, (run.eval (.method (.literal (.list items)) "groupBy"
          (.lambda "x" (.ref "x" []))) [] 1).run.run 0 = (.ok (.list groups), 10) ∧
        groups.map (Value.property "Key") =
          [.ok (zeros .zero), .ok (.number .nan), .ok (.number .nan)] := by
  intro zeros items run
  have hreceiver : (run.eval (.literal (.list items)) [] 2).run.run 1 = (.ok (.list items), 2) :=
    rfl
  obtain ⟨kept, groups, hdistinct, hgroups, hkeys, -⟩ := run.distinct_agrees_with_groupBy
    (by decide) (by decide) (by decide) (fun _ => Nat.le_refl _) hreceiver "x"
  have hkept : (run.eval (.method (.literal (.list items)) "distinct" .none) [] 1).run.run 0 =
      (.ok (.list [zeros .zero, .number .nan, .number .nan]), 2) := rfl
  rw [hkept] at hdistinct
  cases hdistinct
  exact ⟨hreceiver, groups, hgroups, hkeys⟩

end Run

end CommissionRules
