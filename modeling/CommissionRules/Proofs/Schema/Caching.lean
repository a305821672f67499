import Mathlib
import CommissionRules.Schema

/-!
# Answers from a cache

A session keeps the history of what the inner provider was asked and of what was invalidated, in
the order in which it happened.  The history alone says which answers stand, without looking at
the cache: `SchemaHistory.standing?`.  The cache holds exactly these (`SchemaSession.Faithful`), so
that a request is answered from the history where it can be, and by one call of the inner provider
where it cannot: `SchemaSession.answers_standing`.
-/

namespace CommissionRules

/-! ## Histories -/

inductive SchemaEvent where
  /-- The inner provider was asked about a table and gave an answer. -/
  | answered (table : String) (answer : SchemaAnswer)
  | invalidated (table : String)

namespace SchemaEvent

def invalidates (table : String) : SchemaEvent → Bool
  | invalidated table' => table' = table
  | answered _ _ => false

/-- The fields that an event gives a table. -/
def success? (table : String) : SchemaEvent → Option (List FieldInfo)
  | answered table' (.ok fields) => if table' = table then some fields else none
  | _ => none

end SchemaEvent

/-- Events, the oldest first. -/
abbrev SchemaHistory := List SchemaEvent

namespace SchemaHistory

variable (history : SchemaHistory) (table table' : String)

/-- What happened after a table was last invalidated. -/
def since : SchemaHistory := (history.reverse.takeWhile fun e => !e.invalidates table).reverse

/-- The answer of the first call for a table that succeeded since the table was last invalidated. -/
def standing? : Option (List FieldInfo) := (history.since table).findSome? (·.success? table)

theorem since_concat (event : SchemaEvent) : SchemaHistory.since (history ++ [event]) table =
    if event.invalidates table then [] else history.since table ++ [event] := by
  rw [since, List.reverse_append, List.reverse_singleton, List.singleton_append,
    List.takeWhile_cons]
  cases event.invalidates table with
  | true => rfl
  | false => exact List.reverse_cons

theorem standing?_invalidated :
    SchemaHistory.standing? (history ++ [.invalidated table']) table =
      if table = table' then none else history.standing? table := by
  rw [standing?, since_concat]
  by_cases h : table = table'
  · have hself : (SchemaEvent.invalidated table').invalidates table := decide_eq_true h.symm
    rw [if_pos h, if_pos hself]
    rfl
  · have hother : ¬ (SchemaEvent.invalidated table').invalidates table :=
      fun heq => h (of_decide_eq_true heq).symm
    rw [if_neg h, if_neg hother, List.findSome?_append]
    exact Option.or_none

/-- An answer stands unless it is a failure or an earlier one stands already. -/
theorem standing?_answered (answer : SchemaAnswer) :
    SchemaHistory.standing? (history ++ [.answered table' answer]) table =
      (history.standing? table).or ((SchemaEvent.answered table' answer).success? table) := by
  have hcall : ¬ (SchemaEvent.answered table' answer).invalidates table := Bool.false_ne_true
  rw [standing?, since_concat, if_neg hcall, List.findSome?_append, List.findSome?_singleton]
  rfl

end SchemaHistory

/-! ## Sessions -/

/-- A provider that writes down what it was asked. -/
def SchemaProvider.logged {σ : Type} (inner : SchemaProvider σ) :
    SchemaProvider (SchemaHistory × σ) := fun table (history, state) =>
  let (answer, state) := (inner table).run state
  (answer, history ++ [.answered table answer], state)

inductive SchemaRequest where
  | fields (table : String)
  | invalidate (table : String)

/-- A cache in use, with the state of the inner provider behind it. -/
structure SchemaSession (σ : Type) where
  cache : SchemaCache
  history : SchemaHistory
  state : σ

namespace SchemaSession

variable {σ : Type} (inner : SchemaProvider σ)

/-- A session with a new cache. -/
def start (state : σ) : SchemaSession σ := ⟨.empty, [], state⟩

/-- Serves a request: the answer, if it asks for one, and the session afterwards. -/
def serve (s : SchemaSession σ) : SchemaRequest → Option SchemaAnswer × SchemaSession σ
  | .fields table =>
      let (answer, cache, history, state) :=
        (SchemaCache.fields inner.logged table).run (s.cache, s.history, s.state)
      (some answer, ⟨cache, history, state⟩)
  | .invalidate table =>
      (none, ⟨s.cache.invalidate table, s.history ++ [.invalidated table], s.state⟩)

/-- Serves requests one after the other. -/
def serveAll (s : SchemaSession σ) : List SchemaRequest → List SchemaAnswer × SchemaSession σ
  | [] => ([], s)
  | request :: rest =>
      let (answer, s) := s.serve inner request
      let (answers, s) := s.serveAll rest
      (answer.toList ++ answers, s)

variable {inner} {s : SchemaSession σ} {table : String}

theorem serve_hit {fields : List FieldInfo} (h : s.cache.get? table = some fields) :
    s.serve inner (.fields table) = (some (.ok fields), s) := by
  have hrun : (SchemaCache.fields inner.logged table).run (s.cache, s.history, s.state) =
      (.ok fields, s.cache, s.history, s.state) := by
    show SchemaCache.fields inner.logged table (s.cache, s.history, s.state) = _
    rw [SchemaCache.fields, h]
  rw [serve, hrun]

/-- A table that is not in the cache is asked for once, and its answer is written down. -/
theorem serve_miss (h : s.cache.get? table = none) :
    s.serve inner (.fields table) =
      let (answer, state) := (inner table).run s.state
      (some answer,
        ⟨s.cache.record table answer, s.history ++ [.answered table answer], state⟩) := by
  have hrun : (SchemaCache.fields inner.logged table).run (s.cache, s.history, s.state) =
      let (answer, state) := (inner table).run s.state
      (answer, s.cache.record table answer, s.history ++ [.answered table answer], state) := by
    show SchemaCache.fields inner.logged table (s.cache, s.history, s.state) = _
    rw [SchemaCache.fields, h]
    rfl
  rw [serve, hrun]
  rfl

/-! ## What stands is what is kept -/

/-- The cache holds the answers that stand by the history. -/
def Faithful (s : SchemaSession σ) : Prop :=
  ∀ table, s.cache.get? table = s.history.standing? table

theorem Faithful.start (state : σ) : (start state).Faithful := fun _ => rfl

theorem get?_record (cache : SchemaCache) (table table' : String) (answer : SchemaAnswer)
    (h : cache.get? table = none) :
    (cache.record table answer).get? table' =
      (cache.get? table').or ((SchemaEvent.answered table answer).success? table') := by
  cases answer with
  | error e => exact Option.or_none.symm
  | ok fields =>
    show (cache.insert table fields).get? table' = _
    rw [Dict.get?_insert, SchemaEvent.success?]
    by_cases heq : table' = table
    · rw [if_pos heq, if_pos heq.symm, heq, h]
      rfl
    · rw [if_neg heq, if_neg (Ne.symm heq), Option.or_none]

theorem Faithful.serve (h : s.Faithful) (request : SchemaRequest) :
    (s.serve inner request).2.Faithful := by
  intro table'
  cases request with
  | invalidate table =>
    show (s.cache.erase table).get? table' = _
    rw [Dict.get?_erase, h table']
    exact (s.history.standing?_invalidated table' table).symm
  | fields table =>
    cases hcached : s.cache.get? table with
    | some fields =>
      rw [serve_hit hcached]
      exact h table'
    | none =>
      rw [serve_miss hcached]
      show (s.cache.record table _).get? table' = _
      rw [get?_record s.cache table table' _ hcached, h table']
      exact (s.history.standing?_answered table' table _).symm

theorem Faithful.serveAll (h : s.Faithful) (requests : List SchemaRequest) :
    (s.serveAll inner requests).2.Faithful := by
  induction requests generalizing s with
  | nil => exact h
  | cons request rest ih => exact ih (h.serve request)

/-- The tables in the cache are those with an answer that stands. -/
theorem Faithful.size_eq (h : s.Faithful) :
    s.cache.size = {table | (s.history.standing? table).isSome}.ncard := by
  have htables : {table | (s.history.standing? table).isSome} = ↑s.cache.keys.toFinset := by
    ext table
    rw [Set.mem_ofPred_eq, ← h table, List.coe_toFinset, Set.mem_ofPred_eq, Dict.mem_keys]
    rfl
  rw [htables, Set.ncard_coe_finset, List.toFinset_card_of_nodup s.cache.nodup_keys,
    Dict.length_keys]

/-! ## Providers with fixed answers -/

/-- The answers that requests get from a provider of fixed answers without a cache. -/
def direct (answerOf : String → SchemaAnswer) (requests : List SchemaRequest) :
    List SchemaAnswer :=
  requests.filterMap fun
    | .fields table => some (answerOf table)
    | .invalidate _ => none

/-- The cache holds no other answers than those of the inner provider. -/
def KeepsOnly (s : SchemaSession σ) (answerOf : String → SchemaAnswer) : Prop :=
  ∀ table fields, s.cache.get? table = some fields → answerOf table = .ok fields

section Fixed

variable {answerOf : String → SchemaAnswer}
  (fixed : ∀ table state, ((inner table).run state).1 = answerOf table)

include fixed

theorem KeepsOnly.serve (h : s.KeepsOnly answerOf) (request : SchemaRequest) :
    (s.serve inner request).1.toList = direct answerOf [request] ∧
      (s.serve inner request).2.KeepsOnly answerOf := by
  cases request with
  | invalidate table =>
    refine ⟨rfl, fun table' fields hkept => ?_⟩
    have herased : (s.cache.erase table).get? table' = some fields := hkept
    rw [Dict.get?_erase] at herased
    split at herased
    · cases herased
    · exact h table' fields herased
  | fields table =>
    cases hcached : s.cache.get? table with
    | some fields =>
      rw [serve_hit hcached]
      refine ⟨?_, h⟩
      show [.ok fields] = [answerOf table]
      rw [h table fields hcached]
    | none =>
      rw [serve_miss hcached]
      have hanswer := fixed table s.state
      refine ⟨congrArg (fun answer => [answer]) hanswer, fun table' fields hkept => ?_⟩
      have hrecorded : (s.cache.record table (answerOf table)).get? table' = some fields :=
        hanswer ▸ hkept
      cases hfixed : answerOf table with
      | error e =>
        rw [hfixed] at hrecorded
        exact h table' fields hrecorded
      | ok fresh =>
        rw [hfixed] at hrecorded
        have hinserted : (s.cache.insert table fresh).get? table' = some fields := hrecorded
        rw [Dict.get?_insert] at hinserted
        split at hinserted
        · next heq =>
          cases hinserted
          exact heq ▸ hfixed
        · exact h table' fields hinserted

theorem KeepsOnly.serveAll (h : s.KeepsOnly answerOf) (requests : List SchemaRequest) :
    (s.serveAll inner requests).1 = direct answerOf requests := by
  induction requests generalizing s with
  | nil => rfl
  | cons request rest ih =>
    obtain ⟨hanswer, hkept⟩ := h.serve fixed request
    show (s.serve inner request).1.toList ++ ((s.serve inner request).2.serveAll inner rest).1 = _
    rw [hanswer, ih hkept]
    exact (List.filterMap_append (l := [request])).symm

end Fixed

/-! ## Requests -/

/-- After any requests to a new cache, an answer is given from the cache exactly if the history has
one that stands, and that is the answer; else the inner provider is asked once and its answer is
given.  What stands is what the cache holds, and so many tables are in it.  Where the answers of the
inner provider are fixed, the cache makes no difference to those that are given. -/
theorem answers_standing (inner : SchemaProvider σ) (state : σ) (requests : List SchemaRequest) :
    let s := ((start state).serveAll inner requests).2
    (∀ table,
      (∀ fields, s.history.standing? table = some fields →
        s.serve inner (.fields table) = (some (.ok fields), s)) ∧
      (s.history.standing? table = none →
        let (answer, state') := (inner table).run s.state
        let (given, s') := s.serve inner (.fields table)
        given = some answer ∧ s'.history = s.history ++ [.answered table answer] ∧
          s'.state = state') ∧
      s.cache.get? table = s.history.standing? table) ∧
    s.cache.size = {table | (s.history.standing? table).isSome}.ncard ∧
    ∀ answerOf : String → SchemaAnswer,
      (∀ table state, ((inner table).run state).1 = answerOf table) →
        ((start state).serveAll inner requests).1 = direct answerOf requests := by
  intro s
  have h : s.Faithful := (Faithful.start state).serveAll requests
  refine ⟨fun table => ⟨fun fields hstanding => ?_, fun hstanding => ?_, h table⟩, h.size_eq,
    fun answerOf fixed => ?_⟩
  · exact serve_hit ((h table).trans hstanding)
  · rw [serve_miss ((h table).trans hstanding)]
    exact ⟨rfl, rfl, rfl⟩
  · have hempty : (start state).KeepsOnly answerOf := fun _ _ hkept => (nomatch hkept)
    exact hempty.serveAll fixed requests

/-- A provider that fails at the first call, and later gives a column with another type every
time. -/
def flaky : SchemaProvider Nat := fun table n =>
  match n with
  | 0 => (.error (.unavailable "offline"), 1)
  | n + 1 => (.ok [⟨table, .ofList (List.replicate n 'x')⟩], n + 2)

/-- A failure, an answer for each of two tables, and the second table invalidated. -/
def flakyRequests : List SchemaRequest :=
  [.fields "sales", .fields "sales", .fields "plans", .fields "sales", .invalidate "plans"]

/-- The provider of one table, whose answers are fixed. -/
def salesTable : SchemaProvider Unit := .ofTables (.ofList [("sales", [⟨"id", "number"⟩])])

theorem answers_standing_flaky :
    let s := ((start 0).serveAll flaky flakyRequests).2
    (s.history.standing? "sales" = some [⟨"sales", ""⟩] ∧
      s.serve flaky (.fields "sales") = (some (.ok [⟨"sales", ""⟩]), s)) ∧
    (s.history.standing? "plans" = none ∧
      (s.serve flaky (.fields "plans")).1 = some (.ok [⟨"plans", "xx"⟩])) ∧
    (∀ table state, ((salesTable table).run state).1 = ((salesTable table).run ()).1) ∧
      ((start ()).serveAll salesTable flakyRequests).1 =
        direct (fun table => ((salesTable table).run ()).1) flakyRequests := by
  intro s
  have h := (answers_standing flaky 0 flakyRequests).1
  have hsales : s.history.standing? "sales" = some [⟨"sales", ""⟩] := by decide +kernel
  have hplans : s.history.standing? "plans" = none := by decide +kernel
  refine ⟨⟨hsales, (h "sales").1 _ hsales⟩, ⟨hplans, ((h "plans").2.1 hplans).1⟩,
    fun _ _ => rfl, ?_⟩
  exact (answers_standing salesTable () flakyRequests).2.2 _ fun _ _ => rfl

end SchemaSession

end CommissionRules
