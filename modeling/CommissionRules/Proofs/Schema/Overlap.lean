import CommissionRules.Proofs.Schema.Caching

/-!
# Calls that overlap

A call for the fields of a table reads the cache, waits for the answer of the inner provider, and
writes the cache.  Other calls take their steps in between.  So an answer may reach the cache only
after its table was invalidated, and calls that start later get it still:
`SchemaTraffic.invalidation_lost`.  An answer survives an invalidation in no other way:
`SchemaTraffic.answers_after_invalidation`.

The steps are those of `SchemaCache.fields`, which a call takes one after the other where nothing
comes in between: `SchemaTraffic.fields_undisturbed`.
-/

namespace CommissionRules

/-- A step that is taken at a cache. -/
inductive SchemaTurn where
  /-- A call starts and reads the cache. -/
  | look (call : Nat) (table : String)
  /-- The inner provider answers a call. -/
  | receive (call : Nat)
  /-- A call writes the cache and returns. -/
  | store (call : Nat)
  | invalidate (table : String)

/-- How far a call has come.  A time is the number of events in the history before it. -/
inductive SchemaCall where
  | asking (table : String) (start : Nat)
  | answered (table : String) (start : Nat) (answer : SchemaAnswer) (given : Nat)
  | returned (table : String) (start : Nat) (answer : SchemaAnswer) (given finish : Nat)

/-- A cache with the calls that were ever made to it. -/
structure SchemaTraffic (σ : Type) where
  cache : SchemaCache
  /-- When the inner provider gave the answers that are in the cache. -/
  given : String → Nat
  history : SchemaHistory
  state : σ
  calls : Nat → Option SchemaCall

namespace SchemaTraffic

variable {σ : Type} (inner : SchemaProvider σ)

/-! ## Steps -/

/-- A new cache, to which no call was made yet. -/
def start (state : σ) : SchemaTraffic σ := ⟨.empty, fun _ => 0, [], state, fun _ => none⟩

def now (s : SchemaTraffic σ) : Nat := s.history.length

def put (s : SchemaTraffic σ) (id : Nat) (call : SchemaCall) : SchemaTraffic σ :=
  { s with calls := Function.update s.calls id (some call) }

/-- A call returns what the cache has, or else asks the inner provider. -/
def look (s : SchemaTraffic σ) (id : Nat) (table : String) : SchemaTraffic σ :=
  match s.cache.get? table with
  | some fields => s.put id (.returned table s.now (.ok fields) (s.given table) s.now)
  | none => s.put id (.asking table s.now)

def receive (s : SchemaTraffic σ) (id : Nat) (table : String) (start : Nat) : SchemaTraffic σ :=
  let reply := (inner table).run s.state
  { s.put id (.answered table start reply.1 s.now) with
    history := s.history ++ [.answered table reply.1]
    state := reply.2 }

/-- A call writes its answer, unless it is a failure, and returns it. -/
def store (s : SchemaTraffic σ) (id : Nat) (table : String) (start : Nat) (answer : SchemaAnswer)
    (given : Nat) : SchemaTraffic σ :=
  { s.put id (.returned table start answer given s.now) with
    cache := s.cache.record table answer
    given := if answer.isOk then Function.update s.given table given else s.given }

def invalidate (s : SchemaTraffic σ) (table : String) : SchemaTraffic σ :=
  { s with cache := s.cache.invalidate table, history := s.history ++ [.invalidated table] }

/-- Takes a step.  One that a call is not ready for does nothing, nor does a second start. -/
def advance (s : SchemaTraffic σ) : SchemaTurn → SchemaTraffic σ
  | .look id table =>
      match s.calls id with
      | none => s.look id table
      | some _ => s
  | .receive id =>
      match s.calls id with
      | some (.asking table start) => s.receive inner id table start
      | _ => s
  | .store id =>
      match s.calls id with
      | some (.answered table start answer given) => s.store id table start answer given
      | _ => s
  | .invalidate table => s.invalidate table

/-- Takes steps one after the other. -/
def advanceAll (s : SchemaTraffic σ) (turns : List SchemaTurn) : SchemaTraffic σ :=
  turns.foldl (advance inner) s

variable {inner} {s s' : SchemaTraffic σ} {id : Nat} {table : String} {answer : SchemaAnswer}
  {given stop : Nat}

theorem calls_put_self (call : SchemaCall) : (s.put id call).calls id = some call :=
  Function.update_self id _ _

theorem calls_put_of_ne {id' : Nat} (h : id' ≠ id) (call : SchemaCall) :
    (s.put id call).calls id' = s.calls id' :=
  Function.update_of_ne h _ _

/-- A call whose steps nothing comes between does what `SchemaCache.fields` does. -/
theorem fields_undisturbed (hnew : s.calls id = none) (table : String) :
    let done := (SchemaCache.fields inner table).run (s.cache, s.state)
    let s' := s.advanceAll inner [.look id table, .receive id, .store id]
    (∃ start given finish, s'.calls id = some (.returned table start done.1 given finish)) ∧
      s'.cache = done.2.1 ∧ s'.state = done.2.2 := by
  show let done := SchemaCache.fields inner table (s.cache, s.state)
    let s' := ((s.advance inner (.look id table)).advance inner (.receive id)).advance inner
      (.store id)
    (∃ start given finish, s'.calls id = some (.returned table start done.1 given finish)) ∧
      s'.cache = done.2.1 ∧ s'.state = done.2.2
  have hlook : s.advance inner (.look id table) = s.look id table := by rw [advance, hnew]
  rw [hlook, look, SchemaCache.fields]
  cases s.cache.get? table with
  | some fields =>
    have hdone : (s.put id (.returned table s.now (.ok fields) (s.given table) s.now)).calls id =
        some (.returned table s.now (.ok fields) (s.given table) s.now) := calls_put_self _
    dsimp only
    rw [advance, hdone]
    dsimp only
    rw [advance, hdone]
    exact ⟨⟨_, _, _, hdone⟩, rfl, rfl⟩
  | none =>
    let asked := s.put id (.asking table s.now)
    have hanswered : (asked.receive inner id table s.now).calls id = some (.answered table s.now
        ((inner table).run s.state).1 s.now) := calls_put_self _
    dsimp only
    rw [advance, calls_put_self]
    dsimp only
    rw [advance, hanswered]
    exact ⟨⟨_, _, _, calls_put_self _⟩, rfl, rfl⟩

/-! ## Where answers come from -/

/-- In a later state the events and the calls that have returned are still there. -/
structure Extends (s s' : SchemaTraffic σ) : Prop where
  history : s.history <+: s'.history
  returned : ∀ {id : Nat} {table : String} {start : Nat} {answer : SchemaAnswer}
    {given finish : Nat}, s.calls id = some (.returned table start answer given finish) →
      s'.calls id = some (.returned table start answer given finish)

/-- A call wrote an answer that it had been given at some time, and from then on the table was not
invalidated until another time. -/
def Wrote (s : SchemaTraffic σ) (table : String) (answer : SchemaAnswer) (given stop : Nat) :
    Prop :=
  ∃ id start finish, s.calls id = some (.returned table start answer given finish) ∧
    start ≤ given ∧ given < finish ∧ finish ≤ stop ∧
      ∀ i, s.history[i]? = some (.invalidated table) → finish ≤ i → stop ≤ i

/-- The answer of a call was given by the inner provider at the time that the call says: to this
call, or else to one that wrote it into the cache where this call read it. -/
def Sound (s : SchemaTraffic σ) : SchemaCall → Prop
  | .asking _ start => start ≤ s.now
  | .answered table start answer given =>
      start ≤ given ∧ s.history[given]? = some (.answered table answer)
  | .returned table start answer given _ =>
      start ≤ s.now ∧ s.history[given]? = some (.answered table answer) ∧
        (start ≤ given ∨ s.Wrote table answer given start)

/-- All calls are sound, and what is in the cache was written after its table was last
invalidated. -/
structure Traced (s : SchemaTraffic σ) : Prop where
  call : ∀ {id : Nat} {call : SchemaCall}, s.calls id = some call → s.Sound call
  cached : ∀ {table : String} {fields : List FieldInfo}, s.cache.get? table = some fields →
    s.Wrote table (.ok fields) (s.given table) s.now

theorem lt_now {i : Nat} {event : SchemaEvent} (h : s.history[i]? = some event) : i < s.now :=
  (List.getElem?_eq_some_iff.mp h).1

namespace Extends

theorem now_le (h : s.Extends s') : s.now ≤ s'.now := h.history.length_le

theorem event (h : s.Extends s') {i : Nat} (hi : i < s.now) : s'.history[i]? = s.history[i]? := by
  obtain ⟨later, hlater⟩ := h.history
  rw [← hlater]
  exact List.getElem?_append_left hi

theorem event_eq (h : s.Extends s') {i : Nat} {event : SchemaEvent}
    (hi : s.history[i]? = some event) : s'.history[i]? = some event := by
  rw [h.event (lt_now hi), hi]

/-- A call that has not returned goes on. -/
theorem of_put {call : SchemaCall} (hcalls : s'.calls = (s.put id call).calls)
    (hhistory : s.history <+: s'.history)
    (hopen : ∀ table start answer given finish,
      s.calls id ≠ some (.returned table start answer given finish)) : s.Extends s' where
  history := hhistory
  returned {id' _ _ _ _ _} hreturned := by
    have hne : id' ≠ id := by
      rintro rfl
      exact hopen _ _ _ _ _ hreturned
    rw [hcalls, calls_put_of_ne hne, hreturned]

end Extends

theorem Wrote.extend (h : s.Wrote table answer given stop) (hext : s.Extends s')
    (hstop : stop ≤ s.now) : s'.Wrote table answer given stop := by
  obtain ⟨id, start, finish, hcall, hstart, hgiven, hfinish, hkept⟩ := h
  refine ⟨id, start, finish, hext.returned hcall, hstart, hgiven, hfinish, fun i hi hle => ?_⟩
  by_cases hold : i < s.now
  · rw [hext.event hold] at hi
    exact hkept i hi hle
  · omega

/-- An answer stays in the cache while its table is not invalidated. -/
theorem Wrote.later (h : s.Wrote table answer given stop) {stop' : Nat} (hle : stop ≤ stop')
    (hkept' : ∀ i, s.history[i]? = some (.invalidated table) → stop ≤ i → stop' ≤ i) :
    s.Wrote table answer given stop' := by
  obtain ⟨id, start, finish, hcall, hstart, hgiven, hfinish, hkept⟩ := h
  exact ⟨id, start, finish, hcall, hstart, hgiven, by omega,
    fun i hi hafter => hkept' i hi (hkept i hi hafter)⟩

theorem Sound.extend {call : SchemaCall} (h : s.Sound call) (hext : s.Extends s') :
    s'.Sound call := by
  have hnow := hext.now_le
  cases call with
  | asking table start => exact Nat.le_trans h hnow
  | answered table start answer given => exact ⟨h.1, hext.event_eq h.2⟩
  | returned table start answer given finish =>
    obtain ⟨hstart, hgiven, hsource⟩ := h
    exact ⟨Nat.le_trans hstart hnow, hext.event_eq hgiven,
      hsource.imp_right fun hwrote => hwrote.extend hext hstart⟩

namespace Traced

theorem start (state : σ) : (start state).Traced :=
  ⟨fun h => (nomatch h), fun h => (nomatch h)⟩

/-- What the cache has was given by the inner provider. -/
theorem event_cached (h : s.Traced) {fields : List FieldInfo}
    (hcached : s.cache.get? table = some fields) :
    s.history[s.given table]? = some (.answered table (.ok fields)) := by
  obtain ⟨id, start, finish, hcall, -⟩ := h.cached hcached
  exact (h.call hcall).2.1

theorem call_of_put (h : s.Traced) (hext : s.Extends s') {call : SchemaCall}
    (hcalls : s'.calls = (s.put id call).calls) (hcall : s'.Sound call) {id' : Nat}
    {call' : SchemaCall} (hcall' : s'.calls id' = some call') : s'.Sound call' := by
  rw [hcalls] at hcall'
  by_cases heq : id' = id
  · rw [heq, calls_put_self, Option.some.injEq] at hcall'
    exact hcall' ▸ hcall
  · rw [calls_put_of_ne heq] at hcall'
    exact (h.call hcall').extend hext

theorem put (h : s.Traced) (hnew : s.calls id = none) {call : SchemaCall}
    (hcall : s.Sound call) : (s.put id call).Traced := by
  have hext : s.Extends (s.put id call) :=
    .of_put rfl List.prefix_rfl (by rw [hnew]; exact fun _ _ _ _ _ => nofun)
  exact ⟨h.call_of_put hext rfl (hcall.extend hext),
    fun hcached => (h.cached hcached).extend hext (Nat.le_refl _)⟩

theorem look (h : s.Traced) (hnew : s.calls id = none) (table : String) :
    (s.look id table).Traced := by
  rw [SchemaTraffic.look]
  cases hcached : s.cache.get? table with
  | some fields =>
    exact h.put hnew ⟨Nat.le_refl _, h.event_cached hcached, .inr (h.cached hcached)⟩
  | none => exact h.put hnew (Nat.le_refl s.now)

/-- Where an event invalidates other tables at most, the cache keeps what it has of a table. -/
theorem cached_of_event (h : s.Traced) (hext : s.Extends s') {event : SchemaEvent}
    (hhistory : s'.history = s.history ++ [event]) {fields : List FieldInfo}
    (hcached : s.cache.get? table = some fields) (hevent : event ≠ .invalidated table) :
    s'.Wrote table (.ok fields) (s.given table) s'.now := by
  have hlast : s'.history[s.now]? = some event := by
    rw [hhistory]
    exact List.getElem?_concat_length
  have hnow : s'.now = s.now + 1 := by
    rw [now, hhistory, List.length_append]
    rfl
  refine ((h.cached hcached).extend hext (Nat.le_refl _)).later (by omega) fun i hi hle => ?_
  have hne : i ≠ s.now := by
    rintro rfl
    rw [hlast, Option.some.injEq] at hi
    exact hevent hi
  omega

theorem receive (h : s.Traced) {start : Nat} (hasking : s.calls id = some (.asking table start)) :
    (s.receive inner id table start).Traced := by
  have hext : s.Extends (s.receive inner id table start) :=
    .of_put rfl (List.prefix_append _ _) (by rw [hasking]; exact fun _ _ _ _ _ => nofun)
  refine ⟨h.call_of_put hext rfl ⟨h.call hasking, List.getElem?_concat_length⟩, fun hcached => ?_⟩
  exact h.cached_of_event hext rfl hcached nofun

theorem store (h : s.Traced) {start : Nat}
    (hanswered : s.calls id = some (.answered table start answer given)) :
    (s.store id table start answer given).Traced := by
  have hext : s.Extends (s.store id table start answer given) :=
    .of_put rfl List.prefix_rfl (by rw [hanswered]; exact fun _ _ _ _ _ => nofun)
  obtain ⟨hstart, hgiven⟩ := h.call hanswered
  have hlt := lt_now hgiven
  refine ⟨h.call_of_put hext rfl ⟨?_, hgiven, .inl hstart⟩, fun {table' fields'} hcached => ?_⟩
  · exact Nat.le_of_lt (Nat.lt_of_le_of_lt hstart hlt)
  · cases answer with
    | error e => exact (h.cached hcached).extend hext (Nat.le_refl _)
    | ok fields =>
      have hinserted : (s.cache.insert table fields).get? table' = some fields' := hcached
      show Wrote _ table' (.ok fields') (Function.update s.given table given table') _
      rw [Dict.get?_insert] at hinserted
      by_cases heq : table' = table
      · rw [if_pos heq, Option.some.injEq] at hinserted
        rw [← hinserted, heq, Function.update_self]
        refine ⟨id, start, s.now, calls_put_self _, hstart, hlt, Nat.le_refl _, fun i hi hle => ?_⟩
        exact absurd (lt_now hi) (Nat.not_lt.mpr hle)
      · rw [if_neg heq] at hinserted
        rw [Function.update_of_ne heq]
        exact (h.cached hinserted).extend hext (Nat.le_refl _)

theorem invalidate (h : s.Traced) (table : String) : (s.invalidate table).Traced := by
  have hext : s.Extends (s.invalidate table) := ⟨List.prefix_append _ _, id⟩
  refine ⟨fun hcall => (h.call hcall).extend hext, fun {table' fields} hcached => ?_⟩
  have herased : (s.cache.erase table).get? table' = some fields := hcached
  rw [Dict.get?_erase] at herased
  split at herased
  · cases herased
  · next hne =>
    refine h.cached_of_event hext rfl herased fun hevent => ?_
    exact hne (SchemaEvent.invalidated.inj hevent).symm

theorem advance (h : s.Traced) (turn : SchemaTurn) : (s.advance inner turn).Traced := by
  cases turn with
  | look id table =>
    rw [SchemaTraffic.advance]
    split
    · next hnew => exact h.look hnew table
    · exact h
  | receive id =>
    rw [SchemaTraffic.advance]
    split
    · next hasking => exact h.receive hasking
    · exact h
  | store id =>
    rw [SchemaTraffic.advance]
    split
    · next hanswered => exact h.store hanswered
    · exact h
  | invalidate table => exact h.invalidate table

theorem advanceAll (h : s.Traced) (turns : List SchemaTurn) :
    (s.advanceAll inner turns).Traced := by
  induction turns generalizing s with
  | nil => exact h
  | cons turn turns ih => exact ih (h.advance turn)

end Traced

/-! ## Invalidations -/

/-- Whatever steps are taken, the answer of a call that starts after an invalidation of its table
was given after the invalidation, or it was given before, to another call that was under way at the
invalidation and wrote the answer after it. -/
theorem answers_after_invalidation (inner : SchemaProvider σ) (state : σ)
    (turns : List SchemaTurn) :
    let s := (start state).advanceAll inner turns
    ∀ (table : String) (i id begun given finish : Nat) (answer : SchemaAnswer),
      s.history[i]? = some (.invalidated table) →
      s.calls id = some (.returned table begun answer given finish) → i < begun →
        s.history[given]? = some (.answered table answer) ∧
          (i < given ∨ ∃ other begun' finish',
            s.calls other = some (.returned table begun' answer given finish') ∧
              begun' ≤ given ∧ given < i ∧ i < finish' ∧ finish' ≤ begun) := by
  intro s table i id begun given finish answer hinvalidated hreturned hafter
  have htraced : s.Traced := (Traced.start state).advanceAll turns
  obtain ⟨-, hgiven, hsource⟩ := htraced.call hreturned
  refine ⟨hgiven, ?_⟩
  rcases hsource with hown | ⟨other, begun', finish', hother, hbegun, hlt, hfinish, hkept⟩
  · exact .inl (Nat.lt_of_lt_of_le hafter hown)
  · -- The answer was read from the cache, so that no invalidation came after it was written.
    have hwritten : i < finish' := by
      by_contra hle
      have := hkept i hinvalidated (by omega)
      omega
    have hne : given ≠ i := by
      rintro rfl
      rw [hgiven] at hinvalidated
      cases hinvalidated
    rcases Nat.lt_or_ge i given with hnew | hold
    · exact .inl hnew
    · exact .inr ⟨other, begun', finish', hother, hbegun, by omega, hwritten, hfinish⟩

/-- A call is given its answer, the table is invalidated, and only then the answer is written; the
second call starts after that. -/
def overlap : List SchemaTurn :=
  [.look 0 "sales", .receive 0, .invalidate "sales", .store 0, .look 1 "sales"]

/-- What both calls return. -/
def salesFields : SchemaAnswer := .ok [⟨"sales", ""⟩]

theorem overlap_history :
    ((start 1).advanceAll SchemaSession.flaky overlap).history =
      [.answered "sales" salesFields, .invalidated "sales"] := by rfl

theorem overlap_call :
    ((start 1).advanceAll SchemaSession.flaky overlap).calls 1 =
      some (.returned "sales" 2 salesFields 0 2) := by rfl

theorem answers_after_invalidation_overlap :
    let s := (start 1).advanceAll SchemaSession.flaky overlap
    s.history[1]? = some (.invalidated "sales") ∧
      s.calls 1 = some (.returned "sales" 2 salesFields 0 2) ∧ 1 < 2 ∧
        ∃ other begun finish, s.calls other = some (.returned "sales" begun salesFields 0 finish) ∧
          begun ≤ 0 ∧ 1 < finish ∧ finish ≤ 2 := by
  intro s
  have hinvalidated : s.history[1]? = some (.invalidated "sales") := by rw [overlap_history]; rfl
  obtain ⟨-, hgiven⟩ := answers_after_invalidation SchemaSession.flaky 1 overlap "sales" 1 1 2 0 2
    salesFields hinvalidated overlap_call (by decide)
  rcases hgiven with hlt | ⟨other, begun, finish, hother, hbegun, -, hfinish, hle⟩
  · exact absurd hlt (by decide)
  · exact ⟨hinvalidated, overlap_call, by decide, other, begun, finish, hother, hbegun, hfinish, hle⟩

/-- Not every call that starts after an invalidation returns an answer that was given after it. -/
theorem invalidation_lost : ¬ ∀ (inner : SchemaProvider Nat) (state : Nat)
    (turns : List SchemaTurn),
    let s := (start state).advanceAll inner turns
    ∀ (table : String) (i id begun given finish : Nat) (answer : SchemaAnswer),
      s.history[i]? = some (.invalidated table) →
      s.calls id = some (.returned table begun answer given finish) → i < begun → i < given := by
  intro h
  have hlt := h SchemaSession.flaky 1 overlap "sales" 1 1 2 0 2 salesFields
    (by rw [overlap_history]; rfl) overlap_call (by decide)
  exact absurd hlt (by decide)

end SchemaTraffic

end CommissionRules
