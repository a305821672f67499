import CommissionRules.Proofs.Grammar.Cursor

/-!
# Beside the readers of tokens

A computation on a cursor is compared with a reader of tokens by what both make of the tokens that
have not been taken.  The computation has to end, with the same result or the same error, and where
it succeeds the cursor stands where the reader's rest begins.  The comparison has a rule for each
way a computation is put together, so that a function of the descent is compared part by part.
-/

namespace CommissionRules

open Grammar (Rest positionOf)

/-! ## Moves of a cursor -/

namespace Cursor

def start : Cursor := ⟨0, 0, [], 0⟩

def advanced (c : Cursor) : Cursor := { c with index := c.index + 1 }

def descended (c : Cursor) (active : Nat) : Cursor :=
  { c with depth := c.depth + 1, peak := max c.peak (active + 1) }

def ascended (c : Cursor) : Cursor := { c with depth := c.depth - 1 }

def pushed (c : Cursor) (param : String × Shape) : Cursor := { c with scope := c.scope ++ [param] }

def popped (c : Cursor) : Cursor := { c with scope := c.scope.dropLast }

end Cursor

namespace Parser

variable {α β : Type} {p : Parser} {c c' c'' : Cursor}

/-- The tokens that have not been taken. -/
def rest (p : Parser) (c : Cursor) : List Token := p.tokens.drop c.index

theorem length_rest (p : Parser) (c : Cursor) :
    (p.rest c).length = p.tokens.length - c.index := List.length_drop

theorem rest_advanced {t : Token} {ts : List Token} (h : p.rest c = t :: ts) :
    p.rest c.advanced = ts := by
  rw [rest] at h
  rw [rest, Cursor.advanced, ← List.drop_drop, h]
  rfl

theorem rest_cases (p : Parser) (c : Cursor) :
    p.rest c = [] ∨ ∃ kind position, p.rest c = ⟨kind, position⟩ :: p.rest c.advanced := by
  cases hrest : p.rest c with
  | nil => exact .inl rfl
  | cons t ts => exact .inr ⟨t.kind, t.position, by rw [rest_advanced hrest]⟩

/-- What a computation comes to, if it has an outcome. -/
def runAt (reading : Reading α) (c : Cursor) : Option (Except CompileError α × Cursor) :=
  reading.run.run c

/-! ## Single steps -/

section Steps

variable (c : Cursor)

theorem runAt_bind (reading : Reading α) (f : α → Reading β) :
    runAt (reading >>= f) c = (runAt reading c).bind fun outcome =>
      match outcome with
      | (.ok a, c') => runAt (f a) c'
      | (.error e, c') => some (.error e, c') := by
  show Option.bind _ _ = Option.bind _ _
  congr 1
  funext outcome
  obtain ⟨result, c'⟩ := outcome
  cases result <;> rfl

theorem runAt_get (f : Cursor → Reading β) : runAt (get >>= f) c = runAt (f c) c := rfl

theorem runAt_token (f : Option Token → Reading β) :
    runAt (p.token? >>= f) c = runAt (f (p.rest c).head?) c := by
  rw [rest, List.head?_drop]
  rfl

theorem runAt_kind (f : Option TokenKind → Reading β) :
    runAt (p.kind? >>= f) c = runAt (f ((p.rest c).head?.map Token.kind)) c := by
  rw [rest, List.head?_drop]
  rfl

theorem runAt_position (f : Nat → Reading β) :
    runAt (p.position >>= f) c = runAt (f (positionOf p.setting (p.rest c))) c := by
  have hnext : runAt (p.position >>= f) c =
      runAt (f ((((p.rest c).head?.or p.tokens.getLast?).map Token.position).getD 0)) c := by
    rw [rest, List.head?_drop]
    rfl
  rw [hnext]
  cases p.rest c <;> rfl

theorem runAt_advance (f : Unit → Reading β) :
    runAt (advance >>= f) c = runAt (f ()) c.advanced := rfl

theorem runAt_ascend (f : Unit → Reading β) :
    runAt (ascend >>= f) c = runAt (f ()) c.ascended := rfl

theorem runAt_eat (kind : TokenKind) (f : Bool → Reading β) :
    runAt (p.eat kind >>= f) c = if (p.rest c).head?.map Token.kind = some kind then
      runAt (f true) c.advanced else runAt (f false) c := by
  have hstep : runAt (p.eat kind >>= f) c = runAt (p.kind? >>= fun found =>
      (if found = some kind then advance >>= fun _ => pure true else pure false) >>= f) c := by
    rw [eat]
    simp only [bind_assoc]
  rw [hstep, runAt_kind]
  split <;> rfl

theorem runAt_descend (active : Nat) (f : Unit → Reading β) :
    runAt (p.descend active >>= f) c = if p.limit < c.depth + 1 then
      some (.error (.tooDeep p.limit (positionOf p.setting (p.rest c))), c.descended active)
    else runAt (f ()) (c.descended active) := by
  have hstep : runAt (p.descend active >>= f) c = runAt ((if p.limit < c.depth + 1 then
      p.position >>= fun position => throw (.tooDeep p.limit position) else pure ()) >>= f)
      (c.descended active) := by
    rw [descend]
    simp only [bind_assoc]
    rfl
  rw [hstep]
  split
  · rw [bind_assoc, runAt_position]
    rfl
  · rfl

theorem runAt_atLambda (f : Bool → Reading β) :
    runAt (p.atLambda >>= f) c = runAt (f (Grammar.atLambda (p.rest c))) c := by
  have hfirst : p.tokens[c.index]? = (p.rest c)[0]? := by
    rw [rest, List.getElem?_drop, Nat.add_zero]
  have hsecond : p.tokens[c.index + 1]? = (p.rest c)[1]? := by rw [rest, List.getElem?_drop]
  rw [atLambda, bind_assoc, runAt_get]
  dsimp only
  rw [hfirst, hsecond]
  unfold Grammar.atLambda
  cases p.rest c with
  | nil => rfl
  | cons t ts =>
    obtain ⟨kind, _⟩ := t
    cases kind with
    | ident =>
      cases ts with
      | nil => rfl
      | cons t ts =>
        obtain ⟨kind, _⟩ := t
        cases kind <;> rfl
    | _ => rfl

theorem runAt_bodyIn (fuel active : Nat) (param : String × Shape) :
    runAt (p.bodyIn (fuel + 1) active param) c =
      (runAt (p.whole fuel active) (c.pushed param)).map
        fun outcome => (outcome.1, outcome.2.popped) := by
  rw [bodyIn, Option.map_eq_bind]
  rfl

end Steps

/-! ## Bookkeeping -/

/-- From one cursor to another, tokens have been taken, and depth and scope are as they were.  No
more than `most` steps have been active at once. -/
structure Reaches (p : Parser) (most : Nat) (c : Cursor) (taken : Nat) (c' : Cursor) : Prop where
  taken : c.index + taken ≤ c'.index
  within : c'.index ≤ max c.index p.tokens.length
  depth : c'.depth = c.depth
  scope : c'.scope = c.scope
  peak : c'.peak ≤ most

variable {most n m active : Nat}

namespace Reaches

theorem refl (h : c.peak ≤ most) : p.Reaches most c 0 c :=
  ⟨Nat.le_refl _, Nat.le_max_left _ _, rfl, rfl, h⟩

theorem trans (h : p.Reaches most c n c') (h' : p.Reaches most c' m c'') :
    p.Reaches most c (n + m) c'' where
  taken := by
    have := h.taken
    have := h'.taken
    omega
  within := by
    have := h.within
    have := h'.within
    omega
  depth := h'.depth.trans h.depth
  scope := h'.scope.trans h.scope
  peak := h'.peak

theorem weaken (h : p.Reaches most c n c') (hle : m ≤ n) : p.Reaches most c m c' :=
  { h with taken := Nat.le_trans (Nat.add_le_add_left hle _) h.taken }

theorem advance {t : Token} {ts : List Token} (h : p.Reaches most c n c')
    (hrest : p.rest c' = t :: ts) : p.Reaches most c (n + 1) c'.advanced where
  taken := Nat.succ_le_succ h.taken
  within := by
    have hlt : c'.index < p.tokens.length := by
      refine Nat.lt_of_not_le fun hle => ?_
      rw [rest, List.drop_eq_nil_of_le hle] at hrest
      cases hrest
    exact Nat.le_trans hlt (Nat.le_max_right _ _)
  depth := h.depth
  scope := h.scope
  peak := h.peak

/-- Up again behind what was done a level below. -/
theorem ascend (h : p.Reaches most (c.descended active) n c') : p.Reaches most c n c'.ascended where
  taken := h.taken
  within := h.within
  depth := by simp only [Cursor.ascended, h.depth, Cursor.descended, Nat.add_sub_cancel]
  scope := h.scope
  peak := h.peak

/-- Out of the scope of a parameter again. -/
theorem pop {param : String × Shape} (h : p.Reaches most (c.pushed param) n c') :
    p.Reaches most c n c'.popped where
  taken := h.taken
  within := h.within
  depth := h.depth
  scope := by simp only [Cursor.popped, h.scope, Cursor.pushed, List.dropLast_concat]
  peak := h.peak

theorem length_le (h : p.Reaches most c n c') : (p.rest c').length + n ≤ (p.rest c).length := by
  have htaken := h.taken
  have hwithin := h.within
  rw [length_rest, length_rest]
  omega

end Reaches

/-! ## Side by side -/

/-- What a computation comes to beside a reading of tokens.  It ends, with the same result or the
same error; if it succeeds, the cursor has a property and stands where the rest begins. -/
inductive Follows (p : Parser) (most : Nat) (post : Cursor → Prop) :
    Option (Except CompileError α × Cursor) → Except CompileError (Rest α) → Prop
  | ok {a : α} {c : Cursor} (h : post c) :
      Follows p most post (some (.ok a, c)) (.ok (a, p.rest c))
  | error {e : CompileError} {c : Cursor} (h : c.peak ≤ most) :
      Follows p most post (some (.error e, c)) (.error e)

namespace Follows

variable {mid post : Cursor → Prop} {outcome : Option (Except CompileError α × Cursor)}
  {x y : Except CompileError (Rest α)}

/-- The outcome, from the reading. -/
theorem outcome_eq (h : p.Follows most (p.Reaches most c n) outcome x) :
    ∃ c', outcome = some (x.map Prod.fst, c') ∧ c'.peak ≤ most ∧
      ∀ a, x.map Prod.fst = .ok a → p.Reaches most c n c' := by
  cases h with
  | ok h => exact ⟨_, rfl, h.peak, fun _ _ => h⟩
  | error h => exact ⟨_, rfl, h, nofun⟩

theorem weaken (h : p.Follows most mid outcome x) (hpost : ∀ c, mid c → post c) :
    p.Follows most post outcome x := by
  cases h with
  | ok h => exact .ok (hpost _ h)
  | error h => exact .error h

theorem congr (h : p.Follows most post outcome x) (heq : x = y) : p.Follows most post outcome y :=
  heq ▸ h

theorem bind {reading : Reading α} {f : α → Reading β} {g : Rest α → Except CompileError (Rest β)}
    (h : p.Follows most mid (runAt reading c) x)
    (hf : ∀ a c', mid c' → p.Follows most post (runAt (f a) c') (g (a, p.rest c'))) :
    p.Follows most post (runAt (reading >>= f) c) (x >>= g) := by
  rw [runAt_bind]
  generalize runAt reading c = outcome at h
  cases h with
  | ok h => exact hf _ _ h
  | error h => exact .error h

/-- A check that takes no token. -/
theorem lift {x : Except CompileError α} {f : α → Reading β}
    {g : α → Except CompileError (Rest β)} (hpeak : c.peak ≤ most)
    (hf : ∀ a, p.Follows most post (runAt (f a) c) (g a)) :
    p.Follows most post (runAt (liftExcept x >>= f) c) (x >>= g) := by
  cases x with
  | error e => exact .error hpeak
  | ok a => exact hf a

theorem node {expr : Expr} {shape : Shape} {height position : Nat} (hpeak : c.peak ≤ most)
    (hpost : post c) :
    p.Follows most post (runAt (p.node expr shape height position) c)
      (Grammar.node p.setting expr shape height position >>= fun parsed =>
        .ok (parsed, p.rest c)) := by
  rw [Parser.node]
  cases Grammar.node p.setting expr shape height position with
  | error e => exact .error hpeak
  | ok a => exact .ok hpost

theorem pop {param : String × Shape}
    (h : p.Follows most (p.Reaches most (c.pushed param) n) outcome x) :
    p.Follows most (p.Reaches most c n)
      (outcome.map fun outcome => (outcome.1, outcome.2.popped)) x := by
  cases h with
  | ok h => exact .ok h.pop
  | error h => exact .error h

theorem unexpected (hpeak : c.peak ≤ most) (expected : String) (f : α → Reading β) :
    p.Follows most post (runAt (p.unexpected expected >>= f) c)
      (.error (Grammar.unexpected expected (p.rest c))) := by
  rw [Parser.unexpected, bind_assoc, runAt_token]
  cases p.rest c <;> exact .error hpeak

theorem expect {kind : TokenKind} {expected : String} {f : Unit → Reading β}
    {g : List Token → Except CompileError (Rest β)} (h : p.Reaches most c n c')
    (hf : ∀ c'', p.Reaches most c (n + 1) c'' →
      p.Follows most post (runAt (f ()) c'') (g (p.rest c''))) :
    p.Follows most post (runAt (p.expect kind expected >>= f) c')
      (Grammar.expect kind expected (p.rest c') >>= g) := by
  rw [Parser.expect, bind_assoc, runAt_eat]
  split
  · next hkind =>
    obtain ⟨t, ht, rfl⟩ := Option.map_eq_some_iff.mp hkind
    obtain ⟨ts, hrest⟩ := List.head?_eq_some_iff.mp ht
    have hread : Grammar.expect t.kind expected (p.rest c') = .ok ts := by
      rw [hrest]
      exact if_pos rfl
    rw [hread, ← rest_advanced hrest]
    exact hf _ (h.advance hrest)
  · next hkind =>
    have hread : Grammar.expect kind expected (p.rest c') =
        .error (Grammar.unexpected expected (p.rest c')) := by
      cases hrest : p.rest c' with
      | nil => rfl
      | cons t ts =>
        rw [hrest] at hkind
        exact if_neg fun heq => hkind (congrArg some heq)
    rw [hread]
    exact unexpected h.peak expected f

theorem expectIdent {expected : String} {f : String × Nat → Reading β}
    {g : Rest (String × Nat) → Except CompileError (Rest β)} (h : p.Reaches most c n c')
    (hf : ∀ name position c'', p.Reaches most c (n + 1) c'' →
      p.Follows most post (runAt (f (name, position)) c'') (g ((name, position), p.rest c''))) :
    p.Follows most post (runAt (p.expectIdent expected >>= f) c')
      (Grammar.expectIdent expected (p.rest c') >>= g) := by
  have hother : p.Follows most post (runAt (p.unexpected expected >>= f) c') _ :=
    unexpected h.peak expected f
  rw [Parser.expectIdent, bind_assoc, runAt_token]
  rcases p.rest_cases c' with hrest | ⟨kind, position, hrest⟩
  · rw [hrest] at hother ⊢
    exact hother
  · rw [hrest] at hother ⊢
    cases kind with
    | ident name => exact hf name position _ (h.advance hrest)
    | _ => exact hother

end Follows

end Parser

end CommissionRules
