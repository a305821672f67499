import Mathlib.Logic.Function.Basic
import CommissionRules.Compiler
import CommissionRules.Proofs.Except

/-!
# Two readings side by side

The reader hands the positions of tokens on to its errors and decides nothing by them, it looks at
the limit only where it refuses what is too deep, and it asks the catalog for a data source only
where a name is no parameter.  So a reading of moved tokens, maybe under a greater limit and with
more data sources, goes step by step with the one of the tokens where they were: each part is read
alike, the same error is found, moved like the tokens, or the first reading has been refused for
what the second one allows (`Grammar.parseAt_parallel`).

Under one limit the result is the same one, moved: `parseTokens_moved`.  As this holds for every
movement, also for one that moves a single position, an error stands where a token does:
`exists_of_parseTokens_error`.
-/

namespace CommissionRules

/-- The error with its position moved. -/
def CompileError.moved (f : Nat → Nat) : CompileError → CompileError
  | validation findings => validation findings
  | unexpectedCharacter found position => unexpectedCharacter found (f position)
  | unterminatedString position => unterminatedString (f position)
  | unexpectedToken found expected position => unexpectedToken found expected (f position)
  | unexpectedEnd expected => unexpectedEnd expected
  | unknownIdentifier name position => unknownIdentifier name (f position)
  | unknownProperty source property position => unknownProperty source property (f position)
  | unknownFunction name position => unknownFunction name (f position)
  | unknownMethod name position => unknownMethod name (f position)
  | arityMismatch name expected found position => arityMismatch name expected found (f position)
  | invalidReceiver method target position => invalidReceiver method target (f position)
  | tooDeep limit position => tooDeep limit (f position)
  | inField rule field cause => inField rule field (cause.moved f)

namespace CompileError

theorem position?_moved (f : Nat → Nat) (error : CompileError) :
    (error.moved f).position? = error.position?.map f := by
  induction error with
  | inField _ _ _ ih => exact ih
  | _ => rfl

theorem moved_congr {f g : Nat → Nat} {error : CompileError}
    (h : ∀ position ∈ error.position?, f position = g position) :
    error.moved f = error.moved g := by
  induction error with
  | inField rule field cause ih => exact congrArg (inField rule field) (ih h)
  | validation => rfl
  | unexpectedEnd => rfl
  | _ => simp [moved, h _ rfl]

theorem moved_id (error : CompileError) : error.moved id = error := by
  induction error with
  | inField rule field cause ih => exact congrArg (inField rule field) ih
  | _ => rfl

theorem moved_of_position?_eq_none {f : Nat → Nat} {error : CompileError}
    (h : error.position? = none) : error.moved f = error := by
  have hid : error.moved f = error.moved id := moved_congr (by simp [h])
  rw [hid, moved_id]

end CompileError

/-- The token at another position. -/
def Token.moved (f : Nat → Nat) (t : Token) : Token := ⟨t.kind, f t.position⟩

/-- What two readings come to, side by side: the second one to what the first one comes to, moved,
unless that is an error which is excused. -/
inductive Parallel {α : Type} (f : Nat → Nat) (excused : CompileError → Prop) (move : α → α) :
    Except CompileError α → Except CompileError α → Prop
  | ok (a : α) : Parallel f excused move (.ok a) (.ok (move a))
  | error (e : CompileError) : Parallel f excused move (.error e) (.error (e.moved f))
  | excuse {e : CompileError} (h : excused e) (y : Except CompileError α) :
      Parallel f excused move (.error e) y

namespace Parallel

variable {α β : Type} {f : Nat → Nat} {excused : CompileError → Prop} {move : α → α}
  {move' : β → β} {x y : Except CompileError α}

theorem bind {g g' : α → Except CompileError β} (h : Parallel f excused move x y)
    (hg : ∀ a, Parallel f excused move' (g a) (g' (move a))) :
    Parallel f excused move' (x >>= g) (y >>= g') := by
  cases h with
  | ok a => exact hg a
  | error e => exact .error e
  | excuse h y => exact .excuse h _

/-- Where no error is excused, and what is found has no positions, only the errors are moved. -/
theorem eq_mapError (h : Parallel f (fun _ => False) id x y) :
    y = x.mapError (CompileError.moved f) := by
  cases h with
  | ok a => rfl
  | error e => rfl
  | excuse h => exact h.elim

end Parallel

namespace Grammar

section Readers

variable (f : Nat → Nat)

/-- What has been read, with the tokens after it moved. -/
def Rest.moved {α : Type} (r : Rest α) : Rest α := (r.1, r.2.map (Token.moved f))

/-- A name that has been read at a position, and the tokens after it, moved. -/
def Rest.movedAt (r : Rest (String × Nat)) : Rest (String × Nat) :=
  ((r.1.1, f r.1.2), r.2.map (Token.moved f))

/-- The first catalog has no data source of the name and refuses it, which is excused. -/
def LacksName (excused : CompileError → Prop) (catalog : Catalog) (name : String) : Prop :=
  catalog.source? name = none ∧ Catalog.isNamespace name = false ∧
    ∀ position, excused (.unknownIdentifier name position)

/-- The settings of two readings.  If the limits differ, the refusals by the smaller one are
excused, and so are those of the names that only the second catalog knows. -/
structure Setting.Parallel (excused : CompileError → Prop) (s s' : Setting) : Prop where
  catalog : ∀ name, s'.catalog.source? name = s.catalog.source? name ∨
    LacksName excused s.catalog name
  lastPosition : s'.lastPosition = f s.lastPosition
  limit : s.limit ≤ s'.limit
  excuse : s'.limit = s.limit ∨ ∀ position, excused (.tooDeep s.limit position)

/-- The second reader reads moved tokens in parallel with the first one. -/
def Nested.Parallel (excused : CompileError → Prop) (nested nested' : Nested) : Prop :=
  ∀ position goal scope ts, CommissionRules.Parallel f excused (Rest.moved f)
    (nested position goal scope ts) (nested' (f position) goal scope (ts.map (Token.moved f)))

variable {f} {excused : CompileError → Prop} {s s' : Setting} {nested nested' : Nested}
  {scope : Scope} {receiver : Parsed}

theorem unexpected_moved (expected : String) (ts : List Token) :
    unexpected expected (ts.map (Token.moved f)) = (unexpected expected ts).moved f := by
  cases ts <;> rfl

theorem atLambda_moved (ts : List Token) : atLambda (ts.map (Token.moved f)) = atLambda ts := by
  rcases ts with _ | ⟨⟨kind, position⟩, _ | ⟨⟨kind', position'⟩, ts⟩⟩
  · rfl
  · cases kind <;> rfl
  · cases kind <;> cases kind' <;> rfl

theorem expect_parallel (kind : TokenKind) (expected : String) (ts : List Token) :
    Parallel f excused (List.map (Token.moved f)) (expect kind expected ts)
      (expect kind expected (ts.map (Token.moved f))) := by
  cases ts with
  | nil => exact .error _
  | cons t ts =>
    show Parallel f excused _ (if t.kind = kind then _ else _) (if t.kind = kind then _ else _)
    split
    · exact .ok ts
    · exact .error _

theorem expectIdent_parallel (expected : String) (ts : List Token) :
    Parallel f excused (Rest.movedAt f) (expectIdent expected ts)
      (expectIdent expected (ts.map (Token.moved f))) := by
  rcases ts with _ | ⟨⟨kind, position⟩, ts⟩
  · exact .error _
  · cases kind with
    | ident name => exact .ok ((name, position), ts)
    | _ => exact .error _

section Settings

variable (hs : Setting.Parallel f excused s s')

include hs

theorem positionOf_parallel (ts : List Token) :
    positionOf s' (ts.map (Token.moved f)) = f (positionOf s ts) := by
  cases ts with
  | nil => exact hs.lastPosition
  | cons t ts => rfl

theorem node_parallel (expr : Expr) (shape : Shape) (height position : Nat) :
    Parallel f excused id (node s expr shape height position)
      (node s' expr shape height (f position)) := by
  rw [node, node]
  by_cases hheight : s.limit < height
  · rw [if_pos hheight]
    rcases hs.excuse with hlimit | hexcused
    · rw [hlimit, if_pos hheight]
      exact .error _
    · exact .excuse (hexcused position) _
  · have hheight' : ¬ s'.limit < height := fun hlt => hheight (Nat.lt_of_le_of_lt hs.limit hlt)
    rw [if_neg hheight, if_neg hheight']
    exact .ok _

/-- What follows a node is the same on both sides. -/
theorem node_bind_parallel {expr : Expr} {shape : Shape} {height position : Nat}
    (ts : List Token) :
    Parallel f excused (Rest.moved f)
      (node s expr shape height position >>= fun parsed => .ok (parsed, ts))
      (node s' expr shape height (f position) >>= fun parsed =>
        .ok (parsed, ts.map (Token.moved f))) :=
  (node_parallel hs _ _ _ _).bind fun parsed => .ok (parsed, ts)

theorem property_parallel (receiver : Parsed) (name : String) (position : Nat) :
    Parallel f excused id (property s receiver name position)
      (property s' receiver name (f position)) := by
  unfold property
  extract_lets extended extended'
  have hextended : Parallel f excused id extended extended' := by
    dsimp only [extended, extended']
    split <;> exact node_parallel hs _ _ _ _
  split
  · split
    · exact hextended
    · exact .error _
  · exact .error _
  · exact .error _
  · exact hextended

section Parts

variable (hnested : nested.Parallel f excused nested')

include hnested

theorem argumentsFrom_parallel {fuel : Nat} (ts : List Token) :
    Parallel f excused (Rest.moved f) (argumentsFrom s nested scope fuel ts)
      (argumentsFrom s' nested' scope fuel (ts.map (Token.moved f))) := by
  induction fuel generalizing ts with
  | zero =>
    rw [argumentsFrom, argumentsFrom, unexpected_moved]
    exact .error _
  | succ fuel ih =>
    rw [argumentsFrom, argumentsFrom, positionOf_parallel hs]
    refine (hnested _ _ _ _).bind fun ⟨arg, ts⟩ => ?_
    have last (ts : List Token) : Parallel f excused (Rest.moved f)
        (expect .closeParen "',' or ')'" ts >>= fun rest => .ok (([arg.expr], arg.height), rest))
        (expect .closeParen "',' or ')'" (ts.map (Token.moved f)) >>= fun rest =>
          .ok (([arg.expr], arg.height), rest)) :=
      (expect_parallel _ _ _).bind fun rest => .ok (([arg.expr], arg.height), rest)
    rcases ts with _ | ⟨⟨kind, position⟩, ts⟩
    · exact last []
    · cases kind with
      | comma =>
        refine (ih ts).bind fun ⟨⟨args, height⟩, rest⟩ => ?_
        exact .ok ((arg.expr :: args, max arg.height height), rest)
      | _ => exact last _

theorem arguments_parallel (ts : List Token) :
    Parallel f excused (Rest.moved f) (arguments s nested scope ts)
      (arguments s' nested' scope (ts.map (Token.moved f))) := by
  have several (ts : List Token) : Parallel f excused (Rest.moved f)
      (argumentsFrom s nested scope (ts.length + 1) ts)
      (argumentsFrom s' nested' scope ((ts.map (Token.moved f)).length + 1)
        (ts.map (Token.moved f))) := by
    rw [List.length_map]
    exact argumentsFrom_parallel hs hnested ts
  rcases ts with _ | ⟨⟨kind, position⟩, ts⟩
  · exact several []
  · cases kind with
    | closeParen => exact .ok (([], 0), ts)
    | _ => exact several _

theorem functionCall_parallel (space : String) (position : Nat) (ts : List Token) :
    Parallel f excused (Rest.moved f) (functionCall s nested scope space position ts)
      (functionCall s' nested' scope space (f position) (ts.map (Token.moved f))) := by
  unfold functionCall
  refine (expect_parallel _ _ _).bind fun ts => ?_
  refine (expectIdent_parallel _ _).bind fun found => ?_
  obtain ⟨⟨name, _⟩, ts⟩ := found
  dsimp only [Rest.movedAt]
  split
  · exact .error _
  next spec _ =>
    refine (expect_parallel _ _ _).bind fun ts => ?_
    refine (arguments_parallel hs hnested _).bind fun found => ?_
    obtain ⟨⟨args, height⟩, ts⟩ := found
    show Parallel f excused _ (if args.length = spec.arity then _ else _)
      (if args.length = spec.arity then _ else _)
    split
    · exact node_bind_parallel hs ts
    · exact .error _

theorem identifier_parallel (name : String) (position : Nat) (ts : List Token) :
    Parallel f excused (Rest.moved f) (identifier s nested scope name position ts)
      (identifier s' nested' scope name (f position) (ts.map (Token.moved f))) := by
  unfold identifier
  split
  · exact .ok (_, ts)
  · rcases hs.catalog name with hsame | ⟨hnone, hspace, hexcused⟩
    · rw [hsame]
      split
      · exact .ok (_, ts)
      · split
        · exact functionCall_parallel hs hnested name position ts
        · exact .error _
    · rw [hnone, hspace]
      exact .excuse (hexcused position) _

theorem primary_parallel (ts : List Token) :
    Parallel f excused (Rest.moved f) (primary s nested scope ts)
      (primary s' nested' scope (ts.map (Token.moved f))) := by
  rcases ts with _ | ⟨⟨kind, position⟩, ts⟩
  · exact .error _
  · cases kind with
    | number | str | bool | null => exact .ok (_, ts)
    | openParen =>
      rw [List.map_cons, primary, primary]
      dsimp only [Token.moved]
      rw [positionOf_parallel hs]
      refine (hnested _ _ _ _).bind fun ⟨inner, ts⟩ => ?_
      exact (expect_parallel _ _ _).bind fun rest => .ok (inner, rest)
    | ident name => exact identifier_parallel hs hnested name position ts
    | _ => exact .error _

theorem lambdaArgument_parallel (element : Option KnownProperties) (ts : List Token) :
    Parallel f excused (Rest.moved f) (lambdaArgument s nested scope element ts)
      (lambdaArgument s' nested' scope element (ts.map (Token.moved f))) := by
  unfold lambdaArgument
  refine (expectIdent_parallel _ _).bind fun ⟨⟨param, _⟩, ts⟩ => ?_
  refine (expect_parallel _ _ _).bind fun ts => ?_
  dsimp only [Rest.movedAt]
  rw [positionOf_parallel hs]
  refine (hnested _ _ _ _).bind fun ⟨body, ts⟩ => ?_
  refine (expect_parallel _ _ _).bind fun rest => ?_
  exact .ok ((Argument.lambda param body.expr, body.height), rest)

theorem plainArgument_parallel (method : MethodSpec) (position : Nat) (ts : List Token) :
    Parallel f excused (Rest.moved f) (plainArgument s nested scope method position ts)
      (plainArgument s' nested' scope method (f position)
        (ts.map (Token.moved f))) := by
  unfold plainArgument
  rw [atLambda_moved, positionOf_parallel hs]
  split
  · exact .error _
  · refine (arguments_parallel hs hnested _).bind fun ⟨⟨args, height⟩, ts⟩ => ?_
    dsimp only [Rest.moved]
    split
    · split
      · exact .ok ((Argument.value _, height), ts)
      · exact .error _
      · exact .ok ((Argument.none, height), ts)
    · exact .error _

theorem methodCall_parallel (name : String) (position : Nat) (ts : List Token) :
    Parallel f excused (Rest.moved f) (methodCall s nested scope receiver name position ts)
      (methodCall s' nested' scope receiver name (f position)
        (ts.map (Token.moved f))) := by
  unfold methodCall
  split
  · exact .error _
  · next method _ =>
    extract_lets onElements onElements'
    have elements (element : Option KnownProperties) :
        Parallel f excused (Rest.moved f) (onElements element) (onElements' element) := by
      refine (expect_parallel _ _ _).bind fun ts => ?_
      rw [atLambda_moved]
      dsimp only
      split
      · refine (lambdaArgument_parallel hs hnested element ts).bind fun found => ?_
        exact node_bind_parallel hs found.2
      · refine (plainArgument_parallel hs hnested method position ts).bind fun found => ?_
        exact node_bind_parallel hs found.2
    split
    · exact elements _
    · exact elements _
    · exact .error _

theorem trailing_parallel {fuel : Nat} (receiver : Parsed) (ts : List Token) :
    Parallel f excused (Rest.moved f) (trailing s nested scope fuel receiver ts)
      (trailing s' nested' scope fuel receiver (ts.map (Token.moved f))) := by
  induction fuel generalizing receiver ts with
  | zero => exact .ok (receiver, ts)
  | succ fuel ih =>
    rcases ts with _ | ⟨⟨kind, position⟩, ts⟩
    · exact .ok (receiver, [])
    · cases kind with
      | dot =>
        refine (expectIdent_parallel _ ts).bind fun ⟨⟨name, position⟩, ts⟩ => ?_
        have hproperty := property_parallel hs receiver name position
        rcases ts with _ | ⟨⟨kind, position'⟩, ts⟩
        · exact hproperty.bind fun receiver => ih receiver []
        · cases kind with
          | openParen =>
            refine (methodCall_parallel hs hnested name position _).bind fun ⟨receiver, ts⟩ => ?_
            exact ih receiver ts
          | _ => exact hproperty.bind fun receiver => ih receiver _
      | _ => exact .ok (receiver, _)

theorem trailed_parallel (ts : List Token) :
    Parallel f excused (Rest.moved f) (trailed s nested scope ts)
      (trailed s' nested' scope (ts.map (Token.moved f))) := by
  refine (primary_parallel hs hnested ts).bind fun ⟨receiver, ts⟩ => ?_
  dsimp only [Rest.moved]
  rw [List.length_map]
  exact trailing_parallel hs hnested receiver ts

theorem unary_parallel (ts : List Token) :
    Parallel f excused (Rest.moved f) (unary s nested scope ts)
      (unary s' nested' scope (ts.map (Token.moved f))) := by
  rcases ts with _ | ⟨⟨kind, position⟩, ts⟩
  · exact trailed_parallel hs hnested []
  · cases kind with
    | operator symbol =>
      unfold unary
      rw [List.map_cons]
      dsimp only [Token.moved]
      split
      · refine (hnested _ _ _ _).bind fun found => ?_
        exact node_bind_parallel hs found.2
      · exact trailed_parallel hs hnested _
    | _ => exact trailed_parallel hs hnested _

theorem chain_parallel (bound : Nat) {fuel : Nat} (left : Parsed) (ts : List Token) :
    Parallel f excused (Rest.moved f) (chain s nested bound scope fuel left ts)
      (chain s' nested' bound scope fuel left (ts.map (Token.moved f))) := by
  induction fuel generalizing left ts with
  | zero => exact .ok (left, ts)
  | succ fuel ih =>
    rcases ts with _ | ⟨⟨kind, position⟩, ts⟩
    · exact .ok (left, [])
    · cases kind with
      | operator symbol =>
        cases symbol with
        | connective c =>
          unfold chain
          rw [List.map_cons]
          dsimp only [Token.moved]
          rw [positionOf_parallel hs]
          split
          · refine (hnested _ _ _ _).bind fun ⟨right, ts⟩ => ?_
            exact (node_parallel hs _ _ _ _).bind fun left => ih left ts
          · exact .ok (left, _)
        | _ => exact .ok (left, _)
      | _ => exact .ok (left, _)

theorem operand_parallel (bound : Nat) (ts : List Token) :
    Parallel f excused (Rest.moved f) (operand s nested bound scope ts)
      (operand s' nested' bound scope (ts.map (Token.moved f))) := by
  refine (unary_parallel hs hnested ts).bind fun ⟨left, ts⟩ => ?_
  dsimp only [Rest.moved]
  rw [List.length_map]
  exact chain_parallel hs hnested bound left ts

theorem whole_parallel (ts : List Token) :
    Parallel f excused (Rest.moved f) (whole s nested scope ts)
      (whole s' nested' scope (ts.map (Token.moved f))) := by
  refine (operand_parallel hs hnested _ ts).bind fun ⟨condition, ts⟩ => ?_
  rcases ts with _ | ⟨⟨kind, position⟩, ts⟩
  · exact .ok (condition, [])
  · cases kind with
    | question =>
      dsimp only [Rest.moved]
      rw [List.map_cons]
      dsimp only [Token.moved]
      rw [positionOf_parallel hs]
      refine (hnested _ _ _ _).bind fun ⟨thenBranch, ts⟩ => ?_
      refine (expect_parallel _ _ _).bind fun ts => ?_
      rw [positionOf_parallel hs]
      refine (hnested _ _ _ _).bind fun ⟨elseBranch, ts⟩ => ?_
      exact node_bind_parallel hs ts
    | _ => exact .ok (condition, _)

end Parts

end Settings

end Readers

/-- The induction is on the nesting that is left to the first reader.  Where none is left, the
second one may go on only if the refusal is excused. -/
theorem parseAt_parallel {f : Nat → Nat} {excused : CompileError → Prop} {s s' : Setting}
    (hs : s.Parallel f excused s') {room room' : Nat} (hroom : room ≤ room')
    (hexcuse : room' = room ∨ ∀ position, excused (.tooDeep s.limit position)) :
    (parseAt s room).Parallel f excused (parseAt s' room') := by
  induction room generalizing room' with
  | zero =>
    intro position goal scope ts
    rcases hexcuse with rfl | hexcused
    · rcases hs.excuse with hlimit | hexcused
      · rw [parseAt, parseAt, hlimit]
        exact .error _
      · exact .excuse (hexcused position) _
    · exact .excuse (hexcused position) _
  | succ room ih =>
    obtain ⟨room', rfl⟩ : ∃ n, room' = n + 1 := Nat.exists_eq_add_one_of_ne_zero (by omega)
    have hnested := ih (Nat.le_of_succ_le_succ hroom) (hexcuse.imp_left Nat.succ.inj)
    intro position goal scope ts
    cases goal with
    | whole => exact whole_parallel hs hnested ts
    | operand bound => exact operand_parallel hs hnested bound ts

theorem parseTokens_parallel {f : Nat → Nat} {excused : CompileError → Prop} {s s' : Setting}
    (hs : s.Parallel f excused s') (ts : List Token) :
    Parallel f excused id (parseTokens s ts) (parseTokens s' (ts.map (Token.moved f))) := by
  rw [parseTokens, parseTokens, positionOf_parallel hs]
  refine (parseAt_parallel hs hs.limit hs.excuse _ _ _ _).bind fun ⟨parsed, rest⟩ => ?_
  cases rest with
  | nil => exact .ok parsed
  | cons t rest => exact .error _

end Grammar

/-! ## Moved tokens -/

/-- Moved tokens are read under the same limit.  Where there are tokens, the one at which an error
at the end is reported is moved with them. -/
theorem parseTokens_moved (f : Nat → Nat) (catalog : Catalog) (limit : Nat) {ts : List Token}
    (hne : ts ≠ []) :
    parseTokens catalog limit (ts.map (Token.moved f)) =
      (parseTokens catalog limit ts).mapError (CompileError.moved f) := by
  have hlast : ((ts.map (Token.moved f)).getLast?.map Token.position).getD 0 =
      f ((ts.getLast?.map Token.position).getD 0) := by
    rw [List.getLast?_map, List.getLast?_eq_some_getLast hne]
    rfl
  have hs : Grammar.Setting.Parallel f (fun _ => False)
      ⟨catalog, limit, (ts.getLast?.map Token.position).getD 0⟩
      ⟨catalog, limit, ((ts.map (Token.moved f)).getLast?.map Token.position).getD 0⟩ :=
    ⟨fun _ => .inl rfl, hlast, Nat.le_refl limit, .inl rfl⟩
  exact (Grammar.parseTokens_parallel hs ts).eq_mapError

/-- An error that has a position has the position of a token: if only positions without a token are
moved, then the tokens are the same, and so is the error. -/
theorem exists_of_parseTokens_error {catalog : Catalog} {limit : Nat} {ts : List Token}
    {error : CompileError} {position : Nat} (hne : ts ≠ [])
    (h : parseTokens catalog limit ts = .error error)
    (hposition : error.position? = some position) : ∃ t ∈ ts, t.position = position := by
  by_contra hnone
  let f := Function.update id position (position + 1)
  have hsame : ts.map (Token.moved f) = ts := by
    refine (List.map_congr_left fun t ht => ?_).trans (List.map_id ts)
    have hother : f t.position = t.position :=
      Function.update_of_ne (fun heq => hnone ⟨t, ht, heq⟩) (position + 1) id
    rw [Token.moved, hother, id]
  have hmoved := parseTokens_moved f catalog limit hne
  rw [hsame, h] at hmoved
  have herror := congrArg CompileError.position? (Except.error.inj hmoved)
  have hmove : f position = position + 1 := Function.update_self position (position + 1) id
  rw [CompileError.position?_moved, hposition, Option.map_some, hmove] at herror
  exact absurd (Option.some.inj herror) (Nat.ne_of_lt (Nat.lt_succ_self position))

end CommissionRules
