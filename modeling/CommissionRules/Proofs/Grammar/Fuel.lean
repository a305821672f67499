import CommissionRules.Proofs.Grammar.Following

/-!
# More fuel

The outcome of the descent does not depend on the fuel.  Where a function has an outcome, it has the
same with fuel for one call more (`Parser.lasts`), and so with any fuel more.  What a function comes
to (`Parser.Comes`) is therefore a notion of its own, and an outcome with some fuel says what it is.
-/

namespace CommissionRules

namespace Parser

variable {α β : Type} {p : Parser} {fuel active : Nat}

/-- Where the first computation has an outcome, the second has the same. -/
def Extends (reading reading' : Reading α) : Prop :=
  ∀ ⦃c outcome⦄, runAt reading c = some outcome → runAt reading' c = some outcome

namespace Extends

variable {reading reading' : Reading α}

theorem refl : Extends reading reading := fun _ _ h => h

theorem outOfFuel : Extends outOfFuel reading := by
  intro c outcome houtcome
  cases houtcome

theorem bind {f f' : α → Reading β} (h : Extends reading reading')
    (hf : ∀ a, Extends (f a) (f' a)) : Extends (reading >>= f) (reading' >>= f') := by
  intro c outcome houtcome
  rw [runAt_bind] at houtcome ⊢
  cases hreading : runAt reading c with
  | none =>
    rw [hreading] at houtcome
    cases houtcome
  | some first =>
    rw [hreading] at houtcome
    rw [h hreading]
    obtain ⟨result, c'⟩ := first
    cases result with
    | error e => exact houtcome
    | ok a => exact hf a houtcome

/-- The first step is the same in both. -/
theorem behind {f f' : α → Reading β} (hf : ∀ a, Extends (f a) (f' a)) :
    Extends (reading >>= f) (reading >>= f') :=
  refl.bind hf

/-- The last steps are the same in both. -/
theorem followed {f : α → Reading β} (h : Extends reading reading') :
    Extends (reading >>= f) (reading' >>= f) :=
  h.bind fun _ => refl

end Extends

/-- An outcome with this fuel is one with fuel for one call more. -/
structure Lasts (p : Parser) (fuel : Nat) : Prop where
  whole : ∀ active, Extends (p.whole fuel active) (p.whole (fuel + 1) active)
  operand : ∀ active bound,
    Extends (p.operand fuel active bound) (p.operand (fuel + 1) active bound)
  chain : ∀ active bound left,
    Extends (p.chain fuel active bound left) (p.chain (fuel + 1) active bound left)
  unary : ∀ active, Extends (p.unary fuel active) (p.unary (fuel + 1) active)
  trailed : ∀ active, Extends (p.trailed fuel active) (p.trailed (fuel + 1) active)
  trailing : ∀ active receiver,
    Extends (p.trailing fuel active receiver) (p.trailing (fuel + 1) active receiver)
  primary : ∀ active, Extends (p.primary fuel active) (p.primary (fuel + 1) active)
  identifier : ∀ active name position,
    Extends (p.identifier fuel active name position) (p.identifier (fuel + 1) active name position)
  functionCall : ∀ active space position, Extends (p.functionCall fuel active space position)
    (p.functionCall (fuel + 1) active space position)
  arguments : ∀ active, Extends (p.arguments fuel active) (p.arguments (fuel + 1) active)
  argumentsFrom : ∀ active args height, Extends (p.argumentsFrom fuel active args height)
    (p.argumentsFrom (fuel + 1) active args height)
  methodCall : ∀ active receiver name position,
    Extends (p.methodCall fuel active receiver name position)
      (p.methodCall (fuel + 1) active receiver name position)
  bodyIn : ∀ active param, Extends (p.bodyIn fuel active param) (p.bodyIn (fuel + 1) active param)
  lambdaArgument : ∀ active element,
    Extends (p.lambdaArgument fuel active element) (p.lambdaArgument (fuel + 1) active element)
  plainArgument : ∀ active method position,
    Extends (p.plainArgument fuel active method position)
      (p.plainArgument (fuel + 1) active method position)

namespace Lasts

theorem zero (p : Parser) : p.Lasts 0 where
  whole _ := .outOfFuel
  operand _ _ := .outOfFuel
  chain _ _ _ := .outOfFuel
  unary _ := .outOfFuel
  trailed _ := .outOfFuel
  trailing _ _ := .outOfFuel
  primary _ := .outOfFuel
  identifier _ _ _ := .outOfFuel
  functionCall _ _ _ := .outOfFuel
  arguments _ := .outOfFuel
  argumentsFrom _ _ _ := .outOfFuel
  methodCall _ _ _ _ := .outOfFuel
  bodyIn _ _ := .outOfFuel
  lambdaArgument _ _ := .outOfFuel
  plainArgument _ _ _ := .outOfFuel

/-- A call with more fuel makes the same calls with more fuel. -/
theorem succ (h : p.Lasts fuel) : p.Lasts (fuel + 1) where
  whole active := by
    rw [Parser.whole, Parser.whole]
    refine .behind fun _ => .bind (h.operand _ _) fun condition => .behind fun kind => ?_
    split
    · refine .behind fun position => .behind fun _ => .bind (h.whole _) fun thenBranch => ?_
      exact .behind fun _ => .followed (h.whole _)
    · exact .refl
  operand active bound := by
    rw [Parser.operand, Parser.operand]
    exact .bind (h.unary _) fun left => h.chain _ _ left
  chain active bound left := by
    rw [Parser.chain, Parser.chain]
    refine .behind fun kind => ?_
    split
    · split
      · refine .behind fun position => .behind fun _ => .behind fun _ => ?_
        refine .bind (h.operand _ _) fun right => .behind fun _ => .behind fun left => ?_
        exact h.chain _ _ left
      · exact .refl
    · exact .refl
  unary active := by
    rw [Parser.unary, Parser.unary]
    refine .behind fun kind => ?_
    split
    · split
      · refine .behind fun position => .behind fun _ => .behind fun _ => ?_
        exact .followed (h.operand _ _)
      · exact h.trailed _
    · exact h.trailed _
  trailed active := by
    rw [Parser.trailed, Parser.trailed]
    exact .bind (h.primary _) fun receiver => h.trailing _ receiver
  trailing active receiver := by
    rw [Parser.trailing, Parser.trailing]
    refine .behind fun dot => ?_
    split
    · refine .behind fun name => .behind fun kind => ?_
      split
      · exact .bind (h.methodCall _ _ _ _) fun receiver => h.trailing _ receiver
      · exact .behind fun receiver => h.trailing _ receiver
    · exact .refl
  primary active := by
    rw [Parser.primary, Parser.primary]
    refine .behind fun token => ?_
    split
    · exact .refl
    · refine .behind fun _ => ?_
      split
      case h_5 => exact .followed (h.whole _)
      case h_6 => exact h.identifier _ _ _
      all_goals exact .refl
  identifier active name position := by
    rw [Parser.identifier, Parser.identifier]
    refine .behind fun c => ?_
    split
    · exact .refl
    split
    · exact .refl
    split
    · exact h.functionCall _ _ _
    · exact .refl
  functionCall active space position := by
    rw [Parser.functionCall, Parser.functionCall]
    refine .behind fun _ => .behind fun name => ?_
    dsimp only
    split
    · exact .refl
    · exact .behind fun _ => .followed (h.arguments _)
  arguments active := by
    rw [Parser.arguments, Parser.arguments]
    refine .behind fun closed => ?_
    split
    · exact .refl
    · exact h.argumentsFrom _ _ _
  argumentsFrom active args height := by
    rw [Parser.argumentsFrom, Parser.argumentsFrom]
    refine .bind (h.whole _) fun arg => .behind fun comma => ?_
    split
    · exact h.argumentsFrom _ _ _
    · exact .refl
  methodCall active receiver name position := by
    rw [Parser.methodCall, Parser.methodCall]
    split
    · exact .refl
    · cases receiver.shape with
      | collection | unknown =>
        refine .behind fun element => .behind fun _ => .behind fun isLambda => ?_
        split
        · exact .followed (h.lambdaArgument _ _)
        · exact .followed (h.plainArgument _ _ _)
      | _ => exact .refl
  bodyIn active param := by
    intro c outcome houtcome
    rw [runAt_bodyIn] at houtcome ⊢
    obtain ⟨body, hbody, rfl⟩ := Option.map_eq_some_iff.mp houtcome
    rw [h.whole active hbody]
    rfl
  lambdaArgument active element := by
    rw [Parser.lambdaArgument, Parser.lambdaArgument]
    refine .behind fun param => .behind fun _ => ?_
    exact .followed (h.bodyIn _ _)
  plainArgument active method position := by
    rw [Parser.plainArgument, Parser.plainArgument]
    refine .behind fun isLambda => ?_
    split
    · exact .refl
    · exact .followed (h.arguments _)

end Lasts

theorem lasts (p : Parser) (fuel : Nat) : p.Lasts fuel := by
  induction fuel with
  | zero => exact .zero p
  | succ fuel ih => exact ih.succ

/-- What a function comes to, with as much fuel as it needs. -/
def Comes (reading : Nat → Reading α) (c : Cursor) (result : Except CompileError α) (c' : Cursor) :
    Prop :=
  ∃ need, ∀ fuel, need ≤ fuel → runAt (reading fuel) c = some (result, c')

theorem comes_of_runAt {reading : Nat → Reading α} {c c' : Cursor}
    {result : Except CompileError α} (h : ∀ k, Extends (reading k) (reading (k + 1)))
    (houtcome : runAt (reading fuel) c = some (result, c')) : Comes reading c result c' := by
  refine ⟨fuel, fun k hk => ?_⟩
  induction hk with
  | refl => exact houtcome
  | step _ ih => exact h _ ih

end Parser

end CommissionRules
