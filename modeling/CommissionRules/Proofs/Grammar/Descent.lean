import CommissionRules.Proofs.Grammar.Fuel

/-!
# The descent ends

`descent_ends`: every function of the descent comes to an end from every cursor.  A call that
succeeds stands behind the token it started at, at the depth and in the scope it started with, and
the number of levels that are left bounds how many descending steps can be active at once, however
many tokens there are.

The functions are compared with the readers of tokens, which are recursive on the levels that are
left.  `Nests` says it of the two ways to go down a level, from which follows what the functions do
on the level itself, and by induction on the levels everything.
-/

namespace CommissionRules

open Grammar (Nested Rest positionOf parseAt)

namespace Parser

variable {α β : Type} {p : Parser} {c c' c'' : Cursor} {post : Cursor → Prop}
variable {most room active need taken rounds n k : Nat}

/-! ## Levels -/

/-- There is room for so many more levels.  With the steps that are active around the cursor, no
more than `most` can be active at once, counting the step that fails where no level is left. -/
structure Room (p : Parser) (most room active : Nat) (c : Cursor) : Prop where
  left : p.limit - c.depth = room
  bound : active + room + 1 ≤ most
  peak : c.peak ≤ most

namespace Room

theorem reached (h : p.Room most room active c) (h' : p.Reaches most c n c') :
    p.Room most room active c' where
  left := by rw [h'.depth, h.left]
  bound := h.bound
  peak := h'.peak

theorem peak_descended (h : p.Room most room active c) :
    (c.descended active).peak ≤ most := by
  have := h.bound
  exact Nat.max_le.mpr ⟨h.peak, by omega⟩

theorem descended (h : p.Room most (room + 1) active c) :
    p.Room most room (active + 1) (c.descended active) where
  left := by
    have := h.left
    simp only [Cursor.descended]
    omega
  bound := by
    have := h.bound
    omega
  peak := h.peak_descended

end Room

/-- With this room, and with fuel for each token that is left and for `need` calls more, a function
does as a reader of tokens does. -/
def Agrees (p : Parser) (most room need taken : Nat) (reading : Nat → Nat → Reading α)
    (read : Nested → Scope → List Token → Except CompileError (Rest α)) : Prop :=
  ∀ ⦃k active c⦄, need + (p.rest c).length ≤ k → p.Room most room active c →
    p.Follows most (p.Reaches most c taken) (runAt (reading k active) c)
      (read (parseAt p.setting room) c.scope.reverse (p.rest c))

/-- The same of a loop, on no more tokens than there are rounds for in the reader. -/
def AgreesWithin (p : Parser) (most room need taken rounds : Nat) (reading : Nat → Nat → Reading α)
    (read : Nested → Scope → List Token → Except CompileError (Rest α)) : Prop :=
  ∀ ⦃k active c⦄, need + (p.rest c).length ≤ k → p.Room most room active c →
    (p.rest c).length < rounds →
    p.Follows most (p.Reaches most c taken) (runAt (reading k active) c)
      (read (parseAt p.setting room) c.scope.reverse (p.rest c))

section Behind

variable {reading : Nat → Nat → Reading α}
  {read : Nested → Scope → List Token → Except CompileError (Rest α)}

theorem AgreesWithin.behind (h : p.AgreesWithin most room need taken rounds reading read)
    (hfuel : need + (p.rest c').length ≤ k) (hroom : p.Room most room active c)
    (hreached : p.Reaches most c n c') (hrounds : (p.rest c').length < rounds) :
    p.Follows most (p.Reaches most c (n + taken)) (runAt (reading k active) c')
      (read (parseAt p.setting room) c.scope.reverse (p.rest c')) := by
  have hfollows := h hfuel (hroom.reached hreached) hrounds
  rw [hreached.scope] at hfollows
  exact hfollows.weaken fun _ => hreached.trans

theorem Agrees.within (h : p.Agrees most room need taken reading read) :
    p.AgreesWithin most room need taken rounds reading read := fun _ _ _ hfuel hroom _ =>
  h hfuel hroom

/-- Behind tokens that have been taken. -/
theorem Agrees.behind (h : p.Agrees most room need taken reading read)
    (hfuel : need + (p.rest c).length ≤ k) (hroom : p.Room most room active c)
    (hreached : p.Reaches most c n c') :
    p.Follows most (p.Reaches most c (n + taken)) (runAt (reading k active) c')
      (read (parseAt p.setting room) c.scope.reverse (p.rest c')) := by
  have hlength := hreached.length_le
  exact h.within.behind (by omega) hroom hreached (Nat.lt_succ_self _)

/-- A round that takes a token leaves fuel and rounds enough for the later ones. -/
theorem AgreesWithin.later (h : p.AgreesWithin most room need taken rounds reading read)
    (hfuel : need + (p.rest c).length ≤ k + 1) (hroom : p.Room most room active c)
    (hrounds : (p.rest c).length < rounds + 1) (hreached : p.Reaches most c (n + 1) c') :
    p.Follows most (p.Reaches most c taken) (runAt (reading k active) c')
      (read (parseAt p.setting room) c.scope.reverse (p.rest c')) := by
  have hlength := hreached.length_le
  have hlater := h.behind (k := k) (by omega) hroom hreached (by omega)
  exact hlater.weaken fun _ h' => h'.weaken (Nat.le_add_left _ _)

end Behind

/-- The two ways to go down a level, to a whole expression and to an operand.  The whole expression
takes the step itself; whoever reads the operand has taken it. -/
structure Nests (p : Parser) (most room need : Nat) : Prop where
  whole : p.Agrees most room need 1 p.whole fun nested scope ts =>
    nested (positionOf p.setting ts) .whole scope ts
  operand : ∀ room', room = room' + 1 → ∀ bound, p.Agrees most room' need 1 (p.operand · · bound)
    fun nested => Grammar.operand p.setting nested bound

namespace Nests

variable (h : p.Nests most room need)
include h

/-! ## Calls -/

/-- One argument, from what the arguments behind it are. -/
theorem argumentsFrom_step {fuel rounds : Nat} (args : List Expr) (height : Nat)
    (hfuel : need + (p.rest c).length ≤ fuel) (hroom : p.Room most room active c)
    (hlater : ∀ args height c', p.Reaches most c 2 c' →
      p.Follows most (p.Reaches most c 1) (runAt (p.argumentsFrom fuel active args height) c')
        ((Grammar.argumentsFrom p.setting (parseAt p.setting room) c.scope.reverse rounds
          (p.rest c')).map fun found => ((args ++ found.1.1, max height found.1.2), found.2))) :
    p.Follows most (p.Reaches most c 1) (runAt (p.argumentsFrom (fuel + 1) active args height) c)
      ((Grammar.argumentsFrom p.setting (parseAt p.setting room) c.scope.reverse (rounds + 1)
        (p.rest c)).map fun found => ((args ++ found.1.1, max height found.1.2), found.2)) := by
  rw [Parser.argumentsFrom, Grammar.argumentsFrom, map_bind_except]
  refine (h.whole hfuel hroom).bind fun arg c₁ h₁ => ?_
  -- Behind the last argument stands the closing parenthesis.
  have hlast : p.Follows most (p.Reaches most c 1)
      (runAt (p.expect .closeParen "',' or ')'" >>= fun _ =>
        pure (args ++ [arg.expr], max height arg.height)) c₁)
      (Grammar.expect .closeParen "',' or ')'" (p.rest c₁) >>= fun rest =>
        .ok ((args ++ [arg.expr], max height arg.height), rest)) :=
    .expect h₁ fun c₂ h₂ => .ok (h₂.weaken (by omega))
  dsimp only
  rw [runAt_eat]
  rcases p.rest_cases c₁ with hrest | ⟨kind, position, hrest⟩
  · rw [hrest] at hlast ⊢
    exact hlast
  · rw [hrest] at hlast ⊢
    cases kind with
    | comma =>
      rw [if_pos rfl]
      refine (hlater (args ++ [arg.expr]) (max height arg.height) _ (h₁.advance hrest)).congr ?_
      dsimp only
      generalize Grammar.argumentsFrom p.setting (parseAt p.setting room) c.scope.reverse rounds
        (p.rest c₁.advanced) = later
      cases later with
      | error e => rfl
      | ok found => simp [Except.map, bind, Except.bind, Nat.max_assoc]
    | _ => exact hlast

theorem argumentsFrom (args : List Expr) (height rounds : Nat) :
    p.AgreesWithin most room (need + 1) 1 rounds (p.argumentsFrom · · args height)
      fun nested scope ts => (Grammar.argumentsFrom p.setting nested scope rounds ts).map
        fun found => ((args ++ found.1.1, max height found.1.2), found.2) := by
  induction rounds generalizing args height with
  | zero => exact fun _ _ _ _ _ hrounds => absurd hrounds (Nat.not_lt_zero _)
  | succ rounds ih =>
    rintro (_ | fuel) active c hfuel hroom hrounds
    · omega
    exact h.argumentsFrom_step args height (by omega) hroom fun args height _ hreached =>
      (ih args height).later hfuel hroom hrounds hreached

theorem arguments :
    p.Agrees most room (need + 2) 1 p.arguments (Grammar.arguments p.setting) := by
  rintro (_ | fuel) active c hfuel hroom
  · omega
  have hsome : p.Follows most (p.Reaches most c 1) (runAt (p.argumentsFrom fuel active [] 0) c)
      (Grammar.argumentsFrom p.setting (parseAt p.setting room) c.scope.reverse
        ((p.rest c).length + 1) (p.rest c)) := by
    refine (h.argumentsFrom [] 0 _ (by omega) hroom (Nat.lt_succ_self _)).congr ?_
    simp only [List.nil_append, Nat.zero_max]
    exact congrFun Except.map_id _
  rw [Parser.arguments, runAt_eat]
  unfold Grammar.arguments
  rcases p.rest_cases c with hrest | ⟨kind, position, hrest⟩
  · rw [hrest] at hsome ⊢
    exact hsome
  · rw [hrest] at hsome ⊢
    cases kind with
    | closeParen => exact .ok ((Reaches.refl hroom.peak).advance hrest)
    | _ => exact hsome

theorem functionCall (space : String) (position : Nat) :
    p.Agrees most room (need + 3) 1 (p.functionCall · · space position) fun nested scope =>
      Grammar.functionCall p.setting nested scope space position := by
  rintro (_ | fuel) active c hfuel hroom
  · omega
  dsimp only
  rw [Parser.functionCall, Grammar.functionCall]
  refine .expect (.refl hroom.peak) fun c₁ h₁ => .expectIdent h₁ fun name _ c₂ h₂ => ?_
  dsimp only
  cases Catalog.function? (space ++ "." ++ name) with
  | none => exact .error h₂.peak
  | some spec =>
    refine .expect h₂ fun c₃ h₃ => ?_
    refine (h.arguments.behind (by omega) hroom h₃).bind fun found c₄ h₄ => ?_
    dsimp only
    split
    · exact .node h₄.peak (h₄.weaken (by omega))
    · exact .error h₄.peak

theorem identifier (name : String) (position : Nat) :
    p.Agrees most room (need + 4) 0 (p.identifier · · name position) fun nested scope =>
      Grammar.identifier p.setting nested scope name position := by
  rintro (_ | fuel) active c hfuel hroom
  · omega
  dsimp only
  rw [Parser.identifier, Grammar.identifier, runAt_get]
  cases c.scope.reverse.lookup name with
  | some shape => exact .ok (.refl hroom.peak)
  | none =>
    dsimp only [Parser.setting]
    cases p.catalog.source? name with
    | some source => exact .ok (.refl hroom.peak)
    | none =>
      dsimp only
      split
      · have hcall := h.functionCall name position (k := fuel) (by omega) hroom
        exact hcall.weaken fun _ h₁ => h₁.weaken (by omega)
      · exact .error hroom.peak

theorem primary : p.Agrees most room (need + 5) 1 p.primary (Grammar.primary p.setting) := by
  rintro (_ | fuel) active c hfuel hroom
  · omega
  rw [Parser.primary, runAt_token]
  unfold Grammar.primary
  rcases p.rest_cases c with hrest | ⟨kind, position, hrest⟩
  · rw [hrest]
    exact .error hroom.peak
  · have h₁ := (Reaches.refl hroom.peak).advance hrest
    rw [hrest]
    dsimp only [List.head?_cons]
    rw [runAt_advance]
    cases kind with
    | openParen =>
      refine (h.whole.behind (by omega) hroom h₁).bind fun inner c₂ h₂ => ?_
      exact .expect h₂ fun c₃ h₃ => .ok (h₃.weaken (by omega))
    | ident name => exact (h.identifier name position).behind (by omega) hroom h₁
    | number | str | bool | null => exact .ok h₁
    | _ => exact .error h₁.peak

/-! ## Properties and methods -/

/-- The scope is what it was, whether the body has an error or not. -/
theorem bodyIn (param : String × Shape) : p.Agrees most room (need + 1) 1 (p.bodyIn · · param)
    fun nested scope ts => nested (positionOf p.setting ts) .whole (param :: scope) ts := by
  rintro (_ | fuel) active c hfuel hroom
  · omega
  have hrest : p.rest (c.pushed param) = p.rest c := rfl
  have hbody := h.whole (c := c.pushed param) (k := fuel) (by rw [hrest]; omega)
    ⟨hroom.left, hroom.bound, hroom.peak⟩
  have hscope : (c.pushed param).scope.reverse = param :: c.scope.reverse :=
    List.reverse_concat ..
  rw [hscope] at hbody
  dsimp only
  rw [runAt_bodyIn]
  exact hbody.pop

theorem lambdaArgument (element : Option KnownProperties) :
    p.Agrees most room (need + 2) 1 (p.lambdaArgument · · element) fun nested scope =>
      Grammar.lambdaArgument p.setting nested scope element := by
  rintro (_ | fuel) active c hfuel hroom
  · omega
  dsimp only
  rw [Parser.lambdaArgument, Grammar.lambdaArgument]
  refine .expectIdent (.refl hroom.peak) fun param _ c₁ h₁ => .expect h₁ fun c₂ h₂ => ?_
  have hbody := (h.bodyIn (param, .record element)).behind (k := fuel) (by omega) hroom h₂
  refine hbody.bind fun body c₃ h₃ => ?_
  exact .expect h₃ fun c₄ h₄ => .ok (h₄.weaken (by omega))

theorem plainArgument (method : MethodSpec) (position : Nat) :
    p.Agrees most room (need + 3) 1 (p.plainArgument · · method position) fun nested scope =>
      Grammar.plainArgument p.setting nested scope method position := by
  rintro (_ | fuel) active c hfuel hroom
  · omega
  dsimp only
  rw [Parser.plainArgument, Grammar.plainArgument, runAt_atLambda]
  split
  · rw [runAt_position]
    exact .error hroom.peak
  · refine (h.arguments (by omega) hroom).bind fun found c₁ h₁ => ?_
    obtain ⟨args, height⟩ := found
    dsimp only
    split
    · next harity =>
      cases hargument : method.argument with
      | none => exact .ok h₁
      | value =>
        have hone : method.arity = 1 := by simp [MethodSpec.arity, hargument]
        obtain ⟨arg, rfl⟩ := List.length_eq_one_iff.mp (harity.trans hone)
        exact .ok h₁
      | lambda =>
        have hone : method.arity = 1 := by simp [MethodSpec.arity, hargument]
        obtain ⟨arg, rfl⟩ := List.length_eq_one_iff.mp (harity.trans hone)
        exact .error h₁.peak
    · exact .error h₁.peak

theorem methodCall (receiver : Parsed) (name : String) (position : Nat) :
    p.Agrees most room (need + 4) 1 (p.methodCall · · receiver name position)
      fun nested scope => Grammar.methodCall p.setting nested scope receiver name position := by
  rintro (_ | fuel) active c hfuel hroom
  · omega
  dsimp only
  rw [Parser.methodCall, Grammar.methodCall]
  cases Catalog.method? name with
  | none => exact .error hroom.peak
  | some method =>
    dsimp only
    cases receiver.shape with
    | collection | unknown =>
      refine .expect (.refl hroom.peak) fun c₁ h₁ => ?_
      rw [runAt_atLambda]
      split
      · refine ((h.lambdaArgument _).behind (by omega) hroom h₁).bind fun found c₂ h₂ => ?_
        exact .node h₂.peak (h₂.weaken (by omega))
      · refine ((h.plainArgument _ _).behind (by omega) hroom h₁).bind fun found c₂ h₂ => ?_
        exact .node h₂.peak (h₂.weaken (by omega))
    | _ => exact .error hroom.peak

/-- One property or method call, from what those behind it are. -/
theorem trailing_step {fuel rounds : Nat} (receiver : Parsed)
    (hfuel : need + 4 + (p.rest c).length ≤ fuel) (hroom : p.Room most room active c)
    (hlater : ∀ receiver n c', p.Reaches most c (n + 1) c' →
      p.Follows most (p.Reaches most c 0) (runAt (p.trailing fuel active receiver) c')
        (Grammar.trailing p.setting (parseAt p.setting room) c.scope.reverse rounds receiver
          (p.rest c'))) :
    p.Follows most (p.Reaches most c 0) (runAt (p.trailing (fuel + 1) active receiver) c)
      (Grammar.trailing p.setting (parseAt p.setting room) c.scope.reverse (rounds + 1) receiver
        (p.rest c)) := by
  have hend : p.Follows most (p.Reaches most c 0) (runAt (pure receiver) c)
      (.ok (receiver, p.rest c)) := .ok (.refl hroom.peak)
  rw [Parser.trailing, runAt_eat]
  unfold Grammar.trailing
  rcases p.rest_cases c with hrest | ⟨kind, position, hrest⟩
  · rw [hrest] at hend ⊢
    exact hend
  have h₁ := (Reaches.refl hroom.peak).advance hrest
  rw [hrest] at hend ⊢
  cases kind with
  | dot =>
    rw [if_pos rfl]
    refine .expectIdent h₁ fun name position c₂ h₂ => ?_
    have hmethod := ((h.methodCall receiver name position).behind hfuel hroom h₂).bind
      (g := fun found => Grammar.trailing p.setting (parseAt p.setting room) c.scope.reverse rounds
        found.1 found.2)
      fun receiver => hlater receiver _
    have hproperty := Follows.lift h₂.peak
      (x := Grammar.property p.setting receiver name position) fun receiver =>
      hlater receiver _ c₂ h₂
    dsimp only
    rw [runAt_kind]
    rcases p.rest_cases c₂ with hrest₂ | ⟨kind, _, hrest₂⟩
    · rw [hrest₂] at hproperty ⊢
      exact hproperty
    · rw [hrest₂] at hproperty hmethod ⊢
      cases kind with
      | openParen => exact hmethod
      | _ => exact hproperty
  | _ => exact hend

theorem trailing (rounds : Nat) (receiver : Parsed) :
    p.AgreesWithin most room (need + 5) 0 (rounds + 1) (p.trailing · · receiver)
      fun nested scope => Grammar.trailing p.setting nested scope rounds receiver := by
  induction rounds generalizing receiver with
  | zero =>
    rintro (_ | fuel) active c hfuel hroom hrounds
    · omega
    have hend : p.Follows most (p.Reaches most c 0) (runAt (pure receiver) c)
        (.ok (receiver, p.rest c)) := .ok (.refl hroom.peak)
    have hrest : p.rest c = [] := List.length_eq_zero_iff.mp (Nat.lt_one_iff.mp hrounds)
    dsimp only
    rw [Parser.trailing, runAt_eat, Grammar.trailing]
    rw [hrest] at hend ⊢
    exact hend
  | succ rounds ih =>
    rintro (_ | fuel) active c hfuel hroom hrounds
    · omega
    exact h.trailing_step receiver (by omega) hroom fun receiver _ _ hreached =>
      (ih receiver).later hfuel hroom hrounds hreached

theorem trailed : p.Agrees most room (need + 6) 1 p.trailed (Grammar.trailed p.setting) := by
  rintro (_ | fuel) active c hfuel hroom
  · omega
  rw [Parser.trailed, Grammar.trailed]
  refine (h.primary (by omega) hroom).bind fun receiver c₁ h₁ => ?_
  have hlength := h₁.length_le
  exact (h.trailing _ receiver).behind (by omega) hroom h₁ (Nat.lt_succ_self _)

/-! ## Operators -/

/-- An operand one level below, or an error where no level is left. -/
theorem below {f : Parsed → Reading β} {g : Rest Parsed → Except CompileError (Rest β)}
    (bound position : Nat) {fuel : Nat} (hfuel : need + (p.rest c).length ≤ fuel)
    (hroom : p.Room most room active c) (hreached : p.Reaches most c n c')
    (hpeak : c''.peak = (c'.descended active).peak)
    (hf : ∀ operand c₁, p.Reaches most c (n + 1) c₁ →
      p.Follows most post (runAt (f operand) c₁) (g (operand, p.rest c₁))) :
    p.Follows most post (if p.limit < c'.depth + 1 then
        some (.error (.tooDeep p.limit position), c'')
      else runAt (do
        let operand ← p.operand fuel (active + 1) bound
        ascend
        f operand) (c'.descended active))
      (parseAt p.setting room position (.operand bound) c.scope.reverse (p.rest c') >>= g) := by
  have hroom' := hroom.reached hreached
  have hleft := hroom'.left
  cases room with
  | zero =>
    rw [if_pos (by omega)]
    exact .error (hpeak ▸ hroom'.peak_descended)
  | succ room =>
    rw [if_neg (by omega)]
    have hlength := hreached.length_le
    have hrest : p.rest (c'.descended active) = p.rest c' := rfl
    have hoperand := h.operand room rfl bound (k := fuel) (by rw [hrest]; omega)
      hroom'.descended
    have hscope : (c'.descended active).scope = c.scope := hreached.scope
    rw [hscope] at hoperand
    refine hoperand.bind fun operand c₁ h₁ => ?_
    rw [runAt_ascend]
    exact hf operand c₁.ascended (hreached.trans h₁.ascend)

theorem unary : p.Agrees most room (need + 7) 1 p.unary (Grammar.unary p.setting) := by
  rintro (_ | fuel) active c hfuel hroom
  · omega
  have htrailed := h.trailed (k := fuel) (by omega) hroom
  rw [Parser.unary, runAt_kind]
  unfold Grammar.unary
  rcases p.rest_cases c with hrest | ⟨kind, position, hrest⟩
  · rw [hrest] at htrailed ⊢
    exact htrailed
  have h₁ := (Reaches.refl hroom.peak).advance hrest
  rw [hrest] at htrailed ⊢
  cases kind with
  | operator symbol =>
    dsimp only [List.head?_cons, Option.map_some]
    cases symbol.unary? with
    | none => exact htrailed
    | some op =>
      dsimp only
      -- The operator is taken after the step down, which reports its position.
      rw [runAt_position, runAt_descend, hrest]
      refine h.below _ _ (by omega) hroom h₁ rfl fun operand c₂ h₂ => ?_
      exact .node h₂.peak (h₂.weaken (by omega))
  | _ => exact htrailed

/-- One operator and its right operand, from what stands behind it. -/
theorem chain_step {fuel rounds : Nat} (bound : Nat) (left : Parsed)
    (hfuel : need + (p.rest c).length ≤ fuel) (hroom : p.Room most room active c)
    (hlater : ∀ left n c', p.Reaches most c (n + 1) c' →
      p.Follows most (p.Reaches most c 0) (runAt (p.chain fuel active bound left) c')
        (Grammar.chain p.setting (parseAt p.setting room) bound c.scope.reverse rounds left
          (p.rest c'))) :
    p.Follows most (p.Reaches most c 0) (runAt (p.chain (fuel + 1) active bound left) c)
      (Grammar.chain p.setting (parseAt p.setting room) bound c.scope.reverse (rounds + 1) left
        (p.rest c)) := by
  have hend : p.Follows most (p.Reaches most c 0) (runAt (pure left) c)
      (.ok (left, p.rest c)) := .ok (.refl hroom.peak)
  rw [Parser.chain, runAt_kind]
  unfold Grammar.chain
  rcases p.rest_cases c with hrest | ⟨kind, position, hrest⟩
  · rw [hrest] at hend ⊢
    exact hend
  have h₁ := (Reaches.refl hroom.peak).advance hrest
  rw [hrest] at hend ⊢
  cases kind with
  | operator symbol =>
    cases symbol with
    | connective con =>
      dsimp only [List.head?_cons, Option.map_some]
      split
      · rw [runAt_position, runAt_advance, runAt_descend, hrest]
        refine h.below _ _ hfuel hroom h₁ rfl fun right c₂ h₂ => .lift h₂.peak fun left => ?_
        exact hlater left _ c₂ h₂
      · exact hend
    | _ => exact hend
  | _ => exact hend

theorem chain (bound rounds : Nat) (left : Parsed) :
    p.AgreesWithin most room (need + 1) 0 (rounds + 1) (p.chain · · bound left)
      fun nested scope => Grammar.chain p.setting nested bound scope rounds left := by
  induction rounds generalizing left with
  | zero =>
    rintro (_ | fuel) active c hfuel hroom hrounds
    · omega
    have hend : p.Follows most (p.Reaches most c 0) (runAt (pure left) c)
        (.ok (left, p.rest c)) := .ok (.refl hroom.peak)
    have hrest : p.rest c = [] := List.length_eq_zero_iff.mp (Nat.lt_one_iff.mp hrounds)
    dsimp only
    rw [Parser.chain, runAt_kind, Grammar.chain]
    rw [hrest] at hend ⊢
    exact hend
  | succ rounds ih =>
    rintro (_ | fuel) active c hfuel hroom hrounds
    · omega
    exact h.chain_step bound left (by omega) hroom fun left _ _ hreached =>
      (ih left).later hfuel hroom hrounds hreached

theorem operandAt (bound : Nat) : p.Agrees most room (need + 8) 1 (p.operand · · bound)
    fun nested => Grammar.operand p.setting nested bound := by
  rintro (_ | fuel) active c hfuel hroom
  · omega
  dsimp only
  rw [Parser.operand, Grammar.operand]
  refine (h.unary (by omega) hroom).bind fun left c₁ h₁ => ?_
  have hlength := h₁.length_le
  exact (h.chain bound _ left).behind (by omega) hroom h₁ (Nat.lt_succ_self _)

/-- A whole expression whose step down there is room for. -/
theorem wholeBelow {fuel : Nat} (hfuel : need + 8 + (p.rest c).length ≤ fuel)
    (hroom : p.Room most (room + 1) active c) :
    p.Follows most (p.Reaches most c 1) (runAt (p.whole (fuel + 1) active) c)
      (Grammar.whole p.setting (parseAt p.setting room) c.scope.reverse (p.rest c)) := by
  have hleft := hroom.left
  have hroom' := hroom.descended
  have hfuel' : need + 8 + (p.rest (c.descended active)).length ≤ fuel := hfuel
  rw [Parser.whole, runAt_descend, if_neg (by omega), Grammar.whole]
  refine (h.operandAt _ hfuel' hroom').bind fun condition c₁ h₁ => ?_
  have hcondition : p.Follows most (p.Reaches most c 1) (runAt (do ascend; return condition) c₁)
      (.ok (condition, p.rest c₁)) := .ok h₁.ascend
  dsimp only
  rw [runAt_kind]
  rcases p.rest_cases c₁ with hrest | ⟨kind, position, hrest⟩
  · rw [hrest] at hcondition ⊢
    exact hcondition
  rw [hrest] at hcondition ⊢
  cases kind with
  | question =>
    simp only [List.head?_cons, Option.map_some, if_true]
    rw [runAt_position, runAt_advance, hrest]
    have hnested {n : Nat} {c' : Cursor} (h' : p.Reaches most (c.descended active) n c') :=
      h.whole.behind (k := fuel) (by omega) hroom' h'
    refine (hnested (h₁.advance hrest)).bind fun thenBranch c₃ h₃ => .expect h₃ fun c₄ h₄ => ?_
    refine (hnested h₄).bind fun elseBranch c₅ h₅ => ?_
    exact .lift h₅.peak fun parsed => .ok (h₅.ascend.weaken (by omega))
  | _ => exact hcondition

end Nests

/-- Nine calls inside each other take a whole expression to the next one below it. -/
theorem nests (p : Parser) (most room : Nat) : p.Nests most room (9 * room + 1) := by
  induction room with
  | zero =>
    refine ⟨?_, nofun⟩
    rintro (_ | fuel) active c hfuel hroom
    · omega
    have hleft := hroom.left
    rw [Parser.whole, runAt_descend, if_pos (by omega)]
    exact .error hroom.peak_descended
  | succ room ih =>
    refine ⟨?_, ?_⟩
    · rintro (_ | fuel) active c hfuel hroom
      · omega
      · exact ih.wholeBelow (by omega) hroom
    · rintro _ ⟨rfl⟩ bound fuel active c hfuel hroom
      exact ih.operandAt bound (by omega) hroom

/-! ## The whole descent -/

/-- How many steps can be active at once from a cursor on, with so many active around it.  The
tokens do not matter. -/
def peakFrom (p : Parser) (active : Nat) (c : Cursor) : Nat :=
  max c.peak (active + (p.limit - c.depth) + 1)

/-- With so many steps active around it, a function ends.  No more steps are active at once than the
levels that are left allow, and if the function succeeds the cursor has a property. -/
def Ends (p : Parser) (active : Nat) (reading : Nat → Nat → Reading α) (c : Cursor)
    (post : Cursor → Prop) : Prop :=
  ∃ result c', Comes (reading · active) c result c' ∧ c'.peak ≤ p.peakFrom active c ∧
    ∀ a, result = .ok a → post c'

/-- A cursor has moved forward within the tokens, and depth and scope are as they were. -/
structure Behind (p : Parser) (c c' : Cursor) : Prop where
  behind : c.index < c'.index
  within : c'.index ≤ p.tokens.length
  depth : c'.depth = c.depth
  scope : c'.scope = c.scope

theorem Reaches.behind (h : p.Reaches most c (n + 1) c') : p.Behind c c' where
  behind := by
    have := h.taken
    omega
  within := by
    have := h.taken
    have := h.within
    omega
  depth := h.depth
  scope := h.scope

theorem room_peakFrom (p : Parser) (active : Nat) (c : Cursor) :
    p.Room (p.peakFrom active c) (p.limit - c.depth) active c :=
  ⟨rfl, Nat.le_max_right _ _, Nat.le_max_left _ _⟩

section Ends

variable {reading : Nat → Nat → Reading α}
  {read : Nested → Scope → List Token → Except CompileError (Rest α)}

/-- A loop has no more rounds than there are tokens. -/
theorem AgreesWithin.ends (h : p.AgreesWithin (p.peakFrom active c) (p.limit - c.depth) need n
      ((p.rest c).length + 1) reading read)
    (hlasts : ∀ k, Extends (reading k active) (reading (k + 1) active)) :
    p.Ends active reading c (p.Reaches (p.peakFrom active c) c n) := by
  have hfollows := h (Nat.le_refl _) (p.room_peakFrom active c) (Nat.lt_succ_self _)
  obtain ⟨c', houtcome, hpeak, hreached⟩ := hfollows.outcome_eq
  exact ⟨_, c', comes_of_runAt hlasts houtcome, hpeak, hreached⟩

theorem Ends.imp {mid : Cursor → Prop} (h : p.Ends active reading c mid)
    (hpost : ∀ c', mid c' → post c') : p.Ends active reading c post := by
  obtain ⟨result, c', houtcome, hpeak, hmid⟩ := h
  exact ⟨result, c', houtcome, hpeak, fun a ha => hpost c' (hmid a ha)⟩

theorem AgreesWithin.ends_behind (h : p.AgreesWithin (p.peakFrom active c) (p.limit - c.depth) need
      (n + 1) ((p.rest c).length + 1) reading read)
    (hlasts : ∀ k, Extends (reading k active) (reading (k + 1) active)) :
    p.Ends active reading c (p.Behind c) :=
  (h.ends hlasts).imp fun _ => Reaches.behind

end Ends

/-- Parsing in place gives what the readers of tokens give. -/
theorem comes_parse (p : Parser) : ∃ c',
    Comes p.parse Cursor.start (parseTokens p.catalog p.limit p.tokens) c' ∧
      c'.peak ≤ p.limit + 1 := by
  have hlasts (k : Nat) : Extends (p.parse k) (p.parse (k + 1)) := .followed ((p.lasts k).whole 0)
  suffices houtcome : ∃ c', runAt (p.parse (9 * p.limit + 1 + p.tokens.length)) Cursor.start =
      some (parseTokens p.catalog p.limit p.tokens, c') ∧ c'.peak ≤ p.limit + 1 by
    obtain ⟨c', houtcome, hpeak⟩ := houtcome
    exact ⟨c', comes_of_runAt hlasts houtcome, hpeak⟩
  have hroom : p.Room (p.limit + 1) p.limit 0 Cursor.start := ⟨rfl, by omega, Nat.zero_le _⟩
  have hwhole := (p.nests (p.limit + 1) p.limit).whole (c := Cursor.start) (Nat.le_refl _) hroom
  have hrest : p.rest Cursor.start = p.tokens := rfl
  have hscope : Cursor.start.scope.reverse = [] := rfl
  have hparsed : parseTokens p.catalog p.limit p.tokens = Grammar.parseTokens p.setting p.tokens :=
    rfl
  have hlimit : p.setting.limit = p.limit := rfl
  dsimp only at hwhole
  rw [hrest, hscope] at hwhole
  rw [hparsed, parse, runAt_bind, Grammar.parseTokens, hlimit]
  generalize runAt (p.whole _ 0) Cursor.start = outcome at hwhole ⊢
  generalize parseAt p.setting p.limit (positionOf p.setting p.tokens) .whole [] p.tokens = x
    at hwhole ⊢
  cases hwhole with
  | error h => exact ⟨_, rfl, h⟩
  | @ok parsed c' h =>
    refine ⟨c', ?_, h.peak⟩
    dsimp only [Option.bind_some]
    rw [runAt_token, ok_bind]
    dsimp only
    cases p.rest c' <;> rfl

/-- Every call and every loop ends, from every cursor.  A call that succeeds moves forward, within
the tokens, and leaves depth and scope as they were; a name starts at its token, which has been
taken when the function for names is called.  A whole run has at most one step more than the limit
active at once, which is the one that fails. -/
theorem descent_ends (p : Parser) (active : Nat) (c : Cursor) :
    p.Ends active p.whole c (p.Behind c) ∧
    (∀ bound, p.Ends active (p.operand · · bound) c (p.Behind c)) ∧
    p.Ends active p.unary c (p.Behind c) ∧
    p.Ends active p.trailed c (p.Behind c) ∧
    p.Ends active p.primary c (p.Behind c) ∧
    (∀ name position, p.tokens[c.index]? = some ⟨.ident name, position⟩ →
      p.Ends active (p.identifier · · name position) c.advanced (p.Behind c)) ∧
    (∀ space position, p.Ends active (p.functionCall · · space position) c (p.Behind c)) ∧
    p.Ends active p.arguments c (p.Behind c) ∧
    (∀ receiver name position,
      p.Ends active (p.methodCall · · receiver name position) c (p.Behind c)) ∧
    (∀ bound left, p.Ends active (p.chain · · bound left) c
      (p.Reaches (p.peakFrom active c) c 0)) ∧
    (∀ receiver, p.Ends active (p.trailing · · receiver) c
      (p.Reaches (p.peakFrom active c) c 0)) ∧
    (∀ args height, p.Ends active (p.argumentsFrom · · args height) c (p.Behind c)) ∧
    ∃ c', Comes p.parse Cursor.start (parseTokens p.catalog p.limit p.tokens) c' ∧
      c'.peak ≤ p.limit + 1 := by
  have h := p.nests (p.peakFrom active c) (p.limit - c.depth)
  have l := p.lasts
  refine ⟨h.whole.within.ends_behind fun k => (l k).whole _,
    fun bound => (h.operandAt bound).within.ends_behind fun k => (l k).operand _ _,
    h.unary.within.ends_behind fun k => (l k).unary _,
    h.trailed.within.ends_behind fun k => (l k).trailed _,
    h.primary.within.ends_behind fun k => (l k).primary _, ?_,
    fun space position => (h.functionCall space position).within.ends_behind fun k =>
      (l k).functionCall _ _ _,
    h.arguments.within.ends_behind fun k => (l k).arguments _,
    fun receiver name position => (h.methodCall receiver name position).within.ends_behind fun k =>
      (l k).methodCall _ _ _ _,
    fun bound left => (h.chain bound _ left).ends fun k => (l k).chain _ _ _,
    fun receiver => (h.trailing _ receiver).ends fun k => (l k).trailing _ _,
    fun args height => (h.argumentsFrom args height _).ends_behind fun k =>
      (l k).argumentsFrom _ _ _, p.comes_parse⟩
  intro name position htoken
  have hlt : c.index < p.tokens.length := (List.getElem?_eq_some_iff.mp htoken).1
  have hends := (h.identifier name position).within.ends (c := c.advanced) fun k =>
    (l k).identifier active name position
  refine hends.imp fun c' hreached => ?_
  exact ⟨hreached.taken, Nat.le_trans hreached.within (Nat.max_le.mpr ⟨hlt, Nat.le_refl _⟩),
    hreached.depth, hreached.scope⟩

/-- The parentheses take the only level there is, so the second step down fails. -/
theorem descent_ends_parenthesised :
    let p : Parser := ⟨.standard, 1, [⟨.openParen, 0⟩, ⟨.ident "rate", 1⟩, ⟨.closeParen, 5⟩]⟩
    let c : Cursor := ⟨1, 1, [("rate", .scalar)], 1⟩
    p.tokens[c.index]? = some ⟨.ident "rate", 1⟩ ∧
    p.Ends 1 (p.identifier · · "rate" 1) c.advanced (p.Behind c) ∧
    ∃ c', Comes p.parse Cursor.start (.error (.tooDeep 1 1)) c' ∧ c'.peak ≤ 2 := by
  intro p c
  obtain ⟨-, -, -, -, -, hname, -, -, -, -, -, -, hparse⟩ := descent_ends p 1 c
  exact ⟨rfl, hname "rate" 1 rfl, hparse⟩

end Parser

end CommissionRules
