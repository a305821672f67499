import CommissionRules.Proofs.Grammar.Reading

/-!
# Locality of reading

What is read depends on the kinds of the tokens that are taken, and of what follows only on whether
it goes on with them.  So the same is read of these tokens wherever they stand, with the same kind
of token or nothing behind them, and with more room and a higher limit: `Grammar.parseAt_carries`.
-/

namespace CommissionRules

theorem Token.kinds_eq_append {ts us us' : List Token}
    (h : Token.kinds ts = Token.kinds (us ++ us')) : ∃ ts₁ ts₂, ts = ts₁ ++ ts₂ ∧
      Token.kinds ts₁ = Token.kinds us ∧ Token.kinds ts₂ = Token.kinds us' :=
  List.map_eq_append_iff.mp (h.trans List.map_append)

theorem Token.length_eq_of_kinds {ts us : List Token} (h : Token.kinds ts = Token.kinds us) :
    ts.length = us.length := by
  have hlength := congrArg List.length h
  rwa [List.length_map, List.length_map] at hlength

namespace Grammar

/-- What may stand in the place of the tokens behind those that are taken. -/
inductive Cut : List Token → List Token → Prop
  | nothing (rest : List Token) : Cut rest []
  | next (kind : TokenKind) (position position' : Nat) (rest rest' : List Token) :
      Cut (⟨kind, position⟩ :: rest) (⟨kind, position'⟩ :: rest')

theorem Cut.behind {used used' rest rest' : List Token} (hcut : Cut rest rest')
    (hkinds : Token.kinds used' = Token.kinds used) : Cut (used ++ rest) (used' ++ rest') := by
  cases used with
  | nil =>
    rw [List.map_eq_nil_iff.mp hkinds]
    exact hcut
  | cons t used =>
    obtain ⟨position, used', rfl, -⟩ := Token.kinds_eq_cons.mp hkinds
    exact .next t.kind t.position position (used ++ rest) (used' ++ rest')

/-- Another kind than that of the next token stays another one. -/
theorem Cut.ne {rest rest' : List Token} (hcut : Cut rest rest') {kind : TokenKind}
    (h : ∀ position more, rest ≠ ⟨kind, position⟩ :: more) (position : Nat) (more : List Token) :
    rest' ≠ ⟨kind, position⟩ :: more := by
  cases hcut with
  | nothing => nofun
  | next =>
    intro heq
    cases heq
    exact h _ _ rfl

theorem Cut.stops {bound : Nat} {rest rest' : List Token} (hcut : Cut rest rest')
    (h : Stops bound rest) : Stops bound rest' := by
  cases hcut with
  | nothing => exact nofun
  | next => exact h

/-- Of the tokens that were taken, and of what may stand for them, a reader gives the same. -/
def Carries {α : Type} (read : List Token → Except CompileError (Rest α)) (a : α)
    (used rest : List Token) : Prop :=
  ∀ ⦃used' rest' : List Token⦄, Token.kinds used' = Token.kinds used → Cut rest rest' →
    read (used' ++ rest') = .ok (a, rest')

/-- Whatever the one reader reads, the other one reads, at any position. -/
def Nested.Carries (nested nested' : Nested) : Prop :=
  ∀ ⦃position goal scope ts parsed rest⦄, nested position goal scope ts = .ok (parsed, rest) →
    ∃ used, ts = used ++ rest ∧
      ∀ position', Grammar.Carries (nested' position' goal scope) parsed used rest

section Readers

variable {s s' : Setting} {nested nested' : Nested} {scope : Scope} {ts rest : List Token}
  {parsed receiver : Parsed}

theorem node_of_node {expr : Expr} {shape : Shape} {height position : Nat}
    (limit : s.limit ≤ s'.limit) (h : node s expr shape height position = .ok parsed)
    (position' : Nat) : node s' expr shape height position' = .ok parsed := by
  obtain ⟨hheight, rfl⟩ := node_eq_ok.mp h
  exact node_of_le (Nat.le_trans hheight limit)

theorem argumentsFrom_carries (s' : Setting) (hnested : nested.Carries nested') {fuel : Nat}
    {args : List Expr} {height : Nat} (h : argumentsFrom s nested scope fuel ts = .ok ((args, height), rest)) :
    ∃ used kinds, ts = used ++ rest ∧ Token.kinds used = kinds ++ [.closeParen] ∧
      ∀ fuel', used.length ≤ fuel' →
        Carries (argumentsFrom s' nested' scope fuel') (args, height) used rest := by
  induction fuel generalizing ts rest args height with
  | zero => simp [argumentsFrom] at h
  | succ fuel ih =>
    obtain ⟨⟨arg, ts'⟩, harg, h⟩ := bind_eq_ok.mp h
    obtain ⟨used, hts, carries⟩ := hnested harg
    dsimp only at h
    split at h
    · next position ts' =>
      obtain ⟨⟨⟨others, height'⟩, rest'⟩, hothers, h⟩ := bind_eq_ok.mp h
      obtain ⟨used₁, kinds, hts', hkinds, carries₁⟩ := ih hothers
      simp only [Except.ok.injEq, Prod.mk.injEq] at h
      obtain ⟨⟨rfl, rfl⟩, rfl⟩ := h
      refine ⟨used ++ ⟨.comma, position⟩ :: used₁, Token.kinds used ++ .comma :: kinds,
        by simp [hts, hts'], by simp [hkinds], fun fuel' hfuel used' rest' hused hcut => ?_⟩
      obtain ⟨us, us', rfl, hus, hus'⟩ := Token.kinds_eq_append hused
      obtain ⟨comma, us₁, rfl, hus₁⟩ := Token.kinds_eq_cons.mp hus'
      rw [List.length_append, List.length_cons] at hfuel
      obtain ⟨fuel', rfl⟩ : ∃ n, fuel' = n + 1 := Nat.exists_eq_add_one_of_ne_zero (by omega)
      have harg' (p : Nat) := carries p hus (.next .comma position comma ts' (us₁ ++ rest'))
      have hothers' := carries₁ fuel' (by omega) hus₁ hcut
      simp only [List.append_assoc, List.cons_append, argumentsFrom, harg', hothers', ok_bind]
    · obtain ⟨rest', hclose, h⟩ := bind_eq_ok.mp h
      obtain ⟨position, rfl⟩ := expect_eq_ok.mp hclose
      cases h
      refine ⟨used ++ [⟨.closeParen, position⟩], Token.kinds used, by simp [hts], by simp,
        fun fuel' hfuel used' rest' hused hcut => ?_⟩
      obtain ⟨us, us', rfl, hus, hus'⟩ := Token.kinds_eq_append hused
      obtain ⟨close, rfl⟩ := Token.kinds_eq_singleton.mp hus'
      rw [List.length_append, List.length_singleton] at hfuel
      obtain ⟨fuel', rfl⟩ : ∃ n, fuel' = n + 1 := Nat.exists_eq_add_one_of_ne_zero (by omega)
      have harg' (p : Nat) := carries p hus (.next .closeParen position close rest rest')
      have hclose' : expect .closeParen "',' or ')'" (⟨.closeParen, close⟩ :: rest') = .ok rest' :=
        expect_eq_ok.mpr ⟨close, rfl⟩
      simp only [List.append_assoc, List.singleton_append, argumentsFrom, harg', hclose', ok_bind]

theorem arguments_carries (s' : Setting) (hnested : nested.Carries nested') {args : List Expr}
    {height : Nat} (h : arguments s nested scope ts = .ok ((args, height), rest)) :
    ∃ used kinds, ts = used ++ rest ∧ Token.kinds used = kinds ++ [.closeParen] ∧
      Carries (arguments s' nested' scope) (args, height) used rest := by
  unfold arguments at h
  split at h
  · next position ts' =>
    cases h
    refine ⟨[⟨.closeParen, position⟩], [], rfl, rfl, fun used' rest' hused hcut => ?_⟩
    obtain ⟨close, rfl⟩ := Token.kinds_eq_singleton.mp hused
    rfl
  · next hclose =>
    obtain ⟨used, kinds, rfl, hkinds, carries⟩ := argumentsFrom_carries s' hnested h
    refine ⟨used, kinds, rfl, hkinds, fun used' rest' hused hcut => ?_⟩
    have hlength := Token.length_eq_of_kinds hused
    unfold arguments
    split
    · next close ts' hts' =>
      exact absurd hts' ((hcut.behind hused).ne hclose close ts')
    · exact carries _ (by rw [List.length_append]; omega) hused hcut

theorem functionCall_carries (hnested : nested.Carries nested') (limit : s.limit ≤ s'.limit)
    {space : String} {position : Nat}
    (h : functionCall s nested scope space position ts = .ok (parsed, rest)) :
    ∃ used, ts = used ++ rest ∧
      ∀ position', Carries (functionCall s' nested' scope space position') parsed used rest := by
  obtain ⟨ts₁, hdot, h⟩ := bind_eq_ok.mp h
  obtain ⟨dot, hts⟩ := expect_eq_ok.mp hdot
  obtain ⟨⟨⟨name, ident⟩, ts₂⟩, hname, h⟩ := bind_eq_ok.mp h
  have hts₁ := expectIdent_eq_ok.mp hname
  dsimp only at h
  split at h
  · cases h
  · next spec known =>
    obtain ⟨ts₃, hparen, h⟩ := bind_eq_ok.mp h
    obtain ⟨paren, hts₂⟩ := expect_eq_ok.mp hparen
    obtain ⟨⟨⟨args, height⟩, ts₄⟩, hargs, h⟩ := bind_eq_ok.mp h
    obtain ⟨used, -, hused, -, carries⟩ := arguments_carries s' hnested hargs
    dsimp only at h
    split at h
    · next arity =>
      obtain ⟨made, hmade, h⟩ := bind_eq_ok.mp h
      cases h
      refine ⟨⟨.dot, dot⟩ :: ⟨.ident name, ident⟩ :: ⟨.openParen, paren⟩ :: used,
        by simp [hts, hts₁, hts₂, hused], fun position' used' rest' hkinds hcut => ?_⟩
      obtain ⟨dot', us₁, rfl, hus₁⟩ := Token.kinds_eq_cons.mp hkinds
      obtain ⟨ident', us₂, rfl, hus₂⟩ := Token.kinds_eq_cons.mp hus₁
      obtain ⟨paren', us₃, rfl, hus₃⟩ := Token.kinds_eq_cons.mp hus₂
      have hargs' := carries hus₃ hcut
      have hmade' := node_of_node limit hmade position'
      simp only [List.cons_append, functionCall, expect_eq_ok.mpr ⟨dot', rfl⟩,
        expect_eq_ok.mpr ⟨paren', rfl⟩, expectIdent_eq_ok.mpr rfl, known, hargs', if_pos arity,
        hmade', ok_bind]
    · cases h

theorem identifier_carries (hnested : nested.Carries nested') (catalog : s'.catalog = s.catalog)
    (limit : s.limit ≤ s'.limit) {name : String} {position : Nat}
    (h : identifier s nested scope name position ts = .ok (parsed, rest)) :
    ∃ used, ts = used ++ rest ∧
      ∀ position', Carries (identifier s' nested' scope name position') parsed used rest := by
  -- A name that stands for a value is all that is taken.
  have known (read : Nat → List Token → Except CompileError (Rest Parsed))
      (hread : ∀ position ts, read position ts = .ok (parsed, ts)) :
      ∃ used, rest = used ++ rest ∧ ∀ position', Carries (read position') parsed used rest := by
    refine ⟨[], rfl, fun position' used' rest' hkinds _ => ?_⟩
    rw [List.map_eq_nil_iff.mp hkinds]
    exact hread position' rest'
  unfold identifier at h ⊢
  rw [catalog]
  split at h
  · cases h
    exact known _ fun _ _ => rfl
  · split at h
    · cases h
      exact known _ fun _ _ => rfl
    · split at h
      · next isSpace =>
        simp only [if_pos isSpace]
        exact functionCall_carries hnested limit h
      · cases h

/-- At least one token is taken. -/
theorem primary_carries (hnested : nested.Carries nested') (catalog : s'.catalog = s.catalog)
    (limit : s.limit ≤ s'.limit) (h : primary s nested scope ts = .ok (parsed, rest)) :
    ∃ t used, ts = t :: (used ++ rest) ∧
      Carries (primary s' nested' scope) parsed (t :: used) rest := by
  unfold primary at h
  split at h
  · cases h
  · next t ts' =>
    obtain ⟨kind, position⟩ := t
    have single (hread : ∀ position ts, primary s' nested' scope (⟨kind, position⟩ :: ts) =
        .ok (parsed, ts)) : ∃ t used, ⟨kind, position⟩ :: rest = t :: (used ++ rest) ∧
          Carries (primary s' nested' scope) parsed (t :: used) rest := by
      refine ⟨⟨kind, position⟩, [], rfl, fun used' rest' hkinds _ => ?_⟩
      obtain ⟨position', rfl⟩ := Token.kinds_eq_singleton.mp hkinds
      exact hread position' rest'
    dsimp only at h
    split at h
    · cases h
      exact single fun _ _ => rfl
    · cases h
      exact single fun _ _ => rfl
    · cases h
      exact single fun _ _ => rfl
    · cases h
      exact single fun _ _ => rfl
    · obtain ⟨⟨inner, ts₁⟩, hinner, h⟩ := bind_eq_ok.mp h
      obtain ⟨used, hused, carries⟩ := hnested hinner
      obtain ⟨ts₂, hclose, h⟩ := bind_eq_ok.mp h
      obtain ⟨close, hts₁⟩ := expect_eq_ok.mp hclose
      cases h
      refine ⟨⟨.openParen, position⟩, used ++ [⟨.closeParen, close⟩], by simp_all,
        fun used' rest' hkinds hcut => ?_⟩
      obtain ⟨open', us₁, rfl, hus₁⟩ := Token.kinds_eq_cons.mp hkinds
      obtain ⟨us, us₂, rfl, hus, hus₂⟩ := Token.kinds_eq_append hus₁
      obtain ⟨close', rfl⟩ := Token.kinds_eq_singleton.mp hus₂
      dsimp only at hts₁
      subst hts₁
      have hinner' (p : Nat) := carries p hus (.next .closeParen close close' rest rest')
      have hclose' : expect .closeParen "')'" (⟨.closeParen, close'⟩ :: rest') = .ok rest' :=
        expect_eq_ok.mpr ⟨close', rfl⟩
      simp only [List.append_assoc, List.cons_append, List.nil_append, primary, hinner', hclose',
        ok_bind]
    · next name =>
      obtain ⟨used, hused, carries⟩ := identifier_carries hnested catalog limit h
      refine ⟨⟨.ident name, position⟩, used, by rw [hused], fun used' rest' hkinds hcut => ?_⟩
      obtain ⟨position', us, rfl, hus⟩ := Token.kinds_eq_cons.mp hkinds
      exact carries position' hus hcut
    · cases h

theorem extension_of_extension (limit : s.limit ≤ s'.limit) {name : String} {position : Nat}
    (h : (match receiver.expr with
      | .ref source path => node s (.ref source (path ++ [name])) .unknown receiver.height position
      | target => node s (.member target name) .unknown (receiver.height + 1) position)
        = .ok parsed) (position' : Nat) :
    (match receiver.expr with
      | .ref source path =>
          node s' (.ref source (path ++ [name])) .unknown receiver.height position'
      | target => node s' (.member target name) .unknown (receiver.height + 1) position')
        = .ok parsed := by
  split at h
  · exact node_of_node limit h position'
  · exact node_of_node limit h position'

theorem property_of_property (limit : s.limit ≤ s'.limit) {name : String}
    {position : Nat} (h : property s receiver name position = .ok parsed) (position' : Nat) :
    property s' receiver name position' = .ok parsed := by
  unfold property at h ⊢
  dsimp only at h ⊢
  split at h
  · split at h
    · next known =>
      rw [if_pos known]
      exact extension_of_extension limit h position'
    · cases h
  · cases h
  · cases h
  · exact extension_of_extension limit h position'

theorem lambdaArgument_carries (s' : Setting) (hnested : nested.Carries nested')
    {element : Option KnownProperties} {argument : Argument Expr} {height : Nat}
    (h : lambdaArgument s nested scope element ts = .ok ((argument, height), rest)) :
    ∃ used kinds, ts = used ++ rest ∧ Token.kinds used = kinds ++ [.closeParen] ∧
      Carries (lambdaArgument s' nested' scope element) (argument, height) used rest := by
  obtain ⟨⟨⟨param, ident⟩, ts₁⟩, hparam, h⟩ := bind_eq_ok.mp h
  have hts := expectIdent_eq_ok.mp hparam
  obtain ⟨ts₂, harrow, h⟩ := bind_eq_ok.mp h
  obtain ⟨arrow, hts₁⟩ := expect_eq_ok.mp harrow
  obtain ⟨⟨body, ts₃⟩, hbody, h⟩ := bind_eq_ok.mp h
  obtain ⟨used, hused, carries⟩ := hnested hbody
  obtain ⟨ts₄, hclose, h⟩ := bind_eq_ok.mp h
  obtain ⟨close, hts₃⟩ := expect_eq_ok.mp hclose
  cases h
  refine ⟨⟨.ident param, ident⟩ :: ⟨.arrow, arrow⟩ :: (used ++ [⟨.closeParen, close⟩]),
    .ident param :: .arrow :: Token.kinds used, by simp [hts, hts₁, hused, hts₃], by simp,
    fun used' rest' hkinds hcut => ?_⟩
  obtain ⟨ident', us₁, rfl, hus₁⟩ := Token.kinds_eq_cons.mp hkinds
  obtain ⟨arrow', us₂, rfl, hus₂⟩ := Token.kinds_eq_cons.mp hus₁
  obtain ⟨us, us₃, rfl, hus, hus₃⟩ := Token.kinds_eq_append hus₂
  obtain ⟨close', rfl⟩ := Token.kinds_eq_singleton.mp hus₃
  subst hts₃
  have hbody' (p : Nat) := carries p hus (.next .closeParen close close' rest rest')
  simp only [List.append_assoc, List.cons_append, List.nil_append, lambdaArgument,
    expectIdent_eq_ok.mpr rfl, expect_eq_ok.mpr ⟨arrow', rfl⟩, hbody',
    expect_eq_ok.mpr ⟨close', rfl⟩, ok_bind]

/-- Whether the argument is a lambda shows in the tokens up to the closing parenthesis. -/
theorem atLambda_append_eq {used : List Token} {kinds : List TokenKind}
    (hkinds : Token.kinds used = kinds ++ [.closeParen]) (rest : List Token) :
    atLambda (used ++ rest) = atLambda ((Token.kinds used).map (⟨·, 0⟩)) := by
  rcases used with _ | ⟨⟨kind, position⟩, _ | ⟨⟨kind', position'⟩, used⟩⟩
  · cases kinds <;> cases hkinds
  · have hkind : kind = .closeParen := by
      cases kinds with
      | nil =>
        cases hkinds
        rfl
      | cons first kinds => cases kinds <;> cases hkinds
    subst hkind
    rfl
  · cases kind <;> first | rfl | (cases kind' <;> rfl)

theorem atLambda_append {used used' : List Token} {kinds : List TokenKind}
    (hkinds : Token.kinds used = kinds ++ [.closeParen])
    (hused : Token.kinds used' = Token.kinds used) (rest' : List Token) :
    atLambda (used' ++ rest') = atLambda (used ++ rest) := by
  rw [atLambda_append_eq (hused.trans hkinds), atLambda_append_eq hkinds, hused]

theorem plainArgument_carries (s' : Setting) (hnested : nested.Carries nested')
    {method : MethodSpec} {position : Nat} {argument : Argument Expr} {height : Nat}
    (h : plainArgument s nested scope method position ts = .ok ((argument, height), rest)) :
    ∃ used kinds, ts = used ++ rest ∧ Token.kinds used = kinds ++ [.closeParen] ∧
      ∀ position', Carries (plainArgument s' nested' scope method position') (argument, height)
        used rest := by
  rw [plainArgument] at h
  split at h
  · cases h
  · next hplain =>
    obtain ⟨⟨⟨args, height'⟩, ts₁⟩, hargs, h⟩ := bind_eq_ok.mp h
    obtain ⟨used, kinds, hts, hkinds, carries⟩ := arguments_carries s' hnested hargs
    dsimp only at h
    split at h
    · next arity =>
      have hrest : ts₁ = rest := by
        split at h <;> cases h <;> rfl
      subst hrest
      refine ⟨used, kinds, hts, hkinds, fun position' used' rest' hused hcut => ?_⟩
      have hplain' : ¬ atLambda (used' ++ rest') := by
        rwa [atLambda_append hkinds hused rest', ← hts]
      simp only [plainArgument, if_neg hplain', carries hused hcut, ok_bind, if_pos arity]
      clear carries hargs arity
      cases hkind : method.argument with
      | none =>
        simp only [hkind] at h ⊢
        cases h
        rfl
      | value =>
        rw [hkind] at h
        rcases args with _ | ⟨arg, _ | ⟨next, args⟩⟩
        all_goals
          cases h
          rfl
      | lambda =>
        rw [hkind] at h
        cases args with
        | nil =>
          cases h
          rfl
        | cons arg args => cases h
    · cases h

theorem methodCall_carries (hnested : nested.Carries nested') (limit : s.limit ≤ s'.limit)
    {name : String} {position : Nat}
    (h : methodCall s nested scope receiver name position ts = .ok (parsed, rest)) :
    ∃ paren used, ts = ⟨.openParen, paren⟩ :: (used ++ rest) ∧
      ∀ position', Carries (methodCall s' nested' scope receiver name position') parsed
        (⟨.openParen, paren⟩ :: used) rest := by
  obtain ⟨method, element, argument, height, paren, ts₁, known, items, hts, hargument, hmade⟩ :=
    methodCall_eq_ok h
  obtain ⟨hheight, rfl⟩ := node_eq_ok.mp hmade
  obtain ⟨used, kinds, hused, hkinds, carries⟩ : ∃ used kinds, ts₁ = used ++ rest ∧
      Token.kinds used = kinds ++ [.closeParen] ∧
      ∀ position', Carries (fun ts => if method.argument = .lambda && atLambda ts then
          lambdaArgument s' nested' scope element ts
        else plainArgument s' nested' scope method position' ts) (argument, height) used rest := by
    split at hargument
    · next hlambda =>
      obtain ⟨used, kinds, hused, hkinds, carries⟩ := lambdaArgument_carries s' hnested hargument
      refine ⟨used, kinds, hused, hkinds, fun position' used' rest' hused' hcut => ?_⟩
      have hlambda' : method.argument = .lambda && atLambda (used' ++ rest') := by
        rwa [atLambda_append hkinds hused' rest', ← hused]
      exact (if_pos hlambda').trans (carries hused' hcut)
    · next hplain =>
      obtain ⟨used, kinds, hused, hkinds, carries⟩ := plainArgument_carries s' hnested hargument
      refine ⟨used, kinds, hused, hkinds, fun position' used' rest' hused' hcut => ?_⟩
      have hplain' : ¬ (method.argument = .lambda && atLambda (used' ++ rest')) := by
        rwa [atLambda_append hkinds hused' rest', ← hused]
      exact (if_neg hplain').trans (carries position' hused' hcut)
  refine ⟨paren, used, by rw [hts, hused], fun position' used' rest' hkinds' hcut => ?_⟩
  obtain ⟨paren', us, rfl, hus⟩ := Token.kinds_eq_cons.mp hkinds'
  exact methodCall_eq known items (carries position' hus hcut) (Nat.le_trans hheight limit)

theorem trailing_of_ne_dot {fuel : Nat} (h : ∀ position more, ts ≠ ⟨.dot, position⟩ :: more) :
    trailing s nested scope fuel receiver ts = .ok (receiver, ts) := by
  cases fuel with
  | zero => rfl
  | succ fuel =>
    unfold trailing
    split
    · exact absurd rfl (h _ _)
    · rfl

theorem ends_zero (h : ∀ position more, ts ≠ ⟨.openParen, position⟩ :: more) : Ends 0 ts := by
  cases ts with
  | nil => exact ends_nil 0
  | cons t ts =>
    obtain ⟨kind, position⟩ := t
    refine ends_cons.mpr fun hextends => ?_
    unfold TokenKind.Extends at hextends
    dsimp only at hextends
    split at hextends
    · exact h _ _ rfl
    all_goals omega

/-- With a round for every token, the loop over properties and methods goes on as long as a point
follows. -/
theorem trailing_carries (hnested : nested.Carries nested') (limit : s.limit ≤ s'.limit)
    {fuel : Nat} (hfuel : ts.length ≤ fuel)
    (h : trailing s nested scope fuel receiver ts = .ok (parsed, rest)) :
    ∃ used, ts = used ++ rest ∧ ∀ fuel', used.length ≤ fuel' →
      Carries (trailing s' nested' scope fuel' receiver) parsed used rest := by
  have stopped {receiver : Parsed} (hdot : ∀ position more, rest ≠ ⟨.dot, position⟩ :: more)
      (fuel' : Nat) : Carries (trailing s' nested' scope fuel' receiver) receiver [] rest := by
    intro used' rest' hkinds hcut
    rw [List.map_eq_nil_iff.mp hkinds]
    exact trailing_of_ne_dot (hcut.ne hdot)
  induction fuel generalizing receiver ts with
  | zero =>
    cases h
    obtain rfl := List.eq_nil_of_length_eq_zero (Nat.le_zero.mp hfuel)
    exact ⟨[], rfl, fun fuel' _ => stopped nofun fuel'⟩
  | succ fuel ih =>
    unfold trailing at h
    split at h
    · next dot ts =>
      obtain ⟨⟨⟨name, ident⟩, ts₁⟩, hname, h⟩ := bind_eq_ok.mp h
      have hts := expectIdent_eq_ok.mp hname
      rw [hts] at hfuel
      simp only [List.length_cons] at hfuel
      dsimp only at h
      split at h
      · obtain ⟨⟨receiver', ts₂⟩, hmethod, h⟩ := bind_eq_ok.mp h
        obtain ⟨paren, used, hts₁, carries⟩ := methodCall_carries hnested limit hmethod
        rw [hts₁] at hfuel
        simp only [List.length_cons, List.length_append] at hfuel
        obtain ⟨used₁, hts₂, carries₁⟩ := ih (show ts₂.length ≤ fuel by omega) h
        rw [hts₂] at carries
        refine ⟨⟨.dot, dot⟩ :: ⟨.ident name, ident⟩ :: ⟨.openParen, paren⟩ :: (used ++ used₁),
          by simp [hts, hts₁, hts₂], fun fuel' hfuel' used' rest' hkinds hcut => ?_⟩
        obtain ⟨dot', us₁, rfl, hus₁⟩ := Token.kinds_eq_cons.mp hkinds
        obtain ⟨ident', us₂, rfl, hus₂⟩ := Token.kinds_eq_cons.mp hus₁
        obtain ⟨paren', us₃, rfl, hus₃⟩ := Token.kinds_eq_cons.mp hus₂
        obtain ⟨us, us', rfl, hus, hus'⟩ := Token.kinds_eq_append hus₃
        simp only [List.length_cons, List.length_append] at hfuel'
        obtain ⟨fuel', rfl⟩ : ∃ n, fuel' = n + 1 := Nat.exists_eq_add_one_of_ne_zero (by omega)
        have hmethod' : methodCall s' nested' scope receiver name ident'
            (⟨.openParen, paren'⟩ :: (us ++ (us' ++ rest'))) = .ok (receiver', us' ++ rest') :=
          @carries ident' (⟨.openParen, paren'⟩ :: us) (us' ++ rest') (congrArg (_ :: ·) hus)
            (hcut.behind hus')
        have hlater := carries₁ fuel' (by omega) hus' hcut
        simp only [List.cons_append, List.append_assoc]
        rw [trailing_method hmethod']
        exact hlater
      · next hparen =>
        obtain ⟨receiver', hproperty, h⟩ := bind_eq_ok.mp h
        obtain ⟨used, hused, carries⟩ := ih (by omega) h
        refine ⟨⟨.dot, dot⟩ :: ⟨.ident name, ident⟩ :: used, by simp [hts, hused],
          fun fuel' hfuel' used' rest' hkinds hcut => ?_⟩
        obtain ⟨dot', us₁, rfl, hus₁⟩ := Token.kinds_eq_cons.mp hkinds
        obtain ⟨ident', us, rfl, hus⟩ := Token.kinds_eq_cons.mp hus₁
        simp only [List.length_cons] at hfuel'
        obtain ⟨fuel', rfl⟩ : ∃ n, fuel' = n + 1 := Nat.exists_eq_add_one_of_ne_zero (by omega)
        rw [hused] at hparen
        have hends : Ends 0 (us ++ rest') := ends_zero ((hcut.behind hus).ne hparen)
        have hproperty' := property_of_property limit hproperty ident'
        simp only [List.cons_append]
        rw [trailing_property hends hproperty']
        exact carries fuel' (by omega) hus hcut
    · next hdot =>
      cases h
      exact ⟨[], rfl, fun fuel' _ => stopped hdot fuel'⟩

theorem trailed_carries (hnested : nested.Carries nested') (catalog : s'.catalog = s.catalog)
    (limit : s.limit ≤ s'.limit) (h : trailed s nested scope ts = .ok (parsed, rest)) :
    ∃ t used, ts = t :: (used ++ rest) ∧
      Carries (trailed s' nested' scope) parsed (t :: used) rest := by
  obtain ⟨⟨receiver, ts₁⟩, hprimary, h⟩ := bind_eq_ok.mp h
  obtain ⟨t, used, hts, carries⟩ := primary_carries hnested catalog limit hprimary
  obtain ⟨used₁, hts₁, carries₁⟩ := trailing_carries hnested limit (Nat.le_refl _) h
  refine ⟨t, used ++ used₁, by rw [hts, hts₁, List.append_assoc],
    fun used' rest' hkinds hcut => ?_⟩
  obtain ⟨us, us₁, rfl, hus, hus₁⟩ := @Token.kinds_eq_append used' (t :: used) used₁ hkinds
  rw [hts₁] at carries
  have hprimary' := carries hus (hcut.behind hus₁)
  have hlength := Token.length_eq_of_kinds hus₁
  rw [List.append_assoc, trailed, hprimary', ok_bind]
  exact carries₁ _ (by rw [List.length_append]; omega) hus₁ hcut

theorem unary_carries (hnested : nested.Carries nested') (catalog : s'.catalog = s.catalog)
    (limit : s.limit ≤ s'.limit) (h : unary s nested scope ts = .ok (parsed, rest)) :
    ∃ used, ts = used ++ rest ∧ Carries (unary s' nested' scope) parsed used rest := by
  have trailed (hts : ∀ symbol position more, ts = ⟨.operator symbol, position⟩ :: more →
      symbol.unary? = none) (h : trailed s nested scope ts = .ok (parsed, rest)) :
      ∃ used, ts = used ++ rest ∧ Carries (unary s' nested' scope) parsed used rest := by
    obtain ⟨t, used, rfl, carries⟩ := trailed_carries hnested catalog limit h
    refine ⟨t :: used, rfl, fun used' rest' hkinds hcut => ?_⟩
    have htrailed := carries hkinds hcut
    obtain ⟨position', us, rfl, hus⟩ := Token.kinds_eq_cons.mp hkinds
    obtain ⟨kind, position⟩ := t
    unfold unary
    split
    · next symbol position'' more hhead =>
      cases hhead
      rw [hts symbol position _ rfl]
      exact htrailed
    · exact htrailed
  unfold unary at h
  split at h
  · next symbol position ts =>
    split at h
    · next op hop =>
      obtain ⟨⟨operand, ts₁⟩, hoperand, h⟩ := bind_eq_ok.mp h
      obtain ⟨used, hused, carries⟩ := hnested hoperand
      obtain ⟨made, hmade, h⟩ := bind_eq_ok.mp h
      cases h
      refine ⟨⟨.operator symbol, position⟩ :: used, by simp [hused],
        fun used' rest' hkinds hcut => ?_⟩
      obtain ⟨position', us, rfl, hus⟩ := Token.kinds_eq_cons.mp hkinds
      have hoperand' := carries position' hus hcut
      have hmade' := node_of_node limit hmade position'
      simp only [List.cons_append, unary, hop, hoperand', hmade', ok_bind]
    · next hop =>
      refine trailed (fun symbol' position' more hhead => ?_) h
      cases hhead
      exact hop
  · next hoperator =>
    exact trailed (fun symbol position more hts => absurd hts (hoperator symbol position more)) h

/-- With a round for every token, the loop over operators goes on as long as an operator up to the
bound follows. -/
theorem chain_carries (hnested : nested.Carries nested') (limit : s.limit ≤ s'.limit)
    {bound fuel : Nat} {left : Parsed} (hfuel : ts.length ≤ fuel)
    (h : chain s nested bound scope fuel left ts = .ok (parsed, rest)) :
    ∃ used, ts = used ++ rest ∧ ∀ fuel', used.length ≤ fuel' →
      Carries (chain s' nested' bound scope fuel' left) parsed used rest := by
  have stopped {left : Parsed} (hstops : Stops bound rest) (fuel' : Nat) :
      Carries (chain s' nested' bound scope fuel' left) left [] rest := by
    intro used' rest' hkinds hcut
    rw [List.map_eq_nil_iff.mp hkinds]
    exact chain_of_stops (hcut.stops hstops)
  induction fuel generalizing left ts with
  | zero =>
    cases h
    obtain rfl := List.eq_nil_of_length_eq_zero (Nat.le_zero.mp hfuel)
    exact ⟨[], rfl, fun fuel' _ => stopped nofun fuel'⟩
  | succ fuel ih =>
    unfold chain at h
    split at h
    · next c position ts =>
      split at h
      · next hbound =>
        obtain ⟨⟨right, ts₁⟩, hright, h⟩ := bind_eq_ok.mp h
        obtain ⟨used, hused, carries⟩ := hnested hright
        obtain ⟨made, hmade, h⟩ := bind_eq_ok.mp h
        obtain ⟨hheight, rfl⟩ := node_eq_ok.mp hmade
        simp only [hused, List.length_cons, List.length_append] at hfuel
        obtain ⟨used₁, hused₁, carries₁⟩ := ih (by omega) h
        rw [hused₁] at carries
        refine ⟨⟨.operator (.connective c), position⟩ :: (used ++ used₁),
          by simp [hused, hused₁], fun fuel' hfuel' used' rest' hkinds hcut => ?_⟩
        obtain ⟨position', us₁, rfl, hus₁⟩ := Token.kinds_eq_cons.mp hkinds
        obtain ⟨us, us₂, rfl, hus, hus₂⟩ := Token.kinds_eq_append hus₁
        simp only [List.length_cons, List.length_append] at hfuel'
        obtain ⟨fuel', rfl⟩ : ∃ n, fuel' = n + 1 := Nat.exists_eq_add_one_of_ne_zero (by omega)
        have hright' (p : Nat) := carries p hus (hcut.behind hus₂)
        simp only [List.cons_append, List.append_assoc]
        rw [chain_round hbound hright' (Nat.le_trans hheight limit)]
        exact carries₁ fuel' (by omega) hus₂ hcut
      · next hbound =>
        cases h
        refine ⟨[], rfl, fun fuel' _ => stopped (fun next hnext => ?_) fuel'⟩
        cases hnext
        exact Nat.lt_of_not_le hbound
    · next hconnective =>
      cases h
      refine ⟨[], rfl, fun fuel' _ => stopped (fun next hnext => ?_) fuel'⟩
      obtain ⟨⟨kind, position⟩, hhead, hkind⟩ := Option.map_eq_some_iff.mp hnext
      obtain ⟨ts', hts⟩ := List.head?_eq_some_iff.mp hhead
      cases hkind
      exact absurd hts (hconnective next position ts')

theorem operand_carries (hnested : nested.Carries nested') (catalog : s'.catalog = s.catalog)
    (limit : s.limit ≤ s'.limit) {bound : Nat}
    (h : operand s nested bound scope ts = .ok (parsed, rest)) :
    ∃ used, ts = used ++ rest ∧ Carries (operand s' nested' bound scope) parsed used rest := by
  obtain ⟨⟨left, ts₁⟩, hleft, h⟩ := bind_eq_ok.mp h
  obtain ⟨used, hts, carries⟩ := unary_carries hnested catalog limit hleft
  obtain ⟨used₁, hts₁, carries₁⟩ := chain_carries hnested limit (Nat.le_refl _) h
  rw [hts₁] at carries
  refine ⟨used ++ used₁, by rw [hts, hts₁, List.append_assoc], fun used' rest' hkinds hcut => ?_⟩
  obtain ⟨us, us₁, rfl, hus, hus₁⟩ := Token.kinds_eq_append hkinds
  have hlength := Token.length_eq_of_kinds hus₁
  rw [List.append_assoc, operand, carries hus (hcut.behind hus₁), ok_bind]
  exact carries₁ _ (by rw [List.length_append]; omega) hus₁ hcut

theorem whole_carries (hnested : nested.Carries nested') (catalog : s'.catalog = s.catalog)
    (limit : s.limit ≤ s'.limit) (h : whole s nested scope ts = .ok (parsed, rest)) :
    ∃ used, ts = used ++ rest ∧ Carries (whole s' nested' scope) parsed used rest := by
  obtain ⟨⟨condition, ts₁⟩, hcondition, h⟩ := bind_eq_ok.mp h
  obtain ⟨used, hts, carries⟩ := operand_carries hnested catalog limit hcondition
  dsimp only at h
  split at h
  · next question ts₁ =>
    obtain ⟨⟨thenBranch, ts₂⟩, hthen, h⟩ := bind_eq_ok.mp h
    obtain ⟨usedThen, hts₁, carriesThen⟩ := hnested hthen
    dsimp only at h
    obtain ⟨ts₃, hcolon, h⟩ := bind_eq_ok.mp h
    obtain ⟨colon, hts₂⟩ := expect_eq_ok.mp hcolon
    obtain ⟨⟨elseBranch, ts₄⟩, helse, h⟩ := bind_eq_ok.mp h
    obtain ⟨usedElse, hts₃, carriesElse⟩ := hnested helse
    dsimp only at h
    obtain ⟨made, hmade, h⟩ := bind_eq_ok.mp h
    cases h
    refine ⟨used ++ ⟨.question, question⟩ :: (usedThen ++ ⟨.colon, colon⟩ :: usedElse),
      by simp [hts, hts₁, hts₂, hts₃], fun used' rest' hkinds hcut => ?_⟩
    obtain ⟨us, us₁, rfl, hus, hus₁⟩ := Token.kinds_eq_append hkinds
    obtain ⟨question', us₂, rfl, hus₂⟩ := Token.kinds_eq_cons.mp hus₁
    obtain ⟨usThen, us₃, rfl, husThen, hus₃⟩ := Token.kinds_eq_append hus₂
    obtain ⟨colon', usElse, rfl, husElse⟩ := Token.kinds_eq_cons.mp hus₃
    rw [hts₂] at carriesThen
    have hcondition' := carries hus (.next .question question question' ts₁
      (usThen ++ ⟨.colon, colon'⟩ :: (usElse ++ rest')))
    have hthen' (p : Nat) := carriesThen p husThen (.next .colon colon colon' ts₃ (usElse ++ rest'))
    have helse' (p : Nat) := carriesElse p husElse hcut
    have hmade' := node_of_node limit hmade question'
    simp only [List.append_assoc, List.cons_append, whole, hcondition', hthen', helse', hmade',
      expect_eq_ok.mpr ⟨colon', rfl⟩, ok_bind]
  · next hquestion =>
    cases h
    refine ⟨used, hts, fun used' rest' hkinds hcut => ?_⟩
    rw [whole, carries hkinds hcut, ok_bind]
    dsimp only
    split
    · exact absurd rfl (hcut.ne hquestion _ _)
    · rfl

end Readers

/-- The induction is on the nesting that is left, as in the definition. -/
theorem parseAt_carries {s s' : Setting} (catalog : s'.catalog = s.catalog)
    (limit : s.limit ≤ s'.limit) {room room' : Nat} (hroom : room ≤ room') :
    (parseAt s room).Carries (parseAt s' room') := by
  induction room generalizing room' with
  | zero =>
    intro position goal scope ts parsed rest h
    simp [parseAt] at h
  | succ room ih =>
    intro position goal scope ts parsed rest h
    obtain ⟨room', rfl⟩ : ∃ n, room' = n + 1 := Nat.exists_eq_add_one_of_ne_zero (by omega)
    have hnested := ih (Nat.le_of_succ_le_succ hroom)
    cases goal with
    | whole =>
      obtain ⟨used, hts, carries⟩ := whole_carries hnested catalog limit h
      exact ⟨used, hts, fun _ => carries⟩
    | operand bound =>
      obtain ⟨used, hts, carries⟩ := operand_carries hnested catalog limit h
      exact ⟨used, hts, fun _ => carries⟩

end Grammar

end CommissionRules
