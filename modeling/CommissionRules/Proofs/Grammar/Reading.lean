import CommissionRules.Proofs.Grammar.Spelling

/-!
# Reading

The converse of `Grammar.parseAt_spelled`: whatever is spelled is read, if the nesting may be as
deep as there are tokens.  Together, `Grammar.parseTokens_eq_ok_iff` says that the grammar as a
relation and the reader agree.

A receiver, an operand and a whole expression are read by different loops, and each loop goes on
with what it has read.  So an expression that stands on the left of something is not read for
itself: the loop comes to stand behind it (`ReadsReceiver`, `ReadsOperand`).  Only what may not go
on with an expression is known of the tokens after it (`Ends`).
-/

namespace CommissionRules

theorem Token.kinds_eq_cons {ts : List Token} {kind : TokenKind} {kinds : List TokenKind} :
    Token.kinds ts = kind :: kinds ↔
      ∃ position ts', ts = ⟨kind, position⟩ :: ts' ∧ Token.kinds ts' = kinds := by
  cases ts with
  | nil => simp
  | cons t ts =>
    obtain ⟨found, position⟩ := t
    constructor
    · rintro ⟨rfl, rfl⟩
      exact ⟨position, ts, rfl, rfl⟩
    · rintro ⟨_, _, ⟨rfl, rfl⟩, rfl⟩
      rfl

theorem Token.kinds_eq_singleton {ts : List Token} {kind : TokenKind} :
    Token.kinds ts = [kind] ↔ ∃ position, ts = [⟨kind, position⟩] := by
  constructor
  · intro h
    obtain ⟨position, ts', hts, hts'⟩ := Token.kinds_eq_cons.mp h
    exact ⟨position, by rw [hts, List.map_eq_nil_iff.mp hts']⟩
  · rintro ⟨position, rfl⟩
    rfl

/-- Holds of the tokens that go on with an expression of the bound that stands before them. -/
def TokenKind.Extends (bound : Nat) : TokenKind → Prop
  | .openParen => True
  | .dot => 0 < bound
  | .operator (.connective c) => c.spec.leftBound < bound
  | .question => conditionalSpec.leftBound < bound
  | _ => False

namespace Grammar

/-- Nothing that goes on with an expression of the bound stands next. -/
def Ends (bound : Nat) (ts : List Token) : Prop := ∀ t ∈ ts.head?, ¬ t.kind.Extends bound

theorem ends_nil (bound : Nat) : Ends bound [] := nofun

theorem ends_cons {bound : Nat} {t : Token} {ts : List Token} :
    Ends bound (t :: ts) ↔ ¬ t.kind.Extends bound := by
  simp [Ends]

theorem Ends.tighten {bound bound' : Nat} {ts : List Token} (h : Ends bound' ts)
    (le : bound ≤ bound') : Ends bound ts := by
  intro t ht hextends
  refine h t ht ?_
  unfold TokenKind.Extends at hextends ⊢
  split at hextends <;> omega

theorem Ends.leftBound {bound : Nat} {ts : List Token} (h : Ends bound ts) {c : Connective}
    (hc : ts.head?.map Token.kind = some (.operator (.connective c))) :
    bound ≤ c.spec.leftBound := by
  obtain ⟨t, ht, hkind⟩ := Option.map_eq_some_iff.mp hc
  have hextends := h t ht
  rw [hkind] at hextends
  exact Nat.le_of_not_lt hextends

/-- What does not go on with an operator and its operands does not go on with its right operand. -/
theorem Ends.stops {c : Connective} {ts : List Token} (h : Ends c.spec.precedence ts) :
    Stops c.spec.rightBound ts := fun next hnext =>
  (c.rightBound_lt_precedence_iff next).mpr (h.leftBound hnext)

theorem Ends.stops_loosest {bound : Nat} {ts : List Token} (h : Ends loosest ts) :
    Stops bound ts := by
  intro c hc
  have hleft := h.leftBound hc
  have := c.leftBound_le_precedence
  have := c.precedence_lt_loosest
  omega

theorem stops_precedence (ts : List Token) : Stops UnaryOp.precedence ts := fun c _ =>
  c.one_lt_precedence

/-! ## One round of a loop -/

section Rounds

variable {s : Setting} {nested : Nested} {scope : Scope} {ts rest : List Token}
  {parsed receiver left : Parsed} {fuel : Nat}

theorem chain_of_stops {bound : Nat} (h : Stops bound ts) :
    chain s nested bound scope fuel left ts = .ok (left, ts) := by
  cases fuel with
  | zero => rfl
  | succ fuel =>
    unfold chain
    split
    · next c position rest =>
      have hc : bound < c.precedence := h c rfl
      rw [if_neg (by omega)]
    · rfl

theorem chain_round {bound position : Nat} {c : Connective} {right : Parsed}
    (hbound : c.precedence ≤ bound)
    (hright : ∀ position, nested position (.operand c.rightBound) scope ts = .ok (right, rest))
    (height : max left.height right.height + 1 ≤ s.limit) :
    chain s nested bound scope (fuel + 1) left (⟨.operator (.connective c), position⟩ :: ts) =
      chain s nested bound scope fuel
        ⟨c.apply left.expr right.expr, .scalar, max left.height right.height + 1⟩ rest := by
  simp only [chain, if_pos hbound, hright, ok_bind, node_of_le height]

theorem trailing_of_ends (h : Ends 1 ts) :
    trailing s nested scope fuel receiver ts = .ok (receiver, ts) := by
  cases fuel with
  | zero => rfl
  | succ fuel =>
    unfold trailing
    split
    · exact absurd Nat.one_pos (ends_cons.mp h)
    · rfl

theorem trailing_property {dot position : Nat} {name : String} (h : Ends 0 rest)
    (hproperty : property s receiver name position = .ok parsed) :
    trailing s nested scope (fuel + 1) receiver (⟨.dot, dot⟩ :: ⟨.ident name, position⟩ :: rest) =
      trailing s nested scope fuel parsed rest := by
  rw [trailing, expectIdent_eq_ok.mpr rfl, ok_bind]
  dsimp only
  split
  · exact absurd trivial (ends_cons.mp h)
  · rw [hproperty, ok_bind]

theorem trailing_method {dot position paren : Nat} {name : String}
    (hmethod : methodCall s nested scope receiver name position (⟨.openParen, paren⟩ :: ts) =
      .ok (parsed, rest)) :
    trailing s nested scope (fuel + 1) receiver
        (⟨.dot, dot⟩ :: ⟨.ident name, position⟩ :: ⟨.openParen, paren⟩ :: ts) =
      trailing s nested scope fuel parsed rest := by
  simp only [trailing, expectIdent_eq_ok.mpr rfl, ok_bind, hmethod]

theorem property_path {source name : String} {path : List String} {shape : Shape}
    {height position : Nat} (admits : shape.Admits name) (limit : height ≤ s.limit) :
    property s ⟨.ref source path, shape, height⟩ name position =
      .ok ⟨.ref source (path ++ [name]), .unknown, height⟩ := by
  rcases shape with _ | _ | (_ | known) | _
  · exact node_of_le limit
  · exact admits.elim
  · exact node_of_le limit
  · exact (if_pos (List.contains_iff_mem.mpr admits)).trans (node_of_le limit)
  · exact admits.elim

theorem extension_member {expr : Expr} {name : String} {height position : Nat}
    (computed : ∀ source path, expr ≠ .ref source path) (limit : height + 1 ≤ s.limit) :
    (match expr with
      | .ref source path => node s (.ref source (path ++ [name])) .unknown height position
      | target => node s (.member target name) .unknown (height + 1) position) =
        .ok ⟨.member expr name, .unknown, height + 1⟩ := by
  cases expr with
  | ref source path => exact absurd rfl (computed source path)
  | _ => exact node_of_le limit

theorem property_member {name : String} {position : Nat}
    (computed : ∀ source path, receiver.expr ≠ .ref source path)
    (admits : receiver.shape.Admits name) (height : receiver.height + 1 ≤ s.limit) :
    property s receiver name position =
      .ok ⟨.member receiver.expr name, .unknown, receiver.height + 1⟩ := by
  obtain ⟨expr, shape, receiverHeight⟩ := receiver
  rcases shape with _ | _ | (_ | known) | _
  · exact extension_member computed height
  · exact admits.elim
  · exact extension_member computed height
  · exact (if_pos (List.contains_iff_mem.mpr admits)).trans (extension_member computed height)
  · exact admits.elim

/-- The call of a method on a receiver with elements. -/
theorem onElements_eq {expr : Expr} {name : String} {method : MethodSpec}
    {element : Option KnownProperties} {argument : Argument Expr}
    {receiverHeight height paren position : Nat}
    (hargument : (if method.argument = .lambda && atLambda ts then
        lambdaArgument s nested scope element ts
      else plainArgument s nested scope method position ts) = .ok ((argument, height), rest))
    (limit : max receiverHeight height + 1 ≤ s.limit) :
    (do
      let ts ← expect .openParen "'('" (⟨.openParen, paren⟩ :: ts)
      let ((argument, height), ts) ←
        if method.argument = .lambda && atLambda ts then
          lambdaArgument s nested scope element ts
        else plainArgument s nested scope method position ts
      let parsed ← node s (.method expr name argument) (.ofMethod method element)
        (max receiverHeight height + 1) position
      .ok (parsed, ts)) = Except.ok (⟨.method expr name argument, .ofMethod method element,
        max receiverHeight height + 1⟩, rest) := by
  rw [expect_eq_ok.mpr ⟨paren, rfl⟩, ok_bind]
  split at hargument
  · next hlambda => simp only [if_pos hlambda, hargument, ok_bind, node_of_le limit]
  · next hlambda => simp only [if_neg hlambda, hargument, ok_bind, node_of_le limit]

theorem methodCall_eq {name : String} {method : MethodSpec} {element : Option KnownProperties}
    {argument : Argument Expr} {height paren position : Nat}
    (known : Catalog.method? name = some method) (items : receiver.shape.items? = some element)
    (hargument : (if method.argument = .lambda && atLambda ts then
        lambdaArgument s nested scope element ts
      else plainArgument s nested scope method position ts) = .ok ((argument, height), rest))
    (limit : max receiver.height height + 1 ≤ s.limit) :
    methodCall s nested scope receiver name position (⟨.openParen, paren⟩ :: ts) =
      .ok (⟨.method receiver.expr name argument, .ofMethod method element,
        max receiver.height height + 1⟩, rest) := by
  obtain ⟨expr, shape, receiverHeight⟩ := receiver
  rw [methodCall, known]
  cases shape with
  | unknown =>
    cases items
    exact onElements_eq hargument limit
  | collection properties =>
    cases items
    exact onElements_eq hargument limit
  | scalar => cases items
  | record properties => cases items

end Rounds

/-! ## How a spelling starts -/

section Starts

variable {s : Setting} {bound : Nat} {scope : Scope} {parsed : Parsed} {kinds : List TokenKind}

/-- An expression starts with some token other than a closing parenthesis, and a receiver starts
with none that is an operator. -/
theorem Spelled.starts (h : Spelled s bound scope parsed kinds) :
    ∃ kind rest, kinds = kind :: rest ∧ kind ≠ .closeParen ∧
      (bound = 0 → ∀ symbol, kind ≠ .operator symbol) := by
  induction h with
  | number | text | bool | null | parameter | source | group | call =>
    exact ⟨_, _, rfl, nofun, fun _ => nofun⟩
  | path _ _ _ ih | member _ _ _ _ ih | plainMethod _ _ _ _ _ ih | valueMethod _ _ _ _ _ _ ih _
  | lambdaMethod _ _ _ _ _ _ ih _ =>
    obtain ⟨kind, rest, rfl, hkind⟩ := ih
    exact ⟨kind, _, rfl, hkind⟩
  | unary op => exact ⟨_, _, rfl, nofun, fun h => by cases op <;> cases h⟩
  | connective c _ _ _ ih _ =>
    obtain ⟨kind, rest, rfl, hkind, -⟩ := ih
    have := c.one_lt_precedence
    exact ⟨kind, _, rfl, hkind, fun h => absurd h (by omega)⟩
  | conditional _ _ _ _ ih _ _ =>
    obtain ⟨kind, rest, rfl, hkind, -⟩ := ih
    exact ⟨kind, _, rfl, hkind, fun h => absurd h (by decide)⟩
  | loosen _ le ih =>
    obtain ⟨kind, rest, rfl, hkind, hoperator⟩ := ih
    exact ⟨kind, rest, rfl, hkind, fun h => hoperator (by omega)⟩

/-- No expression is mistaken for a lambda: an arrow follows nothing that starts with a name. -/
theorem Spelled.ne_lambda (h : Spelled s bound scope parsed kinds) {rest : List TokenKind}
    (hrest : rest.head? ≠ some .arrow) (name : String) (tail : List TokenKind) :
    kinds ++ rest ≠ .ident name :: .arrow :: tail := by
  induction h generalizing rest tail with
  | number | text | bool | null | group | unary => simp
  | parameter | source =>
    intro heq
    simp at heq
    simp [heq] at hrest
  | call => simp
  | path _ _ _ ih | member _ _ _ _ ih | plainMethod _ _ _ _ _ ih | valueMethod _ _ _ _ _ _ ih _
  | lambdaMethod _ _ _ _ _ _ ih _ | connective _ _ _ _ ih _ | conditional _ _ _ _ ih _ _ =>
    rw [List.append_assoc]
    exact ih (by simp) tail
  | loosen _ _ ih => exact ih hrest tail

end Starts

/-! ## What is read of a spelling -/

variable (s : Setting) (scope : Scope) (parsed : Parsed) (kinds : List TokenKind)

/-- Read as a receiver, the tokens bring the loop over properties and methods behind them. -/
def ReadsReceiver : Prop :=
  ∀ ⦃room : Nat⦄ ⦃ts rest : List Token⦄, Token.kinds ts = kinds → kinds.length ≤ room →
    Ends 0 rest → ∃ fuel, rest.length ≤ fuel ∧
      trailed s (parseAt s room) scope (ts ++ rest) =
        trailing s (parseAt s room) scope fuel parsed rest

/-- Read as an operand, the tokens bring the loop over operators behind them. -/
def ReadsOperand (bound : Nat) : Prop :=
  ∀ ⦃room bound' : Nat⦄ ⦃ts rest : List Token⦄, Token.kinds ts = kinds → kinds.length ≤ room →
    bound ≤ bound' → Ends bound rest → ∃ fuel, rest.length ≤ fuel ∧
      operand s (parseAt s room) bound' scope (ts ++ rest) =
        chain s (parseAt s room) bound' scope fuel parsed rest

def ReadsWhole : Prop :=
  ∀ ⦃room : Nat⦄ ⦃ts rest : List Token⦄, Token.kinds ts = kinds → kinds.length ≤ room →
    Ends loosest rest → whole s (parseAt s room) scope (ts ++ rest) = .ok (parsed, rest)

/-- The tokens up to the closing parenthesis are read as the argument of a method, with its
height. -/
def ReadsArgument (element : Option KnownProperties) (method : MethodSpec)
    (argument : Argument Expr) (height : Nat) (kinds : List TokenKind) : Prop :=
  ∀ ⦃room position : Nat⦄ ⦃ts rest : List Token⦄, Token.kinds ts = kinds ++ [.closeParen] →
    kinds.length < room →
      (if method.argument = .lambda && atLambda (ts ++ rest) then
        lambdaArgument s (parseAt s room) scope element (ts ++ rest)
      else plainArgument s (parseAt s room) scope method position (ts ++ rest)) =
        .ok ((argument, height), rest)

/-- What a bound says of how its expressions are read. -/
structure Reads (bound : Nat) : Prop where
  receiver : bound = 0 → ReadsReceiver s scope parsed kinds
  operand : 0 < bound → bound < loosest → ReadsOperand s scope parsed kinds bound
  whole : ReadsWhole s scope parsed kinds

section Reading

variable {s} {scope} {parsed} {kinds} {room : Nat} {ts rest : List Token}

theorem ReadsOperand.loosen {bound bound' : Nat} (h : ReadsOperand s scope parsed kinds bound)
    (le : bound ≤ bound') : ReadsOperand s scope parsed kinds bound' :=
  fun _ _ _ _ hts hroom hbound hends => h hts hroom (Nat.le_trans le hbound) (hends.tighten le)

theorem ReadsOperand.whole {bound : Nat} (h : ReadsOperand s scope parsed kinds bound)
    (hbound : bound < loosest) : ReadsWhole s scope parsed kinds := by
  intro room ts rest hts hroom hends
  obtain ⟨fuel, -, hoperand⟩ := h hts hroom (Nat.le_sub_one_of_lt hbound)
    (hends.tighten (Nat.le_of_lt hbound))
  rw [Grammar.whole, hoperand, chain_of_stops hends.stops_loosest, ok_bind]
  dsimp only
  split
  · exact absurd (by decide : conditionalSpec.leftBound < loosest) (ends_cons.mp hends)
  · rfl

/-- A receiver does not start with an operator, so that it is not read as one with its operand. -/
theorem ReadsReceiver.operand (h : ReadsReceiver s scope parsed kinds)
    (spelled : Spelled s 0 scope parsed kinds) :
    ReadsOperand s scope parsed kinds UnaryOp.precedence := by
  intro room bound ts rest hts hroom hbound hends
  obtain ⟨fuel, -, htrailed⟩ := h hts hroom (hends.tighten (Nat.zero_le _))
  have hunary : unary s (parseAt s room) scope (ts ++ rest) =
      trailed s (parseAt s room) scope (ts ++ rest) := by
    unfold unary
    split
    · next symbol position ts' hhead =>
      obtain ⟨kind, kinds', hkinds, -, hkind⟩ := spelled.starts
      subst hts
      cases ts with
      | nil => cases hkinds
      | cons t ts =>
        cases hkinds
        cases hhead
        exact absurd rfl (hkind rfl symbol)
    · rfl
  refine ⟨rest.length, Nat.le_refl _, ?_⟩
  rw [Grammar.operand, hunary, htrailed, trailing_of_ends hends, ok_bind]

theorem Reads.of_operand {bound : Nat} (h : ReadsOperand s scope parsed kinds bound)
    (hpos : 0 < bound) (hlt : bound < loosest) : Reads s scope parsed kinds bound where
  receiver hzero := absurd hzero (by omega)
  operand _ _ := h
  whole := h.whole hlt

theorem Reads.of_receiver (spelled : Spelled s 0 scope parsed kinds)
    (h : ReadsReceiver s scope parsed kinds) : Reads s scope parsed kinds 0 where
  receiver _ := h
  operand hpos _ := absurd hpos (Nat.lt_irrefl 0)
  whole :=
    have hoperand : ReadsOperand s scope parsed kinds UnaryOp.precedence := h.operand spelled
    hoperand.whole (by decide)

theorem ReadsWhole.nested (h : ReadsWhole s scope parsed kinds) (hts : Token.kinds ts = kinds)
    (hroom : kinds.length < room) (hends : Ends loosest rest) (position : Nat) :
    parseAt s room position .whole scope (ts ++ rest) = .ok (parsed, rest) := by
  cases room with
  | zero => omega
  | succ room => exact h hts (by omega) hends

theorem ReadsOperand.nested {bound : Nat} (h : ReadsOperand s scope parsed kinds bound)
    (hts : Token.kinds ts = kinds) (hroom : kinds.length < room) (hends : Ends bound rest)
    (hstops : Stops bound rest) (position : Nat) :
    parseAt s room position (.operand bound) scope (ts ++ rest) = .ok (parsed, rest) := by
  cases room with
  | zero => omega
  | succ room =>
    obtain ⟨fuel, -, hoperand⟩ := h hts (by omega : kinds.length ≤ room) (Nat.le_refl _) hends
    rw [parseAt, hoperand, chain_of_stops hstops]

/-! ## Arguments -/

theorem length_le_listed (parts : List (List TokenKind)) :
    parts.length ≤ (listed parts).length + 1 := by
  induction parts with
  | nil => simp
  | cons part parts ih =>
    cases parts with
    | nil => simp
    | cons next parts =>
      rw [listed_cons _ (by simp)]
      simp only [List.length_cons, List.length_append] at ih ⊢
      omega

theorem argumentsFrom_of_reads {parts : List (Parsed × List TokenKind)} {fuel : Nat}
    (hne : parts ≠ []) (reads : ∀ part ∈ parts, ReadsWhole s scope part.1 part.2)
    (hts : Token.kinds ts = listed (parts.map (·.2)) ++ [.closeParen])
    (hroom : (listed (parts.map (·.2))).length < room) (hfuel : parts.length ≤ fuel) :
    argumentsFrom s (parseAt s room) scope fuel (ts ++ rest) =
      .ok ((parts.map (·.1.expr), Parsed.tallest (parts.map (·.1))), rest) := by
  induction parts generalizing ts fuel with
  | nil => exact absurd rfl hne
  | cons part parts ih =>
    obtain ⟨fuel, rfl⟩ : ∃ n, fuel = n + 1 := Nat.exists_eq_succ_of_ne_zero (by
      simp only [List.length_cons] at hfuel
      omega)
    have hpart : ReadsWhole s scope part.1 part.2 := reads part List.mem_cons_self
    by_cases hparts : parts = []
    · subst hparts
      obtain ⟨used, ts₁, rfl, hused, hts₁⟩ := List.map_eq_append_iff.mp hts
      obtain ⟨close, rfl⟩ := Token.kinds_eq_singleton.mp hts₁
      have hread (position : Nat) : parseAt s room position .whole scope
          (used ++ ⟨.closeParen, close⟩ :: rest) = .ok (part.1, ⟨.closeParen, close⟩ :: rest) :=
        hpart.nested hused hroom (ends_cons.mpr id) position
      have hclose : expect .closeParen "',' or ')'" (⟨.closeParen, close⟩ :: rest) = .ok rest :=
        expect_eq_ok.mpr ⟨close, rfl⟩
      simp only [List.append_assoc, List.singleton_append, argumentsFrom, hread, ok_bind, hclose]
      simp [Parsed.tallest]
    · rw [List.map_cons, listed_cons _ (by simpa using hparts)] at hts hroom
      rw [List.append_assoc] at hts
      obtain ⟨used, ts₁, rfl, hused, hts₁⟩ := List.map_eq_append_iff.mp hts
      obtain ⟨comma, ts₂, rfl, hts₂⟩ := Token.kinds_eq_cons.mp hts₁
      simp only [List.length_append, List.length_cons] at hroom hfuel
      have hread (position : Nat) : parseAt s room position .whole scope
            (used ++ ⟨.comma, comma⟩ :: (ts₂ ++ rest)) =
          .ok (part.1, ⟨.comma, comma⟩ :: (ts₂ ++ rest)) :=
        hpart.nested hused (by omega) (ends_cons.mpr id) position
      have hothers := ih hparts (fun part h => reads part (List.mem_cons_of_mem _ h)) hts₂
        (by omega) (by omega : parts.length ≤ fuel)
      simp only [List.append_assoc, List.cons_append, argumentsFrom, hread, ok_bind, hothers]
      rfl

theorem arguments_of_reads {parts : List (Parsed × List TokenKind)}
    (spelled : ∀ part ∈ parts, Spelled s loosest scope part.1 part.2)
    (reads : ∀ part ∈ parts, ReadsWhole s scope part.1 part.2)
    (hts : Token.kinds ts = listed (parts.map (·.2)) ++ [.closeParen])
    (hroom : (listed (parts.map (·.2))).length < room) :
    arguments s (parseAt s room) scope (ts ++ rest) =
      .ok ((parts.map (·.1.expr), Parsed.tallest (parts.map (·.1))), rest) := by
  by_cases hparts : parts = []
  · subst hparts
    obtain ⟨close, rfl⟩ := Token.kinds_eq_singleton.mp hts
    rfl
  · have hfuel : parts.length ≤ (ts ++ rest).length + 1 := by
      have hlisted := length_le_listed (parts.map (·.2))
      have hlength := congrArg List.length hts
      simp only [List.length_append, List.length_map] at hlisted hlength ⊢
      omega
    unfold arguments
    split
    · next close rest' heq =>
      -- No argument starts with the closing parenthesis.
      obtain ⟨part, parts, rfl⟩ := List.exists_cons_of_ne_nil hparts
      obtain ⟨kind, kinds, hkinds, hkind, -⟩ := (spelled part List.mem_cons_self).starts
      have hclose : Token.kinds ts ++ Token.kinds rest = .closeParen :: Token.kinds rest' := by
        simpa using congrArg Token.kinds heq
      rw [hts] at hclose
      cases parts <;> simp [listed, hkinds, hkind] at hclose
    · exact argumentsFrom_of_reads hparts reads hts hroom hfuel

theorem atLambda_of_spelled {bound : Nat} (spelled : Spelled s bound scope parsed kinds)
    (hts : Token.kinds ts = kinds) (hrest : (Token.kinds rest).head? ≠ some .arrow) :
    atLambda (ts ++ rest) = false := by
  unfold atLambda
  split
  · next name position arrow tail heq =>
    refine absurd ?_ (spelled.ne_lambda hrest name (Token.kinds tail))
    rw [← hts, ← List.map_append, heq]
    rfl
  · rfl

theorem readsArgument_none {element : Option KnownProperties} {method : MethodSpec}
    (kind : method.argument = .none) : ReadsArgument s scope element method .none 0 [] := by
  intro room position ts rest hts _
  obtain ⟨close, rfl⟩ := Token.kinds_eq_singleton.mp hts
  simp [kind, plainArgument, atLambda, arguments, MethodSpec.arity, ok_bind]

theorem ReadsWhole.argument {element : Option KnownProperties} {method : MethodSpec}
    (h : ReadsWhole s scope parsed kinds) (spelled : Spelled s loosest scope parsed kinds)
    (kind : method.argument = .value) :
    ReadsArgument s scope element method (.value parsed.expr) parsed.height kinds := by
  intro room position ts rest hts hroom
  have hlambda : atLambda (ts ++ rest) = false := by
    obtain ⟨used, ts₁, rfl, hused, hts₁⟩ := List.map_eq_append_iff.mp hts
    obtain ⟨close, rfl⟩ := Token.kinds_eq_singleton.mp hts₁
    rw [List.append_assoc]
    exact atLambda_of_spelled spelled hused (by simp)
  have harguments : arguments s (parseAt s room) scope (ts ++ rest) =
      .ok (([parsed.expr], Parsed.tallest [parsed]), rest) :=
    have hpart {p : Parsed × List TokenKind → Prop} (h : p (parsed, kinds)) :
        ∀ part ∈ [(parsed, kinds)], p part := List.forall_mem_singleton.mpr h
    arguments_of_reads (hpart spelled) (hpart h) hts hroom
  have htallest : Parsed.tallest [parsed] = parsed.height := Nat.max_zero _
  simp [plainArgument, hlambda, harguments, htallest, kind, MethodSpec.arity, ok_bind]

theorem ReadsWhole.lambda {param : String} {element : Option KnownProperties} {method : MethodSpec}
    (h : ReadsWhole s ((param, .record element) :: scope) parsed kinds)
    (kind : method.argument = .lambda) :
    ReadsArgument s scope element method (.lambda param parsed.expr) parsed.height
      (.ident param :: .arrow :: kinds) := by
  intro room position ts rest hts hroom
  obtain ⟨ident, ts₁, rfl, hts₁⟩ := Token.kinds_eq_cons.mp hts
  obtain ⟨arrow, ts₂, rfl, hts₂⟩ := Token.kinds_eq_cons.mp hts₁
  obtain ⟨used, ts₃, rfl, hused, hts₃⟩ := List.map_eq_append_iff.mp hts₂
  obtain ⟨close, rfl⟩ := Token.kinds_eq_singleton.mp hts₃
  simp only [List.length_cons] at hroom
  have hbody (position : Nat) : parseAt s room position .whole ((param, .record element) :: scope)
      (used ++ ⟨.closeParen, close⟩ :: rest) = .ok (parsed, ⟨.closeParen, close⟩ :: rest) :=
    h.nested hused (by omega) (ends_cons.mpr id) position
  rw [if_pos (by simp [kind, atLambda])]
  simp only [List.cons_append, List.append_assoc, List.nil_append, lambdaArgument,
    expectIdent_eq_ok.mpr rfl, expect_eq_ok.mpr ⟨_, rfl⟩, ok_bind, hbody]

theorem functionCall_of_reads {space name : String} {spec : FunctionSpec} {position : Nat}
    {parts : List (Parsed × List TokenKind)}
    (known : Catalog.function? (space ++ "." ++ name) = some spec)
    (spelled : ∀ part ∈ parts, Spelled s loosest scope part.1 part.2)
    (reads : ∀ part ∈ parts, ReadsWhole s scope part.1 part.2)
    (arity : parts.length = spec.arity)
    (height : Parsed.tallest (parts.map (·.1)) + 1 ≤ s.limit)
    (hts : Token.kinds ts =
      .dot :: .ident name :: .openParen :: (listed (parts.map (·.2)) ++ [.closeParen]))
    (hroom : (listed (parts.map (·.2))).length < room) :
    functionCall s (parseAt s room) scope space position (ts ++ rest) =
      .ok (⟨.call (space ++ "." ++ name) (parts.map (·.1.expr)), .ofReturn spec.returns,
        Parsed.tallest (parts.map (·.1)) + 1⟩, rest) := by
  obtain ⟨dot, ts₁, rfl, hts₁⟩ := Token.kinds_eq_cons.mp hts
  obtain ⟨ident, ts₂, rfl, hts₂⟩ := Token.kinds_eq_cons.mp hts₁
  obtain ⟨paren, ts₃, rfl, hts₃⟩ := Token.kinds_eq_cons.mp hts₂
  have harguments : arguments s (parseAt s room) scope (ts₃ ++ rest) =
      .ok ((parts.map (·.1.expr), Parsed.tallest (parts.map (·.1))), rest) :=
    arguments_of_reads spelled reads hts₃ hroom
  simp only [List.cons_append, functionCall, expectIdent_eq_ok.mpr rfl,
    expect_eq_ok.mpr ⟨_, rfl⟩, ok_bind, known, harguments, List.length_map, arity, if_true,
    node_of_le height]

/-! ## Receivers -/

theorem readsReceiver_of_primary
    (hprimary : ∀ ⦃room : Nat⦄ ⦃ts rest : List Token⦄, Token.kinds ts = kinds →
      kinds.length ≤ room → primary s (parseAt s room) scope (ts ++ rest) = .ok (parsed, rest)) :
    ReadsReceiver s scope parsed kinds := by
  intro room ts rest hts hroom _
  exact ⟨rest.length, Nat.le_refl _, by rw [trailed, hprimary hts hroom, ok_bind]⟩

theorem readsReceiver_of_token {kind : TokenKind}
    (hprimary : ∀ room position rest,
      primary s (parseAt s room) scope (⟨kind, position⟩ :: rest) = .ok (parsed, rest)) :
    ReadsReceiver s scope parsed [kind] := by
  refine readsReceiver_of_primary ?_
  intro room ts rest hts _
  obtain ⟨position, rfl⟩ := Token.kinds_eq_singleton.mp hts
  exact hprimary room position rest

theorem ReadsWhole.group (h : ReadsWhole s scope parsed kinds) :
    ReadsReceiver s scope parsed (.openParen :: (kinds ++ [.closeParen])) := by
  refine readsReceiver_of_primary ?_
  intro room ts rest hts hroom
  obtain ⟨paren, ts₁, rfl, hts₁⟩ := Token.kinds_eq_cons.mp hts
  obtain ⟨used, ts₂, rfl, hused, hts₂⟩ := List.map_eq_append_iff.mp hts₁
  obtain ⟨close, rfl⟩ := Token.kinds_eq_singleton.mp hts₂
  simp only [List.length_cons, List.length_append] at hroom
  have hinner (position : Nat) : parseAt s room position .whole scope
      (used ++ ⟨.closeParen, close⟩ :: rest) = .ok (parsed, ⟨.closeParen, close⟩ :: rest) :=
    h.nested hused (by omega) (ends_cons.mpr id) position
  simp only [List.cons_append, List.append_assoc, List.nil_append, primary, hinner, ok_bind,
    expect_eq_ok.mpr ⟨_, rfl⟩]

/-- One round of the loop takes what stands behind a point. -/
theorem ReadsReceiver.trailing {kinds' : List TokenKind} {parsed' : Parsed}
    (h : ReadsReceiver s scope parsed kinds)
    (round : ∀ ⦃room fuel dot : Nat⦄ ⦃ts rest : List Token⦄, Token.kinds ts = kinds' →
      kinds'.length < room → Ends 0 rest →
      Grammar.trailing s (parseAt s room) scope (fuel + 1) parsed (⟨.dot, dot⟩ :: (ts ++ rest)) =
        Grammar.trailing s (parseAt s room) scope fuel parsed' rest) :
    ReadsReceiver s scope parsed' (kinds ++ .dot :: kinds') := by
  intro room ts rest hts hroom hends
  obtain ⟨ts₁, ts₂, rfl, hts₁, hts₂⟩ := List.map_eq_append_iff.mp hts
  obtain ⟨dot, ts₃, rfl, hts₃⟩ := Token.kinds_eq_cons.mp hts₂
  simp only [List.length_append, List.length_cons] at hroom
  have hdot : Ends 0 (⟨.dot, dot⟩ :: (ts₃ ++ rest)) := ends_cons.mpr (Nat.lt_irrefl 0)
  obtain ⟨fuel, hfuel, htrailed⟩ := h hts₁ (by omega : kinds.length ≤ room) hdot
  cases fuel with
  | zero => simp at hfuel
  | succ fuel =>
    refine ⟨fuel, ?_, ?_⟩
    · simp only [List.length_cons, List.length_append] at hfuel
      omega
    · rw [List.append_assoc, List.cons_append, htrailed, round hts₃ (by omega) hends]

theorem ReadsReceiver.property {name : String} {access : Parsed}
    (h : ReadsReceiver s scope parsed kinds)
    (haccess : ∀ position, Grammar.property s parsed name position = .ok access) :
    ReadsReceiver s scope access (kinds ++ [.dot, .ident name]) := by
  refine h.trailing ?_
  intro room fuel dot ts rest hts _ hends
  obtain ⟨ident, rfl⟩ := Token.kinds_eq_singleton.mp hts
  exact trailing_property hends (haccess ident)

theorem ReadsReceiver.method {name : String} {method : MethodSpec}
    {element : Option KnownProperties} {argument : Argument Expr} {height : Nat}
    {kinds' : List TokenKind} (h : ReadsReceiver s scope parsed kinds)
    (hargument : ReadsArgument s scope element method argument height kinds')
    (known : Catalog.method? name = some method) (items : parsed.shape.items? = some element)
    (limit : max parsed.height height + 1 ≤ s.limit) :
    ReadsReceiver s scope ⟨.method parsed.expr name argument, .ofMethod method element,
        max parsed.height height + 1⟩
      (kinds ++ .dot :: .ident name :: .openParen :: (kinds' ++ [.closeParen])) := by
  refine h.trailing ?_
  intro room fuel dot ts rest hts hroom _
  obtain ⟨ident, ts₁, rfl, hts₁⟩ := Token.kinds_eq_cons.mp hts
  obtain ⟨paren, ts₂, rfl, hts₂⟩ := Token.kinds_eq_cons.mp hts₁
  simp only [List.length_cons, List.length_append] at hroom
  exact trailing_method (methodCall_eq known items (hargument hts₂ (by omega)) limit)

/-! ## Operators -/

/-- Whatever follows the operand of an operator before it follows the operator as well: nothing
binds tighter. -/
theorem ReadsOperand.unary (h : ReadsOperand s scope parsed kinds UnaryOp.precedence) (op : UnaryOp)
    (height : parsed.height + 1 ≤ s.limit) :
    ReadsOperand s scope ⟨.unary op parsed.expr, .scalar, parsed.height + 1⟩
      (.operator op.written :: kinds) UnaryOp.precedence := by
  intro room bound ts rest hts hroom _ hends
  obtain ⟨position, ts₁, rfl, hts₁⟩ := Token.kinds_eq_cons.mp hts
  have hoperand (position : Nat) :
      parseAt s room position (.operand UnaryOp.precedence) scope (ts₁ ++ rest) =
        .ok (parsed, rest) :=
    h.nested hts₁ hroom hends (stops_precedence rest) position
  refine ⟨rest.length, Nat.le_refl _, ?_⟩
  simp only [List.cons_append, Grammar.operand, Grammar.unary, UnaryOp.unary?_eq_some.mpr rfl,
    hoperand, ok_bind, node_of_le height]

/-- The loop comes to stand behind the left operand, and one round of it takes the operator and the
right operand. -/
theorem ReadsOperand.connective {right : Parsed} {kinds' : List TokenKind} (c : Connective)
    (hleft : ReadsOperand s scope parsed kinds c.spec.leftBound)
    (hright : ReadsOperand s scope right kinds' c.spec.rightBound)
    (height : max parsed.height right.height + 1 ≤ s.limit) :
    ReadsOperand s scope
      ⟨c.apply parsed.expr right.expr, .scalar, max parsed.height right.height + 1⟩
      (kinds ++ .operator (.connective c) :: kinds') c.spec.precedence := by
  intro room bound ts rest hts hroom hbound hends
  obtain ⟨ts₁, ts₂, rfl, hts₁, hts₂⟩ := List.map_eq_append_iff.mp hts
  obtain ⟨position, ts₃, rfl, hts₃⟩ := Token.kinds_eq_cons.mp hts₂
  simp only [List.length_cons, List.length_append] at hroom
  have hoperand (position : Nat) :
      parseAt s room position (.operand c.rightBound) scope (ts₃ ++ rest) = .ok (right, rest) :=
    hright.nested hts₃ (by omega) (hends.tighten c.rightBound_le_precedence) hends.stops position
  have hoperator : Ends c.spec.leftBound
      (⟨.operator (.connective c), position⟩ :: (ts₃ ++ rest)) :=
    ends_cons.mpr (Nat.lt_irrefl _)
  obtain ⟨fuel, hfuel, hread⟩ := hleft hts₁ (by omega : kinds.length ≤ room)
    (Nat.le_trans c.leftBound_le_precedence hbound) hoperator
  cases fuel with
  | zero => simp at hfuel
  | succ fuel =>
    refine ⟨fuel, ?_, ?_⟩
    · simp only [List.length_cons, List.length_append] at hfuel
      omega
    · rw [List.append_assoc, List.cons_append, hread, chain_round hbound hoperand height]

theorem ReadsOperand.conditional {thenBranch elseBranch : Parsed}
    {kinds' kinds'' : List TokenKind}
    (h : ReadsOperand s scope parsed kinds conditionalSpec.leftBound)
    (hthen : ReadsWhole s scope thenBranch kinds') (helse : ReadsWhole s scope elseBranch kinds'')
    (height : max (max parsed.height thenBranch.height) elseBranch.height + 1 ≤ s.limit) :
    ReadsWhole s scope
      ⟨.conditional parsed.expr thenBranch.expr elseBranch.expr, .unknown,
        max (max parsed.height thenBranch.height) elseBranch.height + 1⟩
      (kinds ++ .question :: (kinds' ++ .colon :: kinds'')) := by
  intro room ts rest hts hroom hends
  obtain ⟨ts₁, ts₂, rfl, hts₁, hts₂⟩ := List.map_eq_append_iff.mp hts
  obtain ⟨question, ts₃, rfl, hts₃⟩ := Token.kinds_eq_cons.mp hts₂
  obtain ⟨ts₄, ts₅, rfl, hts₄, hts₅⟩ := List.map_eq_append_iff.mp hts₃
  obtain ⟨colon, ts₆, rfl, hts₆⟩ := Token.kinds_eq_cons.mp hts₅
  simp only [List.length_cons, List.length_append] at hroom
  have hquestion : Ends conditionalSpec.leftBound
      (⟨.question, question⟩ :: (ts₄ ++ ⟨.colon, colon⟩ :: (ts₆ ++ rest))) :=
    ends_cons.mpr (Nat.lt_irrefl _)
  have hstops : Stops conditionalSpec.leftBound
      (⟨.question, question⟩ :: (ts₄ ++ ⟨.colon, colon⟩ :: (ts₆ ++ rest))) := nofun
  obtain ⟨fuel, -, hcondition⟩ := h hts₁ (by omega : kinds.length ≤ room)
    (Nat.le_refl conditionalSpec.leftBound) hquestion
  rw [chain_of_stops hstops] at hcondition
  have hmiddle (position : Nat) : parseAt s room position .whole scope
      (ts₄ ++ ⟨.colon, colon⟩ :: (ts₆ ++ rest)) =
        .ok (thenBranch, ⟨.colon, colon⟩ :: (ts₆ ++ rest)) :=
    hthen.nested hts₄ (by omega) (ends_cons.mpr id) position
  have hlast (position : Nat) : parseAt s room position .whole scope (ts₆ ++ rest) =
      .ok (elseBranch, rest) :=
    helse.nested hts₆ (by omega) hends position
  have hbound : conditionalSpec.precedence - 1 = conditionalSpec.leftBound := rfl
  simp only [List.append_assoc, List.cons_append, Grammar.whole, hbound, hcondition, ok_bind,
    hmiddle, expect_eq_ok.mpr ⟨_, rfl⟩, hlast, node_of_le height]

/-! ## Every spelling is read -/

/-- The induction is on the spelling.  Whatever stands between delimiters, and every right operand,
is shorter than the whole and read one level below it. -/
theorem Spelled.reads {bound : Nat} (h : Spelled s bound scope parsed kinds) :
    Reads s scope parsed kinds bound := by
  induction h with
  | number | text | bool | null =>
    exact .of_receiver (by constructor) (readsReceiver_of_token fun _ _ _ => rfl)
  | parameter bound =>
    refine .of_receiver (.parameter bound) (readsReceiver_of_token fun room position rest => ?_)
    simp only [primary, identifier, bound]
  | source free known =>
    refine .of_receiver (.source free known) (readsReceiver_of_token fun room position rest => ?_)
    simp only [primary, identifier, free, known]
  | group inner ih => exact .of_receiver (.group inner) ih.whole.group
  | @call scope space name spec parts free unknown isSpace known args arity height ih =>
    refine .of_receiver (.call free unknown isSpace known args arity height)
      (readsReceiver_of_primary ?_)
    intro room ts rest hts hroom
    obtain ⟨position, ts₁, rfl, hts₁⟩ := Token.kinds_eq_cons.mp hts
    simp only [List.length_cons, List.length_append] at hroom
    simp only [List.cons_append, primary, identifier, free, unknown, isSpace, if_true]
    exact functionCall_of_reads known args (fun part hpart => (ih part hpart).whole) arity height
      hts₁ (by omega)
  | path receiver admits limit ih =>
    exact .of_receiver (.path receiver admits limit)
      ((ih.receiver rfl).property fun _ => property_path admits limit)
  | member target computed admits height ih =>
    exact .of_receiver (.member target computed admits height)
      ((ih.receiver rfl).property fun _ => property_member computed admits height)
  | plainMethod target known kind items height ih =>
    exact .of_receiver (.plainMethod target known kind items height)
      ((ih.receiver rfl).method (readsArgument_none kind) known items height)
  | valueMethod target argument known kind items height ih ihArgument =>
    exact .of_receiver (.valueMethod target argument known kind items height)
      ((ih.receiver rfl).method (ihArgument.whole.argument argument kind) known items height)
  | lambdaMethod target function known kind items height ih ihFunction =>
    exact .of_receiver (.lambdaMethod target function known kind items height)
      ((ih.receiver rfl).method (ihFunction.whole.lambda kind) known items height)
  | unary op right height ih =>
    have hoperand := ih.operand (by decide : 0 < UnaryOp.precedence)
      (by decide : UnaryOp.precedence < loosest)
    exact .of_operand (hoperand.unary op height) (by decide : 0 < UnaryOp.precedence)
      (by decide : UnaryOp.precedence < loosest)
  | connective c left right height ihLeft ihRight =>
    have hprecedence := c.one_lt_precedence
    have hloosest := c.precedence_lt_loosest
    have hleft := ihLeft.operand c.one_le_leftBound
      (Nat.lt_of_le_of_lt c.leftBound_le_precedence hloosest)
    have hright := ihRight.operand (Nat.lt_trans Nat.one_pos c.one_lt_rightBound)
      (Nat.lt_of_le_of_lt c.rightBound_le_precedence hloosest)
    exact .of_operand (.connective c hleft hright height) (by omega) hloosest
  | conditional left middle right height ih ihThen ihElse =>
    have hcondition := ih.operand (by decide) (by decide)
    exact ⟨fun hzero => absurd hzero (by decide), fun _ hlt => absurd hlt (Nat.lt_irrefl _),
      hcondition.conditional ihThen.whole ihElse.whole height⟩
  | @loosen bound bound' scope parsed kinds tighter le ih =>
    have hoperand (hpos : 0 < bound') (hlt : bound' < loosest) :
        ReadsOperand s scope parsed kinds bound' := by
      rcases Nat.eq_zero_or_pos bound with rfl | hbound
      · exact ((ih.receiver rfl).operand tighter).loosen hpos
      · exact (ih.operand hbound (Nat.lt_of_le_of_lt le hlt)).loosen le
    exact ⟨fun hzero => ih.receiver (by omega), hoperand, ih.whole⟩

end Reading

/-- Reading agrees with the grammar, if the nesting may be as deep as there are tokens. -/
theorem parseTokens_eq_ok_iff {s : Setting} {ts : List Token} {parsed : Parsed}
    (hlimit : ts.length < s.limit) :
    parseTokens s ts = .ok parsed ↔ Spelled s loosest [] parsed (Token.kinds ts) := by
  constructor
  · exact parseTokens_spelled
  · intro spelled
    have hread : parseAt s s.limit (positionOf s ts) .whole [] (ts ++ []) = .ok (parsed, []) :=
      spelled.reads.whole.nested rfl (by simpa using hlimit) (ends_nil _) _
    rw [List.append_nil] at hread
    rw [parseTokens, hread, ok_bind]

end Grammar

end CommissionRules
