import CommissionRules.Proofs.Grammar.Spelling

/-!
# Formation

`Grammar.Formed` describes what the grammar builds, without the tokens: one rule for each kind of
node, with what was checked when it was made, its shape and its height.  The main statement is
`Grammar.parseAt_formed`: whatever is read, at any depth and in any scope, is formed by these rules.
What holds of all expressions that can be read is then shown by induction on their formation.
-/

namespace CommissionRules.Grammar

/-- The expressions that can be built in a scope.  The limit bounds every node with parts below it,
and every path. -/
inductive Formed (s : Setting) : Scope → Parsed → Prop
  | number {scope} (n : Number) : Formed s scope (leaf (.literal (.number n)) .scalar)
  | text {scope} (t : String) : Formed s scope (leaf (.literal (.str t)) .scalar)
  | bool {scope} (b : Bool) : Formed s scope (leaf (.literal (.bool b)) .scalar)
  | null {scope} : Formed s scope (leaf (.literal .null) .unknown)
  | parameter {scope name shape} (bound : scope.lookup name = some shape) :
      Formed s scope (leaf (.ref name []) shape)
  | source {scope name source} (free : scope.lookup name = none)
      (known : s.catalog.source? name = some source) :
      Formed s scope (leaf (.ref name []) (.ofSource source))
  | call {scope id spec parts} (known : Catalog.function? id = some spec)
      (formed : ∀ part ∈ parts, Formed s scope part) (arity : parts.length = spec.arity)
      (height : Parsed.tallest parts + 1 ≤ s.limit) :
      Formed s scope ⟨.call id (parts.map Parsed.expr), .ofReturn spec.returns,
        Parsed.tallest parts + 1⟩
  | path {scope source names shape height name}
      (receiver : Formed s scope ⟨.ref source names, shape, height⟩) (admits : shape.Admits name)
      (limit : height ≤ s.limit) :
      Formed s scope ⟨.ref source (names ++ [name]), .unknown, height⟩
  | member {scope receiver name} (formed : Formed s scope receiver)
      (computed : ∀ source names, receiver.expr ≠ .ref source names)
      (admits : receiver.shape.Admits name) (height : receiver.height + 1 ≤ s.limit) :
      Formed s scope ⟨.member receiver.expr name, .unknown, receiver.height + 1⟩
  | plainMethod {scope receiver name method element} (formed : Formed s scope receiver)
      (known : Catalog.method? name = some method) (kind : method.argument = .none)
      (items : receiver.shape.items? = some element)
      (height : max receiver.height 0 + 1 ≤ s.limit) :
      Formed s scope ⟨.method receiver.expr name .none, .ofMethod method element,
        max receiver.height 0 + 1⟩
  | valueMethod {scope receiver arg name method element} (formed : Formed s scope receiver)
      (formedArg : Formed s scope arg) (known : Catalog.method? name = some method)
      (kind : method.argument = .value) (items : receiver.shape.items? = some element)
      (height : max receiver.height arg.height + 1 ≤ s.limit) :
      Formed s scope ⟨.method receiver.expr name (.value arg.expr),
        .ofMethod method element, max receiver.height arg.height + 1⟩
  | lambdaMethod {scope receiver param body name method element} (formed : Formed s scope receiver)
      (formedBody : Formed s ((param, .record element) :: scope) body)
      (known : Catalog.method? name = some method) (kind : method.argument = .lambda)
      (items : receiver.shape.items? = some element)
      (height : max receiver.height body.height + 1 ≤ s.limit) :
      Formed s scope ⟨.method receiver.expr name (.lambda param body.expr),
        .ofMethod method element, max receiver.height body.height + 1⟩
  | unary {scope operand} (op : UnaryOp) (formed : Formed s scope operand)
      (height : operand.height + 1 ≤ s.limit) :
      Formed s scope ⟨.unary op operand.expr, .scalar, operand.height + 1⟩
  | connective {scope left right} (c : Connective) (formedLeft : Formed s scope left)
      (formedRight : Formed s scope right)
      (height : max left.height right.height + 1 ≤ s.limit) :
      Formed s scope ⟨c.apply left.expr right.expr, .scalar, max left.height right.height + 1⟩
  | conditional {scope condition thenBranch elseBranch} (formed : Formed s scope condition)
      (formedThen : Formed s scope thenBranch) (formedElse : Formed s scope elseBranch)
      (height : max (max condition.height thenBranch.height) elseBranch.height + 1 ≤ s.limit) :
      Formed s scope ⟨.conditional condition.expr thenBranch.expr elseBranch.expr, .unknown,
        max (max condition.height thenBranch.height) elseBranch.height + 1⟩

/-- Whatever tokens spell an expression, it is formed. -/
theorem Spelled.formed {s : Setting} {bound : Nat} {scope : Scope} {parsed : Parsed}
    {ts : List TokenKind} (h : Spelled s bound scope parsed ts) : Formed s scope parsed := by
  induction h with
  | number n => exact .number n
  | text t => exact .text t
  | bool b => exact .bool b
  | null => exact .null
  | parameter bound => exact .parameter bound
  | source free known => exact .source free known
  | group inner ih => exact ih
  | @call scope space name spec parts free unknown isSpace known args arity height ih =>
    have formed : ∀ part ∈ parts.map (·.1), Formed s scope part := by
      intro part hpart
      obtain ⟨entry, hentry, rfl⟩ := List.mem_map.mp hpart
      exact ih entry hentry
    have hexprs : parts.map (·.1.expr) = (parts.map (·.1)).map Parsed.expr := by simp
    rw [hexprs]
    exact .call known formed (by simpa using arity) height
  | path receiver admits limit ih => exact .path ih admits limit
  | member target computed admits height ih => exact .member ih computed admits height
  | plainMethod target known kind items height ih => exact .plainMethod ih known kind items height
  | valueMethod target argument known kind items height ih ihArgument =>
    exact .valueMethod ih ihArgument known kind items height
  | lambdaMethod target function known kind items height ih ihFunction =>
    exact .lambdaMethod ih ihFunction known kind items height
  | unary op right height ih => exact .unary op ih height
  | connective c left right height ihLeft ihRight => exact .connective c ihLeft ihRight height
  | conditional left middle right height ihLeft ihMiddle ihRight =>
    exact .conditional ihLeft ihMiddle ihRight height
  | loosen tighter le ih => exact ih

/-- The expressions that are made while tokens are read.  A loop that stops after any number of
rounds has made one, which is a receiver or a left operand of the next round. -/
inductive Produced (s : Setting) : Scope → Parsed → Prop
  | receiver {room fuel scope ts rest rest' start parsed}
      (first : primary s (parseAt s room) scope ts = .ok (start, rest))
      (next : trailing s (parseAt s room) scope fuel start rest = .ok (parsed, rest')) :
      Produced s scope parsed
  | operand {room bound fuel scope ts rest rest' start parsed}
      (first : unary s (parseAt s room) scope ts = .ok (start, rest))
      (next : chain s (parseAt s room) bound scope fuel start rest = .ok (parsed, rest')) :
      Produced s scope parsed
  | whole {room scope ts rest parsed}
      (all : whole s (parseAt s room) scope ts = .ok (parsed, rest)) : Produced s scope parsed

theorem Produced.formed {s : Setting} {scope : Scope} {parsed : Parsed}
    (h : Produced s scope parsed) : Formed s scope parsed := by
  cases h with
  | @receiver room fuel _ ts rest rest' start _ first next =>
    obtain ⟨used, -, spelled⟩ := primary_spelled (parseAt_spells s room) first
    obtain ⟨used', -, spelled'⟩ := trailing_spelled (parseAt_spells s room) spelled next
    exact spelled'.formed
  | @operand room bound fuel _ ts rest rest' start _ first next =>
    obtain ⟨used, -, spelled⟩ := unary_spelled (parseAt_spells s room) first
    obtain ⟨used', -, spelled', -⟩ := chain_spelled (parseAt_spells s room) (Nat.le_max_left _ _)
      spelled (fun c _ => c.one_le_leftBound) next
    exact spelled'.formed
  | @whole room _ ts rest _ all =>
    obtain ⟨used, -, spelled, -⟩ := whole_spelled (parseAt_spells s room) all
    exact spelled.formed

theorem parseAt_formed {s : Setting} {room position : Nat} {goal : Goal} {scope : Scope}
    {ts rest : List Token} {parsed : Parsed}
    (h : parseAt s room position goal scope ts = .ok (parsed, rest)) : Formed s scope parsed := by
  obtain ⟨used, -, spelled, -⟩ := parseAt_spelled h
  exact spelled.formed

end CommissionRules.Grammar
