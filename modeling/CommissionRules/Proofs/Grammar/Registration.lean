import CommissionRules.Proofs.Grammar.Parallel
import CommissionRules.Proofs.Grammar.Spelling

/-!
# Registered data sources

A data source that is new to a catalog changes nothing but what its name stands for.  The readings
without it and with it go side by side, up to a place where the first one refuses the name
(`Grammar.parseTokens_registered`).  A name is refused as unknown only where it is the name of a
token (`Grammar.parseAt_names`).  So a data source that is registered leaves every tree as it is,
and every error as well where the text does not name it: `Compiler.registration_extends`.
-/

namespace CommissionRules

namespace Grammar

/-! ## Unknown names -/

/-- A name that is refused as unknown is that of one of the tokens. -/
def NamesOf {α : Type} (ts : List Token) (x : Except CompileError α) : Prop :=
  ∀ name position, x = .error (.unknownIdentifier name position) → ⟨.ident name, position⟩ ∈ ts

/-- A reader that refuses as unknown only names of the tokens that it gets. -/
def Nested.Names (nested : Nested) : Prop :=
  ∀ position goal scope ts, NamesOf ts (nested position goal scope ts)

section NamesOf

variable {α β : Type} {ts ts' : List Token} {x : Except CompileError α}

theorem namesOf_ok (a : α) : NamesOf ts (.ok a : Except CompileError α) := nofun

theorem namesOf_error {e : CompileError}
    (h : ∀ name position, e ≠ .unknownIdentifier name position) :
    NamesOf ts (.error e : Except CompileError α) :=
  fun name position heq => absurd (Except.error.inj heq) (h name position)

theorem NamesOf.bind {f : α → Except CompileError β} (h : NamesOf ts x)
    (hf : ∀ a, x = .ok a → NamesOf ts (f a)) : NamesOf ts (x >>= f) := by
  intro name position hbind
  rcases bind_eq_error.mp hbind with hx | ⟨a, ha, hfa⟩
  · exact h name position hx
  · exact hf a ha name position hfa

/-- The tokens of a part are tokens of the whole. -/
theorem NamesOf.behind (h : NamesOf ts x) (used : List Token) : NamesOf (used ++ ts) x :=
  fun name position hx => List.mem_append_right used (h name position hx)

theorem NamesOf.tail {t : Token} (h : NamesOf ts x) : NamesOf (t :: ts) x := h.behind [t]

theorem expect_names (kind : TokenKind) (expected : String) :
    NamesOf ts' (expect kind expected ts) := by
  intro name position h
  cases ts with
  | nil => cases h
  | cons t ts =>
    rw [expect] at h
    split at h <;> cases h

theorem expectIdent_names (expected : String) : NamesOf ts' (expectIdent expected ts) := by
  intro name position h
  unfold expectIdent at h
  split at h
  · cases h
  · cases ts <;> cases h

theorem node_names (s : Setting) (expr : Expr) (shape : Shape) (height position : Nat) :
    NamesOf ts (node s expr shape height position) := by
  intro name position h
  rw [node] at h
  split at h <;> cases h

theorem property_names (s : Setting) (receiver : Parsed) (name : String) (position : Nat) :
    NamesOf ts (property s receiver name position) := by
  unfold property
  extract_lets extended
  have hextended : NamesOf ts extended := by
    dsimp only [extended]
    split <;> exact node_names _ _ _ _ _
  split
  · split
    · exact hextended
    · nofun
  · nofun
  · nofun
  · exact hextended

end NamesOf

section Readers

variable {s : Setting} {nested : Nested} {scope : Scope} {receiver : Parsed}
  (spells : nested.Spells s) (names : nested.Names)

include spells names

theorem argumentsFrom_names {fuel : Nat} (ts : List Token) :
    NamesOf ts (argumentsFrom s nested scope fuel ts) := by
  induction fuel generalizing ts with
  | zero => cases ts <;> nofun
  | succ fuel ih =>
    refine (names _ _ _ _).bind fun ⟨arg, rest⟩ harg => ?_
    obtain ⟨used, rfl, -⟩ := spells.whole harg
    refine .behind ?_ used
    dsimp only
    split
    · exact ((ih _).bind fun _ _ => namesOf_ok _).tail
    · exact (expect_names _ _).bind fun _ _ => namesOf_ok _

theorem arguments_names (ts : List Token) : NamesOf ts (arguments s nested scope ts) := by
  unfold arguments
  split
  · exact namesOf_ok _
  · exact argumentsFrom_names spells names ts

theorem functionCall_names (space : String) (position : Nat) (ts : List Token) :
    NamesOf ts (functionCall s nested scope space position ts) := by
  refine (expect_names _ _).bind fun ts₁ hdot => ?_
  obtain ⟨dot, rfl⟩ := expect_eq_ok.mp hdot
  refine .tail <| (expectIdent_names _).bind fun found hname => ?_
  obtain ⟨⟨name, ident⟩, ts₂⟩ := found
  obtain rfl := expectIdent_eq_ok.mp hname
  dsimp only
  split
  · exact namesOf_error fun _ _ => CompileError.noConfusion
  · refine .tail <| (expect_names _ _).bind fun ts₃ hparen => ?_
    obtain ⟨paren, rfl⟩ := expect_eq_ok.mp hparen
    refine .tail <| (arguments_names spells names ts₃).bind fun _ _ => ?_
    split
    · exact (node_names _ _ _ _ _).bind fun _ _ => namesOf_ok _
    · exact namesOf_error fun _ _ => CompileError.noConfusion

/-- Here a name is refused, and it is that of the token before. -/
theorem identifier_names (name : String) (position : Nat) (ts : List Token) :
    NamesOf (⟨.ident name, position⟩ :: ts) (identifier s nested scope name position ts) := by
  unfold identifier
  split
  · exact namesOf_ok _
  · split
    · exact namesOf_ok _
    · split
      · exact (functionCall_names spells names name position ts).tail
      · intro name' position' h
        cases h
        exact List.mem_cons_self

theorem primary_names (ts : List Token) : NamesOf ts (primary s nested scope ts) := by
  rcases ts with _ | ⟨⟨kind, position⟩, ts⟩
  · nofun
  · cases kind with
    | number | str | bool | null => exact namesOf_ok _
    | openParen =>
      refine .tail <| (names _ _ _ _).bind fun ⟨inner, rest⟩ _ => ?_
      exact (expect_names _ _).bind fun _ _ => namesOf_ok _
    | ident name => exact identifier_names spells names name position ts
    | _ => nofun

omit spells in
theorem lambdaArgument_names (element : Option KnownProperties) (ts : List Token) :
    NamesOf ts (lambdaArgument s nested scope element ts) := by
  refine (expectIdent_names _).bind fun ⟨⟨param, _⟩, ts₁⟩ hparam => ?_
  obtain rfl := expectIdent_eq_ok.mp hparam
  refine .tail <| (expect_names _ _).bind fun ts₂ harrow => ?_
  obtain ⟨arrow, rfl⟩ := expect_eq_ok.mp harrow
  refine .tail <| (names _ _ _ _).bind fun _ _ => ?_
  exact (expect_names _ _).bind fun _ _ => namesOf_ok _

theorem plainArgument_names (method : MethodSpec) (position : Nat) (ts : List Token) :
    NamesOf ts (plainArgument s nested scope method position ts) := by
  unfold plainArgument
  split
  · nofun
  · refine (arguments_names spells names ts).bind fun _ _ => ?_
    dsimp only
    split
    · split
      · exact namesOf_ok _
      · nofun
      · exact namesOf_ok _
    · nofun

theorem methodCall_names (name : String) (position : Nat) (ts : List Token) :
    NamesOf ts (methodCall s nested scope receiver name position ts) := by
  unfold methodCall
  split
  · exact namesOf_error fun _ _ => CompileError.noConfusion
  · next method _ =>
    extract_lets onElements
    have elements (element : Option KnownProperties) : NamesOf ts (onElements element) := by
      refine (expect_names _ _).bind fun ts₁ hparen => ?_
      obtain ⟨paren, rfl⟩ := expect_eq_ok.mp hparen
      refine .tail ?_
      dsimp only
      split
      · refine (lambdaArgument_names names element ts₁).bind fun _ _ => ?_
        exact (node_names _ _ _ _ _).bind fun _ _ => namesOf_ok _
      · refine (plainArgument_names spells names method position ts₁).bind fun _ _ => ?_
        exact (node_names _ _ _ _ _).bind fun _ _ => namesOf_ok _
    split
    · exact elements _
    · exact elements _
    · exact namesOf_error fun _ _ => CompileError.noConfusion

/-- What a round leaves is an end of the tokens that it got. -/
theorem trailing_names {fuel : Nat} {kinds : List TokenKind}
    (spelled : Spelled s 0 scope receiver kinds) (ts : List Token) :
    NamesOf ts (trailing s nested scope fuel receiver ts) := by
  induction fuel generalizing receiver kinds ts with
  | zero => exact namesOf_ok _
  | succ fuel ih =>
    unfold trailing
    split
    · next dot ts₁ =>
      refine .tail <| (expectIdent_names _).bind fun found hname => ?_
      obtain ⟨⟨name, position⟩, ts₂⟩ := found
      obtain rfl := expectIdent_eq_ok.mp hname
      refine .tail ?_
      dsimp only
      split
      · refine (methodCall_names spells names name position _).bind fun found hmethod => ?_
        obtain ⟨receiver', ts₃⟩ := found
        obtain ⟨used, hused, spelled'⟩ := methodCall_spelled spells spelled hmethod
        rw [hused]
        exact (ih spelled' ts₃).behind used
      · refine (property_names _ _ _ _).bind fun receiver' hproperty => ?_
        exact ih (property_spelled spelled hproperty) ts₂
    · exact namesOf_ok _

theorem trailed_names (ts : List Token) : NamesOf ts (trailed s nested scope ts) := by
  refine (primary_names spells names ts).bind fun ⟨receiver, ts₁⟩ hprimary => ?_
  obtain ⟨used, rfl, spelled⟩ := primary_spelled spells hprimary
  exact (trailing_names spells names spelled ts₁).behind used

theorem unary_names (ts : List Token) : NamesOf ts (unary s nested scope ts) := by
  unfold unary
  split
  · split
    · refine .tail <| (names _ _ _ _).bind fun _ _ => ?_
      exact (node_names _ _ _ _ _).bind fun _ _ => namesOf_ok _
    · exact trailed_names spells names _
  · exact trailed_names spells names ts

theorem chain_names (bound : Nat) {fuel : Nat} (left : Parsed) (ts : List Token) :
    NamesOf ts (chain s nested bound scope fuel left ts) := by
  induction fuel generalizing left ts with
  | zero => exact namesOf_ok _
  | succ fuel ih =>
    unfold chain
    split
    · split
      · refine .tail <| (names _ _ _ _).bind fun ⟨right, ts₁⟩ hright => ?_
        obtain ⟨used, rfl, -⟩ := spells hright
        exact .behind ((node_names _ _ _ _ _).bind fun left' _ => ih left' ts₁) used
      · exact namesOf_ok _
    · exact namesOf_ok _

theorem operand_names (bound : Nat) (ts : List Token) :
    NamesOf ts (operand s nested bound scope ts) := by
  refine (unary_names spells names ts).bind fun ⟨left, ts₁⟩ hunary => ?_
  obtain ⟨used, rfl, -⟩ := unary_spelled spells hunary
  exact (chain_names spells names bound left ts₁).behind used

theorem whole_names (ts : List Token) : NamesOf ts (whole s nested scope ts) := by
  refine (operand_names spells names _ ts).bind fun ⟨condition, ts₁⟩ hcondition => ?_
  obtain ⟨used, rfl, -⟩ := operand_spelled spells hcondition
  refine .behind ?_ used
  dsimp only
  split
  · refine .tail <| (names _ _ _ _).bind fun ⟨thenBranch, ts₂⟩ hthen => ?_
    obtain ⟨used, rfl, -⟩ := spells.whole hthen
    refine .behind ((expect_names _ _).bind fun ts₃ hcolon => ?_) used
    obtain ⟨colon, rfl⟩ := expect_eq_ok.mp hcolon
    refine .tail <| (names _ _ _ _).bind fun _ _ => ?_
    exact (node_names _ _ _ _ _).bind fun _ _ => namesOf_ok _
  · exact namesOf_ok _

end Readers

theorem parseAt_names (s : Setting) (room : Nat) : (parseAt s room).Names := by
  induction room with
  | zero => nofun
  | succ room ih =>
    intro position goal scope ts
    cases goal with
    | whole => exact whole_names (parseAt_spells s room) ih ts
    | operand bound => exact operand_names (parseAt_spells s room) ih bound ts

theorem parseTokens_names (s : Setting) (ts : List Token) : NamesOf ts (parseTokens s ts) := by
  refine (parseAt_names s s.limit _ _ _ ts).bind fun ⟨parsed, rest⟩ _ => ?_
  cases rest with
  | nil => exact namesOf_ok _
  | cons t rest => nofun

/-! ## Readings without and with a data source -/

/-- The setting with one more data source. -/
def Setting.registered (s : Setting) (source : DataSource) : Setting :=
  { s with catalog := s.catalog.register source }

/-- The readings are in parallel, with no position moved: a new data source is asked for only where
its name is read, and the first reading refuses it there. -/
theorem parseTokens_registered {s : Setting} {source : DataSource}
    (hnew : s.catalog.source? source.id = none) (hspace : Catalog.isNamespace source.id = false)
    (ts : List Token) :
    parseTokens (s.registered source) ts = parseTokens s ts ∨
      ∃ position, parseTokens s ts = .error (.unknownIdentifier source.id position) := by
  let excused (e : CompileError) : Prop := ∃ position, e = .unknownIdentifier source.id position
  have hcatalog (name : String) :
      (s.catalog.register source).source? name = s.catalog.source? name ∨
        LacksName excused s.catalog name := by
    rw [Catalog.source?_register]
    by_cases hname : name = source.id
    · subst hname
      exact .inr ⟨hnew, hspace, fun position => ⟨position, rfl⟩⟩
    · exact .inl (if_neg hname)
  have hs : s.Parallel id excused (s.registered source) :=
    ⟨hcatalog, rfl, Nat.le_refl _, .inl rfl⟩
  have hparallel := parseTokens_parallel hs ts
  have hsame : ts.map (Token.moved id) = ts := List.map_id ts
  rw [hsame] at hparallel
  generalize parseTokens s ts = x at hparallel ⊢
  generalize parseTokens (s.registered source) ts = y at hparallel ⊢
  cases hparallel with
  | ok parsed => exact .inl rfl
  | error e => exact .inl (congrArg Except.error e.moved_id)
  | excuse h y =>
    obtain ⟨position, rfl⟩ := h
    exact .inr ⟨position, rfl⟩

end Grammar

/-- The text does not have the name as one of its tokens. -/
def Token.Unnamed (name source : String) : Prop :=
  ∀ ts, scan source = .ok ts → ∀ t ∈ ts, t.kind ≠ .ident name

instance (name source : String) : Decidable (Token.Unnamed name source) :=
  match h : Token.scan source with
  | .error _ => .isTrue fun _ hts => nomatch h.symm.trans hts
  | .ok ts => decidable_of_iff (∀ t ∈ ts, t.kind ≠ .ident name) (by simp [Token.Unnamed, h])

namespace Compiler

theorem parse_registered (catalog : Catalog) (limit : Nat) {source : DataSource}
    (hnew : catalog.source? source.id = none) (hspace : Catalog.isNamespace source.id = false)
    (text : String) :
    parse ⟨catalog.register source, limit⟩ text = parse ⟨catalog, limit⟩ text ∨
      ∃ ts position, Token.scan text = .ok ts ∧ ⟨.ident source.id, position⟩ ∈ ts ∧
        parse ⟨catalog, limit⟩ text = .error (.unknownIdentifier source.id position) := by
  rw [parse, parse, CommissionRules.parse, CommissionRules.parse]
  cases hscan : Token.scan text with
  | error e => exact .inl rfl
  | ok ts =>
    let s : Grammar.Setting := ⟨catalog, limit, (ts.getLast?.map Token.position).getD 0⟩
    have hparse (catalog : Catalog) : parseTokens catalog limit ts =
        Grammar.parseTokens { s with catalog } ts := rfl
    rw [ok_bind, ok_bind, hparse, hparse]
    rcases Grammar.parseTokens_registered (s := s) hnew hspace ts with hsame | ⟨position, hrefused⟩
    · rw [Grammar.Setting.registered] at hsame
      exact .inl (by rw [hsame])
    · have hnamed := Grammar.parseTokens_names s ts _ _ hrefused
      exact .inr ⟨ts, position, rfl, hnamed, by rw [hrefused]; rfl⟩

/-- A data source is registered under a name that is neither a data source nor a namespace.  Every
text that is parsed without it is parsed to the same tree with it, and for a text that does not have
the name as a token the result is the same, also where it is an error. -/
theorem registration_extends (catalog : Catalog) (limit : Nat) (source : DataSource)
    (hnew : catalog.source? source.id = none) (hspace : Catalog.isNamespace source.id = false)
    (text : String) :
    (∀ e, parse ⟨catalog, limit⟩ text = .ok e →
      parse ⟨catalog.register source, limit⟩ text = .ok e) ∧
    (Token.Unnamed source.id text →
      parse ⟨catalog.register source, limit⟩ text = parse ⟨catalog, limit⟩ text) := by
  rcases parse_registered catalog limit hnew hspace text with
    hsame | ⟨ts, position, hscan, hnamed, hrefused⟩
  · exact ⟨fun e h => hsame.trans h, fun _ => hsame⟩
  · refine ⟨fun e h => ?_, fun hunnamed => ?_⟩
    · cases hrefused.symm.trans h
    · exact absurd rfl (hunnamed ts hscan _ hnamed)

/-- The targets of the sales representatives. -/
def quotas : DataSource := ⟨"quota", "Quotas", ["Amount"], .object⟩

/-- The name may be that of a parameter, of a property or of nothing; only the last is refused
without the data source. -/
theorem registration_extends_quota :
    (∃ e, parse ⟨.standard, 64⟩ "allSales.where(quota => quota.Amount > 0).count()" = .ok e ∧
      parse ⟨Catalog.standard.register quotas, 64⟩
        "allSales.where(quota => quota.Amount > 0).count()" = .ok e) ∧
    parse ⟨.standard, 64⟩ "sale.Amount > quotas" = .error (.unknownIdentifier "quotas" 14) ∧
    parse ⟨Catalog.standard.register quotas, 64⟩ "sale.Amount > quotas" =
      .error (.unknownIdentifier "quotas" 14) ∧
    parse ⟨.standard, 64⟩ "quota.Amount" = .error (.unknownIdentifier "quota" 0) ∧
    (parse ⟨Catalog.standard.register quotas, 64⟩ "quota.Amount").isOk := by
  have hnew : Catalog.standard.source? quotas.id = none := by rfl
  have hspace : Catalog.isNamespace quotas.id = false := by rfl
  have hparse : parse ⟨.standard, 64⟩ "allSales.where(quota => quota.Amount > 0).count()" =
      .ok (.method (.method (.ref "allSales" []) "where" (.lambda "quota"
        (.binary .greater (.ref "quota" ["Amount"]) (.literal (.number .zero))))) "count"
        .none) := by
    rfl
  have herror : parse ⟨.standard, 64⟩ "sale.Amount > quotas" =
      .error (.unknownIdentifier "quotas" 14) := by
    rfl
  have hunnamed : Token.Unnamed quotas.id "sale.Amount > quotas" := by decide +kernel
  have hkept := (registration_extends .standard 64 quotas hnew hspace _).1 _ hparse
  have hsame := (registration_extends .standard 64 quotas hnew hspace _).2 hunnamed
  exact ⟨⟨_, hparse, hkept⟩, herror, hsame.trans herror, rfl, rfl⟩

end Compiler

end CommissionRules
