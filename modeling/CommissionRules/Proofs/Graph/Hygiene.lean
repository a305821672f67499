import Mathlib.Control.Monad.Basic
import CommissionRules.Proofs.Grammar.Enclosure
import CommissionRules.Proofs.Graph.Dispatch
import CommissionRules.Proofs.Graph.Terms
import CommissionRules.Proofs.Validation

/-!
# Conditions that stay apart

The texts of the conditions of a rule group are put into parentheses and joined.  A text whose own
parentheses do not match may close the one in front of it, and the condition of the group is
accepted where the text is not: `RuleGraph.accepts_folded_unmatched`.  Nothing else goes wrong:
where the parentheses of every text match, a compiler that accepts the condition of the group
accepts every text on its own, and only there: `RuleGraph.accepts_folded_iff`.
-/

namespace CommissionRules

open Grammar

/-- The parentheses among the tokens of a text match. -/
def Matched (text : String) : Prop :=
  ∃ kinds, Token.Scanned text.toList kinds ∧ Balanced kinds

/-- The parentheses of a text match, those in strings counted as well. -/
def Closed (text : String) : Prop :=
  Matched text ∧ text.toList.count '(' = text.toList.count ')'

/-- A text that is parsed and does not hold the word that is refused. -/
def Compiler.Parses (compiler : Compiler) (text : String) : Prop :=
  (∃ e, compiler.parse text = .ok e) ∧
    Validation.containsWord "undefined".toList true text.toList = false

theorem Compiler.parse_iff_accepts {compiler : Compiler} {text : String} {kinds : List TokenKind}
    (hscan : Token.Scanned text.toList kinds) :
    (∃ e, compiler.parse text = .ok e) ↔ Accepts compiler.catalog compiler.limit kinds := by
  obtain ⟨ts, hts, rfl⟩ := Token.scan_kinds_iff.mpr hscan
  rw [accepts_iff]
  constructor
  · intro h
    obtain ⟨e, h⟩ := h
    obtain ⟨ts', parsed, hts', hparse, -⟩ := parse_eq_ok.mp h
    rw [hts] at hts'
    cases hts'
    exact ⟨parsed, hparse⟩
  · intro h
    obtain ⟨parsed, hparse⟩ := h
    exact ⟨parsed.expr, parse_eq_ok.mpr ⟨ts, parsed, hts, hparse, rfl⟩⟩

theorem matched_of_parse {compiler : Compiler} {text : String} {e : Expr}
    (h : compiler.parse text = .ok e) : Matched text := by
  obtain ⟨ts, parsed, hts, hparse, -⟩ := parse_eq_ok.mp h
  exact ⟨Token.kinds ts, Token.scan_kinds_iff.mp ⟨ts, hts, rfl⟩,
    (parseTokens_spelled hparse).balanced⟩

namespace Term

/-! ## Terms with one operator -/

/-- Texts in parentheses with one operator between them, those behind the first one in reverse. -/
def series (op : LogicalOp) (first : String) : List String → String
  | [] => parenthesized first
  | text :: texts => series op first texts ++ " " ++ op.symbol ++ " " ++ parenthesized text

theorem toList_parenthesized (text : String) :
    (parenthesized text).toList = '(' :: (text.toList ++ [')']) := by
  simp [parenthesized]

theorem toList_series_cons (op : LogicalOp) (first text : String) (texts : List String) :
    (series op first (text :: texts)).toList = (series op first texts).toList ++
      ' ' :: (op.symbol.toList ++ ' ' :: '(' :: (text.toList ++ [')'])) := by
  simp [series, toList_parenthesized]

section Series

variable {op : LogicalOp} {first : String} {texts : List String}

/-- The parts are the kinds of the tokens of the texts. -/
theorem scanned_series (hfirst : Matched first) (hmatched : ∀ text ∈ texts, Matched text) :
    ∃ kinds parts, Token.Scanned (series op first texts).toList
        (enclosed kinds ++ joinedBy op parts) ∧
      (∀ part ∈ kinds :: parts, Balanced part) ∧ Token.Scanned first.toList kinds ∧
      ∀ text ∈ texts, ∃ part ∈ parts, Token.Scanned text.toList part := by
  induction texts with
  | nil =>
    obtain ⟨kinds, hscan, balanced⟩ := hfirst
    refine ⟨kinds, [], ?_, by simpa using balanced, hscan, nofun⟩
    rw [series, toList_parenthesized, joinedBy, List.flatMap_nil, List.append_nil]
    exact hscan.parenthesized
  | cons text texts ih =>
    obtain ⟨kinds, parts, hscan, balanced, hkinds, hparts⟩ :=
      ih fun text hmem => hmatched text (List.mem_cons_of_mem _ hmem)
    obtain ⟨part, htext, hpart⟩ := hmatched text List.mem_cons_self
    refine ⟨kinds, parts ++ [part], ?_, fun part' hmem => ?_, hkinds, fun text' hmem => ?_⟩
    · have hjoined : enclosed kinds ++ joinedBy op (parts ++ [part]) =
          (enclosed kinds ++ joinedBy op parts) ++
            .operator (.connective (.logical op)) :: enclosed part := by
        simp [joinedBy]
      rw [hjoined, toList_series_cons]
      exact hscan.logical op htext.parenthesized
    · rw [← List.cons_append, List.mem_append, List.mem_singleton] at hmem
      rcases hmem with hmem | rfl
      · exact balanced part' hmem
      · exact hpart
    · rcases List.mem_cons.mp hmem with rfl | hmem
      · exact ⟨part, List.mem_append_right _ List.mem_cons_self, htext⟩
      · obtain ⟨part', hmem', hscan'⟩ := hparts text' hmem
        exact ⟨part', List.mem_append_left _ hmem', hscan'⟩

theorem series_encloses {text : String} (hmem : text ∈ first :: texts) :
    ∃ before after, (series op first texts).toList =
      before ++ '(' :: (text.toList ++ ')' :: after) := by
  induction texts with
  | nil =>
    obtain rfl := List.mem_singleton.mp hmem
    exact ⟨[], [], toList_parenthesized text⟩
  | cons last texts ih =>
    rw [toList_series_cons]
    by_cases hlast : text = last
    · subst hlast
      exact ⟨(series op first texts).toList ++ ' ' :: (op.symbol.toList ++ [' ']), [], by simp⟩
    · obtain ⟨before, after, heq⟩ := ih (by simpa [hlast] using hmem)
      rw [heq]
      exact ⟨before, after ++ ' ' :: (op.symbol.toList ++ ' ' :: '(' :: (last.toList ++ [')'])),
        by simp⟩

theorem series_matched (hmatched : ∀ text ∈ first :: texts, Matched text) :
    Matched (series op first texts) := by
  obtain ⟨hfirst, hmatched⟩ := List.forall_mem_cons.mp hmatched
  obtain ⟨kinds, parts, hscan, balanced, -⟩ := @scanned_series op _ _ hfirst hmatched
  obtain ⟨hkinds, hparts⟩ := List.forall_mem_cons.mp balanced
  exact ⟨_, hscan, .append (.group hkinds) (balanced_joinedBy hparts)⟩

theorem parses_of_series {compiler : Compiler} (hmatched : ∀ text ∈ first :: texts, Matched text)
    (h : compiler.Parses (series op first texts)) :
    ∀ text ∈ first :: texts, compiler.Parses text := by
  obtain ⟨hfirst, hothers⟩ := List.forall_mem_cons.mp hmatched
  obtain ⟨kinds, parts, hscan, balanced, hkinds, hparts⟩ := scanned_series hfirst hothers
  have haccepts := accepts_of_joined balanced ((Compiler.parse_iff_accepts hscan).mp h.1)
  intro text hmem
  obtain ⟨part, hpart, htext⟩ : ∃ part ∈ kinds :: parts, Token.Scanned text.toList part := by
    rcases List.mem_cons.mp hmem with rfl | hmem
    · exact ⟨kinds, List.mem_cons_self, hkinds⟩
    · obtain ⟨part, hpart, htext⟩ := hparts text hmem
      exact ⟨part, List.mem_cons_of_mem _ hpart, htext⟩
  refine ⟨(Compiler.parse_iff_accepts htext).mpr (haccepts part hpart), ?_⟩
  obtain ⟨before, after, heq⟩ := @series_encloses op _ _ _ hmem
  refine Bool.eq_false_iff.mpr fun hinside => ?_
  have hword := h.2
  rw [heq, Validation.containsWord_enclosed hinside] at hword
  cases hword

end Series

/-! ## The condition of a group -/

/-- The terms of a group are a series, in which what comes before a change of the operator stands
as one text. -/
theorem Led.exists_series {compiler : Compiler} {terms : List Term} (h : Led terms)
    (hne : terms ≠ []) (hmatched : ∀ term ∈ terms, Matched term.text) : ∃ op first texts,
      joinTo "" none terms.reverse = Term.series op first texts ∧
      (lastOperator none terms.reverse = some op ∨
        lastOperator none terms.reverse = none ∧ texts = []) ∧
      (∀ text ∈ first :: texts, Matched text) ∧
      ((∀ text ∈ first :: texts, compiler.Parses text) →
        ∀ term ∈ terms, compiler.Parses term.text) := by
  induction h with
  | nil => exact absurd rfl hne
  | first text =>
    refine ⟨.and, text, [], rfl, .inr ⟨rfl, rfl⟩, ?_, ?_⟩
    · simpa using hmatched
    · simp
  | @next terms op text before hterms ih =>
    obtain ⟨htext, hbefore⟩ := List.forall_mem_cons.mp hmatched
    obtain ⟨op', first, texts, hjoined, hlast, hparts, hparses⟩ := ih hterms hbefore
    rw [lastOperator_reverse_cons, List.reverse_cons, joinTo_append, hjoined]
    by_cases hsame : lastOperator none terms.reverse = some op' ∧ op' ≠ op
    · obtain ⟨hprevious, hchanges⟩ := hsame
      refine ⟨op, Term.series op' first texts, [text], ?_, .inl rfl, ?_, ?_⟩
      · simp [joinTo, hprevious, hchanges, Term.series]
      · simpa using ⟨series_matched hparts, htext⟩
      · intro h
        obtain ⟨hseries, hlater⟩ := List.forall_mem_cons.mp h
        refine List.forall_mem_cons.mpr ⟨hlater text List.mem_cons_self, ?_⟩
        exact hparses (parses_of_series hparts hseries)
    · obtain ⟨hseries, hprevious⟩ : Term.series op' first texts = Term.series op first texts ∧
          (lastOperator none terms.reverse = some op ∨
            lastOperator none terms.reverse = none) := by
        rcases hlast with hlast | ⟨hlast, rfl⟩
        · have heq : op' = op := Decidable.not_not.mp fun hne => hsame ⟨hlast, hne⟩
          subst heq
          exact ⟨rfl, .inl hlast⟩
        · exact ⟨rfl, .inr hlast⟩
      have hplain : joinTo (Term.series op first texts) (lastOperator none terms.reverse)
          [⟨some op, text⟩] = Term.series op first (text :: texts) := by
        rcases hprevious with hprevious | hprevious <;> simp [joinTo, hprevious, Term.series]
      obtain ⟨hfirst, hothers⟩ := List.forall_mem_cons.mp hparts
      rw [hseries, hplain]
      refine ⟨op, first, text :: texts, rfl, .inl rfl, ?_, fun h => ?_⟩
      · exact List.forall_mem_cons.mpr ⟨hfirst, List.forall_mem_cons.mpr ⟨htext, hothers⟩⟩
      · obtain ⟨hfirst', h⟩ := List.forall_mem_cons.mp h
        obtain ⟨htext', hothers'⟩ := List.forall_mem_cons.mp h
        refine List.forall_mem_cons.mpr ⟨htext', hparses ?_⟩
        exact List.forall_mem_cons.mpr ⟨hfirst', hothers'⟩

theorem Led.join_matched {terms : List Term} (h : Led terms)
    (hmatched : ∀ term ∈ terms, Matched term.text) : Matched (join terms.reverse) := by
  cases h with
  | nil => exact ⟨[.bool true], @Token.Scanned.token 0 _ ['t', 'r', 'u', 'e'] [] _ [] rfl .nil,
      .token nofun nofun⟩
  | first text => simpa [join] using hmatched
  | next op text before hne =>
    obtain ⟨op', first, texts, hjoined, -, hparts, -⟩ :=
      @Led.exists_series .standard _ (before.next op text hne) (List.cons_ne_nil _ _) hmatched
    rw [join_reverse_cons _ hne, hjoined]
    exact series_matched hparts

/-- Where the condition of a group is parsed, each of its terms is, if their parentheses match. -/
theorem Led.parses_of_join {compiler : Compiler} {terms : List Term} (h : Led terms)
    (hmatched : ∀ term ∈ terms, Matched term.text)
    (hparses : compiler.Parses (join terms.reverse)) :
    ∀ term ∈ terms, compiler.Parses term.text := by
  cases h with
  | nil => nofun
  | first text => simpa [join] using hparses
  | next op text before hne =>
    obtain ⟨op', first, texts, hjoined, -, hparts, hterms⟩ :=
      @Led.exists_series compiler _ (before.next op text hne) (List.cons_ne_nil _ _) hmatched
    rw [join_reverse_cons _ hne, hjoined] at hparses
    exact hterms (parses_of_series hparts hparses)

end Term

namespace RuleGraph

variable {g : RuleGraph}

/-- The conditions that are folded into the condition of a rule group: those among its children and,
on and on, among the children of the rule groups there. -/
inductive Folded (g : RuleGraph) : (group node : Node) → Prop
  | child {group node : Node} (hmem : node ∈ g.childNodes group.id)
      (htype : node.type = .condition) : Folded g group node
  | nested {group inner node : Node} (hmem : inner ∈ g.childNodes group.id)
      (htype : inner.type = .ruleGroup) (below : Folded g inner node) : Folded g group node

/-- A group with a condition that is empty is not folded. -/
theorem Folded.expression_nonempty {group node : Node} (h : g.Folded group node) {fuel : Nat}
    {actions actions' : List ActionDefinition} {text : String}
    (hfold : g.foldGroup fuel group actions = .ok (text, actions')) :
    node.expression.isEmpty = false := by
  induction h generalizing fuel actions actions' text with
  | child hmem htype =>
    cases fuel with
    | zero => cases hfold
    | succ fuel =>
      obtain ⟨terms, -, -, -, hadds⟩ := foldGroup_terms hfold
      obtain ⟨term, -, hadd⟩ := hadds _ hmem (.inl htype)
      exact (hadd.of_condition htype).2
  | nested hmem htype _ ih =>
    cases fuel with
    | zero => cases hfold
    | succ fuel =>
      obtain ⟨terms, -, -, -, hadds⟩ := foldGroup_terms hfold
      obtain ⟨term, -, hadd⟩ := hadds _ hmem (.inr htype)
      obtain ⟨_, inner, _, hinner, -⟩ := hadd.of_group htype
      exact ih hinner

theorem matched_parenthesized {text : String} (h : Matched text) :
    Matched (Term.parenthesized text) :=
  @Term.series_matched .and text [] (by simpa using h)

theorem Adds.matched {nested : Node → List ActionDefinition →
      Except AssemblyError (String × List ActionDefinition)} {group child : Node} {text : String}
    (h : Adds nested child text) (hchild : child ∈ g.childNodes group.id)
    (hmatched : ∀ node, g.Folded group node → Matched node.expression)
    (hnested : ∀ {child actions actions' inner}, nested child actions = .ok (inner, actions') →
      (∀ node, g.Folded child node → Matched node.expression) → Matched inner) :
    Matched text := by
  cases h with
  | condition htype => exact hmatched child (.child hchild htype)
  | group htype hinner =>
    have hbelow := fun node hfolded => hmatched node (.nested hchild htype hfolded)
    exact matched_parenthesized (hnested hinner hbelow)

/-- The induction is on the fuel, which bounds the nesting of groups. -/
theorem foldGroup_matched {fuel : Nat} {group : Node} {actions actions' : List ActionDefinition}
    {text : String} (hfold : g.foldGroup fuel group actions = .ok (text, actions'))
    (hmatched : ∀ node, g.Folded group node → Matched node.expression) : Matched text := by
  induction fuel generalizing group actions actions' text with
  | zero => cases hfold
  | succ fuel ih =>
    obtain ⟨terms, hled, rfl, hsource, -⟩ := foldGroup_terms hfold
    refine hled.join_matched fun term hterm => ?_
    obtain ⟨child, hchild, hadd⟩ := hsource term hterm
    exact hadd.matched hchild hmatched ih

/-- Where the condition of a group is parsed, each of its terms is, if the parentheses of every
condition in it match. -/
theorem parses_terms {compiler : Compiler} {fuel : Nat} {group : Node}
    {actions actions' : List ActionDefinition} {text : String}
    (hfold : g.foldGroup (fuel + 1) group actions = .ok (text, actions'))
    (hmatched : ∀ node, g.Folded group node → Matched node.expression)
    (hparses : compiler.Parses text) : ∀ child ∈ g.childNodes group.id,
      child.type = .condition ∨ child.type = .ruleGroup →
        ∃ text', Adds (g.foldGroup fuel) child text' ∧ compiler.Parses text' := by
  obtain ⟨terms, hled, rfl, hsource, hadds⟩ := foldGroup_terms hfold
  have hterms : ∀ term ∈ terms, Matched term.text := by
    intro term hterm
    obtain ⟨child, hchild, hadd⟩ := hsource term hterm
    exact hadd.matched hchild hmatched foldGroup_matched
  intro child hchild htype
  obtain ⟨term, hterm, hadd⟩ := hadds child hchild htype
  exact ⟨term.text, hadd, hled.parses_of_join hterms hparses term hterm⟩

/-- The induction is on the way from the group down to the condition. -/
theorem Folded.parses {compiler : Compiler} {group node : Node} (h : g.Folded group node)
    {fuel : Nat} {actions actions' : List ActionDefinition} {text : String}
    (hfold : g.foldGroup fuel group actions = .ok (text, actions'))
    (hmatched : ∀ node, g.Folded group node → Matched node.expression)
    (hparses : compiler.Parses text) : compiler.Parses node.expression := by
  induction h generalizing fuel actions actions' text with
  | child hmem htype =>
    cases fuel with
    | zero => cases hfold
    | succ fuel =>
      obtain ⟨text', hadd, hparses'⟩ := parses_terms hfold hmatched hparses _ hmem (.inl htype)
      rwa [(hadd.of_condition htype).1] at hparses'
  | nested hmem htype _ ih =>
    cases fuel with
    | zero => cases hfold
    | succ fuel =>
      obtain ⟨text', hadd, hparses'⟩ := parses_terms hfold hmatched hparses _ hmem (.inr htype)
      obtain ⟨_, inner, _, hinner, rfl⟩ := hadd.of_group htype
      have hbelow := fun node hfolded => hmatched node (.nested hmem htype hfolded)
      have hone : ∀ text ∈ [inner], Matched text := by
        simpa using foldGroup_matched hinner hbelow
      have hseries : compiler.Parses (Term.series .and inner []) := hparses'
      exact ih hinner hbelow (Term.parses_of_series hone hseries inner List.mem_cons_self)

/-- Where a compiler accepts the condition of a rule group, it accepts the text of each condition
that was folded into it, exactly if the parentheses of each of these texts match. -/
theorem accepts_folded_iff {compiler : Compiler} {id : String} {group : Node}
    {rule : RuleDefinition} {compiled : CompiledExpression} (hgroup : g.node? id = some group)
    (hassemble : g.assemble id = .ok rule)
    (hcompile : compiler.compile rule.condition = .ok compiled) :
    (∀ node, g.Folded group node → ∃ compiled, compiler.compile node.expression = .ok compiled) ↔
      ∀ node, g.Folded group node → Closed node.expression := by
  obtain ⟨group', fuel, actions, hgroup', hfold⟩ := foldGroup_of_assemble hassemble
  rw [hgroup, Option.some.injEq] at hgroup'
  subst hgroup'
  obtain ⟨-, -, hword, hparse⟩ := Compiler.exists_compile_iff.mp ⟨compiled, hcompile⟩
  constructor
  · intro h node hfolded
    obtain ⟨-, hcount, -, e, hown⟩ := Compiler.exists_compile_iff.mp (h node hfolded)
    exact ⟨matched_of_parse hown, hcount⟩
  · intro h node hfolded
    have hmatched : ∀ node, g.Folded group node → Matched node.expression :=
      fun node hfolded => (h node hfolded).1
    obtain ⟨hown, hrefused⟩ := hfolded.parses hfold hmatched ⟨hparse, hword⟩
    have hne : node.expression ≠ "" := by
      intro hempty
      have hnonempty := hfolded.expression_nonempty hfold
      rw [hempty] at hnonempty
      cases hnonempty
    exact Compiler.exists_compile_iff.mpr
      ⟨Text.isBlankText_trim hne, (h node hfolded).2, hrefused, hown⟩

/-- A rule group with two conditions. -/
def twoConditions (first second : String) : RuleGraph :=
  (empty .standard).run [(1, .create .ruleGroup none), (1, .create .condition none),
    (2, .create .condition none),
    (2, .update "condition-1" (.obj [("expression", .str first)])),
    (2, .update "condition-2" (.obj [("expression", .str second)]))]

theorem accepts_folded_matched : ∃ group rule,
    (twoConditions "(true || false)" "!true").node? "ruleGroup-1" = some group ∧
      (twoConditions "(true || false)" "!true").assemble "ruleGroup-1" = .ok rule ∧
      (∃ compiled, Compiler.standard.compile rule.condition = .ok compiled) ∧
      ∀ node, (twoConditions "(true || false)" "!true").Folded group node →
        Closed node.expression := by
  have hgroup : ((twoConditions "(true || false)" "!true").node? "ruleGroup-1").map Node.id =
      some "ruleGroup-1" := by decide +kernel
  have hrule : (twoConditions "(true || false)" "!true").assemble "ruleGroup-1" =
      .ok ⟨"ruleGroup-1", "Rule 1", "((true || false)) && (!true)", []⟩ := by decide +kernel
  have hcompile : (Compiler.standard.compile "((true || false)) && (!true)").isOk := by
    decide +kernel
  have hchildren : ∀ node ∈ (twoConditions "(true || false)" "!true").childNodes "ruleGroup-1",
      node.type ≠ .ruleGroup ∧
        (node.type = .condition → (Compiler.standard.compile node.expression).isOk) := by
    decide +kernel
  obtain ⟨group, hgroup, hid⟩ := Option.map_eq_some_iff.mp hgroup
  obtain ⟨compiled, hcompiled⟩ := isOk_eq_true.mp hcompile
  refine ⟨group, _, hgroup, hrule, ⟨compiled, hcompiled⟩, ?_⟩
  refine (accepts_folded_iff hgroup hrule hcompiled).mp fun node hfolded => ?_
  cases hfolded with
  | child hmem htype => exact isOk_eq_true.mp ((hchildren node (hid ▸ hmem)).2 htype)
  | nested hmem htype _ => exact absurd htype (hchildren _ (hid ▸ hmem)).1

/-- The text of the first condition closes the parenthesis in front of it and opens the one behind
it: alone it is refused. -/
theorem accepts_folded_unmatched : ∃ group rule node,
    (twoConditions "true) || (true" "false").node? "ruleGroup-1" = some group ∧
      (twoConditions "true) || (true" "false").assemble "ruleGroup-1" = .ok rule ∧
      (∃ compiled, Compiler.standard.compile rule.condition = .ok compiled) ∧
      (twoConditions "true) || (true" "false").Folded group node ∧
      ¬ ∃ compiled, Compiler.standard.compile node.expression = .ok compiled := by
  have hgroup : ((twoConditions "true) || (true" "false").node? "ruleGroup-1").map Node.id =
      some "ruleGroup-1" := by decide +kernel
  have hrule : (twoConditions "true) || (true" "false").assemble "ruleGroup-1" =
      .ok ⟨"ruleGroup-1", "Rule 1", "(true) || (true) && (false)", []⟩ := by decide +kernel
  have hcompile : (Compiler.standard.compile "(true) || (true) && (false)").isOk := by
    decide +kernel
  have hnode : ∃ node ∈ (twoConditions "true) || (true" "false").childNodes "ruleGroup-1",
      node.type = .condition ∧ ¬ (Compiler.standard.compile node.expression).isOk := by
    decide +kernel
  obtain ⟨group, hgroup, hid⟩ := Option.map_eq_some_iff.mp hgroup
  obtain ⟨node, hmem, htype, herror⟩ := hnode
  exact ⟨group, _, node, hgroup, hrule, isOk_eq_true.mp hcompile, .child (hid ▸ hmem) htype,
    fun h => herror (isOk_eq_true.mpr h)⟩

end RuleGraph

end CommissionRules
