import Mathlib.Logic.Relation
import CommissionRules.Proofs.Grammar.Printing

/-!
# Grouping

What is read and what is printed differ by pairs of parentheses around parts of an expression, and
by nothing else (`parseTokens_drops_to_print`).  `DropsGroup` takes away one such pair; the
parentheses of a call stand behind a name and are not one.
-/

namespace CommissionRules

namespace Grammar

/-- Sequences whose parentheses match. -/
inductive Balanced : List TokenKind → Prop
  | nil : Balanced []
  | token {kind} (isOpen : kind ≠ .openParen) (isClose : kind ≠ .closeParen) : Balanced [kind]
  | group {kinds} (inner : Balanced kinds) : Balanced (.openParen :: (kinds ++ [.closeParen]))
  | append {kinds kinds'} (left : Balanced kinds) (right : Balanced kinds') :
      Balanced (kinds ++ kinds')

/-- Holds of what may stand before a parenthesis that groups.  Behind a name stands the parenthesis
of a call. -/
def Opens (kinds : List TokenKind) : Prop := ∀ name, kinds.getLast? ≠ some (.ident name)

/-- One pair of matching parentheses that group is taken away. -/
inductive DropsGroup : List TokenKind → List TokenKind → Prop
  | intro {before inside after} (opens : Opens before) (balanced : Balanced inside) :
      DropsGroup (before ++ .openParen :: (inside ++ .closeParen :: after))
        (before ++ (inside ++ after))

/-- Some pairs of matching parentheses that group are taken away, one after the other. -/
abbrev DropsGroups : List TokenKind → List TokenKind → Prop := Relation.ReflTransGen DropsGroup

/-! ## Matching parentheses -/

theorem Balanced.cons {kind : TokenKind} {kinds : List TokenKind} (isOpen : kind ≠ .openParen)
    (isClose : kind ≠ .closeParen) (h : Balanced kinds) : Balanced (kind :: kinds) :=
  .append (.token isOpen isClose) h

theorem Balanced.behindName {name : String} {kinds : List TokenKind} (h : Balanced kinds) :
    Balanced (.dot :: .ident name :: kinds) :=
  .cons nofun nofun (.cons nofun nofun h)

theorem balanced_listed {parts : List (List TokenKind)} (h : ∀ part ∈ parts, Balanced part) :
    Balanced (listed parts) := by
  induction parts with
  | nil => exact .nil
  | cons part parts ih =>
    have hpart : Balanced part := h part List.mem_cons_self
    have hparts : Balanced (listed parts) :=
      ih fun part hpart => h part (List.mem_cons_of_mem _ hpart)
    cases parts with
    | nil => exact hpart
    | cons next parts => exact .append hpart (.cons nofun nofun hparts)

theorem Spelled.balanced {s : Setting} {bound : Nat} {scope : Scope} {parsed : Parsed}
    {kinds : List TokenKind} (h : Spelled s bound scope parsed kinds) : Balanced kinds := by
  induction h with
  | number | text | bool | null | parameter | source => exact .token nofun nofun
  | group inner ih => exact .group ih
  | @call scope space name spec parts free unknown isSpace known args arity height ih =>
    have hlisted : Balanced (listed (parts.map (·.2))) :=
      balanced_listed (List.forall_mem_map.mpr ih)
    exact .cons nofun nofun (.behindName (.group hlisted))
  | path _ _ _ ih | member _ _ _ _ ih => exact .append ih (.behindName .nil)
  | plainMethod _ _ _ _ _ ih => exact .append ih (.behindName (.group .nil))
  | valueMethod _ _ _ _ _ _ ih ihArgument =>
    exact .append ih (.behindName (.group ihArgument))
  | @lambdaMethod scope receiver param body name method element kinds kinds' _ _ _ _ _ _ ih
      ihFunction =>
    have hlambda : Balanced (.ident param :: .arrow :: kinds') :=
      .cons nofun nofun (.cons nofun nofun ihFunction)
    exact .append ih (.behindName (.group hlambda))
  | unary op _ _ ih => exact .cons nofun nofun ih
  | connective c _ _ _ ihLeft ihRight => exact .append ihLeft (.cons nofun nofun ihRight)
  | conditional _ _ _ _ ih ihMiddle ihRight =>
    exact .append ih (.cons nofun nofun (.append ihMiddle (.cons nofun nofun ihRight)))
  | loosen _ _ ih => exact ih

/-- No start of matching parentheses closes more of them than it opens. -/
theorem Balanced.count_take_le {kinds : List TokenKind} (h : Balanced kinds) (n : Nat) :
    (kinds.take n).count .closeParen ≤ (kinds.take n).count .openParen := by
  induction h generalizing n with
  | nil => simp
  | token _ isClose =>
    cases n with
    | zero => simp
    | succ n => simp [isClose]
  | @group kinds inner ih =>
    cases n with
    | zero => simp
    | succ n =>
      have hinner := ih n
      have hclose : ([TokenKind.closeParen].take (n - kinds.length)).count .closeParen ≤ 1 :=
        (List.take_sublist _ _).count_le _
      rw [List.take_succ_cons, List.take_append, List.count_cons_self, List.count_append,
        List.count_cons_of_ne (by decide), List.count_append]
      omega
  | append left right ihLeft ihRight =>
    rw [List.take_append, List.count_append, List.count_append]
    exact Nat.add_le_add (ihLeft _) (ihRight _)

theorem Balanced.count_eq {kinds : List TokenKind} (h : Balanced kinds) :
    kinds.count .closeParen = kinds.count .openParen := by
  induction h with
  | nil => rfl
  | token isOpen isClose => simp [isOpen, isClose]
  | group inner ih => simp [ih]
  | append left right ihLeft ihRight => rw [List.count_append, List.count_append, ihLeft, ihRight]

/-- There is one parenthesis that matches. -/
theorem Balanced.unique {kinds kinds' rest rest' : List TokenKind} (h : Balanced kinds)
    (h' : Balanced kinds') (heq : kinds ++ .closeParen :: rest = kinds' ++ .closeParen :: rest') :
    kinds = kinds' := by
  have longer {kinds more : List TokenKind} (h : Balanced kinds)
      (h' : Balanced (kinds ++ .closeParen :: more)) : False := by
    have htake := h'.count_take_le (kinds.length + 1)
    have hcount := h.count_eq
    rw [List.take_length_add_append, List.count_append, List.count_append] at htake
    simp at htake
    omega
  rcases List.append_eq_append_iff.mp heq with ⟨more, rfl, hmore⟩ | ⟨more, rfl, hmore⟩
  · cases more with
    | nil => rw [List.append_nil]
    | cons kind more =>
      cases hmore
      exact (longer h h').elim
  · cases more with
    | nil => rw [List.append_nil]
    | cons kind more =>
      cases hmore
      exact (longer h' h).elim

/-! ## Parentheses inside something -/

theorem opens_nil : Opens [] := nofun

theorem opens_concat {kinds : List TokenKind} {kind : TokenKind}
    (h : ∀ name, kind ≠ .ident name) : Opens (kinds ++ [kind]) := by
  simpa [Opens] using h

theorem Opens.append {before inside : List TokenKind} (h : Opens before) (h' : Opens inside) :
    Opens (before ++ inside) := by
  intro name hname
  rw [List.getLast?_append, Option.or_eq_some_iff] at hname
  rcases hname with hname | ⟨-, hname⟩
  · exact h' name hname
  · exact h name hname

theorem DropsGroup.within {before kinds kinds' : List TokenKind} (h : DropsGroup kinds kinds')
    (opens : Opens before) (after : List TokenKind) :
    DropsGroup (before ++ (kinds ++ after)) (before ++ (kinds' ++ after)) := by
  cases h with
  | @intro before' inside after' opens' balanced =>
    have hdrop : DropsGroup
        (before ++ before' ++ .openParen :: (inside ++ .closeParen :: (after' ++ after)))
        (before ++ before' ++ (inside ++ (after' ++ after))) :=
      .intro (opens.append opens') balanced
    simpa using hdrop

theorem DropsGroups.within {before kinds kinds' : List TokenKind} (h : DropsGroups kinds kinds')
    (opens : Opens before) (after : List TokenKind) :
    DropsGroups (before ++ (kinds ++ after)) (before ++ (kinds' ++ after)) :=
  Relation.ReflTransGen.lift (fun kinds => before ++ (kinds ++ after))
    (fun _ _ (hdrop : DropsGroup _ _) => hdrop.within opens after) _ _ h

theorem DropsGroups.followed {kinds kinds' : List TokenKind} (h : DropsGroups kinds kinds')
    (after : List TokenKind) : DropsGroups (kinds ++ after) (kinds' ++ after) :=
  h.within opens_nil after

/-- On both sides of a token that is not a name. -/
theorem DropsGroups.join {left left' right right' : List TokenKind} {kind : TokenKind}
    (hkind : ∀ name, kind ≠ .ident name) (hleft : DropsGroups left left')
    (hright : DropsGroups right right') :
    DropsGroups (left ++ kind :: right) (left' ++ kind :: right') := by
  have first : DropsGroups (left ++ kind :: right) (left' ++ kind :: right) :=
    hleft.followed (kind :: right)
  have second : DropsGroups (left' ++ kind :: right) (left' ++ kind :: right') := by
    simpa using hright.within (opens_concat hkind) []
  exact first.trans second

theorem DropsGroups.behind {kinds kinds' : List TokenKind} {kind : TokenKind}
    (hkind : ∀ name, kind ≠ .ident name) (h : DropsGroups kinds kinds') :
    DropsGroups (kind :: kinds) (kind :: kinds') := by
  have hjoined : DropsGroups ([] ++ kind :: kinds) ([] ++ kind :: kinds') := .join hkind .refl h
  exact hjoined

theorem DropsGroups.method {receiver receiver' argument argument' : List TokenKind} {name : String}
    (hreceiver : DropsGroups receiver receiver') (hargument : DropsGroups argument argument') :
    DropsGroups (receiver ++ .dot :: .ident name :: .openParen :: (argument ++ [.closeParen]))
      (receiver' ++ .dot :: .ident name :: .openParen :: (argument' ++ [.closeParen])) := by
  have hnamed : DropsGroups (receiver ++ [.dot, .ident name]) (receiver' ++ [.dot, .ident name]) :=
    hreceiver.followed _
  have hjoined : DropsGroups
      (receiver ++ [.dot, .ident name] ++ .openParen :: (argument ++ [.closeParen]))
      (receiver' ++ [.dot, .ident name] ++ .openParen :: (argument' ++ [.closeParen])) :=
    .join nofun hnamed (hargument.followed _)
  simpa using hjoined

theorem dropsGroups_listed {parts : List (Parsed × List TokenKind)}
    (h : ∀ part ∈ parts, DropsGroups part.2 (part.1.expr.print loosest)) :
    DropsGroups (listed (parts.map (·.2))) (listed (parts.map (·.1.expr.print loosest))) := by
  induction parts with
  | nil => exact .refl
  | cons part parts ih =>
    have hpart := h part List.mem_cons_self
    have hparts := ih fun part hpart => h part (List.mem_cons_of_mem _ hpart)
    cases parts with
    | nil => exact hpart
    | cons next parts => exact .join nofun hpart hparts

/-! ## From what is read to what is printed -/

section Printing

variable {s : Setting} {scope : Scope} {parsed : Parsed} {kinds : List TokenKind}

/-- Parentheses are dropped where the bound admits what is inside them. -/
theorem Spelled.group_drops (inner : Spelled s loosest scope parsed kinds)
    (h : DropsGroups kinds (parsed.expr.print loosest)) (bound : Nat) :
    DropsGroups (.openParen :: (kinds ++ [.closeParen])) (parsed.expr.print bound) := by
  rw [Expr.print_loosest] at h
  unfold Expr.print Expr.enclose
  split
  · have hdrop : DropsGroup ([] ++ .openParen :: (kinds ++ .closeParen :: []))
        ([] ++ (kinds ++ [])) :=
      .intro opens_nil inner.balanced
    rw [List.append_nil] at hdrop
    exact h.head hdrop
  · exact .behind nofun (h.followed [.closeParen])

/-- The induction is on the spelling: what stands in each place is printed with the bound of the
place. -/
theorem Spelled.drops {bound : Nat} (h : Spelled s bound scope parsed kinds) {bound' : Nat}
    (le : bound ≤ bound') : DropsGroups kinds (parsed.expr.print bound') := by
  have bare {bound : Nat} {e : Expr} {kinds : List TokenKind} (h : DropsGroups kinds e.bare)
      (le : e.level ≤ bound) : DropsGroups kinds (e.print bound) := by
    rwa [Expr.print_of_le le]
  induction h generalizing bound' with
  | number | text | bool | null | parameter | source => exact bare .refl le
  | group inner ih => exact inner.group_drops (ih (Nat.le_refl _)) bound'
  | @call scope space name spec parts free unknown isSpace known args arity height ih =>
    refine bare ?_ le
    have hsplit := Function.splitName_append name (Catalog.point_notMem_namespace isSpace)
    have hargs : DropsGroups (listed (parts.map (·.2)))
        (listed (Expr.bareArgs (parts.map (·.1.expr)))) := by
      rw [Expr.bareArgs_eq, List.map_map]
      exact dropsGroups_listed fun part hpart => ih part hpart (Nat.le_refl _)
    have hspace : DropsGroups [.ident space] [.ident space] := .refl
    rw [Expr.bare, hsplit]
    exact hspace.method hargs
  | path receiver admits hlimit ih =>
    refine bare ?_ le
    rw [Expr.bare_ref_append]
    exact (ih (Nat.le_refl 0)).followed _
  | member target computed admits height ih => exact bare ((ih (Nat.le_refl 0)).followed _) le
  | plainMethod target known kind items height ih =>
    have hnone : DropsGroups [] [] := .refl
    exact bare ((ih (Nat.le_refl 0)).method hnone) le
  | valueMethod target argument known kind items height ih ihArgument =>
    exact bare ((ih (Nat.le_refl 0)).method (ihArgument (Nat.le_refl loosest))) le
  | @lambdaMethod scope receiver param body name method element kinds kinds' _ _ _ _ _ _ ih
      ihFunction =>
    have hparam : DropsGroups [.ident param] [.ident param] := .refl
    have hlambda : DropsGroups ([.ident param] ++ .arrow :: kinds')
        ([.ident param] ++ .arrow :: body.expr.print loosest) :=
      .join (by simp) hparam (ihFunction (Nat.le_refl loosest))
    exact bare ((ih (Nat.le_refl 0)).method hlambda) le
  | unary op right height ih => exact bare (.behind (by simp) (ih (Nat.le_refl _))) le
  | connective c left right height ihLeft ihRight =>
    refine bare ?_ (by rwa [Expr.level_apply])
    rw [Expr.bare_apply]
    exact .join (by simp) (ihLeft (Nat.le_refl _)) (ihRight (Nat.le_refl _))
  | conditional left middle right height ihLeft ihMiddle ihRight =>
    refine bare ?_ le
    exact .join (by simp) (ihLeft (Nat.le_refl _))
      (.join (by simp) (ihMiddle (Nat.le_refl _)) (ihRight (Nat.le_refl _)))
  | loosen tighter le' ih => exact ih (Nat.le_trans le' le)

end Printing

end Grammar

/-- Whatever tokens are read as an expression, it is printed as the same tokens in the same order,
without some pairs of matching parentheses that group. -/
theorem parseTokens_drops_to_print {catalog : Catalog} {limit : Nat} {ts : List Token}
    {parsed : Parsed} (h : parseTokens catalog limit ts = .ok parsed) :
    Relation.ReflTransGen Grammar.DropsGroup (Token.kinds ts) (parsed.expr.print loosest) :=
  (Grammar.parseTokens_spelled h).drops (Nat.le_refl _)

/-- Two of the three pairs of parentheses are dropped. -/
theorem parseTokens_drops_to_print_power :
    parseTokens .standard 5 powerTokens = .ok powerTree ∧
      Relation.ReflTransGen Grammar.DropsGroup (Token.kinds powerTokens)
        (Token.kinds powerPrinted) :=
  ⟨parseTokens_power, parseTokens_drops_to_print parseTokens_power⟩

end CommissionRules
