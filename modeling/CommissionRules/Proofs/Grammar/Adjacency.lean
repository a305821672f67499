import Mathlib.Data.List.Chain
import CommissionRules.Proofs.Grammar.Spelling

/-!
# Neighbours among tokens

What stands next to what in tokens that are read as an expression.  Only behind the end of an
operand stands a token that starts with an equals sign, and no point stands behind a number
(`Grammar.Spelled.phrase`).  So the characters of such a text can be cut into the same tokens by
something that knows less of them than the scanner does.
-/

namespace CommissionRules

namespace TokenKind

/-- Holds of the tokens whose text starts with an equals sign. -/
def startsEqual : TokenKind → Bool
  | arrow | operator (.connective (.binary .looseEqual))
  | operator (.connective (.binary .strictEqual)) => true
  | _ => false

/-- Holds of the tokens that an operand may end with. -/
def endsOperand : TokenKind → Bool
  | number _ | str _ | bool _ | null | ident _ | closeParen => true
  | _ => false

/-- Holds of the tokens that may stand behind any other. -/
def FollowsAny (kind : TokenKind) : Prop := kind.startsEqual = false ∧ kind ≠ dot

end TokenKind

namespace Grammar

/-- What holds of a token and the one behind it. -/
structure Adjoins (kind next : TokenKind) : Prop where
  operand : next.startsEqual = true → kind.endsOperand = true
  point : next = .dot → ∀ n, kind ≠ .number n

theorem adjoins_of_followsAny (kind : TokenKind) {next : TokenKind} (h : next.FollowsAny) :
    Adjoins kind next where
  operand hequal := absurd (h.1.symm.trans hequal) Bool.false_ne_true
  point hdot := absurd hdot h.2

theorem adjoins_of_endsOperand {kind next : TokenKind} (h : kind.endsOperand = true)
    (hdot : next ≠ .dot) : Adjoins kind next where
  operand _ := h
  point heq := absurd heq hdot

/-- Tokens that fit beside each other, from one that may stand anywhere to the end of an operand. -/
structure Phrase (kinds : List TokenKind) : Prop where
  ne_nil : kinds ≠ []
  first : ∀ kind ∈ kinds.head?, kind.FollowsAny
  last : ∀ kind ∈ kinds.getLast?, kind.endsOperand = true
  chain : kinds.IsChain Adjoins

namespace Phrase

variable {kind : TokenKind} {kinds kinds' : List TokenKind}

theorem single (hfirst : kind.FollowsAny) (hlast : kind.endsOperand = true) : Phrase [kind] where
  ne_nil := List.cons_ne_nil _ _
  first := by simpa using hfirst
  last := by simpa using hlast
  chain := List.isChain_singleton kind

theorem ident (name : String) : Phrase [.ident name] := single ⟨rfl, nofun⟩ rfl

/-- A token with a phrase on either side.  What it fits behind is the end of the first one. -/
theorem join (h : Phrase kinds) (hkind : ∀ before ∈ kinds.getLast?, Adjoins before kind)
    (h' : Phrase kinds') : Phrase (kinds ++ kind :: kinds') where
  ne_nil := by simp
  first := by
    rw [List.head?_append_of_ne_nil _ h.ne_nil]
    exact h.first
  last := by
    have hlast : (kind :: kinds').getLast? = kinds'.getLast? :=
      List.getLast?_append_of_ne_nil [kind] h'.ne_nil
    rw [List.getLast?_append_of_ne_nil _ (List.cons_ne_nil _ _), hlast]
    exact h'.last
  chain := by
    refine List.isChain_append.mpr ⟨h.chain, List.isChain_cons.mpr ⟨?_, h'.chain⟩, ?_⟩
    · exact fun next hnext => adjoins_of_followsAny kind (h'.first next hnext)
    · intro before hbefore next hnext
      cases hnext
      exact hkind before hbefore

/-- Between operands may stand all but a point. -/
theorem operator (h : Phrase kinds) (hkind : kind ≠ .dot) (h' : Phrase kinds') :
    Phrase (kinds ++ kind :: kinds') :=
  h.join (fun before hbefore => adjoins_of_endsOperand (h.last before hbefore) hkind) h'

theorem cons (hkind : kind.FollowsAny) (h : Phrase kinds) : Phrase (kind :: kinds) where
  ne_nil := List.cons_ne_nil _ _
  first := by simpa using hkind
  last := by
    have hlast : (kind :: kinds).getLast? = kinds.getLast? :=
      List.getLast?_append_of_ne_nil [kind] h.ne_nil
    rw [hlast]
    exact h.last
  chain := List.isChain_cons.mpr
    ⟨fun next hnext => adjoins_of_followsAny kind (h.first next hnext), h.chain⟩

theorem parenthesized (h : kinds = [] ∨ Phrase kinds) :
    Phrase (.openParen :: (kinds ++ [.closeParen])) := by
  have hclose : Phrase [.closeParen] := single ⟨rfl, nofun⟩ rfl
  rcases h with rfl | h
  · exact cons ⟨rfl, nofun⟩ hclose
  · refine cons ⟨rfl, nofun⟩ ⟨by simp, ?_, by simp [TokenKind.endsOperand], ?_⟩
    · rw [List.head?_append_of_ne_nil _ h.ne_nil]
      exact h.first
    · refine List.isChain_append.mpr ⟨h.chain, hclose.chain, fun before _ next hnext => ?_⟩
      exact adjoins_of_followsAny before (hclose.first next hnext)

theorem listed {parts : List (List TokenKind)} (h : ∀ part ∈ parts, Phrase part) :
    Grammar.listed parts = [] ∨ Phrase (Grammar.listed parts) := by
  induction parts with
  | nil => exact .inl rfl
  | cons part parts ih =>
    obtain ⟨hpart, hparts⟩ := List.forall_mem_cons.mp h
    cases parts with
    | nil => exact .inr hpart
    | cons next parts =>
      have hnext : Grammar.listed (next :: parts) ≠ [] := by
        cases parts with
        | nil => exact (hparts next List.mem_cons_self).ne_nil
        | cons => simp [Grammar.listed]
      exact .inr (hpart.operator TokenKind.noConfusion ((ih hparts).resolve_left hnext))

end Phrase

section Spelled

variable {s : Setting} {bound : Nat} {scope : Scope} {parsed : Parsed} {kinds : List TokenKind}

/-- A receiver that ends with a number is this number. -/
theorem Spelled.shape_of_number (h : Spelled s 0 scope parsed kinds) {n : Number}
    (hlast : .number n ∈ kinds.getLast?) : parsed.shape = .scalar := by
  generalize hbound : 0 = bound at h
  induction h with
  | number => rfl
  | text | bool | null | parameter | source => cases hlast
  | group | call | path | member | plainMethod | valueMethod | lambdaMethod =>
    simp [List.getLast?_cons] at hlast
  | unary op => cases op <;> cases hbound
  | connective c =>
    have := c.one_lt_precedence
    omega
  | conditional => cases hbound
  | loosen tighter le ih => exact ih hlast (by omega)

/-- A point behind a receiver fits, as a scalar has no properties and no methods. -/
theorem Spelled.point (h : Spelled s 0 scope parsed kinds) (hshape : parsed.shape ≠ .scalar) :
    ∀ before ∈ kinds.getLast?, Adjoins before .dot := by
  intro before hbefore
  refine ⟨nofun, fun _ n hnumber => ?_⟩
  subst hnumber
  exact hshape (h.shape_of_number hbefore)

theorem Spelled.phrase (h : Spelled s bound scope parsed kinds) : Phrase kinds := by
  have unscaled {shape : Shape} {name : String} (h : shape.Admits name) : shape ≠ .scalar := by
    rintro rfl
    exact h
  have elements {shape : Shape} {element : Option KnownProperties}
      (h : shape.items? = some element) : shape ≠ .scalar := by
    rintro rfl
    cases h
  have named (name : String) {kinds : List TokenKind} (h : kinds = [] ∨ Phrase kinds) :
      Phrase (.ident name :: .openParen :: (kinds ++ [.closeParen])) :=
    .cons ⟨rfl, nofun⟩ (.parenthesized h)
  induction h with
  | number | text | bool | null => exact .single ⟨rfl, nofun⟩ rfl
  | parameter | source => exact .ident _
  | group _ ih => exact .parenthesized (.inr ih)
  | @call scope space name spec parts _ _ _ _ _ _ _ ih =>
    have hparts := Phrase.listed (List.forall_mem_map.mpr ih)
    exact (Phrase.ident space).join (by simpa using ⟨nofun, nofun⟩) (named name hparts)
  | @path _ _ _ _ _ name _ receiver admits _ ih =>
    exact ih.join (receiver.point (unscaled admits)) (.ident name)
  | @member _ _ name _ target _ admits _ ih =>
    exact ih.join (target.point (unscaled admits)) (.ident name)
  | @plainMethod _ _ name _ _ _ target _ _ items _ ih =>
    exact ih.join (target.point (elements items)) (named name (.inl rfl))
  | @valueMethod _ _ _ name _ _ _ _ target _ _ _ items _ ih ihArgument =>
    exact ih.join (target.point (elements items)) (named name (.inr ihArgument))
  | @lambdaMethod _ _ param _ name _ _ _ kinds' target _ _ _ items _ ih ihFunction =>
    have hlambda : Phrase ([.ident param] ++ .arrow :: kinds') :=
      (Phrase.ident param).operator nofun ihFunction
    exact ih.join (target.point (elements items)) (named name (.inr hlambda))
  | unary op _ _ ih => exact .cons (by cases op <;> exact ⟨rfl, nofun⟩) ih
  | connective c _ _ _ ihLeft ihRight => exact ihLeft.operator nofun ihRight
  | conditional _ _ _ _ ih ihMiddle ihRight =>
    exact ih.operator nofun (ihMiddle.operator nofun ihRight)
  | loosen _ _ ih => exact ih

end Spelled

end Grammar

end CommissionRules
