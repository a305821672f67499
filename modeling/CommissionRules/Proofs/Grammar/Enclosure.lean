import CommissionRules.Proofs.Grammar.Grouping
import CommissionRules.Proofs.Grammar.Locality
import CommissionRules.Proofs.Token.Scanning

/-!
# Enclosed expressions

Parts whose own parentheses match are put into parentheses and joined by a logical operator.  Where
the whole is accepted, each part is accepted on its own, within the same limit:
`Grammar.accepts_of_chained`.  The parentheses of a part are needed for that: they keep the
parenthesis in front of the part for the one that closes it.
-/

namespace CommissionRules

namespace Grammar

/-- Tokens of these kinds are read as an expression, wherever they stand. -/
def Accepts (catalog : Catalog) (limit : Nat) (kinds : List TokenKind) : Prop :=
  ∃ parsed, ∀ ts, Token.kinds ts = kinds →
    CommissionRules.parseTokens catalog limit ts = .ok parsed

/-- Tokens in parentheses. -/
def enclosed (kinds : List TokenKind) : List TokenKind := .openParen :: (kinds ++ [.closeParen])

/-- The parts behind the first one, each in parentheses and behind the operator. -/
def joinedBy (op : LogicalOp) (parts : List (List TokenKind)) : List TokenKind :=
  parts.flatMap fun part => .operator (.connective (.logical op)) :: enclosed part

theorem balanced_joinedBy {op : LogicalOp} {parts : List (List TokenKind)}
    (balanced : ∀ part ∈ parts, Balanced part) : Balanced (joinedBy op parts) := by
  induction parts with
  | nil => exact .nil
  | cons part parts ih =>
    have hpart : Balanced (enclosed part) := .group (balanced part List.mem_cons_self)
    have hparts := ih fun part hpart => balanced part (List.mem_cons_of_mem _ hpart)
    exact .append (.cons nofun nofun hpart) hparts

section

variable {s : Setting} {room : Nat} {rest : List Token} {parsed : Parsed}

/-- What is read with something else behind it is read alone. -/
theorem accepts_of_parseAt {position : Nat} {ts : List Token} (hroom : room ≤ s.limit)
    (h : parseAt s room position .whole [] (ts ++ rest) = .ok (parsed, rest)) :
    Accepts s.catalog s.limit (Token.kinds ts) := by
  refine ⟨parsed, fun ts' hts' => ?_⟩
  let s' : Setting := ⟨s.catalog, s.limit, (ts'.getLast?.map Token.position).getD 0⟩
  have hcarries : (parseAt s room).Carries (parseAt s' s'.limit) :=
    @parseAt_carries s s' rfl (Nat.le_refl _) _ _ hroom
  obtain ⟨used, hused, carries⟩ := hcarries h
  obtain rfl := List.append_cancel_right hused
  have halone := carries (positionOf s' ts') hts' (.nothing rest)
  rw [List.append_nil] at halone
  show parseTokens s' ts' = .ok parsed
  rw [parseTokens, halone, ok_bind]

theorem accepts_iff {catalog : Catalog} {limit : Nat} {ts : List Token} :
    Accepts catalog limit (Token.kinds ts) ↔
      ∃ parsed, CommissionRules.parseTokens catalog limit ts = .ok parsed := by
  constructor
  · intro h
    obtain ⟨parsed, h⟩ := h
    exact ⟨parsed, h ts rfl⟩
  · intro h
    obtain ⟨parsed, h⟩ := h
    obtain ⟨⟨parsed', rest⟩, hparse, h⟩ := bind_eq_ok.mp h
    dsimp only at h
    split at h
    · have hall := accepts_of_parseAt (Nat.le_refl _) (by rwa [List.append_nil])
      exact hall
    · cases h

/-- Parts whose parentheses match are read up to the parenthesis that closes them. -/
theorem unary_enclosed {scope : Scope} {ts more : List Token} {start close : Nat}
    (balanced : Balanced (Token.kinds ts)) (hends : Ends 1 more)
    (h : unary s (parseAt s room) scope
      (⟨.openParen, start⟩ :: (ts ++ ⟨.closeParen, close⟩ :: more)) = .ok (parsed, rest)) :
    rest = more ∧ ∃ position, parseAt s room position .whole scope
      (ts ++ ⟨.closeParen, close⟩ :: more) = .ok (parsed, ⟨.closeParen, close⟩ :: more) := by
  obtain ⟨⟨receiver, ts₁⟩, hprimary, htrailing⟩ := bind_eq_ok.mp h
  obtain ⟨⟨inner, ts₂⟩, hinner, hprimary⟩ := bind_eq_ok.mp hprimary
  obtain ⟨ts₃, hclose, hprimary⟩ := bind_eq_ok.mp hprimary
  obtain ⟨close', hts₂⟩ := expect_eq_ok.mp hclose
  simp only [Except.ok.injEq, Prod.mk.injEq] at hprimary
  obtain ⟨rfl, rfl⟩ := hprimary
  subst hts₂
  obtain ⟨used, hused, spelled, -⟩ := parseAt_spelled hinner
  have hkinds : Token.kinds ts = Token.kinds used := by
    have heq : Token.kinds ts ++ .closeParen :: Token.kinds more =
        Token.kinds used ++ .closeParen :: Token.kinds ts₃ := by
      simpa using congrArg Token.kinds hused
    exact balanced.unique spelled.balanced heq
  obtain ⟨rfl, htail⟩ := List.append_inj hused (Token.length_eq_of_kinds hkinds)
  cases htail
  have hstopped : trailing s (parseAt s room) scope _ inner more = .ok (parsed, rest) := htrailing
  rw [trailing_of_ends hends] at hstopped
  cases hstopped
  exact ⟨rfl, _, hinner⟩

theorem kinds_eq_enclosed_append {ts : List Token} {part kinds : List TokenKind}
    (h : Token.kinds ts = enclosed part ++ kinds) : ∃ start us close more,
      ts = ⟨.openParen, start⟩ :: (us ++ ⟨.closeParen, close⟩ :: more) ∧ Token.kinds us = part ∧
        Token.kinds more = kinds := by
  have hsplit : Token.kinds ts = .openParen :: (part ++ .closeParen :: kinds) := by
    rw [h, enclosed, List.cons_append, List.append_assoc, List.singleton_append]
  obtain ⟨start, ts₁, rfl, hts₁⟩ := Token.kinds_eq_cons.mp hsplit
  obtain ⟨us, ts₂, rfl, hus, hts₂⟩ := List.map_eq_append_iff.mp hts₁
  obtain ⟨close, more, rfl, hmore⟩ := Token.kinds_eq_cons.mp hts₂
  exact ⟨start, us, close, more, rfl, hus, hmore⟩

/-- Nothing but a logical operator stands behind a part. -/
theorem ends_joinedBy {op : LogicalOp} {parts : List (List TokenKind)} {more : List Token}
    (hmore : Token.kinds more = joinedBy op parts) :
    Ends 1 more ∧ Stops (Connective.logical op).rightBound more := by
  cases parts with
  | nil =>
    rw [List.map_eq_nil_iff.mp hmore]
    exact ⟨ends_nil 1, nofun⟩
  | cons part parts =>
    obtain ⟨position, more, rfl, -⟩ := Token.kinds_eq_cons.mp hmore
    constructor
    · refine ends_cons.mpr (Nat.not_lt.mpr ?_)
      exact (Connective.logical op).one_le_leftBound
    · intro c hc
      rw [List.head?_cons, Option.map_some, Option.some.injEq] at hc
      cases hc
      cases op <;> decide

/-- The induction is on the parts: the loop over operators takes the operator and reads the part
behind it, which ends at its closing parenthesis. -/
theorem chain_joinedBy {op : LogicalOp} {bound fuel : Nat} {left : Parsed} {ts : List Token}
    {parts : List (List TokenKind)} (hkinds : Token.kinds ts = joinedBy op parts)
    (balanced : ∀ part ∈ parts, Balanced part) (hbound : (Connective.logical op).precedence ≤ bound)
    (hfuel : ts.length ≤ fuel) (hroom : room ≤ s.limit)
    (h : chain s (parseAt s room) bound [] fuel left ts = .ok (parsed, rest)) :
    rest = [] ∧ ∀ part ∈ parts, Accepts s.catalog s.limit part := by
  induction parts generalizing fuel left ts with
  | nil =>
    obtain rfl := List.map_eq_nil_iff.mp hkinds
    have hstops : Stops bound [] := nofun
    rw [chain_of_stops hstops] at h
    cases h
    exact ⟨rfl, nofun⟩
  | cons part parts ih =>
    obtain ⟨position, ts₁, rfl, hts₁⟩ := Token.kinds_eq_cons.mp hkinds
    obtain ⟨start, us, close, more, rfl, rfl, hmore⟩ := kinds_eq_enclosed_append hts₁
    obtain ⟨hends, hstops⟩ := ends_joinedBy hmore
    simp only [List.length_cons, List.length_append] at hfuel
    obtain ⟨fuel, rfl⟩ : ∃ n, fuel = n + 1 := Nat.exists_eq_add_one_of_ne_zero (by omega)
    simp only [chain] at h
    rw [if_pos hbound] at h
    obtain ⟨⟨right, ts₂⟩, hright, hnode⟩ := bind_eq_ok.mp h
    cases room with
    | zero => cases hright
    | succ room =>
      obtain ⟨⟨first, ts₃⟩, hfirst, hchain⟩ := bind_eq_ok.mp hright
      have hpart : Balanced (Token.kinds us) := balanced _ List.mem_cons_self
      obtain ⟨rfl, position', hread⟩ := unary_enclosed hpart hends hfirst
      dsimp only at hchain
      rw [chain_of_stops hstops] at hchain
      cases hchain
      obtain ⟨made, -, hlater⟩ := bind_eq_ok.mp hnode
      obtain ⟨hrest, haccepts⟩ := ih hmore
        (fun part hpart => balanced part (List.mem_cons_of_mem _ hpart)) (by omega) hlater
      refine ⟨hrest, fun part hmem => ?_⟩
      rcases List.mem_cons.mp hmem with rfl | hmem
      · exact accepts_of_parseAt (by omega) hread
      · exact haccepts part hmem

end

/-- Where parts in parentheses that are joined by an operator are accepted, each part is accepted on
its own, if its parentheses match. -/
theorem accepts_of_joined {catalog : Catalog} {limit : Nat} {op : LogicalOp}
    {first : List TokenKind} {parts : List (List TokenKind)}
    (balanced : ∀ part ∈ first :: parts, Balanced part)
    (h : Accepts catalog limit (enclosed first ++ joinedBy op parts)) :
    ∀ part ∈ first :: parts, Accepts catalog limit part := by
  obtain ⟨parsed, h⟩ := h
  obtain ⟨ts, hts⟩ : ∃ ts, Token.kinds ts = enclosed first ++ joinedBy op parts :=
    ⟨(enclosed first ++ joinedBy op parts).map fun kind => ⟨kind, 0⟩, by simp [Function.comp_def]⟩
  obtain ⟨⟨parsed', rest⟩, hparse, -⟩ := bind_eq_ok.mp (h ts hts)
  obtain ⟨start, us, close, more, rfl, rfl, hmore⟩ := kinds_eq_enclosed_append hts
  cases hlimit : limit with
  | zero =>
    rw [hlimit] at hparse
    cases hparse
  | succ room =>
    subst hlimit
    obtain ⟨⟨condition, ts₁⟩, hcondition, -⟩ := bind_eq_ok.mp hparse
    obtain ⟨⟨left, ts₂⟩, hleft, hchain⟩ := bind_eq_ok.mp hcondition
    obtain ⟨rfl, position, hread⟩ :=
      unary_enclosed (balanced _ List.mem_cons_self) (ends_joinedBy hmore).1 hleft
    have hbound : (Connective.logical op).precedence ≤ conditionalSpec.precedence - 1 := by
      cases op <;> decide
    obtain ⟨-, haccepts⟩ := chain_joinedBy hmore
      (fun part hpart => balanced part (List.mem_cons_of_mem _ hpart)) hbound (Nat.le_refl _)
      (Nat.le_succ room) hchain
    intro part hmem
    rcases List.mem_cons.mp hmem with rfl | hmem
    · exact accepts_of_parseAt (Nat.le_succ room) hread
    · exact haccepts part hmem

end Grammar

end CommissionRules
