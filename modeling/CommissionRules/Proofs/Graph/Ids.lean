import Mathlib
import CommissionRules.Graph

/-!
# Ids of nodes

An id is the text of a type, a hyphen and a number.  No type has a hyphen in its text, so that an id
determines its type and its number: `NodeType.idText_inj`.

The number of a condition or an operator is searched upward, from the clock or from the number after
the last one.  The search ends at the least number that may be given
(`RuleGraph.nextToken_isLeast`), because more numbers are tried than there are nodes; it leaves the
range of the numbers exactly if there is none: `RuleGraph.nextToken_isSome_iff`.
-/

namespace CommissionRules

namespace NodeType

theorem hyphen_notMem_text (type : NodeType) : '-' ∉ type.text.toList := by
  cases type <;> decide

theorem text_injective {type type' : NodeType} (h : type.text = type'.text) : type = type' := by
  cases type <;> cases type' <;> first | rfl | exact absurd h (by decide)

/-- Two texts are split alike at their first hyphens. -/
theorem split_hyphen {before before' after after' : List Char} (h : '-' ∉ before)
    (h' : '-' ∉ before') (heq : before ++ '-' :: after = before' ++ '-' :: after') :
    before = before' ∧ after = after' := by
  have takes {part rest : List Char} (hpart : '-' ∉ part) :
      (part ++ '-' :: rest).takeWhile (· != '-') = part := by
    have hother : ∀ c ∈ part, (c != '-') = true := by
      intro c hc
      rw [bne_iff_ne]
      intro heq
      subst heq
      exact hpart hc
    rw [List.takeWhile_append_of_pos hother, List.takeWhile_cons_of_neg (by simp), List.append_nil]
  have hbefore : before = before' := by
    rw [← takes h, heq, takes h']
  subst hbefore
  simpa using heq

/-- An id determines its type and what stands after the first hyphen. -/
theorem idText_inj {type type' : NodeType} {number number' : String} :
    type.text ++ "-" ++ number = type'.text ++ "-" ++ number' ↔
      type = type' ∧ number = number' := by
  constructor
  · intro h
    have hlist : type.text.toList ++ '-' :: number.toList =
        type'.text.toList ++ '-' :: number'.toList := by
      simpa using congrArg String.toList h
    have hparts := split_hyphen type.hyphen_notMem_text type'.hyphen_notMem_text hlist
    exact ⟨text_injective (String.toList_inj.mp hparts.1), String.toList_inj.mp hparts.2⟩
  · intro h
    obtain ⟨rfl, rfl⟩ := h
    rfl

end NodeType

namespace RuleGraph

theorem counterId_inj {type type' : NodeType} {count count' : UInt64} :
    counterId type count = counterId type' count' ↔ type = type' ∧ count = count' := by
  unfold counterId
  rw [NodeType.idText_inj]
  refine and_congr_right fun _ => ⟨fun h => ?_, fun h => by rw [h]⟩
  exact UInt64.toNat_inj.mp (Nat.repr_injective h)

theorem tokenId_inj {type type' : NodeType} {token token' : Int64} :
    tokenId type token = tokenId type' token' ↔ type = type' ∧ token = token' := by
  unfold tokenId
  rw [NodeType.idText_inj]
  refine and_congr_right fun _ => ⟨fun h => ?_, fun h => by rw [h]⟩
  exact Int64.toInt_inj.mp (Int.repr_injective h)

/-! ## The search for a free number -/

theorem toInt_succ {token : Int64} (h : token.toInt + 1 < 2 ^ 63) :
    (token + 1).toInt = token.toInt + 1 := by
  have hle := token.le_toInt
  have hone : (1 : Int64).toInt = 1 := rfl
  rw [Int64.toInt_add, hone]
  exact Int.bmod_eq_of_le (by omega) (by omega)

theorem toInt_max (a b : Int64) : (max a b).toInt = max a.toInt b.toInt := by
  show (if a ≤ b then b else a).toInt = _
  split
  · next h => exact (max_eq_right (Int64.le_iff_toInt_le.mp h)).symm
  · next h => exact (max_eq_left (by rw [Int64.le_iff_toInt_le] at h; omega)).symm

theorem succToken?_eq_some {token next : Int64} :
    succToken? token = some next ↔ next.toInt = token.toInt + 1 := by
  rw [succToken?]
  have hbound := next.toInt_lt
  constructor
  · intro h
    split at h
    · next hrange =>
      cases h
      exact toInt_succ hrange
    · cases h
  · intro h
    have hrange : token.toInt + 1 < 0x8000000000000000 := by omega
    rw [if_pos hrange, Option.some.injEq, ← Int64.toInt_inj, toInt_succ hrange, h]

/-- A number without a next one is the last of all. -/
theorem succToken?_eq_none {token : Int64} (h : succToken? token = none) (x : Int64) :
    x.toInt ≤ token.toInt := by
  have hbound := x.toInt_lt
  rw [succToken?] at h
  split at h
  · cases h
  · omega

section Search

variable {g : RuleGraph} {type : NodeType} {fuel : Nat} {now token found : Int64}

/-- What the search leaves behind is taken; where it ends only because its fuel is used up, it has
left behind as many numbers as it had fuel. -/
theorem freeToken_eq_some (h : g.freeToken type fuel token = some found) :
    token.toInt ≤ found.toInt ∧
      (∀ x : Int64, token.toInt ≤ x.toInt → x.toInt < found.toInt →
        g.contains (tokenId type x)) ∧
      (g.contains (tokenId type found) = false ∨ found.toInt = token.toInt + fuel) := by
  induction fuel generalizing token with
  | zero =>
    cases h
    exact ⟨Int.le_refl _, fun x hle hlt => by omega, .inr (Int.add_zero _).symm⟩
  | succ fuel ih =>
    rw [freeToken] at h
    split at h
    · next htaken =>
      obtain ⟨next, hnext, hrest⟩ := Option.bind_eq_some_iff.mp h
      rw [succToken?_eq_some] at hnext
      obtain ⟨hle, hbehind, hend⟩ := ih hrest
      refine ⟨by omega, fun x hx hlt => ?_, hend.imp_right fun heq => by omega⟩
      rcases eq_or_lt_of_le hx with heq | hx
      · rwa [← Int64.toInt_inj.mp heq]
      · exact hbehind x (by omega) hlt
    · next hfree =>
      cases h
      exact ⟨Int.le_refl _, fun x hle hlt => by omega, .inl (Bool.eq_false_iff.mpr hfree)⟩

theorem freeToken_eq_none (h : g.freeToken type fuel token = none) (x : Int64)
    (hx : token.toInt ≤ x.toInt) : g.contains (tokenId type x) := by
  induction fuel generalizing token with
  | zero => cases h
  | succ fuel ih =>
    rw [freeToken] at h
    split at h
    · next htaken =>
      rcases eq_or_lt_of_le hx with heq | hlt
      · rwa [← Int64.toInt_inj.mp heq]
      · cases hnext : succToken? token with
        | none =>
          have := succToken?_eq_none hnext x
          omega
        | some next =>
          rw [hnext] at h
          rw [succToken?_eq_some] at hnext
          exact ih h (by omega)
    · cases h

/-- More numbers are tried than there are ids. -/
theorem freeToken_free (h : g.freeToken type (g.size + 1) token = some found) :
    g.contains (tokenId type found) = false := by
  obtain ⟨-, hbehind, hfree | hend⟩ := freeToken_eq_some h
  · exact hfree
  let tried := (List.range (g.size + 1)).map fun i : Nat => Int64.ofInt (token.toInt + i)
  have hbound := found.toInt_lt
  have htoInt {i : Nat} (hi : i < g.size + 1) :
      (Int64.ofInt (token.toInt + i)).toInt = token.toInt + i := by
    have hle := token.le_toInt
    exact Int64.toInt_ofInt_of_le (by omega) (by omega)
  have hnodup : (tried.map (tokenId type)).Nodup := by
    rw [List.map_map]
    refine List.Nodup.map_on (fun i hi j hj heq => ?_) List.nodup_range
    rw [List.mem_range] at hi hj
    have hsame := congrArg Int64.toInt (tokenId_inj.mp heq).2
    rw [htoInt hi, htoInt hj] at hsame
    omega
  have hsubset : tried.map (tokenId type) ⊆ g.index.keys := by
    intro id hid
    obtain ⟨x, hx, rfl⟩ := List.mem_map.mp hid
    obtain ⟨i, hi, rfl⟩ := List.mem_map.mp hx
    rw [List.mem_range] at hi
    exact Dict.mem_keys.mpr (hbehind _ (by rw [htoInt hi]; omega) (by rw [htoInt hi]; omega))
  -- The tried ids would be different keys of the index, one more than it has.
  have hle := (hnodup.subperm hsubset).length_le
  rw [Dict.length_keys, List.length_map, List.length_map, List.length_range] at hle
  have hsize : g.index.size = g.size := rfl
  omega

/-- The search takes at most as many steps as it has fuel. -/
theorem freeToken_le (hroom : token.toInt + fuel < 2 ^ 63) :
    ∃ found, g.freeToken type fuel token = some found ∧ found.toInt ≤ token.toInt + fuel := by
  induction fuel generalizing token with
  | zero => exact ⟨token, rfl, by omega⟩
  | succ fuel ih =>
    rw [freeToken]
    split
    · have hnext : (token + 1).toInt = token.toInt + 1 := toInt_succ (by omega)
      obtain ⟨found, hfound, hle⟩ := @ih (token + 1) (by omega)
      rw [succToken?_eq_some.mpr hnext]
      exact ⟨found, hfound, by omega⟩
    · exact ⟨token, rfl, by omega⟩

/-- A free number that is not before the clock and after the last number given. -/
structure Available (g : RuleGraph) (now : Int64) (type : NodeType) (token : Int64) : Prop where
  clock : now ≤ token
  last : g.lastToken < token
  free : g.contains (tokenId type token) = false

/-- The search ends at the least number that may be given. -/
theorem nextToken_isLeast (h : g.nextToken now type = some found) :
    IsLeast {token | g.Available now type token} found := by
  obtain ⟨next, hnext, hfound⟩ := Option.bind_eq_some_iff.mp h
  rw [succToken?_eq_some] at hnext
  obtain ⟨hle, hbehind, -⟩ := freeToken_eq_some hfound
  rw [toInt_max] at hle hbehind
  refine ⟨⟨?_, ?_, freeToken_free hfound⟩, fun token htoken => ?_⟩
  · rw [Int64.le_iff_toInt_le]
    omega
  · rw [Int64.lt_iff_toInt_lt]
    omega
  · have hclock := Int64.le_iff_toInt_le.mp htoken.clock
    have hlast := Int64.lt_iff_toInt_lt.mp htoken.last
    rw [Int64.le_iff_toInt_le]
    by_contra hlt
    have htaken := hbehind token (by omega) (by omega)
    rw [htoken.free] at htaken
    cases htaken

/-- The search finds a number exactly if there is one that may be given. -/
theorem nextToken_isSome_iff :
    (g.nextToken now type).isSome ↔ ∃ token, g.Available now type token := by
  constructor
  · intro h
    obtain ⟨found, hfound⟩ := Option.isSome_iff_exists.mp h
    exact ⟨found, (nextToken_isLeast hfound).1⟩
  · rintro ⟨token, h⟩
    have hclock := Int64.le_iff_toInt_le.mp h.clock
    have hlast := Int64.lt_iff_toInt_lt.mp h.last
    cases hnone : g.nextToken now type with
    | some found => rfl
    | none =>
      cases hnext : succToken? g.lastToken with
      | none =>
        have := succToken?_eq_none hnext token
        omega
      | some next =>
        rw [nextToken, hnext] at hnone
        rw [succToken?_eq_some] at hnext
        have htaken := freeToken_eq_none hnone token (by rw [toInt_max]; omega)
        rw [h.free] at htaken
        cases htaken

end Search

end RuleGraph

end CommissionRules
