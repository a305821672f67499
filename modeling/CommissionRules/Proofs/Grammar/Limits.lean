import CommissionRules.Proofs.Grammar.Parallel

/-!
# Limits on nesting

A limit refuses what is too deep and changes nothing else.  Two readings of the same tokens under
different limits go side by side: each part is read alike, or the smaller limit has refused it
(`Grammar.parseAt_cutShort`).  So a result under one limit stays under every greater one, and a
result under the greater limit is found under the smaller one unless that is what refuses it:
`Compiler.limit_only_refuses`.
-/

namespace CommissionRules

/-- Holds of the errors other than the refusal of what is too deep. -/
def CompileError.WithinLimit (error : CompileError) : Prop :=
  ∀ limit position, error ≠ .tooDeep limit position

/-- The first result is the second one, or a limit has refused to go on to it. -/
def CutShort {α : Type} (limit : Nat) (x y : Except CompileError α) : Prop :=
  x = y ∨ ∃ position, x = .error (.tooDeep limit position)

section CutShort

variable {α β : Type} {limit : Nat} {x y : Except CompileError α}
  {f f' : α → Except CompileError β}

theorem cutShort_refl (x : Except CompileError α) : CutShort limit x x := .inl rfl

theorem cutShort_tooDeep (position : Nat) (y : Except CompileError α) :
    CutShort limit (.error (.tooDeep limit position)) y := .inr ⟨position, rfl⟩

theorem CutShort.bind (h : CutShort limit x y) (hf : ∀ a, CutShort limit (f a) (f' a)) :
    CutShort limit (x >>= f) (y >>= f') := by
  rcases h with rfl | ⟨position, rfl⟩
  · cases x with
    | error error => exact cutShort_refl _
    | ok a => exact hf a
  · exact cutShort_tooDeep position _

/-- A part that is read without a look at the limit. -/
theorem CutShort.after (x : Except CompileError α) (hf : ∀ a, CutShort limit (f a) (f' a)) :
    CutShort limit (x >>= f) (x >>= f') := (cutShort_refl x).bind hf

end CutShort

namespace Grammar

/-- The setting with another limit. -/
def Setting.withLimit (s : Setting) (limit : Nat) : Setting := { s with limit }

/-- Of the same tokens the first reader gives what the second one gives, unless a limit refuses
it. -/
def Nested.CutShort (limit : Nat) (nested nested' : Nested) : Prop :=
  ∀ position goal scope ts,
    CommissionRules.CutShort limit (nested position goal scope ts) (nested' position goal scope ts)

/-- Readings of the same tokens in parallel, of which the first one may be refused as too deep. -/
theorem cutShort_of_parallel {limit : Nat} {x y : Except CompileError (Rest Parsed)}
    (h : Parallel id (fun e => ∃ position, e = .tooDeep limit position) (Rest.moved id) x y) :
    CutShort limit x y := by
  cases h with
  | ok r => exact .inl (congrArg Except.ok (Prod.ext rfl (List.map_id r.2).symm))
  | error e => exact .inl (congrArg Except.error e.moved_id.symm)
  | excuse h y =>
    obtain ⟨position, rfl⟩ := h
    exact cutShort_tooDeep position y

/-- The readings under both limits are in parallel, with no position moved. -/
theorem parseAt_cutShort {s : Setting} {limit' : Nat} (hlimit : s.limit ≤ limit')
    {room room' : Nat} (hroom : room ≤ room') :
    (parseAt s room).CutShort s.limit (parseAt (s.withLimit limit') room') := by
  have hexcuse (position : Nat) : ∃ position', CompileError.tooDeep s.limit position =
      .tooDeep s.limit position' := ⟨position, rfl⟩
  have hs : s.Parallel id (fun e => ∃ position, e = .tooDeep s.limit position)
      (s.withLimit limit') := ⟨fun _ => .inl rfl, rfl, hlimit, .inr hexcuse⟩
  intro position goal scope ts
  have hparallel := parseAt_parallel hs hroom (.inr hexcuse) position goal scope ts
  have hsame : ts.map (Token.moved id) = ts := List.map_id ts
  rw [hsame] at hparallel
  exact cutShort_of_parallel hparallel

theorem parseTokens_cutShort {s : Setting} {limit' : Nat} (hlimit : s.limit ≤ limit')
    (ts : List Token) :
    CutShort s.limit (parseTokens s ts) (parseTokens (s.withLimit limit') ts) :=
  (parseAt_cutShort hlimit hlimit _ _ _ _).bind fun _ => cutShort_refl _

end Grammar

namespace Compiler

theorem parse_cutShort (catalog : Catalog) {limit limit' : Nat} (hlimit : limit ≤ limit')
    (source : String) :
    CutShort limit (parse ⟨catalog, limit⟩ source) (parse ⟨catalog, limit'⟩ source) := by
  refine .after _ fun ts => ?_
  exact (Grammar.parseTokens_cutShort hlimit ts).bind fun _ => cutShort_refl _

/-- A tree under a limit is the tree under every greater limit, and an error that is no refusal of
what is too deep is the error under every greater limit.  Conversely, what the greater limit gives
is what the smaller one gives too, unless the smaller one refuses it. -/
theorem limit_only_refuses (catalog : Catalog) (source : String) {limit limit' : Nat}
    (hlimit : limit ≤ limit') :
    (∀ e, parse ⟨catalog, limit⟩ source = .ok e → parse ⟨catalog, limit'⟩ source = .ok e) ∧
    (∀ error, parse ⟨catalog, limit⟩ source = .error error → error.WithinLimit →
      parse ⟨catalog, limit'⟩ source = .error error) ∧
    ∀ result, parse ⟨catalog, limit'⟩ source = result →
      parse ⟨catalog, limit⟩ source = result ∨
        ∃ position, parse ⟨catalog, limit⟩ source = .error (.tooDeep limit position) := by
  have hcut := parse_cutShort catalog hlimit source
  refine ⟨fun e h => ?_, fun error h hwithin => ?_, fun result h => h ▸ hcut⟩
  · rcases hcut with heq | ⟨position, hdeep⟩
    · exact heq ▸ h
    · cases hdeep.symm.trans h
  · rcases hcut with heq | ⟨position, hdeep⟩
    · exact heq ▸ h
    · cases hdeep.symm.trans h
      exact absurd rfl (hwithin limit position)

/-- A negated conjunction: a limit of three is too small for the way down to its second operand, and
one of four is large enough.  That an operand is missing is found under any limit that lets the
reader come so far. -/
theorem limit_only_refuses_negation :
    parse ⟨.standard, 3⟩ "!(true && false)" = .error (.tooDeep 3 10) ∧
      (∃ e, parse ⟨.standard, 4⟩ "!(true && false)" = .ok e ∧
        parse ⟨.standard, 64⟩ "!(true && false)" = .ok e) ∧
      parse ⟨.standard, 4⟩ "!(true &&" = .error (.unexpectedEnd "a value") ∧
      parse ⟨.standard, 64⟩ "!(true &&" = .error (.unexpectedEnd "a value") := by
  have hdeep : parse ⟨.standard, 3⟩ "!(true && false)" = .error (.tooDeep 3 10) := by rfl
  have hparse : parse ⟨.standard, 4⟩ "!(true && false)" = .ok (.unary .not (.logical .and
      (.literal (.bool true)) (.literal (.bool false)))) := by rfl
  have hend : parse ⟨.standard, 4⟩ "!(true &&" = .error (.unexpectedEnd "a value") := by rfl
  have hlimit : 4 ≤ 64 := by decide
  have hraised := (limit_only_refuses .standard "!(true && false)" hlimit).1 _ hparse
  have hend' := (limit_only_refuses .standard "!(true &&" hlimit).2.1 _ hend fun _ _ => nofun
  exact ⟨hdeep, ⟨_, hparse, hraised⟩, hend, hend'⟩

end Compiler

end CommissionRules
