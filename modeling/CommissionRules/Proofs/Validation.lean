import CommissionRules.Compiler
import CommissionRules.Proofs.Except

/-!
# Validated texts

A text is compiled exactly if it passes the checks of the validation and is parsed:
`Compiler.exists_compile_iff`.  A word that stands in a text stands in every text that encloses it
in parentheses: `Validation.containsWord_enclosed`.
-/

namespace CommissionRules

namespace Validation

theorem atWordEnd_append {cs more : List Char} (h : atWordEnd cs = true)
    (hmore : atWordEnd more = true) : atWordEnd (cs ++ more) = true := by
  cases cs with
  | nil => exact hmore
  | cons c cs => exact h

theorem containsWord_append {word cs more : List Char} {outside : Bool}
    (h : containsWord word outside cs = true) (hmore : atWordEnd more = true) :
    containsWord word outside (cs ++ more) = true := by
  induction cs generalizing outside with
  | nil => cases h
  | cons c cs ih =>
    rw [containsWord, Bool.or_eq_true, Bool.and_eq_true, Bool.and_eq_true] at h
    rw [List.cons_append, containsWord, Bool.or_eq_true, Bool.and_eq_true, Bool.and_eq_true]
    rcases h with ⟨⟨houtside, hword⟩, hend⟩ | h
    · have hstarts : word <+: c :: cs := List.isPrefixOf_iff_prefix.mp hword
      have hlater : word <+: c :: (cs ++ more) := hstarts.trans (List.prefix_append (c :: cs) more)
      have hdrop : (c :: (cs ++ more)).drop word.length = (c :: cs).drop word.length ++ more :=
        List.drop_append_of_le_length hstarts.length_le
      refine .inl ⟨⟨houtside, List.isPrefixOf_iff_prefix.mpr hlater⟩, ?_⟩
      rw [hdrop]
      exact atWordEnd_append hend hmore
    · exact .inr (ih h)

/-- Behind a character outside words, a text starts afresh. -/
theorem containsWord_behind {word cs : List Char} {c : Char} (hc : Text.isWord c = false)
    (h : containsWord word true cs = true) (before : List Char) (outside : Bool) :
    containsWord word outside (before ++ c :: cs) = true := by
  induction before generalizing outside with
  | nil =>
    rw [List.nil_append, containsWord, hc, Bool.or_eq_true]
    exact .inr h
  | cons d before ih =>
    rw [List.cons_append, containsWord, Bool.or_eq_true]
    exact .inr (ih _)

theorem containsWord_enclosed {word cs : List Char} (h : containsWord word true cs = true)
    (before after : List Char) :
    containsWord word true (before ++ '(' :: (cs ++ ')' :: after)) = true := by
  have hopen : Text.isWord '(' = false := by decide +kernel
  have hclose : atWordEnd (')' :: after) = true := by
    have hword : Text.isWord ')' = false := by decide +kernel
    rw [atWordEnd, hword]
    rfl
  exact containsWord_behind hopen (containsWord_append h hclose) before true

end Validation

/-- A text that is left by trimming is not blank. -/
theorem Text.isBlankText_trim {text : String} (h : Text.trim text ≠ "") :
    Text.isBlankText (Text.trim text) = false := by
  have htrim : (Text.trim text).toList.reverse =
      (Text.trimStart text.toList).reverse.dropWhile Text.isBlank := by
    rw [Text.trim, String.toList_ofList, Text.trimEnd, List.reverse_reverse]
  have hne : (Text.trimStart text.toList).reverse.dropWhile Text.isBlank ≠ [] := by
    rw [← htrim, Ne, List.reverse_eq_nil_iff, String.toList_eq_nil_iff]
    exact h
  refine Bool.eq_false_iff.mpr fun hblank => ?_
  have hmem : ((Text.trimStart text.toList).reverse.dropWhile Text.isBlank).head hne ∈
      (Text.trim text).toList := by
    rw [← List.mem_reverse, htrim]
    exact List.head_mem hne
  have hlast := List.all_eq_true.mp hblank _ hmem
  exact Bool.false_ne_true ((List.head_dropWhile_not Text.isBlank hne).symm.trans hlast)

/-- What a text that is not blank is checked for before it is parsed. -/
theorem validate_isValid_iff {text : String} (hblank : Text.isBlankText text = false) :
    (validate text).isValid = true ↔ text.toList.count '(' = text.toList.count ')' ∧
      Validation.containsWord "undefined".toList true text.toList = false := by
  rw [validate, hblank, if_neg Bool.false_ne_true, Validation.ofText, Validation.isValid]
  dsimp only
  split <;> split <;> simp_all

theorem Compiler.exists_compile_iff {compiler : Compiler} {text : String} :
    (∃ compiled, compiler.compile text = .ok compiled) ↔ Text.isBlankText text = false ∧
      text.toList.count '(' = text.toList.count ')' ∧
      Validation.containsWord "undefined".toList true text.toList = false ∧
      ∃ e, compiler.parse text = .ok e := by
  rw [compile]
  cases hblank : Text.isBlankText text with
  | true =>
    have hinvalid : (validate text).isValid = false := by
      rw [validate, if_pos hblank]
      rfl
    simp [hinvalid]
  | false =>
    by_cases hvalid : (validate text).isValid = true
    · obtain ⟨hcount, hword⟩ := (validate_isValid_iff hblank).mp hvalid
      rw [if_pos hvalid]
      constructor
      · intro h
        obtain ⟨compiled, h⟩ := h
        obtain ⟨e, hparse, -⟩ := bind_eq_ok.mp h
        exact ⟨rfl, hcount, hword, e, hparse⟩
      · intro h
        obtain ⟨-, -, -, e, hparse⟩ := h
        exact ⟨_, bind_eq_ok.mpr ⟨e, hparse, rfl⟩⟩
    · rw [if_neg hvalid]
      constructor
      · intro h
        obtain ⟨compiled, h⟩ := h
        cases h
      · intro h
        obtain ⟨-, hcount, hword, -⟩ := h
        exact absurd ((validate_isValid_iff hblank).mpr ⟨hcount, hword⟩) hvalid

end CommissionRules
