import CommissionRules.Folder
import CommissionRules.Proofs.Artifact

/-!
# Truncated artifacts

A reader that accepts some bytes accepts every continuation of them, reads the same from it and
leaves what was added: it `Extends` itself.  So no reader that takes exactly the bytes of a part
accepts fewer of them (`Extends.eq_none_of_isPrefix`), and an artifact that was cut off anywhere is
refused: `Artifact.truncated_refused`.

More bytes also give the readers of values and expressions more fuel.  Such a reader extends the one
of less fuel, as long as this holds of the step from one level of nesting to the next
(`Extends.fueled`).
-/

namespace CommissionRules

namespace Binary

variable {α β : Type}

/-- What the first reader reads the second one reads from every continuation of the input, and
leaves what was added to it. -/
def Extends (reader reader' : Reader α) : Prop :=
  ∀ bytes a rest, reader bytes = some (a, rest) →
    ∀ more, reader' (bytes ++ more) = some (a, rest ++ more)

namespace Extends

variable {reader reader' : Reader α}

theorem pure (a : α) : Extends (Pure.pure a) (Pure.pure a) := by
  intro bytes a' rest h more
  cases h
  rfl

theorem fail : Extends (Reader.fail : Reader α) Reader.fail := nofun

theorem bind {next next' : α → Reader β} (h : Extends reader reader')
    (hnext : ∀ a, Extends (next a) (next' a)) :
    Extends (reader >>= next) (reader' >>= next') := by
  intro bytes b rest hread more
  obtain ⟨⟨a, middle⟩, hfirst, hrest⟩ := Option.bind_eq_some_iff.mp hread
  show (reader' (bytes ++ more)).bind (fun p => next' p.1 p.2) = _
  rw [h bytes a middle hfirst more]
  exact hnext a middle b rest hrest more

theorem byte : Extends Reader.byte Reader.byte := by
  intro bytes b rest h more
  cases bytes with
  | nil => cases h
  | cons first bytes =>
    cases h
    rfl

theorem take (n : Nat) : Extends (Reader.take n) (Reader.take n) := by
  intro bytes taken rest h more
  rw [Reader.take] at h ⊢
  split at h
  case isFalse => cases h
  case isTrue hle =>
    cases h
    rw [if_pos (by rw [List.length_append]; omega), List.take_append_of_le_length hle,
      List.drop_append_of_le_length hle]

theorem littleEndian (width : Nat) :
    Extends (Reader.littleEndian width) (Reader.littleEndian width) := by
  induction width with
  | zero => exact pure 0
  | succ width ih => exact byte.bind fun low => ih.bind fun high => pure _

theorem count : Extends Reader.count Reader.count := by
  refine byte.bind fun first => ?_
  split
  · exact pure _
  split
  · exact littleEndian 2
  split
  · exact littleEndian 4
  split
  · exact littleEndian 8
  · exact fail

theorem variant : Extends Reader.variant Reader.variant := by
  refine byte.bind fun first => ?_
  split
  · exact pure _
  split
  · exact littleEndian 2
  split
  · exact littleEndian 4
  · exact fail

theorem text : Extends Reader.text Reader.text := by
  refine count.bind fun n => (take n).bind fun bytes => ?_
  split
  · exact pure _
  · exact fail

theorem bool : Extends Reader.bool Reader.bool := by
  refine byte.bind fun b => ?_
  split
  · exact pure _
  split
  · exact pure _
  · exact fail

theorem list (h : Extends reader reader') :
    Extends (Reader.list reader) (Reader.list reader') := by
  refine count.bind fun n => ?_
  induction n with
  | zero => exact pure []
  | succ n ih => exact h.bind fun first => ih.bind fun rest => pure _

theorem oneOf (variants : List α) : Extends (Reader.oneOf variants) (Reader.oneOf variants) := by
  refine variant.bind fun n => ?_
  split
  · exact pure _
  · exact fail

/-- A reader of nested parts whose fuel is one more than the number of the bytes.  The induction is
on the fuel for the shorter input, and the longer one has at least as much. -/
theorem fueled {readAt : (fuel : Nat) → Reader α} {readWith : Reader α → Reader α}
    (hzero : readAt 0 = Reader.fail) (hsucc : ∀ fuel, readAt (fuel + 1) = readWith (readAt fuel))
    (h : ∀ {nested nested'}, Extends nested nested' →
      Extends (readWith nested) (readWith nested')) :
    Extends (fun bytes => readAt (bytes.length + 1) bytes)
      (fun bytes => readAt (bytes.length + 1) bytes) := by
  have hfuel {fuel fuel' : Nat} (hle : fuel ≤ fuel') : Extends (readAt fuel) (readAt fuel') := by
    induction fuel generalizing fuel' with
    | zero =>
      rw [hzero]
      exact nofun
    | succ fuel ih =>
      cases fuel' with
      | zero => omega
      | succ fuel' =>
        rw [hsucc, hsucc]
        exact h (ih (by omega))
  intro bytes a rest hread more
  refine hfuel ?_ bytes a rest hread more
  rw [List.length_append]
  omega

/-- A reader of all these bytes refuses them if the last ones are missing: it would read the same
part from the whole and leave these over. -/
theorem eq_none_of_isPrefix {whole bytes : List UInt8} {a : α} (h : Extends reader reader)
    (hreads : Reads reader whole a) (hpre : bytes <+: whole) (hne : bytes ≠ whole) :
    reader bytes = none := by
  obtain ⟨more, rfl⟩ := hpre
  rw [Option.eq_none_iff_forall_ne_some]
  intro (a', rest) hread
  have hwhole := hreads []
  rw [List.append_nil, h bytes a' rest hread more] at hwhole
  obtain ⟨-, hempty⟩ := Prod.mk.inj (Option.some.inj hwhole)
  obtain ⟨-, rfl⟩ := List.append_eq_nil_iff.mp hempty
  exact hne (List.append_nil bytes).symm

end Extends

/-- Of two parts that one reader reads, the bytes of neither begin with those of the other. -/
theorem Reads.eq_of_isPrefix {reader : Reader α} {bytes bytes' : List UInt8} {a a' : α}
    (h : Reads reader bytes a) (h' : Reads reader bytes' a') (hpre : bytes' <+: bytes) :
    a' = a := by
  obtain ⟨more, rfl⟩ := hpre
  have hwhole := h []
  rw [List.append_nil, h' more] at hwhole
  exact (Prod.mk.inj (Option.some.inj hwhole)).1

end Binary

namespace Artifact

open Binary (Reader Extends)

theorem extends_valueWith {nested nested' : Reader Value} (h : Extends nested nested') :
    Extends (readValueWith nested) (readValueWith nested') := by
  refine Extends.variant.bind fun tag => ?_
  -- One case for each variant in the order of their numbers, and one for all other numbers.
  split
  · exact .pure _
  · exact Extends.bool.bind fun b => .pure _
  · exact ((Extends.littleEndian 8).bind fun bits => .pure _).bind fun n => .pure _
  · exact Extends.text.bind fun s => .pure _
  · exact h.list.bind fun items => .pure _
  · have hfield := Extends.text.bind fun name => h.bind fun value => Extends.pure (name, value)
    exact hfield.list.bind fun fields => .pure _
  · exact .fail

theorem extends_value : Extends readValue readValue :=
  .fueled rfl (fun _ => rfl) extends_valueWith

theorem extends_argument {nested nested' : Reader Expr} (h : Extends nested nested') :
    Extends (readArgument nested) (readArgument nested') := by
  refine Extends.variant.bind fun tag => ?_
  split
  · exact .pure _
  · exact h.bind fun e => .pure _
  · exact Extends.text.bind fun param => h.bind fun body => .pure _
  · exact .fail

theorem extends_exprWith {nested nested' : Reader Expr} (h : Extends nested nested') :
    Extends (readExprWith nested) (readExprWith nested') := by
  refine Extends.variant.bind fun tag => ?_
  split
  · exact extends_value.bind fun v => .pure _
  · exact Extends.text.bind fun source => Extends.text.list.bind fun path => .pure _
  · exact h.bind fun target => Extends.text.bind fun name => .pure _
  · exact (Extends.oneOf _).bind fun op => h.bind fun operand => .pure _
  · exact (Extends.oneOf _).bind fun op => h.bind fun left => h.bind fun right => .pure _
  · exact (Extends.oneOf _).bind fun op => h.bind fun left => h.bind fun right => .pure _
  · exact h.bind fun condition => h.bind fun thenBranch => h.bind fun elseBranch => .pure _
  · exact Extends.text.bind fun function => h.list.bind fun args => .pure _
  · exact h.bind fun receiver => Extends.text.bind fun name =>
      (extends_argument h).bind fun arg => .pure _
  · exact .fail

theorem extends_expr : Extends readExpr readExpr :=
  .fueled rfl (fun _ => rfl) extends_exprWith

theorem extends_compiled : Extends readCompiled readCompiled :=
  Extends.text.bind fun _ => extends_expr.bind fun _ => Extends.text.list.bind fun _ => .pure _

theorem extends_action : Extends readAction readAction :=
  Extends.text.bind fun _ => extends_compiled.bind fun _ => extends_compiled.bind fun _ => .pure _

theorem extends_rule : Extends readRule readRule :=
  Extends.text.bind fun _ => Extends.text.bind fun _ => extends_compiled.bind fun _ =>
    extends_action.list.bind fun _ => .pure _

/-- Of the beginnings of a rule's bytes only the whole is decoded.  A file that holds another one is
not loaded, and the bytes of another rule never are one. -/
theorem truncated_refused {rule : CompiledRule} (h : rule.Storable) :
    decode? (encode rule) = some rule ∧
      (∀ bytes, bytes <+: encode rule → bytes ≠ encode rule →
        decode? bytes = none ∧
          ∀ (folder : Folder (List UInt8)) (path : String), folder.read? path = some bytes →
            CompiledRule.load? folder path = none) ∧
      ∀ other : CompiledRule, other.Storable → encode other <+: encode rule → other = rule := by
  have hwhole : decode? (encode rule) = some rule := by
    rw [← List.append_nil (encode rule), decode?, StateT.run, reads_rule h]
    rfl
  refine ⟨hwhole, fun bytes hpre hne => ?_, fun other hother hpre => ?_⟩
  · have hnone : decode? bytes = none := by
      rw [decode?, StateT.run, extends_rule.eq_none_of_isPrefix (reads_rule h) hpre hne]
      rfl
    refine ⟨hnone, fun folder path hfile => ?_⟩
    rw [CompiledRule.load?, hfile]
    exact hnone
  · exact (reads_rule h).eq_of_isPrefix (reads_rule hother) hpre

/-- The file ends in the middle of the name `Größe`, between the two bytes of the `ö`. -/
theorem truncated_refused_tiersRule :
    let bytes := (encode tiersRule).take 16
    let folder : Folder (List UInt8) := .ofList [("tiers.bin", bytes)]
    tiersRule.Storable ∧ bytes <+: encode tiersRule ∧ bytes ≠ encode tiersRule ∧
      folder.read? "tiers.bin" = some bytes ∧ decode? bytes = none ∧
      CompiledRule.load? folder "tiers.bin" = none := by
  intro bytes folder
  have hpre : bytes <+: encode tiersRule := List.take_prefix 16 _
  have hne : bytes ≠ encode tiersRule := by decide +kernel
  have hpath : Folder.resolve? "tiers.bin" = some ["tiers.bin"] := by decide +kernel
  have hfile : folder.read? "tiers.bin" = some bytes := by
    rw [Folder.read?, hpath]
    rfl
  obtain ⟨hnone, hload⟩ := (truncated_refused tiersRule_storable).2.1 bytes hpre hne
  exact ⟨tiersRule_storable, hpre, hne, hfile, hnone, hload folder "tiers.bin" hfile⟩

end Artifact

end CommissionRules
