import TemplateCheck.Proofs.Languages
import TemplateCheck.Proofs.Plain

/-!
# What concatenations match

A template of a binary string stands for the sequences of elements it matches. Two operands that are known are
folded to a template that stands for the sequences of the first followed by those of the second.
-/

namespace TemplateCheck

open BinaryFamily

variable {defs : Definitions} {family : BinaryFamily} {t : Template}

/-- The sequences of elements that a template of a binary string matches. A length restriction is read only if
it admits a single length. -/
def Template.language (defs : Definitions) (family : BinaryFamily) (t : Template) : Language family.Element :=
  match t.form, t.length with
  | .specific (.string _ text), none => {family.elements text.toList}
  | .binaryPattern _ text, none => family.language text.toList
  | .anyValue, none => ⊤
  | .anyValue, some length | .anyOrOmit, some length => {w | defs.onlyLength? length = some (w.length : Int)}
  | _, _ => 0

/-- The forms that concatenations are folded to. -/
inductive Form.Folded (family : BinaryFamily) : Form → Prop where
  | literal {text : String} : family.Spells text.toList → Folded family (.specific (.string (.binary family) text))
  | pattern {text : String} : family.patternFault? text = none → Folded family (.binaryPattern family text)
  | anything : Folded family .anyValue

/-- Templates whose concatenation can be told: what concatenations are folded to, and wildcards of a fixed
length. -/
inductive Template.Joins (defs : Definitions) (family : BinaryFamily) (t : Template) : Prop where
  | folded : t.form.Folded family → t.length = none → Joins defs family t
  | sized {length : LengthRestriction} {n : Nat} : t.form = .anyValue ∨ t.form = .anyOrOmit →
      t.length = some length → defs.onlyLength? length = some (n : Int) → Joins defs family t

inductive Operand.Means (family : BinaryFamily) : Operand → Language family.Element → Prop where
  | constant {text : String} : family.Spells text.toList →
      Means family (.constant (.binary family) text) {family.elements text.toList}
  | binary {text : String} : family.patternFault? text = none →
      Means family (.binary text) (family.language text.toList)
  | sized (n : Nat) : Means family (.wildcard (some n)) (family.sequencesOf n)
  | anything : Means family (.wildcard none) ⊤

section Folding

variable {left right : Operand} {first second : Language family.Element}

theorem Definitions.fold?_string (defs : Definitions) (family : StringFamily) (text : String) :
    defs.fold? (.string family text) = some (.string family text) := rfl

theorem Template.Joins.means (h : t.Joins defs family) (hAlways : t.ifPresent = false) :
    (defs.operand t).Means family (t.language defs family) := by
  unfold Definitions.operand Template.language
  cases h with
  | folded hForm hLength =>
    generalize t.form = form at hForm
    cases hForm with
    | literal hSpells =>
      simp only [hAlways, hLength, Bool.false_eq_true, if_false, defs.fold?_string]
      exact .constant hSpells
    | pattern hFault =>
      simp only [hAlways, hLength, Bool.false_eq_true, if_false]
      exact .binary hFault
    | anything =>
      simp only [hAlways, hLength, Bool.false_eq_true, if_false]
      exact .anything
  | @sized length n hForm hLength hOnly =>
    have hSized : ({w | some (n : Int) = some (w.length : Int)} : Language family.Element) = family.sequencesOf n := by
      ext w
      change some (n : Int) = some (w.length : Int) ↔ w.length = n
      rw [Option.some.injEq]
      omega
    obtain hForm | hForm := hForm <;>
    · simp only [hAlways, hLength, hForm, hOnly, Bool.false_eq_true, if_false]
      rw [hSized]
      exact .sized n

theorem Operand.Means.append {text : String} (h : right.Means family second)
    (hText : family.patternFault? text = none) :
    ∃ more, right.appendBinary? text = some more ∧ family.patternFault? more = none ∧
      family.language more.toList = family.language text.toList * second := by
  have hWritten := patternFault?_eq_none_iff.1 hText
  -- Whatever is written after the text adds its own symbols.
  have hAppend : ∀ {more : String} {symbols : List family.Symbol}, family.Written more.toList symbols →
      family.patternFault? (text ++ more) = none ∧ family.language (text ++ more).toList =
          family.language text.toList * BinaryFamily.Symbol.sequence symbols := by
    intro more symbols hMore
    have hBoth := hWritten.append hMore
    rw [← String.toList_append] at hBoth
    refine ⟨patternFault?_eq_none_iff.2 (by rwa [hBoth.symbols_eq]), ?_⟩
    rw [hBoth.language_eq, BinaryFamily.Symbol.sequence_append, ← hWritten.language_eq]
  cases h with
  | constant hSpells =>
    refine ⟨_, rfl, ?_⟩
    rw [← BinaryFamily.Symbol.sequence_exactly]
    exact hAppend hSpells.written
  | binary hFault => exact ⟨_, rfl, hAppend (patternFault?_eq_none_iff.1 hFault)⟩
  | sized n =>
    refine ⟨_, rfl, ?_⟩
    rw [← BinaryFamily.Symbol.sequence_replicate_any]
    apply hAppend
    rw [String.toList_ofList]
    exact .replicate n
  | anything =>
    rw [Operand.appendBinary?]
    by_cases hLast : text.toList.getLast? = some '*'
    · obtain ⟨init, hSymbols⟩ := hWritten.exists_many hLast
      refine ⟨text, by rw [if_pos hLast], hText, ?_⟩
      rw [hWritten.language_eq, hSymbols, BinaryFamily.Symbol.sequence_many_mul_top]
    · have hStar : family.Written (String.singleton '*').toList [.many] := by
        rw [String.toList_singleton]
        exact .many .nil
      refine ⟨text ++ String.singleton '*', by rw [if_neg hLast, String.append_singleton], ?_⟩
      have hMany : BinaryFamily.Symbol.sequence [(.many : family.Symbol)] = ⊤ := List.prod_singleton
      rw [← hMany]
      exact hAppend hStar

theorem Template.language_of_form {form : Form} (hForm : t.form = form) (hLength : t.length = none) :
    t.language defs family = ({ form } : Template).language defs family := by
  unfold Template.language
  rw [hForm, hLength]

theorem concatForm?_means (defs : Definitions) (hLeft : left.Means family first) (hRight : right.Means family second) :
    ∃ form, concatForm? (.binary family) left right = some form ∧ form.Folded family ∧
      ({ form } : Template).language defs family = first * second := by
  have hPattern : (do
      let text ← left.appendBinary? ""
      return Form.binaryPattern family (← right.appendBinary? text)) = concatForm? (.binary family) left right →
      ∃ form, concatForm? (.binary family) left right = some form ∧ form.Folded family ∧
        ({ form } : Template).language defs family = first * second := by
    intro hForm
    have hStart : family.patternFault? "" = none := by cases family <;> rfl
    obtain ⟨text, hText, hFault, hLanguage⟩ := hLeft.append hStart
    obtain ⟨more, hMore, hFault', hLanguage'⟩ := hRight.append hFault
    refine ⟨.binaryPattern family more, ?_, .pattern hFault', ?_⟩
    · rw [← hForm, hText]
      simp [hMore]
    · have hEmpty : family.language "".toList = 1 := rfl
      rw [hLanguage, hEmpty, one_mul] at hLanguage'
      exact hLanguage'
  cases hLeft with
  | constant hSpells =>
    cases hRight with
    | constant hSpells' =>
      have hBoth := hSpells.append hSpells'
      have hLanguage := hSpells.language_append hSpells'
      rw [hSpells.language_eq, hSpells'.language_eq, hBoth.language_eq] at hLanguage
      rw [← String.toList_append] at hBoth hLanguage
      exact ⟨_, rfl, .literal hBoth, hLanguage⟩
    | _ => exact hPattern rfl
  | anything =>
    cases hRight with
    | anything => exact ⟨.anyValue, rfl, .anything, (BinaryFamily.Symbol.top_mul_top).symm⟩
    | _ => exact hPattern rfl
  | _ => exact hPattern rfl

end Folding

namespace Template.Joins

section

variable (h : t.Joins defs family)

include h

theorem isDirect : t.form.isDirect := by
  cases h with
  | folded hForm =>
    generalize t.form = form at hForm
    cases hForm <;> rfl
  | sized hForm => obtain hForm | hForm := hForm <;> rw [hForm] <;> rfl

theorem isErroneous : t.form.isErroneous = false := by
  cases h with
  | folded hForm =>
    generalize t.form = form at hForm
    cases hForm <;> rfl
  | sized hForm => obtain hForm | hForm := hForm <;> rw [hForm] <;> rfl

theorem ne_omitted : t.form ≠ .omitted := by
  intro hOmitted
  cases h with
  | folded hForm =>
    rw [hOmitted] at hForm
    cases hForm
  | sized hForm => simp [hOmitted] at hForm

theorem ne_concat (left right : NodeId) : t.form ≠ .concat left right := by
  intro hConcat
  cases h with
  | folded hForm =>
    rw [hConcat] at hForm
    cases hForm
  | sized hForm => simp [hConcat] at hForm

theorem congr {t' : Template} (hForm : t'.form = t.form) (hLength : t'.length = t.length) : t'.Joins defs family := by
  cases h with
  | folded hFolded hNone => exact .folded (hForm ▸ hFolded) (hLength.trans hNone)
  | sized hWildcard hSome hOnly => exact .sized (hForm ▸ hWildcard) (hLength.trans hSome) hOnly

theorem operandFault?_eq_none : defs.operandFault? none t = none := by
  have hFixed {length : LengthRestriction} {n : Int} (hOnly : defs.onlyLength? length = some n) :
      defs.isVariableLength length = false := by
    unfold Definitions.onlyLength? at hOnly
    unfold Definitions.isVariableLength
    grind
  cases h with
  | folded hForm hLength =>
    unfold Definitions.operandFault?
    generalize t.form = form at hForm
    cases hForm with
    | literal | pattern => rfl
    | anything => simp [Definitions.operandFault?.spread?, hLength]
  | sized hForm hLength hOnly =>
    obtain hForm | hForm := hForm <;>
    · simp [Definitions.operandFault?, Definitions.operandFault?.spread?, hForm, hLength, hFixed hOnly]

end

end Template.Joins

end TemplateCheck
