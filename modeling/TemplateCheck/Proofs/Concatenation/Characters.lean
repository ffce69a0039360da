import TemplateCheck.Proofs.Concatenation.Joining
import TemplateCheck.Proofs.Patterns

/-!
# Concatenations of character strings

A tree of constants and patterns is folded to its text, read from left to right. If there is a pattern among the leaves,
the constants are escaped in that text. It is legal as its parts are: none of them ends in the middle of an escape, and
an escaped constant is read as its own characters.
-/

namespace TemplateCheck

open CharPattern Store
open List

namespace CharPattern

/-- A character of a pattern, and whether a backslash precedes it. -/
structure Reading where
  character : Char
  escaped : Bool
deriving DecidableEq, Repr

/-- A backslash makes the next character literal. -/
def readings : List Char → List Reading
  | '\\' :: c :: rest => ⟨c, true⟩ :: readings rest
  | c :: rest => ⟨c, false⟩ :: readings rest
  | [] => []

section Texts

variable {b : Brackets} {c : Char} {text more rest : List Char}

theorem readings_cons (hc : c ≠ '\\') : readings (c :: rest) = ⟨c, false⟩ :: readings rest := by
  rw [readings.eq_def]
  grind

/-- What follows a legal text is read from the start. -/
theorem faultFrom?_append (h : faultFrom? b text = none) : faultFrom? b (text ++ more) = faultFrom? {} more := by
  fun_induction faultFrom? b text with
  | case1 b =>
    rw [Brackets.eq_of_fault? h]
    rfl
  | case2 => cases h
  | case3 b c rest ih => exact ih h
  | case4 b c rest hEnd hEscape next hNext ih =>
    have hc : c ≠ '\\' := by
      rintro rfl
      cases rest with
      | nil => exact hEnd rfl rfl
      | cons d rest => exact hEscape d rest rfl rfl
    rw [cons_append, faultFrom?_cons hc, hNext]
    exact ih h
  | case5 => cases h

theorem escape_append (a b : String) : escape (a ++ b) = escape a ++ escape b := by
  simp [escape, String.toList_append, flatMap_append, String.ofList_append]

/-- Escaped text is legal, whatever it is, and is read literally. -/
theorem escape_spec (text : String) : textFault? (escape text) = none ∧
      readings (escape text).toList = text.toList.map fun c => ⟨c, c ∈ metaCharacters⟩ := by
  unfold textFault? escape
  rw [String.toList_ofList]
  induction text.toList with
  | nil => exact ⟨rfl, rfl⟩
  | cons c rest ih =>
    rw [flatMap_cons, map_cons]
    split
    · rename_i hMeta
      rw [cons_append, cons_append, nil_append, decide_eq_true hMeta, ← ih.2]
      exact ⟨ih.1, rfl⟩
    · rename_i hMeta
      have hc : c ≠ '\\' := by
        rintro rfl
        exact hMeta (by decide)
      have hRead : Brackets.read {} c = .ok {} := by
        simp only [metaCharacters, mem_cons, not_or] at hMeta
        simp [Brackets.read, hMeta]
      rw [cons_append, nil_append, faultFrom?_cons hc, readings_cons hc, hRead, decide_eq_false hMeta, ← ih.2]
      exact ⟨ih.1, rfl⟩

theorem readings_escape (text : String) : (readings (escape text).toList).map Reading.character = text.toList ∧
    ∀ r ∈ readings (escape text).toList, r.escaped = false → r.character ∉ metaCharacters := by
  rw [(escape_spec text).2, map_map]
  refine ⟨map_id text.toList, fun r hMem hPlain => ?_⟩
  obtain ⟨c, -, rfl⟩ := mem_map.1 hMem
  exact of_decide_eq_false hPlain

theorem textFault?_append {a b : String} (h : textFault? a = none) : textFault? (a ++ b) = textFault? b := by
  unfold textFault?
  rw [String.toList_append]
  exact faultFrom?_append h

end Texts

end CharPattern

/-- A leaf of a concatenation. -/
inductive Piece where
  | constant (text : String)
  | pattern (text : String)

namespace Piece

def text : Piece → String
  | constant text | pattern text => text

def isConstant : Piece → Bool
  | constant _ => true
  | pattern _ => false

def written : Piece → String
  | constant text => CharPattern.escape text
  | pattern text => text

def texts (pieces : List Piece) : String := String.join (pieces.map text)

def spelling (pieces : List Piece) : String := String.join (pieces.map written)

variable {pieces pieces' : List Piece}

theorem texts_append : texts (pieces ++ pieces') = texts pieces ++ texts pieces' := by
  simp [texts, String.join_append]

theorem spelling_append : spelling (pieces ++ pieces') = spelling pieces ++ spelling pieces' := by
  simp [spelling, String.join_append]

theorem escape_texts (h : ∀ piece ∈ pieces, piece.isConstant) :
    CharPattern.escape (texts pieces) = spelling pieces := by
  induction pieces with
  | nil => rfl
  | cons piece pieces ih =>
    cases piece with
    | constant text =>
      rw [texts, map_cons, String.join_cons, escape_append, ← texts,
        ih fun piece hMem => h piece (mem_cons_of_mem _ hMem), spelling, spelling, map_cons, String.join_cons]
      rfl
    | pattern => exact absurd (h _ mem_cons_self) (by simp [isConstant])

theorem textFault?_spelling (h : ∀ piece ∈ pieces, CharPattern.textFault? piece.written = none) :
    CharPattern.textFault? (spelling pieces) = none := by
  induction pieces with
  | nil => rfl
  | cons piece pieces ih =>
    rw [spelling, map_cons, String.join_cons, ← spelling, textFault?_append (h piece mem_cons_self)]
    exact ih fun piece hMem => h piece (mem_cons_of_mem _ hMem)

end Piece

abbrev CharFamily.Takes (chars own : CharFamily) : Prop := (StringFamily.character chars).accepts (.character own)

/-- A form that holds pieces of text: a constant if all of them are, and a pattern otherwise. -/
inductive Form.Letters (kind : CharFamily → Prop) : Form → List Piece → Prop where
  | constant {own : CharFamily} {pieces : List Piece} : kind own → (∀ piece ∈ pieces, piece.isConstant) →
      Letters kind (.specific (.string (.character own) (Piece.texts pieces))) pieces
  | pattern {own : CharFamily} {pieces : List Piece} {p : CharPattern} : kind own →
      (¬ ∀ piece ∈ pieces, piece.isConstant) → p.text? = some (Piece.spelling pieces) →
      Letters kind (.charPattern own p) pieces

/-- A template of a kind that `chars` accepts which holds legal pieces of text, and nothing else. -/
structure Template.Letters (chars : CharFamily) (t : Template) (pieces : List Piece) : Prop where
  always : t.ifPresent = false
  length : t.length = none
  legal : ∀ piece ∈ pieces, CharPattern.textFault? piece.written = none
  form : t.form.Letters chars.Takes pieces

section Letters

variable {env : Env} {s : Store} {id : NodeId} {t : Template} {governor : TypeKey} {decl : TypeDecl}
  {chars own : CharFamily} {site : Site} {check : ChildCheck} {flatten : Flattening} {pieces pieces' : List Piece}
  {p : CharPattern}

theorem Form.Letters.isDirect {kind : CharFamily → Prop} {form : Form} (h : form.Letters kind pieces) :
    form.isDirect := by
  cases h <;> rfl

theorem Template.Letters.operand (h : t.Letters chars pieces) (defs : Definitions) :
    ((∀ piece ∈ pieces, piece.isConstant) ∧
      ∃ own, chars.Takes own ∧ defs.operand t = .constant (.character own) (Piece.texts pieces)) ∨
    ((¬ ∀ piece ∈ pieces, piece.isConstant) ∧
      ∃ p, defs.operand t = .character p ∧ p.text? = some (Piece.spelling pieces)) := by
  obtain ⟨hAlways, hLength, -, hForm⟩ := h
  unfold Definitions.operand
  simp only [hAlways, hLength, Bool.false_eq_true, if_false]
  generalize t.form = form at hForm
  cases hForm with
  | constant hTakes hAll => exact .inl ⟨hAll, _, hTakes, by simp only [Definitions.fold?_string]⟩
  | pattern _ hSome hText => exact .inr ⟨hSome, _, rfl, hText⟩

theorem Template.Letters.appendCharacter? (h : t.Letters chars pieces) (defs : Definitions) {a : String}
    (hText : p.text? = some a) :
    ∃ p', (defs.operand t).appendCharacter? p = some p' ∧ p'.text? = some (a ++ Piece.spelling pieces) := by
  obtain ⟨hAll, own, -, hOperand⟩ | ⟨-, q, hOperand, hOwn⟩ := h.operand defs <;> rw [hOperand]
  · rw [← Piece.escape_texts hAll]
    exact ⟨_, rfl, text?_appendText hText _⟩
  · exact ⟨_, rfl, text?_append_eq_some hText hOwn⟩

theorem Template.Letters.join {l r : Template} (h : l.Letters chars pieces) (h' : r.Letters chars pieces')
    (defs : Definitions) : ∃ form, concatForm? (.character chars) (defs.operand l) (defs.operand r) = some form ∧
      form.Letters (· = chars) (pieces ++ pieces') := by
  have hEmpty : ({} : CharPattern).text? = some "" := rfl
  obtain ⟨p, hLeft, hText⟩ := h.appendCharacter? defs hEmpty
  obtain ⟨p', hRight, hText'⟩ := h'.appendCharacter? defs hText
  have hPattern : (¬ ∀ piece ∈ pieces ++ pieces', piece.isConstant) →
      (Form.charPattern chars p').Letters (· = chars) (pieces ++ pieces') := by
    intro hSome
    refine .pattern rfl hSome ?_
    rw [hText', Piece.spelling_append, String.empty_append]
  obtain ⟨hAll, own, hTakes, hOperand⟩ | ⟨hSome, q, hOperand, -⟩ := h.operand defs <;> rw [hOperand] at hLeft ⊢
  · obtain ⟨hAll', own', hTakes', hOperand'⟩ | ⟨hSome, q, hOperand', -⟩ :=
      h'.operand defs <;> rw [hOperand'] at hRight ⊢
    · have hFamily : (if StringFamily.character own = .character .universal ||
            StringFamily.character own' = .character .universal
          then StringFamily.character .universal else .character chars) = .character chars := by
        revert hTakes hTakes'
        cases chars <;> cases own <;> cases own' <;> decide
      refine ⟨_, rfl, ?_⟩
      rw [hFamily, ← Piece.texts_append]
      exact .constant rfl fun piece hMem => (mem_append.1 hMem).elim (hAll piece) (hAll' piece)
    · exact ⟨_, by simp [concatForm?, hLeft, hRight], hPattern fun hAll => hSome fun piece hMem =>
        hAll piece (mem_append_right _ hMem)⟩
  · exact ⟨_, by simp [concatForm?, hLeft, hRight], hPattern fun hAll => hSome fun piece hMem =>
      hAll piece (mem_append_left _ hMem)⟩

theorem joining_letters (hDecl : env.types.decl? governor = some decl)
    (hCategory : decl.category = .string (.character chars)) :
    Joining env governor (.character chars) (· ++ ·) (Template.Letters chars) fun form pieces =>
      (∀ piece ∈ pieces, CharPattern.textFault? piece.written = none) ∧ form.Letters (· = chars) pieces where
  isErroneous := by
    rintro t pieces ⟨-, -, -, hForm⟩
    generalize t.form = form at hForm
    cases hForm <;> rfl
  operandFault? := by
    rintro t pieces ⟨-, -, -, hForm⟩
    unfold Definitions.operandFault?
    generalize t.form = form at hForm
    cases hForm <;> rfl
  join := by
    intro l r pieces pieces' hLeft hRight
    obtain ⟨form, hJoined, hForm⟩ := hLeft.join hRight env.definitions
    refine ⟨form, hJoined, fun piece hMem => ?_, hForm⟩
    exact (mem_append.1 hMem).elim (hLeft.legal piece) (hRight.legal piece)
  mayBecome := by
    rintro form pieces left right ⟨-, hForm⟩
    cases hForm <;> simp [Form.mayBecome]
  conforms := by
    rintro value pieces ⟨-, hForm⟩
    cases hForm with
    | constant hOwn => exact valueProblems_literal hDecl hCategory (hOwn ▸ StringFamily.accepts_refl _)
  reads := by
    rintro _ pieces ⟨hLegal, hForm⟩ t rfl hLength hAlways
    refine ⟨hAlways, hLength, hLegal, ?_⟩
    generalize t.form = form at hForm
    cases hForm with
    | constant hOwn hAll => exact .constant (hOwn ▸ StringFamily.accepts_refl _) hAll
    | pattern hOwn hSome hText => exact .pattern (hOwn ▸ StringFamily.accepts_refl _) hSome hText

theorem attains_expandPattern {text : String} (h : p.text? = some text) :
    Attains true env s (expandPattern chars p) fun resolved s' => resolved.text? = some text ∧ s' = s := by
  obtain ⟨texts, hSegments, rfl⟩ := text?_eq_some.1 h
  have hFold : ∀ {done : CharPattern} {a : String}, done.text? = some a →
      Attains true env s ((texts.map PatternSegment.literal).foldlM (expandSegment chars) done) fun resolved s' =>
        resolved.text? = some (a ++ String.join texts) ∧ s' = s := by
    clear hSegments h
    induction texts with
    | nil =>
      intro done a hDone
      exact .pure ⟨by rw [hDone, String.join_nil, String.append_empty], rfl⟩
    | cons text texts ih =>
      intro done a hDone
      rw [String.join_cons, ← String.append_assoc]
      exact ih (text?_appendText hDone text)
  unfold expandPattern
  rw [hSegments, ← String.empty_append (s := String.join texts)]
  exact hFold rfl

theorem Template.Letters.attains_checkForm (h : t.Letters chars pieces) (hNode : s.get? id = some t)
    (hDecl : env.types.decl? governor = some decl) (hCategory : decl.category = .string (.character chars)) :
    Attains true env s (checkForm check flatten id governor decl site) fun _ =>
      s.Folds (Form.Letters chars.Takes) id t pieces := by
  obtain ⟨-, -, hLegal, hLetters⟩ := h
  apply Attains.formOf_then hNode
  generalize hForm : t.form = form at hLetters
  cases hLetters with
  | constant hTakes hAll =>
    apply (attains_checkConformance hNode hForm (valueProblems_literal hDecl hCategory hTakes)).bind
    rintro _ s' ⟨⟨marks, hNode'⟩, hOthers⟩
    refine .pure ⟨hOthers, t.form, marks, hNode', ?_⟩
    rw [hForm]
    exact .constant hTakes hAll
  | @pattern own _ p hTakes hSome hText =>
    have hKind : (own = .universal && chars = .basic) = false := by
      revert hTakes
      cases chars <;> cases own <;> decide
    have hMay : ∀ q : CharPattern, t.form.mayBecome (.charPattern chars q) := by
      intro q
      rw [hForm]
      revert hTakes
      cases chars <;> cases own <;> simp [Form.mayBecome, Form.variant, StringFamily.accepts]
    have hPattern : Attains true env s (checkCharPattern id chars p) fun _ =>
        s.Folds (Form.Letters chars.Takes) id t pieces := by
      apply (attains_expandPattern hText).bind
      rintro resolved _ ⟨hResolved, rfl⟩
      rw [hResolved, Option.bind_some, Piece.textFault?_spelling hLegal]
      apply (Attains.replaceForm hNode (hMay resolved)).mono
      rintro _ _ rfl
      exact ⟨fun other hNe => get?_update_of_ne hNe, _, t.marks, get?_update_some hNode _,
        .pattern (StringFamily.accepts_refl _) hSome hResolved⟩
    simp only [checkByCategory, hCategory]
    apply Attains.formOf_then hNode
    rw [hForm]
    simp only [checkStringForm, hKind, Bool.false_eq_true, if_false]
    apply hPattern.bind
    exact fun _ _ hFolds => .pure hFolds

theorem Template.Letters.attains_checkWithin (hConcat : env.settings.concatenation)
    (hDecl : env.types.decl? governor = some decl) (hCategory : decl.category = .string (.character chars))
    (depth : Nat) (s : Store) (id : NodeId) (site : Site) (h : t.Letters chars pieces) (hNode : s.get? id = some t)
    (hUnchecked : t.marks.checked = false) :
    Attains true env s (checkWithin (depth + 1) id governor site) fun _ s' =>
      s.Joined (Template.Letters chars) [id] id pieces s' := by
  have hGoverned : (t.govern governor).Letters chars pieces := ⟨h.always, h.length, h.legal, h.form⟩
  have hSymbol : t.form ≠ .omitted ∧ t.form ≠ .anyOrOmit := by
    have hForm := h.form
    generalize t.form = form at hForm
    cases hForm <;> exact ⟨by simp, by simp⟩
  have hStep : Attains true env s (checkStep (checkWithin depth) (flattenWithin depth) id governor site) fun _ s' =>
      (s.update id (·.govern governor)).Folds (Form.Letters chars.Takes) id (t.govern governor) pieces s' := by
    refine attains_checkStep_direct hNode hUnchecked h.form.isDirect hSymbol.1 (fun hAny => absurd hAny hSymbol.2)
      hConcat hDecl hCategory (fun hFound => hGoverned.attains_checkForm hFound hDecl hCategory) ?_ ?_
    · intro s1 hFolds
      obtain ⟨form, marks, hNode1, -⟩ := hFolds.node
      apply (attains_checkModifiers_plain hNode1 h.length h.always).mono
      rintro _ _ rfl
      exact hFolds
    · intro s1 hFolds
      obtain ⟨form, marks, hNode1, -⟩ := hFolds.node
      exact ⟨_, hNode1⟩
  apply hStep.mono
  rintro _ s' ⟨hOthers, form, marks, hNode', hForm⟩
  refine ⟨fun other hNot => ?_, _, hNode', hForm.isDirect, h.always, h.length, h.legal, hForm⟩
  have hNe := mem_singleton.not.1 hNot
  rw [hOthers other hNe, get?_update_of_ne hNe]

end Letters

namespace Session

/-- A tree of concatenations of character strings is folded without a report: to a constant if all leaves are constants,
and otherwise to a legal pattern, in which the constants are read as their characters. -/
theorem concatenation_keeps_text {s : Session} {root left right : NodeId} {t : Template} {ids : List NodeId}
    {governor : TypeKey} {decl : TypeDecl} {chars : CharFamily} {pieces : List Piece}
    (hConcat : s.settings.concatenation) (hDecl : s.types.decl? governor = some decl)
    (hCategory : decl.category = .string (.character chars))
    (hTree : s.store.Unjoined (· ++ ·) (fun t pieces => pieces.length = 1 ∧ t.Letters chars pieces) root ids pieces)
    (hNodup : ids.Nodup) (hRoot : s.store.get? root = some t) (hForm : t.form = .concat left right) (site : Site) :
    ∃ outcome t', (s.check root governor site).1 = .ok outcome ∧ (s.check root governor site).2.report = s.report ∧
      (s.check root governor site).2.store.get? root = some t' ∧ t'.length = none ∧ t'.ifPresent = false ∧
      ((∀ piece ∈ pieces, piece.isConstant) →
        t'.form = .specific (.string (.character chars) (String.join (pieces.map Piece.text)))) ∧
      ((¬ ∀ piece ∈ pieces, piece.isConstant) → ∃ p, t'.form = .charPattern chars p ∧
        p.text? = some (String.join (pieces.map Piece.written)) ∧
        CharPattern.textFault? (String.join (pieces.map Piece.written)) = none) ∧
      ∀ text, .constant text ∈ pieces →
        (CharPattern.readings (CharPattern.escape text).toList).map (·.character) = text.toList ∧
          ∀ r ∈ CharPattern.readings (CharPattern.escape text).toList, r.escaped = false →
            r.character ∉ CharPattern.metaCharacters := by
  change s.env.settings.concatenation at hConcat
  change s.env.types.decl? governor = some decl at hDecl
  obtain ⟨hLength, hAlways, hFolded⟩ := hTree.attains_check_root (joining_letters hDecl hCategory)
    (fun depth s id site hLeaf hNode hUnchecked _ =>
      hLeaf.2.attains_checkWithin hConcat hDecl hCategory depth s id site hNode hUnchecked)
    hConcat hDecl hCategory hNodup (fun hMade => hMade.2.isDirect) hRoot hForm
    (fun hLeaf hConcat => by have hLetters := hLeaf.2.form; rw [hConcat] at hLetters; cases hLetters)
    (Nat.lt_of_succ_lt s.size_lt_limit)
  obtain ⟨outcome, hEnds, hReport, -, form, marks, hNode, hLegal, hLetters⟩ := run_of_attains hFolded
  refine ⟨outcome, _, hEnds, hReport rfl, hNode, hLength, hAlways, ?_, ?_, fun text _ =>
    CharPattern.readings_escape text⟩
  · intro hAll
    cases hLetters with
    | constant hOwn => exact hOwn ▸ rfl
    | pattern _ hSome => exact absurd hAll hSome
  · intro hSome
    cases hLetters with
    | constant _ hAll => exact absurd hAll hSome
    | @pattern _ _ p hOwn _ hText => exact ⟨p, hOwn ▸ rfl, hText, Piece.textFault?_spelling hLegal⟩

/-- A constant and a pattern are concatenated at 3, and another constant is added at 4. -/
def letterTree : Session where
  types := ⟨[(1, ⟨"universal charstring", .string (.character .universal)⟩)]⟩
  store := .ofForms [.specific (.string (.character .basic) "f(x"),
    .charPattern .basic ⟨[.literal "a*", .literal "[)]"]⟩, .specific (.string (.character .universal) "b?"),
    .concat 0 1, .concat 3 2]

theorem letterTree.unjoined : letterTree.store.Unjoined (· ++ ·)
    (fun t pieces => pieces.length = 1 ∧ t.Letters .universal pieces) 4 [4, 3, 0, 1, 2]
    ([.constant "f(x"] ++ [.pattern "a*[)]"] ++ [.constant "b?"]) := by
  have hConstant {own : CharFamily} (text : String)
      (hTakes : CharFamily.Takes .universal own) : ({ form := .specific (.string (.character own) text) } :
        Template).Letters .universal [.constant text] := by
    refine ⟨rfl, rfl, by simpa [Piece.written] using (escape_spec text).1, ?_⟩
    have hText : Piece.texts [.constant text] = text := String.empty_append
    have hAll : ∀ piece ∈ [Piece.constant text], piece.isConstant := by simp [Piece.isConstant]
    exact hText ▸ .constant hTakes hAll
  have hPattern : ({ form := .charPattern .basic ⟨[.literal "a*", .literal "[)]"]⟩ } : Template).Letters .universal
      [.pattern "a*[)]"] :=
    ⟨rfl, rfl, by simpa [Piece.written] using by decide, .pattern (by decide) (by simp [Piece.isConstant]) rfl⟩
  exact .concat rfl rfl rfl rfl rfl
    (.concat rfl rfl rfl rfl rfl (.leaf rfl rfl ⟨rfl, hConstant "f(x" (by decide)⟩) (.leaf rfl rfl ⟨rfl, hPattern⟩))
    (.leaf rfl rfl ⟨rfl, hConstant "b?" (by decide)⟩)

theorem concatenation_keeps_text_letterTree :
    ∃ outcome t' p, (letterTree.check 4 1 {}).1 = .ok outcome ∧
      (letterTree.check 4 1 {}).2.report = letterTree.report ∧
      (letterTree.check 4 1 {}).2.store.get? 4 = some t' ∧ t'.form = .charPattern .universal p ∧
      p.text? = some "f\\(xa*[)]b\\?" := by
  have hDecl : letterTree.types.decl? 1 = some ⟨"universal charstring", .string (.character .universal)⟩ := rfl
  obtain ⟨outcome, t', hEnds, hReport, hNode, -, -, -, hPattern, -⟩ :=
    concatenation_keeps_text rfl hDecl rfl letterTree.unjoined (by decide) rfl rfl {}
  obtain ⟨p, hForm, hText, -⟩ := hPattern (by simp [Piece.isConstant])
  exact ⟨outcome, t', p, hEnds, hReport, hNode, hForm, hText⟩

end Session

end TemplateCheck
