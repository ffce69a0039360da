import TemplateCheck.Proofs.Concatenation.Joining

/-!
# Concatenation keeps the meaning

When a tree of concatenations is checked, every concatenation in it becomes a template that stands for the
sequences of its operands, one after the other.
-/

namespace TemplateCheck

open List

section Operands

variable {env : Env} {s s' : Store} {id : NodeId} {t : Template} {governor : TypeKey} {decl : TypeDecl}
  {family : BinaryFamily} {site : Site} {check : ChildCheck} {flatten : Flattening} {defs : Definitions}
  {length : LengthRestriction} {n : Nat} {language : Language family.Element}

theorem Definitions.bounds_of_onlyLength?
    (h : defs.onlyLength? length = some (n : Int)) : length.Bounds defs n (some n) := by
  unfold Definitions.onlyLength? at h
  split at h
  · exact .single h
  · obtain ⟨low, hLow, h⟩ := Option.bind_eq_some_iff.1 h
    obtain ⟨high, hHigh, h⟩ := Option.bind_eq_some_iff.1 h
    split at h
    · rename_i hSame
      cases h
      exact .between hLow (hSame ▸ hHigh) (Nat.le_refl n)
    · cases h
  · cases h

section

variable (hDecl : env.types.decl? governor = some decl) (hCategory : decl.category = .string (.binary family))

include hDecl hCategory

theorem attains_checkLengthRestriction (hNode : s.get? id = some t)
    (hForm : t.form = .anyValue ∨ t.form = .anyOrOmit) (hLength : t.length = some length)
    (hOnly : env.definitions.onlyLength? length = some (n : Int)) :
    Attains true env s (checkLengthRestriction id governor) fun _ => s.Remarks id t := by
  apply Attains.node_then hNode
  split
  · exact .pure (.refl hNode)
  · apply (Attains.mark hNode .lengthChecked).bind
    rintro _ _ rfl
    have hMarked := Store.get?_update_some hNode (·.mark .lengthChecked)
    have hForm' : (t.mark .lengthChecked).form = .anyValue ∨ (t.mark .lengthChecked).form = .anyOrOmit := hForm
    simp only [hLength]
    apply (attains_foldBounds (Definitions.bounds_of_onlyLength? hOnly)).bind
    rintro bounds _ ⟨-, -, rfl⟩
    apply Attains.read_then
    simp only [hDecl, hCategory]
    apply (Attains.lastTemplate hMarked (by rintro r last hEq; rw [hEq] at hForm'; simp at hForm')).bind
    rintro _ _ ⟨rfl, rfl⟩
    apply Attains.formOf_then hMarked
    obtain hForm | hForm := hForm' <;>
    · rw [hForm]
      exact .pure (.mark hNode .lengthChecked)

theorem Template.Joins.attains_checkForm (h : t.Joins env.definitions family) (hNode : s.get? id = some t) :
    Attains true env s (checkForm check flatten id governor decl site) fun _ => s.Remarks id t := by
  have hSymbol (symbol : String) : Attains true env s (checkSymbol id symbol decl) fun _ =>
      s.Remarks id t := by
    unfold checkSymbol
    rw [hCategory]
    exact .pure (.refl hNode)
  have hWildcard : t.form = .anyValue ∨ t.form = .anyOrOmit →
      Attains true env s (checkForm check flatten id governor decl site) fun _ => s.Remarks id t := by
    intro hForm
    apply Attains.formOf_then hNode
    obtain hForm | hForm := hForm <;>
    · rw [hForm]
      apply (hSymbol _).bind
      exact fun _ _ hRemarks => .pure hRemarks
  cases h with
  | folded hFolded =>
    generalize hForm : t.form = form at hFolded
    cases hFolded with
    | literal =>
      apply Attains.formOf_then hNode
      rw [hForm]
      apply (attains_checkConformance hNode hForm
        (valueProblems_literal hDecl hCategory (StringFamily.accepts_refl _))).bind
      exact fun _ _ hRemarks => .pure hRemarks
    | pattern hFault =>
      apply Attains.formOf_then hNode
      rw [hForm]
      simp only [checkByCategory, hCategory]
      apply Attains.formOf_then hNode
      rw [hForm]
      simp only [checkStringForm, if_true, checkBinaryPattern, hFault]
      exact .pure (.refl hNode)
    | anything => exact hWildcard (.inl hForm)
  | sized hForm => exact hWildcard hForm

theorem Template.Joins.attains_checkModifiers (h : t.Joins env.definitions family) (hNode : s.get? id = some t)
    (hAlways : t.ifPresent = false) :
    Attains true env s (checkModifiers id governor site) fun _ => s.Remarks id t := by
  apply Attains.node_then hNode
  simp only [hAlways, Bool.false_and, h.isErroneous, Bool.not_false, Bool.and_true]
  cases h with
  | folded _ hLength =>
    rw [hLength]
    exact .pure (.refl hNode)
  | sized hForm hLength hOnly =>
    rw [hLength]
    apply (attains_checkLengthRestriction hDecl hCategory hNode hForm hLength hOnly).bind
    exact fun _ _ hRemarks => .pure hRemarks

end

structure Template.Spans (defs : Definitions) (family : BinaryFamily) (t : Template)
    (language : Language family.Element) : Prop where
  always : t.ifPresent = false
  joins : t.Joins defs family
  language_eq : t.language defs family = language

structure Form.Spans (defs : Definitions) (family : BinaryFamily) (form : Form) (language : Language family.Element) :
    Prop where
  folded : form.Folded family
  language_eq : ({ form } : Template).language defs family = language

theorem Form.Spans.template {form : Form}
    (h : form.Spans defs family language) (t : Template) (hForm : t.form = form) (hLength : t.length = none)
    (hAlways : t.ifPresent = false) : t.Spans defs family language :=
  ⟨hAlways, .folded (hForm ▸ h.folded) hLength, (Template.language_of_form hForm hLength).trans h.language_eq⟩

theorem joining_spans (hDecl : env.types.decl? governor = some decl)
    (hCategory : decl.category = .string (.binary family)) :
    Joining env governor (.binary family) (· * ·) (Template.Spans env.definitions family)
      (Form.Spans env.definitions family) where
  isErroneous hSpans := hSpans.joins.isErroneous
  operandFault? hSpans := hSpans.joins.operandFault?_eq_none
  join := by
    rintro l r _ _ ⟨hAlways, hJoins, rfl⟩ ⟨hAlways', hJoins', rfl⟩
    obtain ⟨form, hJoined, hFolded, hLanguage⟩ := concatForm?_means env.definitions
      (hJoins.means hAlways) (hJoins'.means hAlways')
    exact ⟨form, hJoined, hFolded, hLanguage⟩
  mayBecome _ _ hSpans := by
    cases hSpans.folded <;> rfl
  conforms hSpans := by
    cases hSpans.folded
    exact valueProblems_literal hDecl hCategory (StringFamily.accepts_refl _)
  reads := Form.Spans.template

theorem Template.Spans.attains_checkWithin (hConcat : env.settings.concatenation)
    (hDecl : env.types.decl? governor = some decl) (hCategory : decl.category = .string (.binary family)) (depth : Nat)
    (s : Store) (id : NodeId) (site : Site) (h : t.Spans env.definitions family language) (hNode : s.get? id = some t)
    (hUnchecked : t.marks.checked = false) (hSite : site.allowAnyOrOmit) :
    Attains true env s (checkWithin (depth + 1) id governor site) fun _ s' =>
      s.Joined (Template.Spans env.definitions family) [id] id language s' := by
  have hJoins : (t.govern governor).Joins env.definitions family := h.joins.congr rfl rfl
  have hStep : Attains true env s (checkStep (checkWithin depth) (flattenWithin depth) id governor site) fun _ s' =>
      (s.update id (·.govern governor)).Remarks id (t.govern governor) s' := by
    refine attains_checkStep_direct hNode hUnchecked h.joins.isDirect h.joins.ne_omitted (fun _ => hSite) hConcat hDecl
      hCategory (fun hGoverned => hJoins.attains_checkForm hDecl hCategory hGoverned) ?_ ?_
    · rintro s1 ⟨⟨marks, hNode1⟩, hOthers1⟩
      have hJoins1 : ({ t.govern governor with marks } : Template).Joins env.definitions family := hJoins.congr rfl rfl
      apply (hJoins1.attains_checkModifiers hDecl hCategory hNode1 h.always).mono
      rintro _ s2 ⟨⟨marks', hNode2⟩, hOthers2⟩
      exact ⟨⟨marks', hNode2⟩, fun other hNe => (hOthers2 other hNe).trans (hOthers1 other hNe)⟩
    · rintro s1 ⟨⟨marks, hNode1⟩, -⟩
      exact ⟨_, hNode1⟩
  apply hStep.mono
  rintro _ s' ⟨⟨marks, hNode'⟩, hOthers⟩
  refine ⟨fun other hNot => ?_, _, hNode', hJoins.isDirect, h.always, hJoins.congr rfl rfl, h.language_eq⟩
  have hNe := mem_singleton.not.1 hNot
  rw [hOthers other hNe, Store.get?_update_of_ne hNe]

end Operands

/-- An unchecked tree of concatenations with the nodes `ids`, whose leaves match the given languages from left to
right. -/
inductive Store.Concatenates (s : Store) (defs : Definitions) (family : BinaryFamily) :
    NodeId → List NodeId → List (Language family.Element) → Prop where
  | operand {id : NodeId} {t : Template} : s.get? id = some t → t.marks.checked = false → t.ifPresent = false →
      t.Joins defs family → Concatenates s defs family id [id] [t.language defs family]
  | concat {id left right : NodeId} {t : Template} {ids ids' : List NodeId}
      {languages languages' : List (Language family.Element)} : s.get? id = some t → t.marks.checked = false →
      t.ifPresent = false → t.length = none → t.form = .concat left right →
      Concatenates s defs family left ids languages → Concatenates s defs family right ids' languages' →
      Concatenates s defs family id (id :: (ids ++ ids')) (languages ++ languages')

theorem Store.Concatenates.unjoined {s : Store} {defs : Definitions} {family : BinaryFamily} {id : NodeId}
    {ids : List NodeId} {languages : List (Language family.Element)} (h : s.Concatenates defs family id ids languages) :
    s.Unjoined (· * ·) (Template.Spans defs family) id ids languages.prod := by
  induction h with
  | operand hNode hUnchecked hAlways hJoins => exact .leaf hNode hUnchecked ⟨hAlways, hJoins, prod_singleton.symm⟩
  | concat hNode hUnchecked hAlways hLength hForm _ _ ih ih' =>
    rw [prod_append]
    exact .concat hNode hUnchecked hAlways hLength hForm ih ih'

namespace Session

/-- A tree of concatenations is folded without a report, and what it becomes matches the sequences that its leaves
match one after the other. -/
theorem concatenation_keeps_language {s : Session} {root left right : NodeId} {t : Template} {ids : List NodeId}
    {governor : TypeKey} {decl : TypeDecl} {family : BinaryFamily} {languages : List (Language family.Element)}
    (hConcat : s.settings.concatenation) (hDecl : s.types.decl? governor = some decl)
    (hCategory : decl.category = .string (.binary family))
    (hTree : s.store.Concatenates s.definitions family root ids languages) (hNodup : ids.Nodup)
    (hRoot : s.store.get? root = some t) (hForm : t.form = .concat left right) (site : Site) :
    ∃ outcome t', (s.check root governor site).1 = .ok outcome ∧ (s.check root governor site).2.report = s.report ∧
      (s.check root governor site).2.store.get? root = some t' ∧ t'.form.Folded family ∧ t'.length = none ∧
        t'.ifPresent = false ∧ t'.language s.definitions family = languages.prod := by
  change s.env.settings.concatenation at hConcat
  change s.env.types.decl? governor = some decl at hDecl
  change s.store.Concatenates s.env.definitions family root ids languages at hTree
  obtain ⟨hLength, hAlways, hFolded⟩ := hTree.unjoined.attains_check_root (joining_spans hDecl hCategory)
    (Template.Spans.attains_checkWithin hConcat hDecl hCategory) hConcat hDecl hCategory hNodup
    (fun hSpans => by cases hSpans.folded <;> rfl) hRoot hForm (fun hSpans => hSpans.joins.ne_concat left right)
    (Nat.lt_of_succ_lt s.size_lt_limit)
  obtain ⟨outcome, hEnds, hReport, -, form, marks, hNode, hSpans⟩ := run_of_attains hFolded
  have hResult := hSpans.template { t.govern governor with form, marks } rfl hLength hAlways
  exact ⟨outcome, _, hEnds, hReport rfl, hNode, hSpans.folded, hLength, hAlways, hResult.language_eq⟩

/-- An octet, any two octets, an octet followed by another one, and anything. -/
def octetLeaves : List Template :=
  [{ form := .specific (.string (.binary .octet) "A0") }, { form := .anyOrOmit, length := some (.single (.integer 2)) },
    { form := .binaryPattern .octet "0B?" },
    { form := .anyValue }]

/-- The first two leaves are concatenated at 4, the others at 5, and all of them at 6. -/
def octetTree : Session where
  types := ⟨[(1, ⟨"octetstring", .string (.binary .octet)⟩)]⟩
  store := ⟨octetLeaves ++ [{ form := .concat 0 1 }, { form := .concat 2 3 }, { form := .concat 4 5 }]⟩

theorem octetTree.concatenates : octetTree.store.Concatenates octetTree.definitions .octet 6
    [6, 4, 0, 1, 5, 2, 3] (octetLeaves.map (·.language octetTree.definitions .octet)) := by
  have hLiteral : BinaryFamily.octet.Spells "A0".toList := ⟨all_eq_true.1 (by decide), by decide⟩
  have hPattern : BinaryFamily.octet.patternFault? "0B?" = none := by decide
  exact .concat rfl rfl rfl rfl rfl
    (.concat rfl rfl rfl rfl rfl (.operand rfl rfl rfl (.folded (.literal hLiteral) rfl))
      (.operand rfl rfl rfl (.sized (.inr rfl) rfl rfl)))
    (.concat rfl rfl rfl rfl rfl (.operand rfl rfl rfl (.folded (.pattern hPattern) rfl))
      (.operand rfl rfl rfl (.folded .anything rfl)))

theorem concatenation_keeps_language_octets :
    ∃ outcome t', (octetTree.check 6 1 {}).1 = .ok outcome ∧
      (octetTree.check 6 1 {}).2.report = octetTree.report ∧
        (octetTree.check 6 1 {}).2.store.get? 6 = some t' ∧ t'.form.Folded .octet ∧ t'.length = none ∧
          t'.ifPresent = false ∧ t'.language octetTree.definitions .octet =
            (octetLeaves.map (·.language octetTree.definitions .octet)).prod :=
  concatenation_keeps_language rfl rfl rfl octetTree.concatenates (by decide) rfl rfl {}

end Session

end TemplateCheck
