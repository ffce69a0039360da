import TemplateCheck.Proofs.Positions.Check
import TemplateCheck.Proofs.Together

/-!
# A constant and a reference to it

A node may give a constant itself or refer to a template that does. The two nodes are checked side by side: both checks
end with the same result, and what the second one reports beyond the first is known. A constant that folds is compared
with the governor in both places, so the reports are the same, as long as the value is not an `omit` that its place
permits. A constant that does not fold is left to the check of the template that gives it.
-/

namespace TemplateCheck

open List Store

variable {context : List Context} {s s' : Store} {id : NodeId} {form : Form}

namespace Value

/-- Values in which nothing is looked up and nothing evaluated. -/
inductive Literal : Value → Prop where
  | erroneous : Literal .erroneous
  | omitted : Literal .omitted
  | notUsed : Literal .notUsed
  | null : Literal .null
  | boolean (flag : Bool) : Literal (.boolean flag)
  | integer (number : Int) : Literal (.integer number)
  | real (number : Binary64) : Literal (.real number)
  | enumerated (item : String) : Literal (.enumerated item)
  | string (family : StringFamily) (text : String) : Literal (.string family text)
  | list {items : List Value} : (∀ item ∈ items, Literal item) → Literal (.list items)
  | fields {entries : List (String × Value)} : (∀ entry ∈ entries, Literal entry.2) → Literal (.fields entries)

end Value

variable {defs : Definitions} {value constant : Value} {env : Env} {decl : TypeDecl} {α : Type} {depth : Nat}
  {governor : TypeKey}

theorem eq_of_forall₂ {R : α → α → Prop} {items results : List α} (h : List.Forall₂ R items results)
    (hSame : ∀ a ∈ items, ∀ b, R a b → b = a) : results = items := by
  induction h with
  | nil => rfl
  | @cons a b items results hHead _ ih =>
    rw [forall_mem_cons] at hSame
    rw [hSame.1 b hHead, ih hSame.2]

theorem Definitions.foldWithin_literal
    (hLiteral : value.Literal) (h : defs.foldWithin depth value = .ok constant) : constant = value := by
  induction depth generalizing value constant with
  | zero => cases h
  | succ depth ih =>
    cases hLiteral with
    | erroneous => cases h
    | list hItems =>
      obtain ⟨results, hResults, h⟩ := bind_eq_ok_iff.mp h
      cases h
      rw [eq_of_forall₂ (mapM_eq_ok_iff.mp hResults) fun item hItem _ => ih (hItems item hItem)]
    | fields hEntries =>
      obtain ⟨results, hResults, h⟩ := bind_eq_ok_iff.mp h
      cases h
      rw [eq_of_forall₂ (foldEntries_eq_ok hResults) fun entry hEntry result hResult =>
        Prod.ext hResult.1.symm (ih (hEntries entry hEntry) hResult.2)]
    | omitted | notUsed | null | boolean | integer | real | enumerated | string =>
      cases h
      rfl

theorem Definitions.fold?_literal (hLiteral : value.Literal)
    (h : defs.fold? value = some constant) : constant = value := by
  unfold fold? at h
  cases hFold : defs.fold value with
  | error obstacle =>
    rw [hFold] at h
    cases h
  | ok found =>
    rw [hFold] at h
    cases h
    exact foldWithin_literal hLiteral hFold

theorem Env.valueProblems_of_ne_omitted (h : value ≠ .omitted) (type : TypeKey) (allowOmit allowOmit' : Bool) :
    env.valueProblems value type allowOmit = env.valueProblems value type allowOmit' := by
  cases value with
  | omitted => exact absurd rfl h
  | _ => simp only [Env.valueProblems]

theorem Registry.compatible_self {types : Registry} {key : TypeKey}
    (h : types.decl? key = some decl) : types.compatible key key = true := by
  obtain ⟨final, hFinal⟩ := resolve?_of_decl? h
  simp [compatible, compatibleWithin, hFinal]

theorem Env.referenceTypeProblem?_eq_none {r : Reference} {definition : Definition} (hPath : r.path = [])
    (hType : definition.type = some governor)
    (hDecl : env.types.decl? governor = some decl) : env.referenceTypeProblem? r definition governor = none := by
  simp [referenceTypeProblem?, hType, hPath, Registry.part?, Registry.compatible_self hDecl]

inductive Store.Denotes (s : Store) (id : NodeId) (value : Value) : Form → Prop where
  | itself {u : Template} : s.get? id = some u → u.form = .specific value → Denotes s id value (.specific value)
  | followed {u w : Template} {r : Reference} {last : NodeId} : s.get? id = some u →
      u.form = .referenced r (some last) → s.get? last = some w → w.form = .specific value →
      Denotes s id value (.referenced r (some last))

section

variable {form' : Form}

theorem Store.Denotes.update (h : s.Denotes id value form) {f : Template → Template}
    (hf : ∀ t : Template, (f t).form = t.form) : (s.update id f).Denotes id value form := by
  cases h with
  | itself hNode hForm =>
    exact .itself (get?_update_some hNode f) ((hf _).trans hForm)
  | @followed u w r last hNode hForm hLast hValue =>
    have hNe : last ≠ id := by
      rintro rfl
      cases hNode.symm.trans hLast
      cases hForm.symm.trans hValue
    exact .followed (get?_update_some hNode f) ((hf _).trans hForm) ((get?_update_of_ne hNe).trans hLast) hValue

theorem Store.Denotes.attains_lastTemplate (h : s.Denotes id value form) :
    Attains true env s (lastTemplate id) fun last t =>
      t = s ∧ ∃ w, s.get? last = some w ∧ w.form = .specific value := by
  cases h with
  | itself hNode hForm =>
    apply (attains_lastTemplate_of_knownEnd hNode (by rw [hForm]; rfl)).mono
    rintro _ _ ⟨rfl, rfl⟩
    exact ⟨rfl, _, hNode, hForm⟩
  | followed hNode hForm hLast hValue =>
    apply (attains_lastTemplate_of_knownEnd hNode (by rw [hForm]; rfl)).mono
    rintro _ _ ⟨rfl, rfl⟩
    exact ⟨rfl, _, hLast, hValue⟩

structure Store.Abreast (s s' : Store) (id : NodeId) (value : Value) (form form' : Form) : Prop where
  left : s.Denotes id value form
  right : s'.Denotes id value form'
  modifiers : ∃ u u', s.get? id = some u ∧ s'.get? id = some u' ∧ u'.length = u.length ∧
    u'.ifPresent = u.ifPresent ∧ u'.span = u.span ∧ u'.marks.lengthChecked = u.marks.lengthChecked

theorem Store.Denotes.isErroneous (h : s.Denotes id value form) {u : Template} (hNode : s.get? id = some u) :
    u.form.isErroneous = false := by
  cases h with
  | itself hNode' hForm | followed hNode' hForm =>
    cases hNode.symm.trans hNode'
    rw [hForm]
    rfl

section Abreast

variable (h : s.Abreast s' id value form form')

include h

theorem Store.Abreast.mark (m : Mark) :
    (s.update id (·.mark m)).Abreast (s'.update id (·.mark m)) id value form form' := by
  obtain ⟨u, u', hNode, hNode', hLength, hIfPresent, hSpan, hMarks⟩ := h.modifiers
  refine ⟨h.left.update fun _ => rfl, h.right.update fun _ => rfl, u.mark m, u'.mark m, ?_, ?_, hLength,
    hIfPresent, hSpan, ?_⟩
  · exact get?_update_some hNode _
  · exact get?_update_some hNode' _
  · cases m <;> first | rfl | exact hMarks

theorem Store.Abreast.problemAt (p : Problem) :
    Together env context [] s s' (problemAt id p) (problemAt id p) fun _ t t' => t = s ∧ t' = s' := by
  obtain ⟨u, u', hNode, hNode', -, -, hSpan, -⟩ := h.modifiers
  exact .problemAt hNode hNode' hSpan p

theorem Remarks.together {x : NodeId → CheckM α} (hx : Remarks x) :
    Together env context [] s s' (x id) (x id) fun _ t t' => t = s ∧ t' = s' := by
  obtain ⟨u, u', hNode, hNode', -, -, hSpan, -⟩ := h.modifiers
  induction hx with
  | pure _ => exact .pure ⟨rfl, rfl⟩
  | read => exact .read_then (.pure ⟨rfl, rfl⟩)
  | tell span _ => exact .tell span _
  | problemAt _ => exact h.problemAt _
  | warnAt _ =>
    apply Together.node_then hNode hNode'
    rw [hSpan]
    exact .tell _ _
  | bind _ _ ihx ihf =>
    apply ihx.bind
    rintro a _ _ ⟨rfl, rfl⟩
    exact ihf a

theorem together_compareWithBounds (bounds : LengthBounds) (category : Category) :
    Together env context [] s s' (compareWithBounds id bounds category) (compareWithBounds id bounds category)
      fun _ t t' => t = s ∧ t' = s' := by
  apply Together.left_then h.left.attains_lastTemplate
  rintro last _ ⟨rfl, w, hLast, hValue⟩
  apply Together.right_quiet_then h.right.attains_lastTemplate
  rintro last' _ ⟨rfl, w', hLast', hValue'⟩
  apply Together.formOf_then hLast hLast'
  rw [hValue, hValue']
  split
  · exact h.problemAt _
  · exact h.problemAt _
  · apply Together.read_then
    split
    · exact .forM fun p _ => h.problemAt p
    · exact .pure ⟨rfl, rfl⟩

theorem together_checkLengthRestriction (governor : TypeKey) :
    Together env context [] s s' (checkLengthRestriction id governor) (checkLengthRestriction id governor)
      fun _ t t' => t.Abreast t' id value form form' := by
  obtain ⟨u, u', hNode, hNode', hLength, -, -, hMarks⟩ := h.modifiers
  apply Together.node_then hNode hNode'
  rw [hMarks, hLength]
  split
  · exact .pure h
  apply Together.left_then (Attains.mark hNode .lengthChecked)
  rintro _ _ rfl
  apply Together.right_quiet_then (Attains.mark hNode' .lengthChecked)
  rintro _ _ rfl
  generalize hMarked : s.update id (·.mark .lengthChecked) = t
  generalize hMarked' : s'.update id (·.mark .lengthChecked) = t'
  have hAbreast : t.Abreast t' id value form form' := hMarked ▸ hMarked' ▸ h.mark .lengthChecked
  have hStay {x : CheckM Unit} (hx : Together env context [] t t' x x fun _ t1 t1' => t1 = t ∧ t1' = t') :
      Together env context [] t t' x x fun _ t1 t1' => t1.Abreast t1' id value form form' :=
    hx.mono fun _ _ _ ⟨hSame, hSame'⟩ => hSame ▸ hSame' ▸ hAbreast
  split
  · apply ((remarks_foldBounds _).together hAbreast).bind
    rintro bounds _ _ ⟨rfl, rfl⟩
    apply Together.read_then
    split
    · split
      case h_1 | h_2 => exact .pure hAbreast
      · apply ((remarks_compareWithArray bounds _).together hAbreast).bind
        rintro _ _ _ ⟨rfl, rfl⟩
        exact hStay (together_compareWithBounds hAbreast bounds _)
      case h_4 | h_5 | h_6 => exact hStay (together_compareWithBounds hAbreast bounds _)
      · exact hStay (hAbreast.problemAt _)
    · exact .pure hAbreast
  · exact .pure hAbreast

theorem together_checkModifiers (governor : TypeKey) (site : Site) :
    Together env context [] s s' (checkModifiers id governor site) (checkModifiers id governor site)
      fun _ t t' => t.Abreast t' id value form form' := by
  obtain ⟨u, u', hNode, hNode', hLength, hIfPresent, -, -⟩ := h.modifiers
  apply Together.node_then hNode hNode'
  rw [hLength, hIfPresent, h.left.isErroneous hNode, h.right.isErroneous hNode']
  have hRestriction : Together env context [] s s'
      (onlyIf (u.length.isSome && !false) (checkLengthRestriction id governor))
      (onlyIf (u.length.isSome && !false) (checkLengthRestriction id governor))
      fun _ t t' => t.Abreast t' id value form form' := by
    unfold onlyIf
    split
    · exact together_checkLengthRestriction h governor
    · exact .pure h
  apply hRestriction.bind
  intro _ t t' hAbreast
  unfold onlyIf
  split
  · exact (hAbreast.problemAt _).mono fun _ _ _ ⟨hSame, hSame'⟩ => hSame ▸ hSame' ▸ hAbreast
  · exact .pure hAbreast

end Abreast

end

/-- The reference names a template of the given type that consists of the value. -/
structure Env.Yields (env : Env) (s : Store) (r : Reference) (type : TypeKey) (body : NodeId) (value : Value) :
    Prop where
  path : r.path = []
  args : r.args = none
  target : ∃ definition template, env.definitions.target? r = some definition ∧
    definition.kind = .template template ∧ template.body = body ∧ definition.type = some type
  content : ∃ w, s.get? body = some w ∧ w.form = .specific value ∧ w.length = none ∧ w.ifPresent = false

section

variable {body : NodeId} {r : Reference} {site : Site} {u u' : Template} {allowOmit : Bool} {extra : List Diagnostic}
  {check : ChildCheck} {flatten : Flattening} {y : CheckM Bool} {Q : Bool → Store → Store → Prop}

theorem Env.Yields.update (h : env.Yields s r governor body value) (hNe : body ≠ id) (f : Template → Template) :
    env.Yields (s.update id f) r governor body value := by
  obtain ⟨w, hBody, hValue⟩ := h.content
  exact ⟨h.path, h.args, h.target, w, (get?_update_of_ne hNe).trans hBody, hValue⟩

theorem Env.Yields.attains_lastTemplate (h : env.Yields s r governor body value) (hNode : s.get? id = some u)
    (hForm : u.form = .referenced r none) : Attains true env s (lastTemplate id) fun last t => last = body ∧
      t = (s.update id (·.remember body)).update id (·.mark .recursionsChecked) := by
  obtain ⟨definition, template, hTarget, hKind, rfl, hType⟩ := h.target
  obtain ⟨w, hBody, hValue, -, -⟩ := h.content
  have hSize : 0 < s.size := Nat.lt_of_le_of_lt (Nat.zero_le _) (lt_size_of_get? hNode)
  apply Attains.store_then
  rw [lastWithin]
  apply Attains.formOf_then hNode
  rw [hForm]
  apply Attains.read_then
  simp only [hTarget, hKind, DefKind.template?, hType, h.args]
  have hEnd : Attains true env s (chainEnd (lastWithin s.size) ⟨"While searching for referenced template", [], []⟩
      id r template.body governor) fun last t => last = template.body ∧ t = s := by
    apply Attains.store_then
    rw [h.path]
    obtain ⟨size, hSize⟩ : ∃ n, s.size = n + 1 := ⟨s.size - 1, by omega⟩
    rw [hSize]
    exact attains_lastWithin_of_knownEnd hBody (by rw [hValue]; rfl) size _
  have hNode1 := get?_update_some hNode (·.remember template.body)
  apply hEnd.bind
  rintro _ _ ⟨rfl, rfl⟩
  apply (Attains.modifyNode hNode).bind
  rintro _ _ rfl
  apply (Attains.mark hNode1 .recursionsChecked).bind
  rintro _ _ rfl
  exact .pure ⟨rfl, rfl⟩

def Template.followed (u : Template) (r : Reference) (last : NodeId) : Template :=
  { u with form := .referenced r (some last), marks := u.marks.set .recursionsChecked }

theorem Env.Yields.attains_followed (h : env.Yields s r governor body value) (hNe : body ≠ id)
    (hNode : s.get? id = some u) (hForm : u.form = .specific (.ref r)) :
    Attains true env s (do recognizeReference id; checkSupported id; checkPlacement id site) fun _ t =>
      t.get? id = some (u.followed r body) ∧ env.Yields t r governor body value := by
  obtain ⟨definition, template, hTarget, hKind, -, -⟩ := h.target
  have hKindYields : definition.kind.yieldsTemplate = true := by rw [hKind]; rfl
  have hNode1 := get?_update_some hNode fun t => { t with form := .referenced r none }
  have hYields1 := h.update hNe fun t => { t with form := .referenced r none }
  apply (attains_recognizeReference hNode hForm hTarget hKindYields).bind
  rintro _ _ rfl
  apply (Attains.checkSupported hNode1 (.inr (by simp))).bind
  rintro _ _ rfl
  apply (hYields1.attains_lastTemplate hNode1 rfl).bind
  rintro last _ ⟨hLast, rfl⟩
  rw [hLast]
  have hYields2 := (hYields1.update hNe (·.remember body)).update hNe (·.mark .recursionsChecked)
  obtain ⟨w, hBody, hValue, -, -⟩ := hYields2.content
  apply Attains.formOf_then hBody
  rw [hValue]
  exact .pure ⟨get?_update_some (get?_update_some hNode1 _) _, hYields2⟩

theorem Env.Yields.checkReference_then
    (h : env.Yields s r governor body value) (hNe : body ≠ id) (hNode : s.get? id = some (u.followed r body))
    (hDecl : env.types.decl? governor = some decl) (hCurrent : env.isCurrent r = false)
    (hx : Together env context extra s s' (do collapseReference id body governor; return false) y Q) :
    Together env context extra s s' (checkReference id r governor) y Q := by
  obtain ⟨definition, template, hTarget, hKind, -, hType⟩ := h.target
  apply Together.left_then Attains.read
  rintro _ _ ⟨rfl, rfl⟩
  simp only [hTarget, hCurrent, checkTarget, bind_assoc]
  apply Together.left_then Attains.read
  rintro _ _ ⟨rfl, rfl⟩
  simp only [referenceTypeProblem?_eq_none h.path hType hDecl, bind_assoc]
  apply Together.left_then (attains_lastTemplate_of_knownEnd hNode rfl)
  rintro _ _ ⟨rfl, rfl⟩
  apply Together.left_then (attains_isErroneous hNode)
  rintro _ _ ⟨rfl, rfl⟩
  simpa [Template.followed, Form.isErroneous, hNe, Reference.isParameterized, h.args] using hx

theorem Store.Denotes.form_eq (h : s.Denotes id value form) (hNode : s.get? id = some u) : u.form = form := by
  cases h with
  | itself hNode' hForm | followed hNode' hForm =>
    cases hNode.symm.trans hNode'
    exact hForm

theorem together_checkConformance (h : s.Abreast s' id value (.specific value) (.specific value))
    (hNode : s.get? id = some u) (hNode' : s'.get? id = some u')
    (hMarks : u'.marks.valueChecked = u.marks.valueChecked) (hOmit : value = .omitted → allowOmit = false) :
    Together env context [] s s' (checkConformance id governor false) (checkConformance id governor allowOmit)
      fun _ t t' => t.Abreast t' id value (.specific value) (.specific value) := by
  have hPolicy : env.valueProblems value governor false = env.valueProblems value governor allowOmit := by
    by_cases hOmitted : value = .omitted
    · rw [hOmit hOmitted]
    · exact Env.valueProblems_of_ne_omitted hOmitted ..
  obtain ⟨w, w', hFound, hFound', -, -, hSpan, -⟩ := h.modifiers
  cases hFound.symm.trans hNode
  cases hFound'.symm.trans hNode'
  apply Together.node_then hNode hNode'
  rw [hMarks, hSpan, h.left.form_eq hNode, h.right.form_eq hNode']
  split
  · exact .pure h
  apply Together.left_then (Attains.mark hNode .valueChecked)
  rintro _ _ rfl
  apply Together.right_quiet_then (Attains.mark hNode' .valueChecked)
  rintro _ _ rfl
  apply Together.read_then
  rw [hPolicy]
  apply (Together.forM fun p _ => Together.tell _ _).mono
  rintro _ _ _ ⟨rfl, rfl⟩
  exact h.mark .valueChecked

theorem reports_forM_problem (span : Span) (problems : List Problem) :
    Reports env s context (problems.forM (problem span)) fun _ t found =>
      found = problems.map (fun p => ⟨.error p, span, context⟩) ∧ t = s := by
  induction problems with
  | nil => exact .pure ⟨rfl, rfl⟩
  | cons p problems ih =>
    apply (Reports.tell span (.error p)).bind
    rintro _ _ _ ⟨rfl, rfl⟩
    apply ih.mono
    rintro _ _ _ ⟨rfl, rfl⟩
    exact ⟨rfl, rfl⟩

def Env.conformanceFindings (env : Env) (context : List Context) (u : Template) (value : Value) (governor : TypeKey)
    (allowOmit : Bool) : List Diagnostic :=
  if u.marks.valueChecked then []
  else (env.valueProblems value governor allowOmit).map fun p => ⟨.error p, u.span, context⟩

theorem reports_checkConformance (h : s.Abreast s' id value form (.specific value)) (hNode' : s'.get? id = some u') :
    Reports env s' context (checkConformance id governor allowOmit) fun _ t found =>
      found = env.conformanceFindings context u' value governor allowOmit ∧
        s.Abreast t id value form (.specific value) := by
  obtain ⟨w, w', hFound, hFound', hLength, hIfPresent, hSpan, hMarks⟩ := h.modifiers
  cases hFound'.symm.trans hNode'
  apply Reports.node_then hNode'
  rw [h.right.form_eq hNode']
  unfold Env.conformanceFindings
  split
  · exact .pure ⟨rfl, h⟩
  apply Reports.attains_then (Attains.mark hNode' .valueChecked)
  rintro _ _ rfl
  apply Reports.read_then
  apply (reports_forM_problem _ _).mono
  rintro _ _ _ ⟨rfl, rfl⟩
  exact ⟨rfl, h.left, h.right.update fun _ => rfl, w, u'.mark .valueChecked, hFound,
    get?_update_some hNode' _, hLength, hIfPresent, hSpan, hMarks⟩

theorem Value.Literal.isDirect (h : value.Literal) : (Form.specific value).isDirect := by
  cases h <;> rfl

theorem attains_settled (hLiteral : value.Literal) (hNode : s.get? id = some u) (hForm : u.form = .specific value) :
    Attains true env s (do recognizeReference id; checkSupported id; checkPlacement id site) fun _ t => t = s :=
  .beforeForm hNode (hForm ▸ hLiteral.isDirect) (.inr (by simp [hForm])) (by simp [hForm]) (by simp [hForm])

theorem together_checkPlaced {form' : Form}
    (h : Together env context extra s s' (checkForm check flatten id governor decl site)
      (checkForm check flatten id governor decl site) fun _ t t' => t.Abreast t' id value form form') :
    Together env context extra s s' (checkPlaced check flatten id governor decl site)
      (checkPlaced check flatten id governor decl site) fun _ t t' => t.Abreast t' id value form form' := by
  apply h.bind
  intro selfReference t t' hAbreast
  apply (together_checkModifiers hAbreast governor site).bind
  intro _ t1 t1' hAbreast1
  obtain ⟨w, w', hNode, hNode', -⟩ := hAbreast1.modifiers
  unfold isErroneous
  simp only [bind_assoc, pure_bind]
  apply Together.formOf_then hNode hNode'
  rw [hAbreast1.left.isErroneous hNode, hAbreast1.right.isErroneous hNode']
  exact .pure hAbreast1

section Collapse

variable (hYields : env.Yields s r governor body value) (hNode : s.get? id = some (u.followed r body))
  (hNode' : s'.get? id = some { u with form := .specific value })

include hYields

theorem Env.Yields.collapse_then (hx : Together env context extra s s' ((match env.definitions.fold? value with
      | some constant => do replaceForm id (.specific constant); checkConformance id governor false
      | none => pure ()) >>= fun _ => pure false) y Q) :
    Together env context extra s s' (do collapseReference id body governor; return false) y Q := by
  obtain ⟨w, hBody, hValue, hLength, hIfPresent⟩ := hYields.content
  unfold collapseReference
  rw [bind_assoc]
  apply Together.left_then (attains_node hBody)
  rintro _ _ ⟨rfl, rfl⟩
  simp only [hValue, hLength, hIfPresent, bind_assoc]
  apply Together.left_then Attains.read
  rintro _ _ ⟨rfl, rfl⟩
  exact hx

include hNode hNode'

theorem together_collapse (hFold : env.definitions.fold? value = some value)
    (hOmit : value = .omitted → allowOmit = false) :
    Together env context [] s s' (do collapseReference id body governor; return false)
      (do checkConformance id governor allowOmit; return false)
      fun _ t t' => t.Abreast t' id value (.specific value) (.specific value) := by
  have hNode1 := get?_update_some hNode fun t => { t with form := .specific value }
  have hAbreast : (s.update id fun t => { t with form := .specific value }).Abreast s' id value
      (.specific value) (.specific value) :=
    ⟨.itself hNode1 rfl, .itself hNode' rfl, _, _, hNode1, hNode', rfl, rfl, rfl, rfl⟩
  apply hYields.collapse_then
  simp only [hFold, bind_assoc]
  apply Together.left_then (Attains.replaceForm hNode rfl)
  rintro _ _ rfl
  exact (together_checkConformance hAbreast hNode1 hNode' rfl hOmit).bind fun _ _ _ hAfter => .pure hAfter

theorem together_collapse_unfolded (hFold : env.definitions.fold? value = none) : Together env context
      (env.conformanceFindings context { u with form := .specific value } value governor allowOmit) s s'
      (do collapseReference id body governor; return false) (do checkConformance id governor allowOmit; return false)
      fun _ t t' => t.Abreast t' id value (.referenced r (some body)) (.specific value) := by
  obtain ⟨w, hBody, hValue, -, -⟩ := hYields.content
  have hAbreast : s.Abreast s' id value (.referenced r (some body)) (.specific value) :=
    ⟨.followed hNode rfl hBody hValue, .itself hNode' rfl, _, _, hNode, hNode', rfl, rfl, rfl, rfl⟩
  apply Together.right_then (reports_checkConformance hAbreast hNode')
  intro _ t' hAbreast'
  apply hYields.collapse_then
  simp only [hFold, pure_bind]
  exact .pure hAbreast'

end Collapse

theorem together_checkStep_ungoverned (hNode : s.get? id = some u)
    (hNode' : s'.get? id = some u') (hUnchecked : u.marks.checked = false) (hUnchecked' : u'.marks.checked = false)
    (hSpan : u'.span = u.span) (hDecl : ∀ decl, env.types.decl? governor = some decl →
      decl.category = .erroneous ∨ decl.category = .port) :
    Together env context [] s s' (checkStep check flatten id governor site) (checkStep check flatten id governor site)
      fun _ t _ => ∀ decl, env.types.decl? governor = some decl → decl.category = .erroneous →
        ∃ w, t.get? id = some w ∧ w.form = u.form := by
  have hGoverned := get?_update_some hNode (·.govern governor)
  have hGoverned' := get?_update_some hNode' (·.govern governor)
  apply Together.checkStep hNode hNode' hUnchecked hUnchecked'
  cases hFound : env.types.decl? governor with
  | none => exact (Together.reject_then hGoverned hGoverned' hSpan _ _).mono fun _ _ _ _ => by simp
  | some decl =>
    obtain hErroneous | hPort := hDecl decl hFound
    · simp only [checkDeclared, hErroneous]
      exact .pure fun _ _ _ => ⟨_, hGoverned, rfl⟩
    · simp only [checkDeclared, hPort]
      exact (Together.reject_then hGoverned hGoverned' hSpan _ _).mono fun _ _ _ _ => by simp [hPort]

section Checked

variable (hYields : env.Yields s r governor body value) (hNe : body ≠ id) (hLiteral : value.Literal)
  (hNode : s.get? id = some u) (hForm : u.form = .specific (.ref r))
  (hNode' : s'.get? id = some { u with form := .specific value }) (hUnchecked : u.marks.checked = false)
  (hCurrent : env.isCurrent r = false)

include hYields hNe hLiteral hNode hForm hNode' hUnchecked hCurrent

/-- The checks of the reference and of the value part ways only where the reference is to collapse. -/
theorem together_checkStep (hDecl : env.types.decl? governor = some decl) (hErroneous : decl.category ≠ .erroneous)
    (hPort : decl.category ≠ .port)
    (hCollapse : ∀ t t', env.Yields t r governor body value → t.get? id = some ((u.govern governor).followed r body) →
      t'.get? id = some { u.govern governor with form := .specific value } →
      Together env context extra t t' (do collapseReference id body governor; return false)
        (do checkConformance id governor site.allowOmit; return false)
        fun _ t t' => t.Abreast t' id value form (.specific value)) :
    Together env context extra s s' (checkStep check flatten id governor site)
      (checkStep check flatten id governor site) fun _ t t' => t.Abreast t' id value form (.specific value) := by
  have hGoverned' := get?_update_some hNode' (·.govern governor)
  apply Together.checkStep hNode hNode' hUnchecked hUnchecked
  simp only [hDecl, checkDeclared]
  rw [checkGoverned_eq]
  apply Together.left_then ((hYields.update hNe _).attains_followed hNe (get?_update_some hNode _) hForm)
  rintro _ t ⟨hNode1, hYields1⟩
  apply Together.right_quiet_then (attains_settled hLiteral hGoverned' rfl)
  rintro _ t' rfl
  apply together_checkPlaced
  apply Together.formOf_then hNode1 hGoverned'
  exact hYields1.checkReference_then hNe hNode1 hDecl hCurrent (hCollapse _ _ hYields1 hNode1 hGoverned')

/-- Beyond what is reported about the reference, the check of the constant reports what is wrong with it, if it does
not fold. -/
theorem exists_together_checkStep (context : List Context) (check : ChildCheck) (flatten : Flattening)
    (hOmit : value = .omitted → site.allowOmit = false) :
    ∃ extra, ((env.definitions.fold? value).isSome → extra = []) ∧
      (∀ d ∈ extra, ∃ p ∈ env.valueProblems value governor site.allowOmit, d = ⟨.error p, u.span, context⟩) ∧
      Together env context extra s s' (checkStep check flatten id governor site)
        (checkStep check flatten id governor site) fun _ t t' => ∀ decl, env.types.decl? governor = some decl →
          (decl.category ≠ .erroneous → decl.category ≠ .port → t.Abreast t' id value
            (if (env.definitions.fold? value).isSome then .specific value else .referenced r (some body))
            (.specific value)) ∧
          (decl.category = .erroneous → ∃ w, t.get? id = some w ∧ w.form = .specific (.ref r)) := by
  by_cases hProper : ∃ decl, env.types.decl? governor = some decl ∧ decl.category ≠ .erroneous ∧ decl.category ≠ .port
  · obtain ⟨decl, hDecl, hErroneous, hPort⟩ := hProper
    have hEnd : ∀ {t t' : Store} {form}, t.Abreast t' id value form (.specific value) → ∀ other,
        env.types.decl? governor = some other → (other.category ≠ .erroneous → other.category ≠ .port →
          t.Abreast t' id value form (.specific value)) ∧
        (other.category = .erroneous → ∃ w, t.get? id = some w ∧ w.form = .specific (.ref r)) := by
      intro t t' form hAbreast other hOther
      cases hDecl.symm.trans hOther
      exact ⟨fun _ _ => hAbreast, fun hIs => absurd hIs hErroneous⟩
    cases hFold : env.definitions.fold? value with
    | some constant =>
      obtain rfl := Definitions.fold?_literal hLiteral hFold
      refine ⟨[], fun _ => rfl, by simp, ?_⟩
      exact (together_checkStep hYields hNe hLiteral hNode hForm hNode' hUnchecked hCurrent hDecl hErroneous hPort
        fun _ _ hYields hNode hNode' => together_collapse hYields hNode hNode' hFold hOmit).mono
        fun _ _ _ => hEnd
    | none =>
      refine ⟨_, by simp, ?_, (together_checkStep hYields hNe hLiteral hNode hForm hNode' hUnchecked hCurrent hDecl
        hErroneous hPort fun _ _ hYields hNode hNode' => together_collapse_unfolded hYields hNode hNode' hFold).mono
        fun _ _ _ => hEnd⟩
      intro d hd
      unfold Env.conformanceFindings at hd
      split at hd
      · cases hd
      · obtain ⟨p, hp, rfl⟩ := mem_map.1 hd
        exact ⟨p, hp, rfl⟩
  · have hDecl : ∀ decl, env.types.decl? governor = some decl → decl.category = .erroneous ∨ decl.category = .port := by
      intro decl hDecl
      by_contra hNeither
      rw [not_or] at hNeither
      exact hProper ⟨decl, hDecl, hNeither⟩
    refine ⟨[], fun _ => rfl, by simp, ?_⟩
    apply (together_checkStep_ungoverned hNode hNode' hUnchecked hUnchecked rfl hDecl).mono
    intro _ _ _ hLeft decl hFound
    refine ⟨fun hErroneous hPort => absurd ⟨decl, hFound, hErroneous, hPort⟩ hProper, ?_⟩
    simpa only [hForm] using hLeft decl hFound

end Checked

theorem clean_checkStep_governor (hNode : s.get? id = some u)
    (hUnchecked : u.marks.checked = false) : Clean env s (checkStep check flatten id governor site) fun _ _ =>
      ∃ decl, env.types.decl? governor = some decl ∧ decl.category ≠ .port := by
  unfold checkStep
  apply Concludes.nodeIs_then hNode
  simp only [hUnchecked, Bool.false_eq_true, if_false]
  apply (Concludes.trivial (x := govern id governor)).bind
  intro _ s1 _
  apply Concludes.read_then
  split
  · exact Clean.after_error (.reject id _)
  · rename_i decl hDecl
    split
    · exact .pure ⟨decl, hDecl, by simp [*]⟩
    · exact Clean.after_error (.reject id _)
    · rename_i hErroneous hPort
      exact Concludes.trivial.mono fun _ _ _ => ⟨decl, hDecl, hPort⟩

end

namespace Session

def withForm (s : Session) (id : NodeId) (form : Form) : Session :=
  { s with store := s.store.update id fun t => { t with form } }

theorem limit_withForm (s : Session) (id : NodeId) (form : Form) : (s.withForm id form).limit = s.limit := by
  simp [limit, withForm]

theorem check_withForm {s : Session} {site : Site}
    {outcome : Outcome} {after : CheckState} (hDepth : s.limit = depth + 1)
    (hRun : (checkStep (checkWithin depth) (flattenWithin depth) id governor site s.env).run
      ⟨s.store.update id fun t => { t with form }, s.report⟩ = (.ok outcome, after)) :
    (s.withForm id form).check id governor site =
      (.ok outcome, { s with store := after.store, report := after.report }) := by
  apply run_of_run
  rw [limit_withForm, hDepth]
  exact hRun

/-- A reference to a template that consists of a constant is checked like the constant itself, unless this is an
`omit` that its place permits. Both checks end with the same result. The check of the constant reports all that the
check of the reference reports. It reports nothing else if the constant folds, and at most what is wrong with the
constant if it does not. A constant that folds takes the place of the reference, which is left in place otherwise and
under an erroneous type. -/
theorem reference_checked_as_constant (s : Session) {id body : NodeId} {t : Template} {r : Reference}
    {governor : TypeKey} {value : Value} (site : Site) (hNode : s.store.get? id = some t)
    (hUnchecked : t.marks.checked = false) (hYields : s.env.Yields s.store r governor body value) (hNe : body ≠ id)
    (hLiteral : value.Literal) (hOmit : value = .omitted → site.allowOmit = false) :
    let asReference := (s.withForm id (.specific (.ref r))).check id governor site
    let asValue := (s.withForm id (.specific value)).check id governor site
    ∃ outcome found extra, asReference.1 = .ok outcome ∧ asValue.1 = .ok outcome ∧
      asReference.2.report.diagnostics = s.report.diagnostics ++ found ∧
      asValue.2.report.diagnostics = s.report.diagnostics ++ (extra ++ found) ∧
      ((s.definitions.fold? value).isSome → extra = []) ∧
      (∀ d ∈ extra, ∃ p ∈ s.env.valueProblems value governor site.allowOmit,
        d = ⟨.error p, t.span, s.report.context⟩) ∧
      ((s.definitions.fold? value).isSome → (∀ d ∈ found, d.finding.isError = false) →
        (∀ decl, s.types.decl? governor = some decl → decl.category ≠ .erroneous) →
        (∃ u, asReference.2.store.get? id = some u ∧ u.form = .specific value) ∧
          ∃ u, asValue.2.store.get? id = some u ∧ u.form = .specific value) ∧
      ∀ decl, s.types.decl? governor = some decl →
        (s.definitions.fold? value = none → decl.category ≠ .erroneous → decl.category ≠ .port →
          ∃ u, asReference.2.store.get? id = some u ∧ u.form = .referenced r (some body)) ∧
        (decl.category = .erroneous → ∃ u, asReference.2.store.get? id = some u ∧ u.form = .specific (.ref r)) := by
  obtain ⟨depth, hDepth⟩ := Nat.exists_eq_succ_of_ne_zero (show s.limit ≠ 0 by simp [limit])
  have hReference := get?_update_some hNode fun t => { t with form := .specific (.ref r) }
  have hConstant := get?_update_some hNode fun t => { t with form := .specific value }
  have hCurrent : s.env.isCurrent r = false := rfl
  obtain ⟨extra, hExtra, hWrong, hTogether⟩ := exists_together_checkStep (hYields.update hNe _) hNe hLiteral hReference
    rfl hConstant hUnchecked hCurrent s.report.context (checkWithin depth)
    (flattenWithin depth) hOmit
  obtain ⟨outcome, after, after', found, hRun, hRun', hFound, hFound', hEnd⟩ :=
    hTogether.run s.report s.report rfl rfl
  have hExtends : s.report.Extends after.report := (evolves_of_run hRun).report
  intro asReference asValue
  have hAsReference : asReference = (.ok outcome, { s with store := after.store, report := after.report }) :=
    check_withForm hDepth hRun
  have hAsValue : asValue = (.ok outcome, { s with store := after'.store, report := after'.report }) :=
    check_withForm hDepth hRun'
  rw [hAsReference, hAsValue]
  refine ⟨outcome, found, extra, rfl, rfl, hFound, hFound', hExtra, hWrong, fun hFolds hClean hKnown => ?_,
    fun decl hDecl => ⟨fun hFolds hErroneous hPort => ?_, (hEnd decl hDecl).2⟩⟩
  · have hErrors := hExtends.errors_eq (by rwa [hFound, drop_left])
    obtain ⟨decl, hDecl, hPort⟩ := (clean_checkStep_governor hReference hUnchecked).post _ _ _ hRun hErrors
    have hAbreast := (hEnd decl hDecl).1 (hKnown decl hDecl) hPort
    rw [if_pos (show (s.env.definitions.fold? value).isSome from hFolds)] at hAbreast
    obtain ⟨u, u', hNode1, hNode1', -⟩ := hAbreast.modifiers
    exact ⟨⟨u, hNode1, hAbreast.left.form_eq hNode1⟩, u', hNode1', hAbreast.right.form_eq hNode1'⟩
  · have hAbreast := (hEnd decl hDecl).1 hErroneous hPort
    rw [show s.env.definitions.fold? value = none from hFolds] at hAbreast
    obtain ⟨u, _, hNode1, -⟩ := hAbreast.modifiers
    exact ⟨u, hNode1, hAbreast.left.form_eq hNode1⟩

/-- A template `t` that consists of a value, and a node to be checked against the type of the template. -/
def standIn (decl : TypeDecl) (value : Value) : Session where
  types := ⟨[(1, decl), (2, ⟨"integer", .integer⟩)]⟩
  definitions := ⟨[.ofBody "t" 1 0]⟩
  store := .ofForms [.specific value, .notUsed]

def standIn.asReference (decl : TypeDecl) (value : Value) : Except Fault Outcome × Session :=
  ((standIn decl value).withForm 1 (.specific (.ref (.plain "t" (some 0) {})))).check 1 1 {}

def standIn.asValue (decl : TypeDecl) (value : Value) : Except Fault Outcome × Session :=
  ((standIn decl value).withForm 1 (.specific value)).check 1 1 {}

theorem standIn.yields (decl : TypeDecl) (value : Value) :
    (standIn decl value).env.Yields (standIn decl value).store (.plain "t" (some 0) {}) 1 0 value :=
  ⟨rfl, rfl, ⟨_, _, rfl, rfl, rfl, rfl⟩, _, rfl, rfl, rfl, rfl⟩

/-- A list of two elements, one of them of the wrong type. -/
theorem reference_checked_as_constant_list :
    (standIn.asReference ⟨"L", .recordOf 2⟩ (.list [.integer 1, .boolean true])).2.report.diagnostics =
        (standIn.asValue ⟨"L", .recordOf 2⟩ (.list [.integer 1, .boolean true])).2.report.diagnostics ∧
      (standIn.asValue ⟨"L", .recordOf 2⟩ (.list [.integer 1, .boolean true])).2.report.errors = 1 := by
  have hLiteral : (Value.list [.integer 1, .boolean true]).Literal := by
    refine .list fun item hItem => ?_
    rcases mem_cons.1 hItem with rfl | hItem
    · exact .integer 1
    · rw [mem_singleton.1 hItem]
      exact .boolean true
  have hNode : (standIn ⟨"L", .recordOf 2⟩ (.list [.integer 1, .boolean true])).store.get? 1 =
      some { form := .notUsed } := rfl
  have hOmit : Value.list [.integer 1, .boolean true] = .omitted → ({} : Site).allowOmit = false := by
    intro hOmitted
    cases hOmitted
  obtain ⟨_, found, extra, -, -, hFound, hFound', hExtra, -⟩ :=
    reference_checked_as_constant _ {} hNode rfl (standIn.yields _ _) (by decide) hLiteral hOmit
  constructor
  · rw [hExtra (by rfl)] at hFound'
    exact hFound.trans hFound'.symm
  · decide +kernel

/-- Where the reference and the constant are told apart: an `omit` that its place permits is reported if it comes
through a reference; a constant with a failed part is not looked at if it does; and under an erroneous type the
reference remains. -/
theorem standIn_exceptions :
    ((standIn.asReference ⟨"integer", .integer⟩ .omitted).2.report.errors = 1 ∧
      (standIn.asValue ⟨"integer", .integer⟩ .omitted).2.report.errors = 0) ∧
    ((standIn.asReference ⟨"L", .recordOf 2⟩ (.list [.erroneous, .boolean true])).2.report.errors = 0 ∧
      (standIn.asValue ⟨"L", .recordOf 2⟩ (.list [.erroneous, .boolean true])).2.report.errors = 1) ∧
    ((standIn.asReference ⟨"E", .erroneous⟩ (.integer 1)).2.report.errors = 0 ∧
      (standIn.asValue ⟨"E", .erroneous⟩ (.integer 1)).2.report.errors = 0 ∧
      ∃ u, (standIn.asReference ⟨"E", .erroneous⟩ (.integer 1)).2.store.get? 1 = some u ∧
        u.form = .specific (.ref (.plain "t" (some 0) {}))) :=
  ⟨⟨by decide +kernel, by decide +kernel⟩, ⟨by decide +kernel, by decide +kernel⟩, by decide +kernel,
    by decide +kernel, _, rfl, rfl⟩

end Session

end TemplateCheck
