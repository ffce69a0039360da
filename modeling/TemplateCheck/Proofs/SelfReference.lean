import TemplateCheck.Proofs.Chains.Closing
import TemplateCheck.Proofs.Stepwise.Check
import TemplateCheck.Proofs.Together

/-!
# References back to the definition under check

A reference to the definition under check raises a flag, unless the reference has been given up by then. It is
given up where its chain comes back to it, which is reported. So the flag and that report exclude each other: the
flag tells of references whose chain has an end. A slot `all from` with such a reference raises the flag as well; it
is given up, and the report is made, only where a list is spliced that the slot belongs to.
-/

namespace TemplateCheck

open Reading
open List Store
open Relation (TransGen)

variable {env : Env} {p : Problem} {r : Reference} {s : Store} {id : NodeId} {m : Reading} {u t : Template}
  {governor : TypeKey} {definition : Definition}

section Values

def Spared (problems : List Problem) : Prop := ∀ p ∈ problems, p.isCircular = false

namespace Spared

theorem nil : Spared [] := nofun

theorem singleton (h : p.isCircular = false) : Spared [p] := forall_mem_singleton.2 h

theorem ite {c : Prop} [Decidable c] (h : p.isCircular = false) : Spared (if c then [] else [p]) := by
  split
  · exact nil
  · exact singleton h

theorem append {first second : List Problem} (h : Spared first) (h' : Spared second) : Spared (first ++ second) :=
  forall_mem_append.2 ⟨h, h'⟩

end Spared

namespace Env

theorem spared_referenceProblems (type : TypeKey) : Spared (env.referenceProblems r type) := by
  unfold referenceProblems
  split
  · exact .singleton rfl
  split
  · exact .singleton rfl
  split
  · exact .nil
  split
  · exact .ite rfl
  · exact .singleton rfl

theorem spared_literalProblems (decl : TypeDecl) (value : Value) : Spared (literalProblems decl value) := by
  unfold literalProblems
  split
  all_goals first
    | exact .nil
    | exact .ite rfl
    | exact .singleton rfl

theorem referenceTypeProblem?_not_circular
    (h : env.referenceTypeProblem? r definition governor = some p) : p.isCircular = false := by
  obtain ⟨declared, -, h⟩ := Option.bind_eq_some_iff.1 h
  split at h
  · cases h
    rfl
  · split at h
    · cases h
    · cases h
      rfl

mutual

theorem spared_valueProblems (value : Value) (type : TypeKey) (allowOmit : Bool) :
    Spared (env.valueProblems value type allowOmit) := by
  rw [valueProblems]
  split
  · exact .nil
  split
  · exact .nil
  match value with
  | .erroneous => exact .nil
  | .expr _ => exact .nil
  | .ref r => exact spared_referenceProblems type
  | .omitted => exact .ite rfl
  | .list items =>
    simp only
    split
    · exact .nil
    case h_2 | h_3 => exact spared_itemsProblems items _
    · exact .append (.ite rfl) (spared_itemsProblems items _)
    · exact .append (.ite rfl) (spared_positionalProblems items _)
    · exact .singleton rfl
  | .fields entries =>
    simp only
    split
    case h_1 | h_2 => exact spared_entriesProblems entries _
    · exact .append (.ite rfl) (spared_entriesProblems entries _)
    · exact .singleton rfl
  | .notUsed | .boolean _ | .integer _ | .real _ | .null | .enumerated _ | .string _ _ =>
    exact spared_literalProblems _ _

theorem spared_itemsProblems (items : List Value) (element : TypeKey) : Spared (env.itemsProblems items element) := by
  match items with
  | [] => exact .nil
  | item :: items => exact .append (spared_valueProblems item _ _) (spared_itemsProblems items _)

theorem spared_positionalProblems (items : List Value) (fields : List FieldDecl) :
    Spared (env.positionalProblems items fields) := by
  match items, fields with
  | [], _ => exact .nil
  | _ :: _, [] => exact .nil
  | item :: items, field :: fields =>
    exact .append (spared_valueProblems item _ _) (spared_positionalProblems items _)

theorem spared_entriesProblems (entries : List (String × Value)) (decl : TypeDecl) :
    Spared (env.entriesProblems entries decl) := by
  match entries with
  | [] => exact .nil
  | (name, item) :: entries =>
    refine .append ?_ (spared_entriesProblems entries _)
    split
    · exact spared_valueProblems item _ _
    · exact .singleton rfl

end

end Env

end Values

abbrev Report.Spares (before after : Report) : Prop :=
  ∃ found, after.diagnostics = before.diagnostics ++ found ∧ ∀ d ∈ found, d.finding.isCircular = false

/-- The claim is true of the run, and no circular chain has been reported. -/
abbrev Judgement.sparing : Judgement := fun st after p => st.report.Spares after.report ∧ p

instance : Judgement.sparing.Lawful where
  imp hImp h := h.imp_right hImp
  quiet hReport hp := ⟨⟨[], by rw [hReport, append_nil], by simp⟩, hp⟩
  join _ _ h := by
    obtain ⟨⟨found, hFound, hSpared⟩, ⟨more, hMore, hSpared'⟩, hp⟩ := h
    refine ⟨⟨found ++ more, by rw [hMore, hFound, append_assoc], ?_⟩, hp⟩
    intro d hd
    exact (mem_append.1 hd).elim (hSpared d) (hSpared' d)

/-- Whenever the computation ends with a result, `Q` holds of it, and no circular chain has been reported. -/
abbrev Spares (env : Env) (s : Store) {α : Type} (x : CheckM α) (Q : α → Store → Prop) : Prop :=
  Concludes .sparing env s x Q

namespace Spares

theorem tell (span : Span) {finding : Finding} (h : finding.isCircular = false) :
    Spares env s (tell span finding) fun _ s' => s' = s := by
  constructor
  intro report a after hRun
  cases hRun
  refine ⟨⟨_, Report.diagnostics_add .., ?_⟩, rfl⟩
  intro d hd
  rwa [mem_singleton.1 hd]

theorem problem (span : Span) (h : p.isCircular = false) : Spares env s (problem span p) fun _ s' => s' = s :=
  tell span h

theorem reject (h : p.isCircular = false) :
    Spares env s (reject id p) fun _ s' => ∃ t, s'.get? id = some t ∧ t.form = .erroneous := by
  unfold TemplateCheck.reject TemplateCheck.problemAt
  rw [bind_assoc]
  apply Concludes.node_then
  intro t hNode
  apply (problem t.span h).bind
  rintro _ _ rfl
  apply (Concludes.of_attains (.giveUp hNode)).mono
  rintro _ _ rfl
  exact ⟨_, get?_update_some hNode _, rfl⟩

end Spares

/-- It is judged that the invariant is kept, and that the result is one of those that are wanted. -/
def Judgement.Keeps (K : Judgement) (env : Env) (I : Store → Prop) {α β : Type} (x : Unit → CheckM α)
    (view : Unit → β → α) (ok : β → Prop) : Prop :=
  ∀ s, I s → Concludes K env s (x ()) fun a s' => I s' ∧ ∃ b, ok b ∧ a = view () b

theorem Judgement.looks (K : Judgement) [K.Lawful] (env : Env) (I : Store → Prop) :
    (Naming.plain Unit (· = env)).Looks (K.Keeps env I) where
  pure hb ha _ hs := .pure ⟨hs, _, hb, ha ()⟩
  bind hx hf s hs := (hx s hs).bind fun _ s' ⟨hs', b, hb, hEq⟩ => hEq ▸ hf b hb s' hs'
  read_then hf s hs := .read_then (hf env rfl s hs)
  node_then _ hf s hs := .node_then fun t _ => hf t _ (.plain t) s hs

/-- The end of the chain is found again: as it was read, or at the node itself, which is no reference any more. -/
def Reading.Settled (m : Reading) (id : NodeId) (s : Store) : Prop :=
  m.Agrees s ∨ ∃ t, s.get? id = some t ∧ t.form.reference? = none

section Settled

variable (hEnd : ∃ last, m.EndsAt id last)

include hEnd

theorem Reading.Settled.node (h : m.Settled id s) : ∃ t, s.get? id = some t := by
  obtain hAgrees | ⟨t, hNode, -⟩ := h
  · obtain ⟨last, hEnd⟩ := hEnd
    obtain ⟨u, hView, -⟩ := Reading.endsAt_iff.1 hEnd
    obtain ⟨t, hNode, -⟩ := hAgrees.nodes id u hView
    exact ⟨t, hNode⟩
  · exact ⟨t, hNode⟩

theorem Reading.Settled.attains_lastTemplate (h : m.Settled id s) :
    Attains true m.env s (lastTemplate id) fun _ => m.Settled id := by
  obtain hAgrees | ⟨t, hNode, hForm⟩ := h
  · obtain ⟨last, hEnd⟩ := hEnd
    apply (Reading.attains_lastTemplate hEnd hAgrees).mono
    rintro _ s' ⟨-, hLearns⟩
    exact .inl hLearns.agrees
  · have hNone : ∀ r last, t.form ≠ .referenced r last := by
      intro r last hEq
      rw [hEq] at hForm
      cases hForm
    apply (Attains.lastTemplate hNode hNone).mono
    rintro _ s' ⟨-, rfl⟩
    exact .inr ⟨t, hNode, hForm⟩

omit hEnd in
theorem Reading.Settled.mark (h : m.Settled id s) (flag : Mark) : m.Settled id (s.update id (·.mark flag)) := by
  obtain hAgrees | ⟨t, hNode, hForm⟩ := h
  · exact .inl (hAgrees.update fun _ _ _ hFollowed => hFollowed.mark flag)
  · exact .inr ⟨t.mark flag, get?_update_some hNode _, hForm⟩

omit hEnd in
theorem mentions_sparing (env : Env) (I : Store → Prop) :
    (Naming.plain Unit (· = env)).Mentions (Judgement.sparing.Keeps env I) where
  toLooks := Judgement.sparing.looks env I
  mention span finding h s hs := by
    apply (Spares.tell span (Finding.isCircular_of_isOrdinary h)).mono
    rintro _ _ rfl
    exact ⟨hs, (), trivial, rfl⟩

theorem spares_checkModifiers (h : m.Settled id s) (governor : TypeKey) (site : Site) :
    Spares m.env s (checkModifiers id governor site) fun _ _ => True := by
  refine ((mentions_sparing m.env (m.Settled id)).checkModifiers trivial (fun s hs => ?_) (fun {items} _ s hs => ?_)
    (fun s hs => ?_) governor site s h).mono fun _ _ _ => trivial
  · exact (Concludes.of_attains (hs.attains_lastTemplate hEnd)).mono fun last _ hs' => ⟨hs', last, trivial, rfl⟩
  · simp only [Naming.plain_map, map_id']
    apply Concludes.store_then
    cases s.extent items with
    | error fault => exact .throw fault
    | ok a => exact .pure ⟨hs, a, trivial, rfl⟩
  · obtain ⟨t, hNode⟩ := hs.node hEnd
    apply (Concludes.of_attains (.mark hNode .lengthChecked)).mono
    rintro _ _ rfl
    exact ⟨hs.mark .lengthChecked, (), trivial, rfl⟩

theorem spares_checkPlacement (hs : m.Agrees s) (site : Site) :
    Spares m.env s (checkPlacement id site) fun _ => m.Agrees := by
  obtain ⟨last, hEnd⟩ := hEnd
  refine ((mentions_sparing m.env m.Agrees).checkPlacement trivial (fun s hs => ?_) site s hs).mono fun _ _ h => h.1
  apply (Concludes.of_attains (Reading.attains_lastTemplate hEnd hs)).mono
  rintro last s' ⟨-, hLearns⟩
  exact ⟨hLearns.agrees, last, trivial, rfl⟩

end Settled

section Reference

variable {last : NodeId} {target : NodeId} {known : Option NodeId}

theorem spares_checkConformance {allowOmit : Bool} (hNode : s.get? id = some t) :
    Spares env s (checkConformance id governor allowOmit) fun _ s' =>
      ∃ t', s'.get? id = some t' ∧ t'.form = t.form := by
  apply Concludes.nodeIs_then hNode
  split
  · exact .pure ⟨t, hNode, rfl⟩
  apply (Concludes.of_attains (.mark hNode .valueChecked)).bind
  rintro _ _ rfl
  have hMarked := get?_update_some hNode (·.mark .valueChecked)
  split
  · rename_i value _
    apply Concludes.read_then
    have hProblem : ∀ p ∈ env.valueProblems value governor allowOmit, Agreed (Judgement.sparing.Keeps env fun s' =>
        ∃ t', s'.get? id = some t' ∧ t'.form = t.form) fun _ => TemplateCheck.problem t.span p := by
      intro p hp s' hs'
      apply (Spares.problem t.span (env.spared_valueProblems _ _ _ p hp)).mono
      rintro _ _ rfl
      exact ⟨hs', (), trivial, rfl⟩
    have hKept := (Judgement.sparing.looks env _).forM hProblem
    exact (hKept _ ⟨_, hMarked, rfl⟩).mono fun _ _ hResult => hResult.1
  · exact .pure ⟨_, hMarked, rfl⟩

theorem spares_collapseReference (hs : m.Agrees s) (hNode : s.get? id = some u) (hForm : u.form = .referenced r known) :
    Spares m.env s (collapseReference id last governor) fun _ => m.Settled id := by
  apply Concludes.node_then
  intro t _
  split
  · apply Concludes.read_then
    split
    · rename_i constant _
      have hMay : u.form.mayBecome (.specific constant) := by rw [hForm]; rfl
      apply (Concludes.of_attains (.replaceForm hNode hMay)).bind
      rintro _ _ rfl
      apply (spares_checkConformance (get?_update_some hNode _)).mono
      rintro _ s' ⟨t', hNode', hForm'⟩
      exact .inr ⟨t', hNode', by rw [hForm']; rfl⟩
    · exact .pure (.inl hs)
  · exact .pure (.inl hs)

theorem Reading.Agrees.reference (hs : m.Agrees s) (hView : m.view id = some u)
    (hForm : u.form = .referenced r known) : ∃ t known, s.get? id = some t ∧ t.form = .referenced r known := by
  obtain ⟨t, hNode, hFollowed⟩ := hs.nodes id u hView
  cases hFollowed with
  | same marks => exact ⟨_, known, hNode, hForm⟩
  | @known r' last marks hForm' =>
    cases hForm.symm.trans hForm'
    exact ⟨_, some last, hNode, rfl⟩

def Form.RefersTo (form : Form) (r : Reference) : Prop :=
  form = .specific (.ref r) ∨ ∃ known, form = .referenced r known

theorem Reading.Followed.refersTo (h : m.Followed id u t) (hRefers : u.form.RefersTo r) : t.form.RefersTo r := by
  cases h with
  | same marks => exact hRefers
  | @known r' last marks hForm =>
    obtain hValue | ⟨known, hKnown⟩ := hRefers
    · cases hValue.symm.trans hForm
    · cases hKnown.symm.trans hForm
      exact .inr ⟨some last, rfl⟩

theorem Reading.Followed.allFrom (h : m.Followed id u t)
    (hForm : u.form = .allFrom target) : t.form = .allFrom target := by
  cases h with
  | same marks => exact hForm
  | known marks hKnown => cases hForm.symm.trans hKnown

theorem spares_checkReference (hEnd : ∃ last, m.EndsAt id last) (hs : m.Agrees s)
    (hView : m.view id = some u) (hForm : u.form = .referenced r known) :
    Spares m.env s (checkReference id r governor) fun flag s' => flag = m.env.isCurrent r ∧ m.Settled id s' := by
  apply Concludes.read_then
  split
  · rename_i definition _
    have hTarget : Spares m.env s (checkTarget id r definition governor) fun _ => m.Settled id := by
      apply Concludes.read_then
      split
      · rename_i p hProblem
        apply (Spares.reject (Env.referenceTypeProblem?_not_circular hProblem)).mono
        rintro _ s' ⟨t, hNode, hErroneous⟩
        exact .inr ⟨t, hNode, by rw [hErroneous]; rfl⟩
      · obtain ⟨last, hEnd⟩ := hEnd
        apply (Concludes.of_attains (Reading.attains_lastTemplate hEnd hs)).bind
        rintro _ s' ⟨-, hLearns⟩
        obtain ⟨t, known, hNode, hReference⟩ := hLearns.agrees.reference hView hForm
        apply (Concludes.of_attains (attains_isErroneous hNode)).bind
        rintro _ _ ⟨rfl, rfl⟩
        split
        · exact spares_collapseReference hLearns.agrees hNode hReference
        · exact .pure (.inl hLearns.agrees)
    exact hTarget.bind fun _ _ hSettled => .pure ⟨rfl, hSettled⟩
  · exact .throw _

theorem spares_checkSlot (hNode : s.get? target = some u)
    (hRefers : u.form.RefersTo r) (hTarget : env.definitions.target? r = some definition)
    (hContent : definition.kind.isBehaviour = false) :
    Spares env s (checkSlot id target) fun flag s' => flag = env.isCurrent r ∧ s' = s := by
  have hReference : Spares env s (checkSlotReference id r) fun flag s' => flag = env.isCurrent r ∧ s' = s := by
    apply Concludes.read_then
    simp only [hTarget, hContent]
    exact .pure ⟨rfl, rfl⟩
  apply Concludes.formIs_then hNode
  obtain hForm | ⟨known, hForm⟩ := hRefers
  all_goals
    rw [hForm]
    exact hReference

end Reference

def Form.recognized : Form → Form
  | .specific (.ref r) => .referenced r none
  | form => form

/-- The store once a node has got its governor and its reference has been recognized. -/
def Store.recognize (s : Store) (id : NodeId) (governor : TypeKey) : Store :=
  (s.update id (·.govern governor)).update id fun t => { t with form := t.form.recognized }

/-- The node was not checked yet and refers back to the definition under check, which yields a template. -/
structure Store.RefersBack (s : Store) (env : Env) (id : NodeId) (r : Reference) : Prop where
  refers : ∃ t, s.get? id = some t ∧ t.marks.checked = false ∧ t.form.RefersTo r
  current : env.isCurrent r = true
  template : ∃ definition, env.definitions.target? r = some definition ∧ definition.kind.yieldsTemplate = true

/-- The node is a slot that was not checked yet, for the elements of the definition under check. -/
structure Store.TakesInBack (s : Store) (env : Env) (id : NodeId) (r : Reference) : Prop where
  takes : ∃ t target u, s.get? id = some t ∧ t.marks.checked = false ∧ t.form = .allFrom target ∧
    s.get? target = some u ∧ u.form.RefersTo r
  current : env.isCurrent r = true
  content : ∃ definition, env.definitions.target? r = some definition ∧ definition.kind.isBehaviour = false

def checkRecognized (check : ChildCheck) (flatten : Flattening) (id : NodeId) (governor : TypeKey)
    (decl : TypeDecl) (site : Site) : CheckM Outcome := do
  checkPlacement id site
  checkPlaced check flatten id governor decl site

section Check

variable {check : ChildCheck} {flatten : Flattening} {decl : TypeDecl} {site : Site}

theorem run_of_attains_then {β : Type} {x : CheckM Unit} {f : Unit → CheckM β} {s' : Store} (report : Report)
    (h : Attains true env s x fun _ t => t = s') : ((x >>= f) env).run ⟨s, report⟩ = (f () env).run ⟨s', report⟩ := by
  obtain ⟨_, ⟨_, _⟩, hRun, hReport, rfl⟩ := h.run report
  obtain rfl := hReport rfl
  exact run_bind_ok f hRun

section

variable (hNode : s.get? id = some t)

include hNode

theorem Store.get?_recognize :
    (s.recognize id governor).get? id = some { t.govern governor with form := t.form.recognized } :=
  get?_update_some (get?_update_some hNode _) _

theorem Store.recognize_of_plain (hPlain : t.form.recognized = t.form) :
    s.recognize id governor = s.update id (·.govern governor) := by
  refine (update_congr (get?_update_some hNode _) ?_).trans (update_id _ id)
  exact congrArg (fun form => { t.govern governor with form }) hPlain

theorem attains_recognizeReference_plain
    (hForm : ∀ r, t.form ≠ .specific (.ref r)) : Attains true env s (recognizeReference id) fun _ s' => s' = s := by
  apply Attains.formOf_then hNode
  split
  · rename_i hValue
    exact absurd hValue (hForm _)
  · exact .pure rfl

end

/-- The node was not checked yet, and its check starts with the recognition of a reference and finds a form that it
supports. -/
structure Store.Recognizes (s : Store) (env : Env) (id : NodeId) (governor : TypeKey) (t : Template) : Prop where
  node : s.get? id = some t
  unchecked : t.marks.checked = false
  recognized : Attains true env (s.update id (·.govern governor)) (recognizeReference id) fun _ s' =>
    s' = s.recognize id governor
  supported : (∀ left right, t.form.recognized ≠ .concat left right) ∧
    ∀ encoding target, t.form.recognized ≠ .decoded encoding target

theorem Store.Recognizes.of_plain (hNode : s.get? id = some t) (hUnchecked : t.marks.checked = false)
    (hReference : ∀ r, t.form ≠ .specific (.ref r)) (hPlain : t.form.recognized = t.form)
    (hSupported : (∀ left right, t.form ≠ .concat left right) ∧ ∀ encoding target, t.form ≠ .decoded encoding target) :
    s.Recognizes env id governor t where
  node := hNode
  unchecked := hUnchecked
  recognized := by
    rw [recognize_of_plain hNode hPlain]
    exact attains_recognizeReference_plain (get?_update_some hNode _) hReference
  supported := hPlain.symm ▸ hSupported

theorem Store.RefersBack.recognizes (h : s.RefersBack env id r) : ∃ t, s.Recognizes env id governor t := by
  obtain ⟨t, hNode, hUnchecked, hForm⟩ := h.refers
  obtain ⟨definition, hTarget, hYields⟩ := h.template
  have hGoverned := get?_update_some hNode (·.govern governor)
  obtain hForm | ⟨known, hForm⟩ := hForm
  · refine ⟨t, hNode, hUnchecked, ?_, by simp [hForm, Form.recognized]⟩
    apply (attains_recognizeReference hGoverned hForm hTarget hYields).mono
    rintro _ _ rfl
    apply update_congr hGoverned
    simp only [Template.govern, hForm, Form.recognized]
  · exact ⟨t, .of_plain hNode hUnchecked (by simp [hForm]) (by rw [hForm]; rfl) (by simp [hForm])⟩

theorem Store.TakesInBack.recognizes (h : s.TakesInBack env id r) : ∃ t, s.Recognizes env id governor t := by
  obtain ⟨t, target, u, hNode, hUnchecked, hForm, -⟩ := h.takes
  exact ⟨t, .of_plain hNode hUnchecked (by simp [hForm]) (by rw [hForm]; rfl) (by simp [hForm])⟩

variable {report : Report} {outcome : Outcome}

theorem Store.RefersBack.view (h : s.RefersBack env id r) (governor : TypeKey) :
    ∃ t known, (s.recognize id governor).get? id = some t ∧ t.form = .referenced r known := by
  obtain ⟨t, hNode, -, hForm⟩ := h.refers
  obtain hForm | ⟨known, hForm⟩ := hForm
  · exact ⟨_, none, get?_recognize hNode, by simp [hForm, Form.recognized]⟩
  · exact ⟨_, known, get?_recognize hNode, by simp [hForm, Form.recognized]⟩

theorem Store.TakesInBack.view (h : s.TakesInBack env id r) (governor : TypeKey) :
    ∃ t target u, (s.recognize id governor).get? id = some t ∧ t.form = .allFrom target ∧
      (s.recognize id governor).get? target = some u ∧ u.form.RefersTo r := by
  obtain ⟨t, target, u, hNode, -, hForm, hTarget, hRefers⟩ := h.takes
  have hNe : target ≠ id := by
    rintro rfl
    cases hNode.symm.trans hTarget
    rw [hForm] at hRefers
    obtain hValue | ⟨known, hKnown⟩ := hRefers
    · cases hValue
    · cases hKnown
  have hTarget' : (s.recognize id governor).get? target = some u := by
    unfold recognize
    rw [get?_update_of_ne hNe, get?_update_of_ne hNe, hTarget]
  exact ⟨_, target, u, get?_recognize hNode, by simp [hForm, Form.recognized], hTarget', hRefers⟩

theorem spares_checkRecognized {flag : Bool} (hEnd : ∃ last, m.EndsAt id last) (hs : m.Agrees s)
    (hChecked : ∀ s1, m.Agrees s1 →
      Spares m.env s1 (checkForm check flatten id governor decl site) fun f s' => f = flag ∧ m.Settled id s') :
    Spares m.env s (checkRecognized check flatten id governor decl site) fun outcome _ =>
      outcome.selfReference = flag := by
  apply (spares_checkPlacement hEnd hs site).bind
  intro _ s1 hs1
  apply (hChecked s1 hs1).bind
  rintro f s2 ⟨rfl, hSettled⟩
  apply (spares_checkModifiers hEnd hSettled governor site).bind
  intro _ s3 _
  unfold isErroneous
  rw [formOf_bind, bind_assoc]
  exact .node_then fun _ _ => .pure rfl

theorem spares_checkRecognized_reference {known : Option NodeId}
    (hEnd : ∃ last, m.EndsAt id last) (hs : m.Agrees s) (hView : m.view id = some u)
    (hForm : u.form = .referenced r known) :
    Spares m.env s (checkRecognized check flatten id governor decl site) fun outcome _ =>
      outcome.selfReference = m.env.isCurrent r := by
  apply spares_checkRecognized hEnd hs
  intro s1 hs1
  obtain ⟨t, known, hNode, hReference⟩ := hs1.reference hView hForm
  apply Concludes.formIs_then hNode
  rw [hReference]
  exact spares_checkReference hEnd hs1 hView hForm

/-- A slot is the end of its own chain. -/
theorem spares_checkRecognized_slot {target : NodeId}
    (hs : m.Agrees s) (hView : m.view id = some t) (hForm : t.form = .allFrom target)
    (hView' : m.view target = some u) (hRefers : u.form.RefersTo r)
    (hTarget : m.env.definitions.target? r = some definition) (hContent : definition.kind.isBehaviour = false) :
    Spares m.env s (checkRecognized check flatten id governor decl site) fun outcome _ =>
      outcome.selfReference = m.env.isCurrent r := by
  have hEnd : m.EndsAt id id := by
    rw [Reading.endsAt_iff]
    exact ⟨t, hView, by rw [hForm]; rfl⟩
  apply spares_checkRecognized ⟨id, hEnd⟩ hs
  intro s1 hs1
  obtain ⟨t1, hNode, hFollowed⟩ := hs1.nodes id t hView
  obtain ⟨u1, hNode', hFollowed'⟩ := hs1.nodes target u hView'
  apply Concludes.formIs_then hNode
  rw [hFollowed.allFrom hForm]
  apply (spares_checkSlot hNode' (hFollowed'.refersTo hRefers) hTarget hContent).mono
  rintro _ _ ⟨rfl, rfl⟩
  exact ⟨rfl, .inl hs1⟩

section Closed

variable (hCycle : TransGen m.Asks id id) (hs : m.Agrees s)

include hCycle hs

theorem catches_checkPlacement : Catches m.env s id (checkPlacement id site) :=
  (catches_lastTemplate hCycle hs).bind

theorem returns_checkRecognized :
    Returns false m.env s (checkRecognized check flatten id governor decl site) fun outcome _ =>
      outcome.selfReference = false := by
  apply (catches_checkPlacement hCycle hs).returns.bind
  rintro _ s1 ⟨t, hNode, hForm⟩
  have hFlag : Returns false m.env s1 (checkForm check flatten id governor decl site) fun flag _ => flag = false := by
    apply Concludes.formIs_then hNode
    rw [hForm]
    exact .pure rfl
  apply hFlag.bind
  rintro _ s2 rfl
  apply Concludes.trivial.bind
  intro _ s3 _
  exact Concludes.trivial.bind fun _ _ _ => .pure rfl

end Closed

theorem clean_checkRecognized (hs : m.Matches s) :
    Clean m.env s (checkRecognized check flatten id governor decl site) fun _ _ => ∃ last, m.EndsAt id last := by
  have hPlaced : Clean m.env s (checkPlacement id site) fun _ _ => ∃ last, m.EndsAt id last := by
    apply (clean_lastTemplate hs).bind
    rintro last s1 ⟨hEnd, -⟩
    exact Concludes.trivial.mono fun _ _ _ => ⟨last, hEnd⟩
  exact hPlaced.bind fun _ _ hEnd => Concludes.trivial.mono fun _ _ _ => hEnd

/-- Where a list is spliced in the definition under check, a slot for the elements of that definition is reported as
circular and given up. -/
theorem Store.TakesInBack.catches_expandItem {expand : Expand} {inPermutation : Bool} {active : List DefId}
    {done : List NodeId × Bool} (h : s.TakesInBack env id r) (hActive : ∀ d, env.current = some d → d ∈ active) :
    Catches env s id (expandItem expand inPermutation active done id) := by
  obtain ⟨t, target, u, hNode, -, hForm, hTarget, hRefers⟩ := h.takes
  obtain ⟨definition, hDefinition, -⟩ := h.content
  have hCurrent := h.current
  simp only [Env.isCurrent, Bool.and_eq_true, decide_eq_true_eq] at hCurrent
  obtain ⟨current, hIs⟩ := Option.isSome_iff_exists.1 hCurrent.1
  have hSplice : Catches env s id (spliceReference expand inPermutation active id r) := by
    apply Catches.read_then
    simp only [hDefinition, hCurrent.2, hIs, if_pos (hActive current hIs)]
    exact (Catches.reject hNode _).bind
  have hSlot : Catches env s id (spliceSlot expand inPermutation active id target) := by
    apply Catches.formOf_then hTarget
    obtain hForm | ⟨known, hForm⟩ := hRefers
    all_goals
      rw [hForm]
      exact hSplice
  apply Catches.formOf_then hNode
  rw [hForm]
  exact hSlot.bind

section Ends

variable {depth : Nat} {after : CheckState} (hDecl : env.types.decl? governor = some decl)
  (hErroneous : decl.category ≠ .erroneous) (hPort : decl.category ≠ .port)
  (hRun : (checkWithin depth id governor site env).run ⟨s, report⟩ = (.ok outcome, after))

include hDecl hErroneous hPort hRun

theorem Store.Recognizes.exists_run (h : ∃ t, s.Recognizes env id governor t) :
    ∃ check flatten, (checkRecognized check flatten id governor decl site env).run ⟨s.recognize id governor, report⟩ =
      (.ok outcome, after) := by
  obtain ⟨t, h⟩ := h
  have hSupported : Attains true env (s.recognize id governor) (checkSupported id) fun _ s' =>
      s' = s.recognize id governor :=
    .checkSupported (get?_recognize h.node) (.inr h.supported)
  have hNode : (TemplateCheck.node id env).run ⟨s, report⟩ = (.ok t, ⟨s, report⟩) := run_node h.node
  have hGovern : (govern id governor env).run ⟨s, report⟩ = (.ok (), ⟨s.update id (·.govern governor), report⟩) :=
    run_govern h.node governor
  cases depth with
  | zero => cases hRun
  | succ n =>
    refine ⟨checkWithin n, flattenWithin n, ?_⟩
    rw [← hRun, checkWithin, checkStep, run_bind_ok _ hNode, if_neg (by simp [h.unchecked]), run_bind_ok _ hGovern,
      run_bind_ok _ (run_read env _)]
    simp only [hDecl]
    unfold checkGoverned
    rw [run_of_attains_then report h.recognized, run_of_attains_then report hSupported]
    rfl

theorem Store.Recognizes.flagged (h : ∃ t, s.Recognizes env id governor t) (hCurrent : env.isCurrent r = true)
    (hSpares : ∀ check flatten, Spares env (s.recognize id governor)
      (checkRecognized check flatten id governor decl site) fun outcome _ => outcome.selfReference = env.isCurrent r) :
    outcome.selfReference = true ∧ report.Spares after.report := by
  obtain ⟨check, flatten, hRun⟩ := exists_run hDecl hErroneous hPort hRun h
  obtain ⟨hFound, hFlag⟩ := (hSpares check flatten).post report outcome after hRun
  exact ⟨hFlag.trans hCurrent, hFound⟩

theorem Store.RefersBack.flagged_of_endsAt (h : s.RefersBack env id r)
    (hEnd : ∃ last, ((s.recognize id governor).reading env).EndsAt id last) :
    outcome.selfReference = true ∧ report.Spares after.report := by
  obtain ⟨t, known, hView, hForm⟩ := h.view governor
  have hAgrees := (matches_reading (s.recognize id governor) env).toAgrees
  exact Recognizes.flagged hDecl hErroneous hPort hRun h.recognizes h.current fun _ _ =>
    spares_checkRecognized_reference hEnd hAgrees hView hForm

theorem Store.RefersBack.errors_lt (h : s.RefersBack env id r)
    (hNone : ¬ ∃ last, ((s.recognize id governor).reading env).EndsAt id last) :
    report.errors < after.report.errors := by
  obtain ⟨check, flatten, hRun⟩ := Recognizes.exists_run hDecl hErroneous hPort hRun h.recognizes
  have hLe := ((checkRecognized check flatten id governor decl site env).along
    ⟨s.recognize id governor, report⟩).report.errors_le
  rw [hRun] at hLe
  refine Nat.lt_of_le_of_ne hLe fun hSame => hNone ?_
  exact (clean_checkRecognized (matches_reading _ env)).post report outcome after hRun hSame.symm

theorem Store.RefersBack.reported_of_asks (h : s.RefersBack env id r)
    (hCycle : TransGen ((s.recognize id governor).reading env).Asks id id) :
    outcome.selfReference = false ∧ ∃ found, after.report.diagnostics = report.diagnostics ++ found ∧
      ∃ d ∈ found, d.finding.isCircular = true := by
  obtain ⟨check, flatten, hRun⟩ := Recognizes.exists_run hDecl hErroneous hPort hRun h.recognizes
  have hAgrees := (matches_reading (s.recognize id governor) env).toAgrees
  exact ⟨(returns_checkRecognized hCycle hAgrees).post report outcome after hRun (Report.calm_false _ _),
    ((catches_checkPlacement hCycle hAgrees).bind.post report outcome after hRun).1⟩

theorem Store.TakesInBack.flagged (h : s.TakesInBack env id r) :
    outcome.selfReference = true ∧ report.Spares after.report := by
  obtain ⟨t, target, u, hView, hForm, hView', hRefers⟩ := h.view governor
  obtain ⟨definition, hTarget, hContent⟩ := h.content
  have hAgrees := (matches_reading (s.recognize id governor) env).toAgrees
  exact Recognizes.flagged hDecl hErroneous hPort hRun h.recognizes h.current fun _ _ =>
    spares_checkRecognized_slot hAgrees hView hForm hView' hRefers hTarget hContent

end Ends

end Check

end TemplateCheck
