import TemplateCheck.Proofs.Results

/-!
# Nodes that are no references

A node that neither is a reference nor has a reference as its value is the end of its own chain: looking for
the last template finds it at once, and nothing has to be recognized. What remains of the check of such a
node are the check of its form and that of its modifiers.
-/

namespace TemplateCheck

variable {quiet : Bool} {env : Env} {s : Store} {id : NodeId} {t : Template}

def Form.isDirect : Form → Bool
  | .referenced .. | .specific (.ref _) => false
  | _ => true

theorem Form.ne_referenced_of_isDirect {form : Form} (h : form.isDirect) : ∀ r last, form ≠ .referenced r last := by
  rintro r last rfl
  cases h

/-- The end of a chain that can be told from its first node alone. -/
def Env.knownEnd? (env : Env) (id : NodeId) : Form → Option NodeId
  | .referenced _ (some last) => some last
  | .referenced r none => if (env.definitions.target? r).isSome then none else some id
  | _ => some id

def Form.isStructured : Form → Bool
  | .named _ | .list .. | .indexed _ => true
  | _ => false

/-- What is left of the check of a node once its place is known to permit it. -/
def checkPlaced (check : ChildCheck) (flatten : Flattening) (id : NodeId) (governor : TypeKey) (decl : TypeDecl)
    (site : Site) : CheckM Outcome := do
  let selfReference ← checkForm check flatten id governor decl site
  checkModifiers id governor site
  return { selfReference, erroneous := ← isErroneous id }

theorem checkGoverned_eq (check : ChildCheck) (flatten : Flattening) (id : NodeId) (governor : TypeKey)
    (decl : TypeDecl) (site : Site) : checkGoverned check flatten id governor decl site =
      (do recognizeReference id; checkSupported id; checkPlacement id site) >>= fun _ =>
        checkPlaced check flatten id governor decl site := by
  simp only [checkGoverned, checkPlaced, bind_assoc]

section

variable {last : NodeId} (hNode : s.get? id = some t)

include hNode

theorem attains_lastWithin_of_knownEnd (hKnown : env.knownEnd? id t.form = some last) (depth : Nat)
    (chain : ReferenceChain) :
    Attains quiet env s (lastWithin (depth + 1) chain id) fun last' s' => last' = last ∧ s' = s := by
  rw [lastWithin]
  apply Attains.formOf_then hNode
  cases hForm : t.form with
  | referenced r known =>
    rw [hForm] at hKnown
    cases known with
    | some known =>
      cases hKnown
      exact .pure ⟨rfl, rfl⟩
    | none =>
      apply Attains.read_then
      cases hTarget : env.definitions.target? r with
      | none =>
        simp only [Env.knownEnd?, hTarget, Option.isSome_none] at hKnown
        cases hKnown
        exact .pure ⟨rfl, rfl⟩
      | some definition => simp [Env.knownEnd?, hTarget] at hKnown
  | _ =>
    rw [hForm] at hKnown
    cases hKnown
    exact .pure ⟨rfl, rfl⟩

theorem attains_lastTemplate_of_knownEnd (hKnown : env.knownEnd? id t.form = some last) :
    Attains quiet env s (lastTemplate id) fun last' s' => last' = last ∧ s' = s :=
  .store_then (attains_lastWithin_of_knownEnd hNode hKnown _ _)

end

namespace Attains

variable {α β : Type} {P : β → Store → Prop}

theorem inside {x : CheckM α} {Q : α → Store → Prop} (c : Context) (h : Attains quiet env s x Q) :
    Attains quiet env s (inside c x) Q := by
  constructor
  intro report
  obtain ⟨a, after, hRun, hReport, hResult⟩ := h.run (report.enter c)
  refine ⟨a, { after with report := after.report.leave }, ?_, fun hQuiet => ?_, hResult⟩
  · simp only [TemplateCheck.inside, hRun]
  · simp only [hReport hQuiet, Report.leave_enter]

section

variable (hNode : s.get? id = some t) {site : Site}

include hNode

theorem isErroneous_then {f : Bool → CheckM β}
    (h : Attains quiet env s (f t.form.isErroneous) P) : Attains quiet env s (isErroneous id >>= f) P := by
  have hErroneous : Attains quiet env s (isErroneous id) fun b s' => b = t.form.isErroneous ∧ s' = s :=
    formOf_then hNode (pure ⟨rfl, rfl⟩)
  apply hErroneous.bind
  rintro _ _ ⟨rfl, rfl⟩
  exact h

theorem mark (m : Mark) : Attains quiet env s (mark id m) fun _ s' => s' = s.update id (·.mark m) :=
  modifyNode hNode

theorem lastTemplate (hEnd : ∀ r last, t.form ≠ .referenced r last) :
    Attains quiet env s (lastTemplate id) fun last s' => last = id ∧ s' = s := by
  apply attains_lastTemplate_of_knownEnd hNode
  cases hForm : t.form with
  | referenced r last => exact absurd hForm (hEnd r last)
  | _ => rfl

theorem recognizeReference (hDirect : t.form.isDirect) :
    Attains quiet env s (recognizeReference id) fun _ s' => s' = s := by
  apply formOf_then hNode
  split
  · simp_all [Form.isDirect]
  · exact pure rfl

theorem checkSupported (h : env.settings.concatenation ∨
      (∀ left right, t.form ≠ .concat left right) ∧ ∀ encoding target, t.form ≠ .decoded encoding target) :
    Attains quiet env s (checkSupported id) fun _ s' => s' = s := by
  apply read_then
  split
  · exact pure rfl
  · rename_i hConcat
    obtain ⟨hLeft, hDecoded⟩ := h.resolve_left hConcat
    apply formOf_then hNode
    split
    · rename_i hForm
      exact absurd hForm (hLeft _ _)
    · rename_i hForm
      exact absurd hForm (hDecoded _ _)
    · exact pure rfl

theorem checkPlacement (hDirect : t.form.isDirect) (hOmitted : t.form ≠ .omitted)
    (hSite : t.form = .anyOrOmit → site.allowAnyOrOmit) :
    Attains quiet env s (checkPlacement id site) fun _ s' => s' = s := by
  apply (Attains.lastTemplate hNode (Form.ne_referenced_of_isDirect hDirect)).bind
  rintro _ _ ⟨rfl, rfl⟩
  apply formOf_then hNode
  split
  · contradiction
  · rename_i hForm
    simp only [hSite hForm, Bool.not_true, Bool.false_eq_true, if_false]
    exact pure rfl
  · exact pure rfl

/-- Before its form is checked, nothing happens to a node that is no reference and may stand where it does. -/
theorem beforeForm (hDirect : t.form.isDirect) (hSupported : env.settings.concatenation ∨
      (∀ left right, t.form ≠ .concat left right) ∧ ∀ encoding target, t.form ≠ .decoded encoding target)
    (hOmitted : t.form ≠ .omitted) (hSite : t.form = .anyOrOmit → site.allowAnyOrOmit) :
    Attains quiet env s (do
      TemplateCheck.recognizeReference id
      TemplateCheck.checkSupported id
      TemplateCheck.checkPlacement id site) fun _ s' => s' = s := by
  apply (Attains.recognizeReference hNode hDirect).bind
  rintro _ _ rfl
  apply (Attains.checkSupported hNode hSupported).bind
  rintro _ _ rfl
  exact Attains.checkPlacement hNode hDirect hOmitted hSite

theorem beforeForm_structured (site : Site) (h : t.form.isStructured) :
    Attains quiet env s (do
      TemplateCheck.recognizeReference id
      TemplateCheck.checkSupported id
      TemplateCheck.checkPlacement id site) fun _ s' => s' = s := by
  cases hForm : t.form with
  | named | list | indexed =>
    exact .beforeForm hNode (by rw [hForm]; rfl) (.inr (by simp [hForm])) (by simp [hForm]) (by simp [hForm])
  | _ => simp [hForm, Form.isStructured] at h

theorem checkStep {check : ChildCheck} {flatten : Flattening} {governor : TypeKey} {decl : TypeDecl}
    {Q : Outcome → Store → Prop} (hUnchecked : t.marks.checked = false)
    (hDecl : env.types.decl? governor = some decl) (hCategory : decl.category ≠ .erroneous)
    (hPort : decl.category ≠ .port) (h : Attains quiet env (s.update id (·.govern governor))
      (checkGoverned check flatten id governor decl site) Q) :
    Attains quiet env s (checkStep check flatten id governor site) Q := by
  unfold TemplateCheck.checkStep
  apply node_then hNode
  simp only [hUnchecked, Bool.false_eq_true, if_false]
  apply (modifyNode hNode).bind
  rintro _ _ rfl
  apply read_then
  simpa only [hDecl] using h

end

end Attains

end TemplateCheck
