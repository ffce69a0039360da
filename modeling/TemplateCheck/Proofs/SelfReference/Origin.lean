import TemplateCheck.Proofs.Locality.Resolution
import TemplateCheck.Proofs.SelfReference

/-!
# Where the flag of a definition comes from

The check of a node hands up the flags of the nodes that are checked below it. One that is raised was raised by the
check of a node that refers back to the definition under check, or takes in its elements.
-/

namespace TemplateCheck

open List Reading Store
open Relation (TransGen)

variable {env : Env} {st st' after after' : CheckState} {id : NodeId} {s s' : Store} {t t' : Template} {r : Reference}

/-- The later state has the nodes of the earlier one, however they have evolved, and its findings. -/
structure CheckState.Precedes (st after : CheckState) : Prop where
  store : st.store.Evolves after.store
  report : st.report.diagnostics <+: after.report.diagnostics

instance : Course CheckState.Precedes where
  refl _ := ⟨Course.refl _, prefix_rfl⟩
  trans hFirst hSecond := ⟨Course.trans hFirst.store hSecond.store, hFirst.report.trans hSecond.report⟩

theorem CheckState.Evolves.precedes (h : st.Evolves after) : st.Precedes after :=
  have ⟨found, hFound, _⟩ := h.report.added
  ⟨h.store, found, hFound.symm⟩

/-- The check of a node that refers back to the definition under check, or takes in its elements, raises the flag. -/
structure Env.Raises (env : Env) (id : NodeId) (st after : CheckState) : Prop where
  back : ∃ r, st.store.RefersBack env id r ∨ st.store.TakesInBack env id r
  ends : ∃ depth governor decl site outcome, env.types.decl? governor = some decl ∧ decl.category ≠ .erroneous ∧
    decl.category ≠ .port ∧ (checkWithin depth id governor site env).run st = (.ok outcome, after) ∧
    outcome.selfReference = true

/-- Between the two states, the check of some node has raised the flag. -/
def CheckState.Raised (env : Env) (st after : CheckState) : Prop :=
  ∃ id st1 st2, st.Precedes st1 ∧ env.Raises id st1 st2 ∧ st2.Precedes after

theorem CheckState.Raised.extend (h : st'.Raised env after') (hFirst : st.Precedes st')
    (hLast : after'.Precedes after) : st.Raised env after := by
  obtain ⟨id, st1, st2, hBefore, hRaises, hAfter⟩ := h
  exact ⟨id, st1, st2, Course.trans hFirst hBefore, hRaises, Course.trans hAfter hLast⟩

/-- The claim is true of the run, unless a flag has been raised meanwhile. -/
abbrev Judgement.raising (env : Env) : Judgement := fun st after p => st.Raised env after ∨ p

instance : (Judgement.raising env).Lenient where
  imp hImp h := h.imp_right hImp
  quiet _ hp := .inr hp
  join hFirst hSecond h := by
    obtain hRaised | hRaised | hp := h
    · exact .inl (hRaised.extend (Course.refl _) hSecond.precedes)
    · exact .inl (hRaised.extend hFirst.precedes (Course.refl _))
    · exact .inr hp
  of hp := .inr hp

section Passed

abbrev Passes (env : Env) {α β : Type} (x : Unit → CheckM α) (view : Unit → β → α) (ok : β → Prop) : Prop :=
  (Judgement.raising env).Keeps env (fun _ => True) x view ok

theorem passes_any {α : Type} (x : Unit → CheckM α) : Agreed (Passes env) x :=
  fun _ _ => Concludes.trivial.mono fun a _ _ => ⟨trivial, a, trivial, rfl⟩

theorem checks_passes (env : Env) :
    (Naming.plain Unit (· = env)).Checks (fun _ => True) (fun _ => True) (Passes env) where
  toLooks := Judgement.looks _ env _
  problem _ _ _ := passes_any _
  mention _ _ _ := passes_any _
  tell _ _ := passes_any _
  lastTemplate _ := passes_any _
  extent _ := passes_any _
  known _ := trivial
  inside _ _ := passes_any _
  mark _ _ _ := passes_any _
  giveUp _ _ _ := passes_any _
  basePart _ _ _ _ _ _ _ := Concludes.trivial.mono fun part _ _ => ⟨trivial, part, fun _ _ => trivial, by simp⟩
  linkBase _ _ := passes_any _
  inheritBase _ _ := passes_any _
  undefined _ _ _ := passes_any _
  giveUpWith _ _ _ := passes_any _
  become _ _ _ _ _ := passes_any _
  children_then _ hf s hs :=
    .formOf_then fun t _ => by simpa using hf t.form (Naming.holds_plain _) (fun _ _ => trivial) s hs
  recognized_then _ hx :=
    have h := Judgement.looks (.raising env) env fun _ => True
    h.next (passes_any _) fun _ => h.next (passes_any _) fun _ => h.next (passes_any _) fun _ => hx
  govern _ _ := passes_any _
  name _ _ := passes_any _
  fillOmitted _ _ _ := passes_any _

theorem flag_passes (env : Env) : Flag (Passes env) (· = false) where
  lowered := rfl
  either := by rintro _ _ rfl rfl; rfl
  inside c hx s hs := by
    constructor
    intro report a after hRun
    obtain ⟨middle, hInner, rfl⟩ := of_run_inside hRun
    refine ((hx s hs).post _ a middle hInner).imp_left fun hRaised => ?_
    exact hRaised.extend ⟨Course.refl _, prefix_rfl⟩ ⟨Course.refl _, prefix_rfl⟩

end Passed

/-! What a node refers to or takes in when its form is checked, it did before its check began. -/

def Template.Kin (t t' : Template) : Prop :=
  (∀ r, t'.form.RefersTo r → t.form.RefersTo r) ∧ ∀ target, t'.form = .allFrom target → t.form = .allFrom target

theorem Template.kin_of_eq (h : t'.form = t.form) : t.Kin t' := ⟨fun _ => h ▸ id, fun _ => h ▸ id⟩

theorem Template.kin_of_erroneous (h : t'.form = .erroneous) : t.Kin t' := by
  simp [Kin, Form.RefersTo, h]

instance : Course Template.Kin where
  refl _ := Template.kin_of_eq rfl
  trans hFirst hSecond := ⟨fun r h => hFirst.1 r (hSecond.1 r h), fun target h => hFirst.2 target (hSecond.2 target h)⟩

theorem Template.Pursued.kin (h : t.Pursued t') : t.Kin t' := by
  cases h with
  | same => exact Course.refl t
  | followed hForm => simp [Kin, Form.RefersTo, hForm]
  | givenUp => exact kin_of_erroneous rfl

namespace Store

abbrev Traces : Store → Store → Prop := Turns fun _ => Template.Kin

/-- The node refers to the definition under check or takes in its elements. -/
def PointsBack (s : Store) (env : Env) (id : NodeId) (r : Reference) : Prop :=
  env.isCurrent r = true ∧ ∃ t, s.get? id = some t ∧
    (t.form.RefersTo r ∨ ∃ target u, t.form = .allFrom target ∧ s.get? target = some u ∧ u.form.RefersTo r)

theorem PointsBack.of_traces (h : s'.PointsBack env id r) (hTraces : s.Traces s') : s.PointsBack env id r := by
  obtain ⟨hCurrent, t', hNode', hBack⟩ := h
  obtain ⟨t, hNode, hKin⟩ := hTraces.of_get? hNode'
  refine ⟨hCurrent, t, hNode, hBack.imp (hKin.1 r) ?_⟩
  rintro ⟨target, u', hForm, hTarget', hRefers⟩
  obtain ⟨u, hTarget, hKin'⟩ := hTraces.of_get? hTarget'
  exact ⟨target, u, hKin.2 target hForm, hTarget, hKin'.1 r hRefers⟩

end Store

section Check

variable {K : Judgement} [K.Lenient]

theorem traces_reject (p : Problem) : Concludes K env s (reject id p) fun _ => s.Traces := by
  apply Concludes.still_then (Still.problemAt id p)
  intro _
  apply Concludes.replaceForm.mono
  rintro _ _ ⟨-, rfl⟩
  exact turns_update fun _ _ => Template.kin_of_erroneous rfl

theorem traces_recognizeReference : Concludes K env s (recognizeReference id) fun _ => s.Traces := by
  apply Concludes.formOf_then
  intro t hNode
  split
  · rename_i hForm
    apply Concludes.read_then
    split
    · exact traces_reject _
    split
    · apply Concludes.replaceForm.mono
      rintro _ _ ⟨-, rfl⟩
      refine turns_update fun t' hNode' => ?_
      cases hNode.symm.trans hNode'
      simp [Template.Kin, Form.RefersTo, hForm]
    · exact .pure (Course.refl s)
  · exact .pure (Course.refl s)

theorem traces_checkSupported : Concludes K env s (checkSupported id) fun _ => s.Traces := by
  apply Concludes.read_then
  split
  · exact .pure (Course.refl s)
  · apply Concludes.formOf_then
    intro t _
    split
    case h_1 | h_2 => exact traces_reject _
    · exact .pure (Course.refl s)

theorem flag_checkReference (r : Reference) (governor : TypeKey) :
    Concludes K env s (checkReference id r governor) fun flag _ => flag = env.isCurrent r := by
  apply Concludes.read_then
  split
  · exact Concludes.trivial.bind fun _ _ _ => .pure rfl
  · exact .throw _

theorem flag_checkSlot (target : NodeId) : Concludes K env s (checkSlot id target) fun flag _ => flag = true →
    ∃ u r, s.get? target = some u ∧ u.form.RefersTo r ∧ env.isCurrent r = true := by
  have hReject : ∀ {s p} {Q : Prop}, Concludes K env s (do reject id p; return false) fun flag _ => flag = true → Q :=
    Concludes.trivial.bind fun _ _ _ => .pure nofun
  have hReference : ∀ r, Concludes K env s (checkSlotReference id r) fun flag _ => flag = true →
      env.isCurrent r = true := by
    intro r
    apply Concludes.read_then
    split
    · exact hReject
    split
    · exact hReject
    · exact .pure fun h => h
  apply Concludes.formOf_then
  intro u hNode
  split
  · rename_i r hForm
    exact (hReference r).mono fun _ _ hFlag h => ⟨u, r, hNode, .inl hForm, hFlag h⟩
  · rename_i r known hForm
    exact (hReference r).mono fun _ _ hFlag h => ⟨u, r, hNode, .inr ⟨known, hForm⟩, hFlag h⟩
  · exact .pure nofun
  · exact hReject

end Check

section Descent

variable {check : ChildCheck} {flatten : Flattening} {governor : TypeKey} {decl : TypeDecl} {site : Site}
  (hCheck : ∀ id type site, True → Passes env (fun _ => check id type site) (fun _ outcome => outcome)
    fun outcome => outcome.selfReference = false)

include hCheck

theorem concludes_checkForm : Concludes (.raising env) env s (checkForm check flatten id governor decl site)
    fun flag _ => flag = true → ∃ r, s.PointsBack env id r := by
  have h := checks_passes env
  have hF := flag_passes env
  have hLow : ∀ x : CheckM Bool, Flagged (Passes env) (· = false) (fun _ => x) → Concludes (.raising env) env s x
      fun flag _ => flag = true → ∃ r, s.PointsBack env id r := by
    intro x hx
    apply (hx s trivial).mono
    rintro _ _ ⟨-, _, rfl, rfl⟩
    simp
  have hDone : ∀ x : CheckM Unit, Concludes (.raising env) env s (do x; return false) fun flag _ => flag = true →
      ∃ r, s.PointsBack env id r := fun x => Concludes.trivial.bind fun _ _ _ => .pure nofun
  have hFlatten : ∀ id, True → Agreed (Passes env) fun _ => flatten id := fun _ _ => passes_any _
  have hCategory := hLow (checkByCategory check flatten id decl site)
    (h.checkByCategory hF hCheck hFlatten trivial decl site)
  have hAlternatives : ∀ shape, _ := fun shape => hLow (checkAlternatives check flatten id shape governor site)
    (h.checkAlternatives hF hCheck hFlatten trivial shape governor site)
  apply Concludes.formOf_then
  intro t hNode
  cases hForm : t.form with
  | erroneous => exact .pure nofun
  | notUsed | omitted | anyValue | anyOrOmit | specific | invoke => exact hDone _
  | allFrom target =>
    apply (flag_checkSlot target).mono
    intro flag _ hSlot hFlag
    obtain ⟨u, r, hTarget, hRefers, hCurrent⟩ := hSlot hFlag
    exact ⟨r, hCurrent, t, hNode, .inr ⟨target, u, hForm, hTarget, hRefers⟩⟩
  | list shape items =>
    cases shape with
    | valueList | complemented => exact hAlternatives _
    | _ => exact hCategory
  | referenced r known =>
    apply (flag_checkReference r governor).mono
    rintro _ _ rfl hCurrent
    exact ⟨r, hCurrent, t, hNode, .inl (.inr ⟨known, hForm⟩)⟩
  | concat left right => exact hLow _ (h.checkConcatenation hF hCheck trivial trivial trivial governor decl)
  | _ => exact hCategory

theorem concludes_checkStep : Concludes (.raising env) env s (checkStep check flatten id governor site)
    fun outcome _ => outcome.selfReference = true →
      (∃ decl, env.types.decl? governor = some decl ∧ decl.category ≠ .erroneous ∧ decl.category ≠ .port) ∧
      ∃ t r, s.get? id = some t ∧ t.marks.checked = false ∧ s.PointsBack env id r := by
  apply Concludes.node_then
  intro t hNode
  split
  · exact .pure (by simp)
  rename_i hUnchecked
  apply Concludes.modifyNode.bind
  rintro _ _ ⟨-, rfl⟩
  apply Concludes.read_then
  split
  · exact Concludes.trivial.bind fun _ _ _ => .pure (by simp)
  rename_i decl hDecl
  split
  · exact .pure (by simp)
  · exact Concludes.trivial.bind fun _ _ _ => .pure (by simp)
  rename_i hErroneous hPort
  rw [checkGoverned_eq, bind_assoc, bind_assoc]
  apply traces_recognizeReference.bind
  intro _ s1 h1
  apply traces_checkSupported.bind
  intro _ s2 h2
  apply (Concludes.of_moves (steps_checkPlacement site)).bind
  rintro _ s3 ⟨h3, -⟩
  apply (concludes_checkForm hCheck).bind
  intro flag s4 hFlag
  apply Concludes.trivial.bind
  intro _ s5 _
  refine Concludes.trivial.bind fun _ _ _ => .pure fun hRaised => ?_
  obtain ⟨r, hBack⟩ := hFlag hRaised
  have hTraces : s.Traces (s.update id (·.govern governor)) := turns_update fun _ _ => Template.kin_of_eq rfl
  have hPlaced : s2.Traces s3 := h3.mono fun _ _ _ => Template.Pursued.kin
  exact ⟨⟨decl, hDecl, hErroneous, hPort⟩, t, r, hNode, by simpa using hUnchecked,
    hBack.of_traces (Course.trans hTraces (Course.trans h1 (Course.trans h2 hPlaced)))⟩

end Descent

section Definition

variable (hTemplate : ∀ r, env.isCurrent r = true → ∃ definition, env.definitions.target? r = some definition ∧
  definition.kind.yieldsTemplate = true ∧ definition.kind.isBehaviour = false)

include hTemplate

theorem Store.PointsBack.refersBack (h : s.PointsBack env id r) (hNode : s.get? id = some t)
    (hUnchecked : t.marks.checked = false) : s.RefersBack env id r ∨ s.TakesInBack env id r := by
  obtain ⟨hCurrent, t', hNode', hBack⟩ := h
  cases hNode.symm.trans hNode'
  obtain ⟨definition, hTarget, hYields, hContent⟩ := hTemplate r hCurrent
  obtain hRefers | ⟨target, u, hForm, hFound, hRefers⟩ := hBack
  · exact .inl ⟨⟨t, hNode, hUnchecked, hRefers⟩, hCurrent, definition, hTarget, hYields⟩
  · exact .inr ⟨⟨t, target, u, hNode, hUnchecked, hForm, hFound, hRefers⟩, hCurrent, definition, hTarget, hContent⟩

theorem passes_checkWithin (depth : Nat) (id : NodeId) (governor : TypeKey) (site : Site) :
    Passes env (fun _ => checkWithin depth id governor site) (fun _ outcome => outcome)
      fun outcome => outcome.selfReference = false := by
  induction depth generalizing id governor site with
  | zero => exact fun _ _ => .throw _
  | succ depth ih =>
    intro s _
    constructor
    intro report outcome after hRun
    obtain hRaised | hOwn := (concludes_checkStep fun id governor site _ => ih id governor site).post report outcome
      after hRun
    · exact .inl hRaised
    cases hFlag : outcome.selfReference with
    | false => exact .inr ⟨trivial, outcome, hFlag, rfl⟩
    | true =>
      obtain ⟨⟨decl, hDecl⟩, t, r, hNode, hUnchecked, hBack⟩ := hOwn hFlag
      exact .inl ⟨id, ⟨s, report⟩, after, Course.refl _, ⟨⟨r, hBack.refersBack hTemplate hNode hUnchecked⟩, depth + 1,
        governor, decl, site, outcome, hDecl.1, hDecl.2.1, hDecl.2.2, hRun, hFlag⟩, Course.refl _⟩

end Definition

theorem raised_checkDefinition {depth : Nat} {d : DefId} {definition : Definition} {template : TemplateDef}
    {outcome : Outcome} (hDefinition : env.definitions.get? d = some definition)
    (hTemplate : definition.kind.template? = some template)
    (hRun : (checkDefinition depth d env).run st = (.ok outcome, after)) (hFlag : outcome.selfReference = true) :
    st.Raised { env with current := some d } after := by
  have hCurrent : ∀ r, Env.isCurrent { env with current := some d } r = true → ∃ definition,
      env.definitions.target? r = some definition ∧ definition.kind.yieldsTemplate = true ∧
      definition.kind.isBehaviour = false := by
    intro r hr
    simp only [Env.isCurrent, Bool.and_eq_true, decide_eq_true_eq] at hr
    refine ⟨definition, by rw [Definitions.target?, hr.2]; exact hDefinition, ?_⟩
    cases hKind : definition.kind <;> simp_all [DefKind.template?, DefKind.yieldsTemplate, DefKind.restriction?,
      DefKind.isBehaviour]
  unfold checkDefinition at hRun
  rw [run_bind_ok _ (run_read env _)] at hRun
  simp only [hDefinition, hTemplate] at hRun
  obtain ⟨_, middle, hInline, hRun⟩ := of_run_bind_ok hRun
  have hLast := evolves_of_run hRun
  obtain ⟨_, _, -, hRun⟩ := of_run_bind_ok hRun
  cases hRun
  have hModifies : ∀ r, (template.inline definition.span).modifies = some r →
      (Naming.plain Unit (· = { env with current := some d })).Covers r := fun r _ => Naming.covers_plain r
  have hPasses := (checks_passes _).checkInline (flag_passes _)
    (fun id type site _ => passes_checkWithin hCurrent depth id type site) trivial hModifies definition.type
  obtain hRaised | ⟨-, _, hLow, rfl⟩ := (hPasses st.store trivial).post st.report outcome middle hInline
  · exact hRaised.extend (Course.refl _) hLast.precedes
  · cases hLow.symm.trans hFlag

/-- A reference back to the definition under check whose chain has an end raises the flag, and nothing circular is
reported. Without an end, an error is reported. Where the chain comes back to the reference, it is reported as
circular, and the flag is not raised. A slot with such a reference raises the flag, and nothing circular is reported,
unless a list is spliced first that it belongs to: then it is reported as circular and given up. The check of a
definition raises the flag only where the check of such a node has raised it. -/
theorem selfReference_excludes_circular (env : Env) :
    (∀ {s : Store} {report : Report} {id : NodeId} {governor : TypeKey} {decl : TypeDecl} {site : Site} {depth : Nat}
      {outcome : Outcome}, env.types.decl? governor = some decl → decl.category ≠ .erroneous →
      decl.category ≠ .port → ((checkWithin depth id governor site env).run ⟨s, report⟩).1 = .ok outcome →
      let m := (s.recognize id governor).reading env
      let after := ((checkWithin depth id governor site env).run ⟨s, report⟩).2
      let found := after.report.diagnostics.drop report.diagnostics.length
      (∀ r, s.RefersBack env id r →
        ((∃ last, m.EndsAt id last) → outcome.selfReference = true ∧ ∀ d ∈ found, d.finding.isCircular = false) ∧
        ((¬ ∃ last, m.EndsAt id last) → report.errors < after.report.errors) ∧
        (TransGen m.Asks id id → outcome.selfReference = false ∧ ∃ d ∈ found, d.finding.isCircular = true)) ∧
      (∀ r, s.TakesInBack env id r →
        (outcome.selfReference = true ∧ ∀ d ∈ found, d.finding.isCircular = false) ∧
        ∀ expand inPermutation active done, (∀ d, env.current = some d → d ∈ active) →
          Catches env s id (expandItem expand inPermutation active done id))) ∧
    ∀ {depth : Nat} {d : DefId} {definition : Definition} {template : TemplateDef} {st after : CheckState}
      {outcome : Outcome}, env.definitions.get? d = some definition → definition.kind.template? = some template →
      (checkDefinition depth d env).run st = (.ok outcome, after) → outcome.selfReference = true →
      st.Raised { env with current := some d } after := by
  refine ⟨?_, raised_checkDefinition⟩
  intro s report id governor decl site depth outcome hDecl hErroneous hPort hEnds m after found
  have hRun : (checkWithin depth id governor site env).run ⟨s, report⟩ = (.ok outcome, after) := Prod.ext hEnds rfl
  have hFound : ∀ more, after.report.diagnostics = report.diagnostics ++ more → found = more := by
    intro more hMore
    show after.report.diagnostics.drop report.diagnostics.length = more
    rw [hMore, drop_left]
  constructor
  · intro r h
    refine ⟨?_, h.errors_lt hDecl hErroneous hPort hRun, ?_⟩
    · intro hEnd
      obtain ⟨hFlag, more, hMore, hSpared⟩ := h.flagged_of_endsAt hDecl hErroneous hPort hRun hEnd
      exact ⟨hFlag, hFound more hMore ▸ hSpared⟩
    · intro hCycle
      obtain ⟨hFlag, more, hMore, hCircular⟩ := h.reported_of_asks hDecl hErroneous hPort hRun hCycle
      exact ⟨hFlag, hFound more hMore ▸ hCircular⟩
  · intro r h
    obtain ⟨hFlag, more, hMore, hSpared⟩ := h.flagged hDecl hErroneous hPort hRun
    refine ⟨⟨hFlag, hFound more hMore ▸ hSpared⟩, ?_⟩
    intro expand inPermutation active done hActive
    exact h.catches_expandItem hActive

namespace Session

def toOnly (path : List PathStep) : Reference := ⟨"t", some 0, path, none, {}⟩

def withOnly (type : TypeKey) (body : NodeId) (nodes : List Template) : Session where
  types := ⟨[(1, ⟨"integer", .integer⟩),
    (2, ⟨"Pair", .record [⟨"f", 1, false, false⟩, ⟨"g", 1, false, false⟩]⟩)]⟩
  definitions := ⟨[⟨"t", some type, .template { body }, {}⟩]⟩
  store := ⟨nodes⟩

def mirrored : Session := withOnly 1 0 [{ form := .specific (.ref (toOnly [])) }]

/-- The template `t` is defined as `{ f := t.g, g := t.f }`. -/
def crossed : Session :=
  withOnly 2 2 [{ form := .specific (.ref (toOnly [.field "g"])) },
    { form := .specific (.ref (toOnly [.field "f"])) }, { form := .named [⟨"f", 0, {}⟩, ⟨"g", 1, {}⟩] }]

def enfolded : Session :=
  withOnly 1 1 [{ form := .specific (.ref (toOnly [])) }, { form := .allFrom 0 }]

def underCheck (s : Session) : Env := { s.env with current := some 0 }

theorem crossed_endsAt : ((crossed.store.recognize 0 1).reading crossed.underCheck).EndsAt 0 1 := by
  have hClean : Clean crossed.underCheck (crossed.store.recognize 0 1) (TemplateCheck.lastTemplate 0) _ :=
    clean_lastTemplate (matches_reading _ _)
  exact (hClean.post {} _ _ (Prod.ext rfl rfl) rfl).1

theorem mirrored_asks : ((mirrored.store.recognize 0 1).reading mirrored.underCheck).Asks 0 0 :=
  ⟨_, toOnly [], _, { body := 0 }, 1, rfl, rfl, rfl, rfl, rfl, rfl, .inr ⟨1, rfl⟩⟩

/-- The chain of `t.g` ends at the other field. The chain of `t` asks for its own end. The slot `all from t` is told to
be circular by the splicing of a list only. The flag of the record comes from one of its fields. -/
theorem selfReference_excludes_circular_only :
    let pair := (checkWithin 1 0 1 {} crossed.underCheck).run ⟨crossed.store, {}⟩
    let single := (checkWithin 1 0 1 {} mirrored.underCheck).run ⟨mirrored.store, {}⟩
    let slot := (checkWithin 1 1 1 {} enfolded.underCheck).run ⟨enfolded.store, {}⟩
    (pair.1 = .ok { selfReference := true } ∧ ∀ d ∈ pair.2.report.diagnostics, d.finding.isCircular = false) ∧
    (single.1 = .ok { erroneous := true } ∧ ∃ d ∈ single.2.report.diagnostics, d.finding.isCircular = true) ∧
    (slot.1 = .ok { selfReference := true } ∧ ∀ d ∈ slot.2.report.diagnostics, d.finding.isCircular = false) ∧
    Catches enfolded.underCheck enfolded.store 1 (expandItem (expandWithin 0) false [0] ([], true) 1) ∧
    crossed.state.Raised crossed.underCheck (crossed.checkDefinition 0).2.state := by
  have hPair : crossed.store.RefersBack crossed.underCheck 0 (toOnly [.field "g"]) :=
    ⟨⟨_, rfl, rfl, .inl rfl⟩, rfl, _, rfl, rfl⟩
  have hSingle : mirrored.store.RefersBack mirrored.underCheck 0 (toOnly []) :=
    ⟨⟨_, rfl, rfl, .inl rfl⟩, rfl, _, rfl, rfl⟩
  have hSlot : enfolded.store.TakesInBack enfolded.underCheck 1 (toOnly []) :=
    ⟨⟨_, _, _, rfl, rfl, rfl, rfl, .inl rfl⟩, rfl, _, rfl, rfl⟩
  have hEnds : ((checkWithin 1 0 1 {} crossed.underCheck).run ⟨crossed.store, {}⟩).1 =
      .ok { selfReference := true } := by decide +kernel
  have hEnds' : ((checkWithin 1 0 1 {} mirrored.underCheck).run ⟨mirrored.store, {}⟩).1 =
      .ok { erroneous := true } := by decide +kernel
  have hEnds'' : ((checkWithin 1 1 1 {} enfolded.underCheck).run ⟨enfolded.store, {}⟩).1 =
      .ok { selfReference := true } := by decide +kernel
  have hDecl : ∀ s ∈ [crossed, mirrored, enfolded], s.underCheck.types.decl? 1 = some ⟨"integer", .integer⟩ := by
    decide
  have hFirst := (selfReference_excludes_circular _).1 (hDecl crossed (by simp)) (by decide) (by decide) hEnds
  have hSecond := (selfReference_excludes_circular _).1 (hDecl mirrored (by simp)) (by decide) (by decide) hEnds'
  have hThird := (selfReference_excludes_circular _).1 (hDecl enfolded (by simp)) (by decide) (by decide) hEnds''
  refine ⟨⟨hEnds, ((hFirst.1 _ hPair).1 ⟨_, crossed_endsAt⟩).2⟩,
    ⟨hEnds', ((hSecond.1 _ hSingle).2.2 (.single mirrored_asks)).2⟩, ⟨hEnds'', (hThird.2 _ hSlot).1.2⟩, ?_, ?_⟩
  · refine (hThird.2 _ hSlot).2 _ _ _ _ ?_
    rintro _ ⟨⟩
    exact mem_singleton_self _
  · have hRun : (TemplateCheck.checkDefinition crossed.limit 0 crossed.env).run crossed.state =
        (.ok { selfReference := true }, (crossed.checkDefinition 0).2.state) := Prod.ext (by decide +kernel) rfl
    exact (selfReference_excludes_circular _).2 rfl rfl hRun rfl

/-- The fields of `t` refer to each other, which is found to be a reference back but not to be circular. -/
theorem crossed_not_reported :
    (crossed.checkDefinition 0).1 = .ok { selfReference := true } ∧
      (crossed.checkDefinition 0).2.report.diagnostics = [] := by
  decide +kernel

end Session

end TemplateCheck
