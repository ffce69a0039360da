import TemplateCheck.Proofs.Substitution.Targets

/-!
# Walks along a path

Three walks follow a path: one through types alone, one through types that reports where it cannot go on, and one
through templates, which also follows references and asks bases. Wherever one of the others arrives at a part, the first
one arrives at a part of the same type. A walk through templates that meets one that was given up stops there.
-/

namespace TemplateCheck

open List

variable {next partType type : TypeKey} {env : Env} {s : Store} {types : Registry} {path : List PathStep}
  {step : PathStep} {part : PartType} {span : Span}

namespace Registry

/-- A field step of the path passes a field that is optional in the type reached there. -/
def PassesOptional (types : Registry) (type : TypeKey) (path : List PathStep) : Prop :=
  ∃ before name reached decl field, before ++ [.field name] <+: path ∧ types.part? type before = some reached ∧
    types.decl? reached.type = some decl ∧ decl.field? name = some field ∧ field.optional = true

theorem part?_concat : types.part? type (path ++ [step]) = (types.part? type path).bind (types.stepPart? · step) := by
  simp [part?, foldlM_append]

theorem throughOptional_stepPart? {reached : PartType} (h : types.stepPart? reached step = some part) :
    part.throughOptional = true ↔ reached.throughOptional = true ∨ ∃ name decl field, step = .field name ∧
      types.decl? reached.type = some decl ∧ decl.field? name = some field ∧ field.optional = true := by
  obtain ⟨decl, hDecl, h⟩ := Option.bind_eq_some_iff.1 h
  cases step with
  | field name =>
    dsimp only at h
    obtain ⟨field, hField, h⟩ := Option.bind_eq_some_iff.1 h
    cases h
    simp [hDecl, hField]
  | index index =>
    have hSame : part.throughOptional = reached.throughOptional := by
      dsimp only at h
      split at h
      · cases h
        rfl
      · obtain ⟨element, -, h⟩ := Option.bind_eq_some_iff.1 h
        cases h
        rfl
    simp [hSame]

theorem throughOptional_iff (h : types.part? type path = some part) :
    part.throughOptional = true ↔ types.PassesOptional type path := by
  -- The path is taken apart at its last step, where the type that it has led to is known.
  induction path using List.reverseRecOn generalizing part with
  | nil =>
    cases h
    simp [PassesOptional]
  | append_singleton path step ih =>
    rw [part?_concat] at h
    obtain ⟨reached, hReached, hStep⟩ := Option.bind_eq_some_iff.1 h
    rw [throughOptional_stepPart? hStep, ih hReached]
    constructor
    · rintro (⟨before, name, reached', decl, field, hPath, hRest⟩ | ⟨name, decl, field, rfl, hField⟩)
      · exact ⟨before, name, reached', decl, field, hPath.trans (prefix_append _ _), hRest⟩
      · exact ⟨path, name, reached, decl, field, prefix_rfl, hReached, hField⟩
    · rintro ⟨before, name, reached', decl, field, hPath, hBefore, hField⟩
      obtain hLast | hPath := prefix_concat_iff.1 hPath
      · obtain ⟨rfl, hStep⟩ := append_inj' hLast rfl
        cases hStep
        cases hReached.symm.trans hBefore
        exact .inr ⟨name, decl, field, rfl, hField⟩
      · exact .inl ⟨before, name, reached', decl, field, hPath, hBefore, hField⟩

theorem stepPart?_of_spliceStep (h : types.spliceStep type step = .ok next) (optional : Bool) :
    ∃ optional', types.stepPart? ⟨type, optional⟩ step = some ⟨next, optional'⟩ := by
  unfold spliceStep at h
  split at h
  · cases h
  · rename_i decl hDecl
    cases step with
    | field name =>
      dsimp only at h
      split at h <;> cases h
      rename_i field _ hField
      exact ⟨optional || field.optional, by simp [stepPart?, hDecl, hField]⟩
    | index index =>
      dsimp only at h
      split at h <;> cases h
      rename_i hElement
      refine ⟨optional, ?_⟩
      cases hCategory : decl.category <;> simp_all [stepPart?, Category.element?]

/-- The path leads from the type to a part of the other type, whether or not the part may be absent. -/
def LeadsTo (types : Registry) (path : List PathStep) (type partType : TypeKey) : Prop :=
  ∀ optional, ∃ optional', path.foldlM types.stepPart? ⟨type, optional⟩ = some ⟨partType, optional'⟩

theorem leadsTo_nil : types.LeadsTo [] type type := fun optional => ⟨optional, rfl⟩

theorem LeadsTo.cons (hStep : types.spliceStep type step = .ok next)
    (h : types.LeadsTo path next partType) : types.LeadsTo (step :: path) type partType := by
  intro optional
  obtain ⟨optional1, hFirst⟩ := stepPart?_of_spliceStep hStep optional
  obtain ⟨optional2, hRest⟩ := h optional1
  exact ⟨optional2, by rw [foldlM_cons, hFirst]; exact hRest⟩

end Registry

section Templates

variable {resolve : NodeId → CheckM NodeId} {depth : Nat} {id : NodeId} {decl : TypeDecl}

theorem returns_partAt (hDecl : env.types.decl? type = some decl) :
    Returns false env s (partAt resolve decl span depth id step) fun p _ =>
      ∀ part partType, p = .found part partType → env.types.spliceStep type step = .ok partType := by
  induction depth generalizing id s with
  | zero => cases step <;> exact .throw _
  | succ depth ih =>
    apply concludes_partAt
    intro g hGlance
    cases g with
    | part p =>
      refine .pure ?_
      rintro part partType rfl
      have hPart : (s.reading env).PartAt (fun _ _ => False) decl step 1 id (.found part partType) := .here hGlance
      exact hPart.spliceStep hDecl
    | lost fault => exact .still_then (.tell _ _) fun _ => .pure nofun
    | inherited base => exact Concludes.bind .trivial fun _ _ _ => ih

theorem returns_narrow : Returns false env s (narrow resolve span depth path id type) fun p s' =>
    ∀ part partType, p = .found part partType → (∀ t, s'.get? part = some t → t.form ≠ .erroneous) →
      env.types.LeadsTo path type partType := by
  induction path generalizing id type s with
  | nil =>
    refine .pure ?_
    rintro _ _ ⟨⟩ -
    exact Registry.leadsTo_nil
  | cons step path ih =>
    rw [narrow]
    apply Concludes.bind .trivial
    intro last s1 _
    apply Concludes.formOf_then
    intro t hNode
    split
    · rename_i hErroneous
      refine .pure ?_
      rintro _ _ ⟨⟩ hLive
      cases hForm : t.form <;> simp [hForm, Form.isErroneous] at hErroneous
      exact absurd hForm (hLive t hNode)
    split
    · exact .pure (by simp)
    apply Concludes.read_then
    split
    · rename_i decl hDecl
      apply (returns_partAt hDecl).bind
      intro p s2 hPart
      cases p with
      | found next nextType =>
        apply ih.mono
        intro q s3 hLeads part partType hFound hLive
        exact .cons (hPart next nextType rfl) (hLeads part partType hFound hLive)
      | unknown | invalid => exact .pure (by simp)
    · exact .pure (by simp)

end Templates

theorem of_run_spliceStep {st after : CheckState}
    (h : (spliceStep span type step env).run st = (.ok (some next), after)) :
    env.types.spliceStep type step = .ok next ∧ after = st := by
  obtain ⟨_, _, hEnv, h⟩ := of_run_bind_ok h
  cases hEnv
  cases hStep : env.types.spliceStep type step with
  | ok found =>
    rw [hStep] at h
    cases h
    exact ⟨rfl, rfl⟩
  | error fault? =>
    rw [hStep] at h
    obtain ⟨_, _, _, hNone⟩ := of_run_bind_ok h
    cases hNone

theorem of_run_splicePath {st after : CheckState}
    (h : (splicePath span type path env).run st = (.ok (some partType), after)) :
    env.types.LeadsTo path type partType ∧ after = st := by
  induction path generalizing type with
  | nil =>
    cases h
    exact ⟨Registry.leadsTo_nil, rfl⟩
  | cons step path ih =>
    obtain ⟨next?, middle, hFirst, hRest⟩ := of_run_bind_ok h
    cases next? with
    | none => cases hRest
    | some next =>
      obtain ⟨hStep, rfl⟩ := of_run_spliceStep hFirst
      obtain ⟨hLeads, rfl⟩ := ih hRest
      exact ⟨.cons hStep hLeads, rfl⟩

/-- Wherever a walk through templates or a walk that reports faults arrives at a part, the walk through types arrives
at a part of the same type. The former has not met a template that was given up, and the latter has reported nothing.
The part may be absent exactly if the path passes an optional field. -/
theorem Env.path_types_agree (env : Env) (type : TypeKey) (path : List PathStep) :
    (∀ (resolve : NodeId → CheckM NodeId) span depth id st part partType after,
      (narrow resolve span depth path id type env).run st = (.ok (.found part partType), after) →
      (∀ t, after.store.get? part = some t → t.form ≠ .erroneous) →
      ∃ optional, env.types.part? type path = some ⟨partType, optional⟩) ∧
    (∀ span st partType after, (splicePath span type path env).run st = (.ok (some partType), after) →
      (∃ optional, env.types.part? type path = some ⟨partType, optional⟩) ∧ after = st) ∧
    ∀ part, env.types.part? type path = some part →
      (part.throughOptional = true ↔ env.types.PassesOptional type path) := by
  refine ⟨?_, ?_, fun part => Registry.throughOptional_iff⟩
  · intro resolve span depth id st part partType after hRun hLive
    exact returns_narrow.post st.report _ after hRun nofun part partType rfl hLive false
  · intro span st partType after hRun
    obtain ⟨hLeads, rfl⟩ := of_run_splicePath hRun
    exact ⟨hLeads false, rfl⟩

namespace Session

/-- A template that leaves its row to its base. The row is optional, and its elements are counted from 5. -/
def inheritedRow : Session where
  types := ⟨[(1, ⟨"integer", .integer⟩), (2, ⟨"Row", .array 1 1 5⟩),
    (3, ⟨"Table", .record [⟨"row", 2, true, false⟩]⟩)]⟩
  store := ⟨[{ form := .ofInteger 4 }, { form := .ofItems [0] },
    { form := .named [⟨"row", 1, {}⟩] }, { form := .named [], base := some 2 }]⟩

theorem path_types_agree_inheritedRow :
    (inheritedRow.run (narrow TemplateCheck.lastTemplate {} 2 [.field "row", .index (.integer 5)] 3 3)).1 =
        .ok (.found 0 1) ∧
      (inheritedRow.run (splicePath {} 3 [.field "row", .index (.integer 5)])).1 = .ok (some 1) ∧
      (∃ optional, inheritedRow.types.part? 3 [.field "row", .index (.integer 5)] = some ⟨1, optional⟩) ∧
      inheritedRow.types.PassesOptional 3 [.field "row", .index (.integer 5)] := by
  obtain ⟨hTemplates, -, hOptional⟩ :=
    Env.path_types_agree inheritedRow.env 3 [.field "row", .index (.integer 5)]
  refine ⟨rfl, rfl, ?_, (hOptional ⟨1, true⟩ rfl).1 rfl⟩
  refine hTemplates TemplateCheck.lastTemplate {} 2 3 ⟨inheritedRow.store, inheritedRow.report⟩ _ _ _ rfl ?_
  rintro _ ⟨⟩
  simp

end Session

end TemplateCheck
