import TemplateCheck.Proofs.Findings

/-!
# Computations side by side

Two computations on two stores are compared. Both end with the same result and report the same, except for
diagnostics that the second one reports beforehand and that are known. Each of them may go on alone as long as it is
quiet, and both go on together where something is reported.
-/

namespace TemplateCheck

open List

variable {id : NodeId} {u : Template}

theorem Store.update_congr {s : Store} {f g : Template → Template}
    (hNode : s.get? id = some u) (h : f u = g u) : s.update id f = s.update id g := by
  apply congrArg Store.mk
  apply ext_getElem?
  intro i
  rw [getElem?_modify, getElem?_modify]
  by_cases hEq : id.index = i
  · subst hEq
    simp only [show s.nodes[id.index]? = some u from hNode, if_true, Option.map_eq_map, Option.map_some, h]
  · simp only [if_neg hEq]

theorem Store.update_id (s : Store) (id : NodeId) : (s.update id fun t => t) = s :=
  congrArg Store.mk (modify_id id.index s.nodes)

section

variable {env : Env} {s : Store}

theorem Attains.read : Attains true env s read fun found t => found = env ∧ t = s :=
  ⟨fun report => ⟨env, ⟨s, report⟩, rfl, fun _ => rfl, rfl, rfl⟩⟩

section

variable (hNode : s.get? id = some u)

include hNode

theorem attains_isErroneous : Attains true env s (isErroneous id) fun b t => b = u.form.isErroneous ∧ t = s :=
  .formOf_then hNode (.pure ⟨rfl, rfl⟩)

theorem attains_node : Attains true env s (node id) fun found t => found = u ∧ t = s :=
  ⟨fun report => ⟨u, ⟨s, report⟩, run_node hNode, fun _ => rfl, rfl, rfl⟩⟩

theorem attains_recognizeReference {r : Reference} {definition : Definition}
    (hForm : u.form = .specific (.ref r)) (hTarget : env.definitions.target? r = some definition)
    (hYields : definition.kind.yieldsTemplate = true) : Attains true env s (recognizeReference id) fun _ t =>
      t = s.update id fun t => { t with form := .referenced r none } := by
  apply Attains.formOf_then hNode
  rw [hForm]
  apply Attains.read_then
  simp only [hTarget, hYields, if_true]
  exact .replaceForm hNode (by rw [hForm]; rfl)

end

end

section

variable {α β : Type} {env : Env} {context : List Context} {extra : List Diagnostic} {s s' : Store}

def checkDeclared (check : ChildCheck) (flatten : Flattening) (id : NodeId) (governor : TypeKey) (site : Site) :
    Option TypeDecl → CheckM Outcome
  | none => do
    reject id .unknownGovernor
    return { erroneous := true }
  | some decl =>
    match decl.category with
    | .erroneous => return {}
    | .port => do
      reject id (.portTemplate decl.name)
      return { erroneous := true }
    | _ => checkGoverned check flatten id governor decl site

/-- Both computations end with the same result and report the same, but the second one reports the given diagnostics
beforehand. -/
structure Together (env : Env) (context : List Context) (extra : List Diagnostic) (s s' : Store)
    (x x' : CheckM α) (Q : α → Store → Store → Prop) : Prop where
  run : ∀ report report', report.context = context → report'.context = context →
    ∃ a after after' found, (x env).run ⟨s, report⟩ = (.ok a, after) ∧ (x' env).run ⟨s', report'⟩ = (.ok a, after') ∧
      after.report.diagnostics = report.diagnostics ++ found ∧
      after'.report.diagnostics = report'.diagnostics ++ (extra ++ found) ∧ Q a after.store after'.store

namespace Together

variable {x x' : CheckM α} {f f' : α → CheckM β} {Q : α → Store → Store → Prop} {P : β → Store → Store → Prop}
  {y : CheckM β} {R : α → Store → Prop} {id' : NodeId} {u' : Template}

theorem mono {Q' : α → Store → Store → Prop} (h : Together env context extra s s' x x' Q)
    (hQ : ∀ a t t', Q a t t' → Q' a t t') : Together env context extra s s' x x' Q' := by
  constructor
  intro report report' hContext hContext'
  obtain ⟨a, after, after', found, hRun, hRun', hFound, hFound', hResult⟩ :=
    h.run report report' hContext hContext'
  exact ⟨a, after, after', found, hRun, hRun', hFound, hFound', hQ a _ _ hResult⟩

theorem bind (hx : Together env context extra s s' x x' Q)
    (hf : ∀ a t t', Q a t t' → Together env context [] t t' (f a) (f' a) P) :
    Together env context extra s s' (x >>= f) (x' >>= f') P := by
  constructor
  intro report report' hContext hContext'
  obtain ⟨a, ⟨t, middle⟩, ⟨t', middle'⟩, found, hRun, hRun', hFound, hFound', hResult⟩ :=
    hx.run report report' hContext hContext'
  obtain ⟨b, after, after', more, hNext, hNext', hMore, hMore', hEnd⟩ := (hf a t t' hResult).run middle middle'
    ((evolves_of_run hRun).report.context.trans hContext) ((evolves_of_run hRun').report.context.trans hContext')
  refine ⟨b, after, after', found ++ more, (run_bind_ok f hRun).trans hNext,
    (run_bind_ok f' hRun').trans hNext', ?_, ?_, hEnd⟩
  · rw [hMore, hFound, append_assoc]
  · rw [hMore', hFound']
    simp only [nil_append, append_assoc]

theorem pure {a : α} (hQ : Q a s s') : Together env context [] s s' (pure a) (pure a) Q :=
  ⟨fun report report' _ _ => ⟨a, ⟨s, report⟩, ⟨s', report'⟩, [], rfl, rfl, by simp, by simp, hQ⟩⟩

theorem read_then {f f' : Env → CheckM β} (h : Together env context extra s s' (f env) (f' env) P) :
    Together env context extra s s' (read >>= f) (read >>= f') P :=
  ⟨h.run⟩

theorem left_then (hx : Attains true env s x R)
    (h : ∀ a t, R a t → Together env context extra t s' (f a) y P) : Together env context extra s s' (x >>= f) y P := by
  constructor
  intro report report' hContext hContext'
  obtain ⟨a, ⟨t, middle⟩, hRun, hReport, hResult⟩ := hx.run report
  obtain rfl : middle = report := hReport rfl
  rw [run_bind_ok f hRun]
  exact (h a t hResult).run middle report' hContext hContext'

theorem right_then (hx : Reports env s' context x' fun a t found => found = extra ∧ R a t)
    (h : ∀ a t, R a t → Together env context [] s t y (f' a) P) : Together env context extra s s' y (x' >>= f') P := by
  constructor
  intro report report' hContext hContext'
  obtain ⟨a, ⟨t, middle⟩, found, hRun, hFound, rfl, hResult⟩ := hx.run report' hContext'
  obtain ⟨b, after, after', more, hNext, hNext', hMore, hMore', hEnd⟩ :=
    (h a t hResult).run report middle hContext ((evolves_of_run hRun).report.context.trans hContext')
  refine ⟨b, after, after', more, hNext, (run_bind_ok f' hRun).trans hNext', hMore, ?_, hEnd⟩
  rw [hMore', hFound, nil_append, append_assoc]

theorem right_quiet_then (hx : Attains true env s' x' R)
    (h : ∀ a t, R a t → Together env context extra s t y (f' a) P) :
    Together env context extra s s' y (x' >>= f') P := by
  constructor
  intro report report' hContext hContext'
  obtain ⟨a, ⟨t, middle⟩, hRun, hReport, hResult⟩ := hx.run report'
  obtain rfl : middle = report' := hReport rfl
  rw [run_bind_ok f' hRun]
  exact (h a t hResult).run report middle hContext hContext'

theorem node_then {f f' : Template → CheckM β} (hNode : s.get? id = some u)
    (hNode' : s'.get? id' = some u') (h : Together env context extra s s' (f u) (f' u') P) :
    Together env context extra s s' (node id >>= f) (node id' >>= f') P := by
  apply left_then (attains_node hNode)
  rintro _ _ ⟨rfl, rfl⟩
  apply right_quiet_then (attains_node hNode')
  rintro _ _ ⟨rfl, rfl⟩
  exact h

theorem formOf_then {f f' : Form → CheckM β} (hNode : s.get? id = some u)
    (hNode' : s'.get? id' = some u') (h : Together env context extra s s' (f u.form) (f' u'.form) P) :
    Together env context extra s s' (formOf id >>= f) (formOf id' >>= f') P := by
  rw [formOf_bind, formOf_bind]
  exact node_then hNode hNode' h

theorem tell (span : Span) (finding : Finding) :
    Together env context [] s s' (tell span finding) (TemplateCheck.tell span finding)
      fun _ t t' => t = s ∧ t' = s' := by
  constructor
  rintro report report' rfl hContext'
  refine ⟨(), ⟨s, report.add span finding⟩, ⟨s', report'.add span finding⟩, _, rfl, rfl,
    Report.diagnostics_add .., ?_, rfl, rfl⟩
  rw [Report.diagnostics_add, hContext', nil_append]

theorem problemAt (hNode : s.get? id = some u) (hNode' : s'.get? id = some u')
    (hSpan : u'.span = u.span) (p : Problem) :
    Together env context [] s s' (problemAt id p) (TemplateCheck.problemAt id p) fun _ t t' => t = s ∧ t' = s' := by
  apply node_then hNode hNode'
  rw [hSpan]
  exact tell _ _

theorem of_attains {x x' : CheckM Unit} {R R' : Store → Prop} (h : Attains true env s x fun _ t => R t)
    (h' : Attains true env s' x' fun _ t => R' t) : Together env context [] s s' x x' fun _ t t' => R t ∧ R' t' := by
  constructor
  intro report report' _ _
  obtain ⟨_, after, hRun, hReport, hResult⟩ := h.run report
  obtain ⟨_, after', hRun', hReport', hResult'⟩ := h'.run report'
  refine ⟨(), after, after', [], hRun, hRun', ?_, ?_, hResult, hResult'⟩
  · rw [hReport rfl, append_nil]
  · rw [hReport' rfl, append_nil, append_nil]

theorem forM {xs : List α} {x : α → CheckM Unit}
    (h : ∀ a ∈ xs, Together env context [] s s' (x a) (x a) fun _ t t' => t = s ∧ t' = s') :
    Together env context [] s s' (xs.forM x) (xs.forM x) fun _ t t' => t = s ∧ t' = s' := by
  induction xs with
  | nil => exact pure ⟨rfl, rfl⟩
  | cons a xs ih =>
    apply (h a mem_cons_self).bind
    rintro _ _ _ ⟨rfl, rfl⟩
    exact ih fun b hb => h b (mem_cons_of_mem _ hb)

variable {governor : TypeKey} {site : Site} {check : ChildCheck} {flatten : Flattening} (hNode : s.get? id = some u)
  (hNode' : s'.get? id = some u')

include hNode hNode'

theorem reject (hSpan : u'.span = u.span) (p : Problem) :
    Together env context [] s s' (reject id p) (TemplateCheck.reject id p) fun _ _ _ => True := by
  apply (problemAt hNode hNode' hSpan p).bind
  rintro _ _ _ ⟨rfl, rfl⟩
  exact (of_attains (.giveUp hNode) (.giveUp hNode')).mono fun _ _ _ _ => trivial

theorem reject_then (hSpan : u'.span = u.span) (p : Problem) (outcome : Outcome) :
    Together env context [] s s' (do TemplateCheck.reject id p; return outcome)
      (do TemplateCheck.reject id p; return outcome) fun _ _ _ => True :=
  (reject hNode hNode' hSpan p).bind fun _ _ _ _ => .pure trivial

theorem checkStep {Q : Outcome → Store → Store → Prop} (hUnchecked : u.marks.checked = false)
    (hUnchecked' : u'.marks.checked = false)
    (h : Together env context extra (s.update id (·.govern governor)) (s'.update id (·.govern governor))
      (checkDeclared check flatten id governor site (env.types.decl? governor))
      (checkDeclared check flatten id governor site (env.types.decl? governor)) Q) :
    Together env context extra s s' (checkStep check flatten id governor site)
      (TemplateCheck.checkStep check flatten id governor site) Q := by
  apply node_then hNode hNode'
  simp only [hUnchecked, hUnchecked', Bool.false_eq_true, if_false]
  apply left_then (Attains.modifyNode hNode)
  rintro _ _ rfl
  apply right_quiet_then (Attains.modifyNode hNode')
  rintro _ _ rfl
  exact read_then h

end Together

end

end TemplateCheck
