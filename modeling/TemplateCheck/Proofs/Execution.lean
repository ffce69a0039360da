import TemplateCheck.Check.Module

/-!
# Running computations

How a computation runs on a given state: one equation for each primitive, and for a sequence of two
computations by how the first of them ends.
-/

namespace TemplateCheck

open Store

section

variable {α β : Type} {env : Env} {st after : CheckState} {x : CheckM α} {a : α} {f : α → CheckM β}
  {result : Except Fault α}

theorem run_bind_ok (f : α → CheckM β) (h : (x env).run st = (.ok a, after)) :
    ((x >>= f) env).run st = (f a env).run after := by
  change (x env >>= fun a => f a env).run st = _
  rw [Tracked.run_bind, h]

theorem run_bind_error {fault : Fault} (f : α → CheckM β) (h : (x env).run st = (.error fault, after)) :
    ((x >>= f) env).run st = (.error fault, after) := by
  change (x env >>= fun a => f a env).run st = _
  rw [Tracked.run_bind, h]

theorem of_run_bind {result : Except Fault β} (h : ((x >>= f) env).run st = (result, after)) :
    (∃ fault, result = .error fault ∧ (x env).run st = (.error fault, after)) ∨
      ∃ a middle, (x env).run st = (.ok a, middle) ∧ (f a env).run middle = (result, after) := by
  rcases hFirst : (x env).run st with ⟨fault | a, middle⟩
  · rw [run_bind_error f hFirst] at h
    cases h
    exact .inl ⟨fault, rfl, rfl⟩
  · rw [run_bind_ok f hFirst] at h
    exact .inr ⟨a, middle, rfl, h⟩

theorem of_run_bind_ok {b : β} (h : ((x >>= f) env).run st = (.ok b, after)) :
    ∃ a middle, (x env).run st = (.ok a, middle) ∧ (f a env).run middle = (.ok b, after) :=
  (of_run_bind h).resolve_left nofun

theorem of_run_inside {c : Context} (h : (inside c x env).run st = (result, after)) :
    ∃ middle, (x env).run { st with report := st.report.enter c } = (result, middle) ∧
      after = { middle with report := middle.report.leave } := by
  obtain ⟨hEnds, rfl⟩ := Prod.mk.inj h
  exact ⟨_, Prod.ext hEnds rfl, rfl⟩

theorem evolves_of_run (h : (x env).run st = (result, after)) : st.Evolves after := by
  have hAlong := (x env).along st
  rwa [h] at hAlong

theorem run_bind_congr {y : CheckM α} {st' : CheckState} (f : α → CheckM β) (h : (x env).run st = (y env).run st') :
    ((x >>= f) env).run st = ((y >>= f) env).run st' := by
  change (x env >>= fun a => f a env).run st = (y env >>= fun a => f a env).run st'
  rw [Tracked.run_bind, Tracked.run_bind, h]

theorem run_read (env : Env) (st : CheckState) : ((read : CheckM Env) env).run st = (.ok env, st) := rfl

theorem evolves_of_bind (f : α → CheckM β)
    (h : (x env).run st = (.ok a, after)) : after.Evolves (((x >>= f) env).run st).2 :=
  run_bind_ok f h ▸ (f a env).along after

end

section

variable {β : Type} {env : Env} {st : CheckState} {id : NodeId} {t : Template}

theorem run_node_then (env : Env) (id : NodeId) (f : Template → CheckM β) (st : CheckState) :
    (st.store.get? id = none ∧ ((node id >>= f) env).run st = (.error (.danglingTemplate id), st)) ∨
      ∃ t, st.store.get? id = some t ∧ ((node id >>= f) env).run st = (f t env).run st := by
  cases h : st.store.get? id with
  | none => exact .inl ⟨rfl, run_bind_error f (by simp [node, onStore, Store.get, Tracked.still, h])⟩
  | some t => exact .inr ⟨t, rfl, run_bind_ok f (by simp [node, onStore, Store.get, Tracked.still, h])⟩

theorem of_run_node_then {f : Template → CheckM β} {b : β} {after : CheckState}
    (h : ((node id >>= f) env).run st = (.ok b, after)) :
    ∃ t, st.store.get? id = some t ∧ (f t env).run st = (.ok b, after) := by
  obtain ⟨-, hFault⟩ | ⟨t, hFound, hNext⟩ := run_node_then env id f st
  · cases hFault.symm.trans h
  · exact ⟨t, hFound, hNext.symm.trans h⟩

theorem run_node_of_none (h : st.store.get? id = none) :
    (node id env).run st = (.error (.danglingTemplate id), st) := by
  simp [node, onStore, Store.get, Tracked.still, h]

theorem formOf_bind (id : NodeId) (f : Form → CheckM β) : formOf id >>= f = node id >>= fun t => f t.form := by
  simp only [formOf, bind_assoc, pure_bind]

section

variable (h : st.store.get? id = some t)

include h

theorem run_node : (node id env).run st = (.ok t, st) := by
  simp [node, onStore, Store.get, Tracked.still, h]

theorem run_formOf : (formOf id env).run st = (.ok t.form, st) :=
  run_bind_ok _ (run_node h)

end

section

variable {s : Store} {report : Report} {f : Template → Template} {hf : ∀ t : Template, t.Evolves (f t)} {form : Form}

theorem run_modifyNode_of_none (h : s.get? id = none) :
    (onStore (Store.modifyNode id f hf) env).run ⟨s, report⟩ = (.error (.danglingTemplate id), ⟨s, report⟩) := by
  simp [onStore, Store.modifyNode, Store.get, Tracked.still, Tracked.run_bind, h]

theorem run_replaceForm_of_none (form : Form) (h : s.get? id = none) :
    (replaceForm id form env).run ⟨s, report⟩ = (.error (.danglingTemplate id), ⟨s, report⟩) :=
  run_bind_error _ (by simp [onStore, replace, h])

variable (h : s.get? id = some t)

include h

theorem run_modifyNode :
    (onStore (Store.modifyNode id f hf) env).run ⟨s, report⟩ = (.ok (), ⟨s.update id f, report⟩) := by
  simp [onStore, Store.modifyNode, Store.get, Tracked.still, Tracked.run_bind, h]

theorem run_replaceForm (hMay : t.form.mayBecome form) :
    (replaceForm id form env).run ⟨s, report⟩ = (.ok (), ⟨s.update id fun t => { t with form }, report⟩) :=
  run_bind_ok (a := t.form) _ (by simp [onStore, replace, h, hMay])

theorem run_replaceForm_of_not (hMay : ¬ t.form.mayBecome form) : (replaceForm id form env).run ⟨s, report⟩ =
    (.error (.illegalTransition t.form.variant form.variant), ⟨s, report⟩) :=
  run_bind_error _ (by simp [onStore, replace, h, hMay])

end

section

variable (h : st.store.get? id = some t)

include h

theorem run_govern (type : TypeKey) :
    (govern id type env).run st = (.ok (), { st with store := st.store.update id (·.govern type) }) :=
  run_modifyNode h

theorem run_mark (m : Mark) : (mark id m env).run st = (.ok (), { st with store := st.store.update id (·.mark m) }) :=
  run_modifyNode h

end

end

/-- Integers and lists of them, for examples. -/
def Registry.numbers : Registry := ⟨[(1, ⟨"integer", .integer⟩), (2, ⟨"Numbers", .recordOf 1⟩)]⟩

def Definition.ofBody (name : String) (type : TypeKey) (body : NodeId) : Definition :=
  ⟨name, some type, .template { body }, {}⟩

/-- A reference to a definition that is not recognized yet. -/
abbrev Form.ofName (name : String) (d : DefId) : Form := .specific (.ref (.plain name (some d) {}))

abbrev Form.ofInteger (number : Int) : Form := .specific (.integer number)

abbrev Form.ofItems (items : List NodeId) : Form := .list .positional items

/-- A reference to a template whose chain is not followed yet. -/
abbrev Form.following (name : String) (d : DefId) (path : List PathStep := []) : Form :=
  .referenced ⟨name, some d, path, none, {}⟩ none

def Store.ofForms (forms : List Form) : Store := ⟨forms.map fun form => { form }⟩

end TemplateCheck
