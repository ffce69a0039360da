import TemplateCheck.Proofs.Locality.Splice
import TemplateCheck.Session

/-!
# Locality of checks

A check of a node changes nodes below it, and new ones. What it does to any other node is to follow its
reference. Each form of template is checked inside every closed set that holds the node, given that its
children are.
-/

namespace TemplateCheck

open Store

variable {D : NodeId → Prop} {env : Env} {s : Store} {id : NodeId} {check : ChildCheck} {flatten : Flattening}

def ChildCheck.Confined (D : NodeId → Prop) (env : Env) (check : ChildCheck) : Prop :=
  ∀ s id type site, s.Closed D → D id → Steps (Store.Confined D) env s (check id type site)

def Flattening.Confined (D : NodeId → Prop) (env : Env) (flatten : Flattening) : Prop :=
  ∀ s id, s.Closed D → D id → Steps (Store.Confined D) env s (flatten id)

theorem children_closed {t : Template} (hClosed : s.Closed D) (hId : D id) (hFound : s.get? id = some t) :
    ∀ child ∈ t.form.children, D child :=
  fun child hChild => hClosed.child id child hId ⟨t, hFound, hChild⟩

theorem steps_govern (hClosed : s.Closed D) (hId : D id) (type : TypeKey) :
    Steps (Confined D) env s (govern id type) := by
  have hConfined : s.Confined D (s.update id (·.govern type)) :=
    confined_update hId fun t hFound => children_closed (t := t) hClosed hId hFound
  exact (moves_modifyNode (Course.refl s) fun _ _ => hConfined).steps

section Fields

variable {entries : List NamedEntry}

theorem moves_fillOmitted {R : Store → Store → Prop} [Course R] {P : NodeId → Prop}
    (hAlloc : ∀ type span s', R s s' → Moves R env s' (onStore (alloc (implicitOmit type span))) fun new _ => P new)
    (hForm : ∀ (filled : List NamedEntry) s', R s s' → (∀ e ∈ filled, P e.template) →
      Steps R env s' (replaceForm id (.named (entries ++ filled))))
    (fields : List FieldDecl) : Steps R env s (fillOmitted id entries fields) := by
  unfold fillOmitted
  split
  · exact .pure trivial
  apply (Still.node id).then
  intro t
  apply (Runs.mapM (fun _ _ _ _ hNew => hNew) fun field _ s' hR => ?_).bind hForm
  exact (hAlloc field.type t.span s' hR).bind fun template _ _ hNew => .pure hNew

theorem steps_fillOmitted (hClosed : s.Closed D) (hId : D id) (hEntries : ∀ e ∈ entries, D e.template)
    (fields : List FieldDecl) : Steps (Confined D) env s (fillOmitted id entries fields) := by
  apply moves_fillOmitted
  · intro type span s' hConfined
    exact moves_alloc (hConfined.closed hClosed) (confined_push (by simp [implicitOmit, Form.children]))
  · intro filled s' _ hFilled
    apply steps_giveForm _ hId
    intro child hChild
    obtain ⟨e, he, rfl⟩ := List.mem_map.1 hChild
    exact (List.mem_append.1 he).elim (hEntries e) (hFilled e)

end Fields

theorem checking_confined (D : NodeId → Prop) (env : Env) : Checking D D fun {_} (x : Unit → CheckM _) =>
    ∀ s : Store, s.Closed D → Steps (Confined D) env s (x ()) where
  still hx _ _ := hx.steps
  bind hx hf s hClosed := (hx s hClosed).bind fun a s' hConfined _ => hf a s' (hConfined.closed hClosed)
  inside c hx s hClosed := (hx s hClosed).inside c
  formOf_then hId hf _ hClosed := .formOf_then fun _ hFound =>
    hf _ (children_closed hClosed (or_self_iff.1 hId) hFound) _ hClosed
  lastTemplate id s _ := (pursuing_lastTemplate s id).weaken fun _ => Pursues.confined
  basePart r template type _ _ := (steps_basePart r template type).weaken fun _ => Pursues.confined
  own h hId _ _ := h.alters.confined (or_self_iff.1 hId)
  govern type hId _ hClosed := steps_govern hClosed (or_self_iff.1 hId) type
  name hId hEntries _ _ := steps_giveForm _ hId (List.forall_mem_map.2 hEntries)
  fillOmitted fields hId hEntries _ hClosed := steps_fillOmitted hClosed hId hEntries fields

theorem steps_checkMembers (hCheck : check.Confined D env) (hClosed : s.Closed D) (type : TypeKey)
    (list : String) {members : List NodeId} (hMembers : ∀ member ∈ members, D member) :
    Steps (Confined D) env s (checkMembers check type list members) :=
  (checking_confined D env).checkMembers (c := fun _ => check)
    (fun id type site hId s hClosed => hCheck s id type site hClosed hId) type list hMembers s hClosed

theorem steps_checkElement (hCheck : check.Confined D env) (hClosed : s.Closed D) (g : ListType)
    (permitted : Completeness) {item : NodeId} (hItem : D item) (position : Nat) :
    Steps (Confined D) env s (checkElement check g permitted item position) :=
  (checking_confined D env).checkElement (c := fun _ => check)
    (fun id type site hId s hClosed => hCheck s id type site hClosed hId) g permitted hItem position s hClosed

theorem confined_checkStep (hCheck : check.Confined D env) (hFlatten : flatten.Confined D env) :
    (checkStep check flatten).Confined D env := fun s _ governor site hClosed hId =>
  (checking_confined D env).checkStep (c := fun _ => check) (l := fun _ => flatten)
    (fun id type site hId s hClosed => hCheck s id type site hClosed hId)
    (fun id hId s hClosed => hFlatten s id hClosed hId) hId governor site s hClosed

theorem confined_checkWithin (depth : Nat) : (checkWithin depth).Confined D env := by
  induction depth with
  | zero => exact fun _ _ _ _ _ _ => .throw trivial
  | succ depth ih =>
    exact confined_checkStep ih fun s id hClosed hId => (steps_flattenWithin depth hClosed hId).confined_of_reworks

def Store.Own (s : Store) (id other : NodeId) : Prop := s.Below id other ∨ ¬ s.Has other

theorem Store.closed_own (s : Store) (id : NodeId) : s.Closed (s.Own id) where
  new _ hNew := .inr hNew
  child parent child hParent hChild := by
    obtain hBelow | hNew := hParent
    · exact .inl (hBelow.tail hChild)
    · obtain ⟨t, hFound, -⟩ := hChild
      exact absurd (has_of_get? hFound) hNew

/-- A check changes no type and no definition, and a node that does not lie below the checked one only
if it is a referenced template: its chain is followed, or it is given up. -/
theorem Session.check_local (s : Session) (current : Option DefId) (depth : Nat) (id : NodeId)
    (governor : TypeKey) (site : Site) :
    let after := (s.run (withReader ({ · with current }) (checkWithin depth id governor site))).2
    (∀ other t, s.store.get? other = some t → ¬ s.store.Below id other →
      ∃ t', after.store.get? other = some t' ∧ t.Pursued t') ∧
    after.settings = s.settings ∧ after.types = s.types ∧ after.definitions = s.definitions := by
  refine ⟨fun other t hFound hOut => ?_, rfl, rfl, rfl⟩
  have hCheck : Steps (Confined (s.store.Own id)) { s.env with current } s.store
      (checkWithin depth id governor site) :=
    confined_checkWithin depth s.store id governor site (s.store.closed_own id) (.inl .refl)
  obtain ⟨hConfined, -⟩ := hCheck s.report _ _ rfl
  obtain ⟨t', hFound', hPursued⟩ := hConfined.nodes other t hFound
  refine ⟨t', hFound', hPursued ?_⟩
  rintro (hBelow | hNew)
  · exact hOut hBelow
  · exact hNew (has_of_get? hFound)

end TemplateCheck
