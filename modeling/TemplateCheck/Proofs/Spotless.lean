import TemplateCheck.Proofs.Chains.Following
import TemplateCheck.Proofs.Copy
import TemplateCheck.Proofs.Locality.Resolution

/-!
# Stores without a node that was given up

A node is given up only after an error. So a run that starts without such a node and reports no error ends
without one. The exception are slots: a slot is given up in silence where the type of what it takes in cannot be
told. In a spotless store no node has been given up, and every slot names what has a type all along its path.
-/

namespace TemplateCheck

variable {env : Env} {s : Store} {id : NodeId}

/-- The type of every part on a path resolves, as far as the path can be followed. -/
def Registry.Traces (types : Registry) : TypeKey → List PathStep → Prop
  | type, [] => (types.decl? type).isSome
  | type, step :: path =>
    (types.decl? type).isSome ∧ ∀ next, types.spliceStep type step = .ok next → types.Traces next path

/-- What a reference names has a type that resolves along the path of the reference. Only a template must have
one. -/
def Env.Traces (env : Env) (r : Reference) : Prop :=
  ∀ definition, env.definitions.target? r = some definition →
    (definition.kind.template?.isSome → definition.type.isSome) ∧
      ∀ declared, definition.type = some declared → env.types.Traces declared r.path

def Form.cited? : Form → Option Reference
  | .specific (.ref r) | .referenced r _ => some r
  | _ => none

/-- No node has been given up, and all that slots take in can be traced. The target of a slot is there, so that no
node that is added later becomes one. -/
structure Store.Spotless (env : Env) (s : Store) : Prop where
  intact : ∀ id t, s.get? id = some t → t.form ≠ .erroneous
  slots : ∀ id t target, s.get? id = some t → t.form = .allFrom target →
    ∃ u, s.get? target = some u ∧ ∀ r, u.form.cited? = some r → env.Traces r

/-- A form that may take the place of another: it is not given up, and neither makes a slot nor names anything
new. -/
structure Form.Succeeds (form form' : Form) : Prop where
  intact : form' ≠ .erroneous
  slot : ∀ target, form' = .allFrom target → form = .allFrom target
  cites : ∀ r, form'.cited? = some r → form.cited? = some r

namespace Form.Succeeds

variable {form form' : Form}

theorem of_eq (hForm : form ≠ .erroneous) (h : form' = form) : form.Succeeds form' :=
  ⟨h ▸ hForm, fun _ => h ▸ id, fun _ => h ▸ id⟩

end Form.Succeeds

variable {t : Template}

namespace Store.Spotless

theorem withCurrent (h : s.Spotless env) (current : Option DefId) : s.Spotless { env with current } :=
  ⟨h.intact, h.slots⟩

theorem update {f : Template → Template} (h : s.Spotless env)
    (hf : ∀ t, s.get? id = some t → t.form.Succeeds (f t).form) : (s.update id f).Spotless env where
  intact other t hNode := by
    obtain ⟨hBefore, -⟩ | ⟨-, t, hBefore, rfl⟩ := get?_update_cases hNode
    · exact h.intact other t hBefore
    · exact (hf t hBefore).intact
  slots other t target hNode hForm := by
    have hSlot : ∃ u, s.get? target = some u ∧ ∀ r, u.form.cited? = some r → env.Traces r := by
      obtain ⟨hBefore, -⟩ | ⟨-, t, hBefore, rfl⟩ := get?_update_cases hNode
      · exact h.slots other t target hBefore hForm
      · exact h.slots id t target hBefore ((hf t hBefore).slot target hForm)
    obtain ⟨u, hTarget, hTraces⟩ := hSlot
    by_cases hEq : target = id
    · subst hEq
      exact ⟨f u, by simp [hTarget], fun r hr => hTraces r ((hf u hTarget).cites r hr)⟩
    · exact ⟨u, (get?_update_of_ne hEq).trans hTarget, hTraces⟩

theorem push (h : s.Spotless env) (hIntact : t.form ≠ .erroneous) (hSlot : ∀ target, t.form = .allFrom target →
      ∃ u, s.get? target = some u ∧ ∀ r, u.form.cited? = some r → env.Traces r) : (s.push t).Spotless env where
  intact other found hNode := by
    obtain hNode | ⟨-, rfl⟩ := get?_push_cases hNode
    · exact h.intact other found hNode
    · exact hIntact
  slots other found target hNode hForm := by
    have hTarget : ∃ u, s.get? target = some u ∧ ∀ r, u.form.cited? = some r → env.Traces r := by
      obtain hNode | ⟨-, rfl⟩ := get?_push_cases hNode
      · exact h.slots other found target hNode hForm
      · exact hSlot target hForm
    obtain ⟨u, hTarget, hTraces⟩ := hTarget
    exact ⟨u, get?_push_of_get? hTarget, hTraces⟩

end Store.Spotless

/-- The computation gives up no node of a spotless store unless it reports an error. -/
def Tidy {α : Type} (x : CheckM α) : Prop :=
  ∀ env s, s.Spotless env → Clean env s x fun _ s' => s'.Spotless env

namespace Tidy

variable {α β : Type} {x : CheckM α} {f : α → CheckM β} {xs : List α}

theorem pure (a : α) : Tidy (pure a : CheckM α) := fun _ _ h => .pure h

theorem throw (fault : Fault) : Tidy (throw fault : CheckM α) := fun _ _ _ => .throw fault

theorem bind (hx : Tidy x) (hf : ∀ a, Tidy (f a)) : Tidy (x >>= f) :=
  fun env s h => (hx env s h).bind fun a s' h' => hf a env s' h'

theorem of_still (hx : Still x) : Tidy x := fun _ _ h => .of_still hx fun _ => h

theorem still_then (hx : Still x) (hf : ∀ a, Tidy (f a)) : Tidy (x >>= f) := (of_still hx).bind hf

theorem after_error {x : CheckM Unit} {f : Unit → CheckM β} (h : ∀ env s, Clean env s x fun _ _ => False) :
    Tidy (x >>= f) :=
  fun env s _ => (h env s).after_error

theorem problem_then (span : Span) (p : Problem) (f : Unit → CheckM β) : Tidy (problem span p >>= f) :=
  after_error fun _ _ => .problem span p

theorem node_then {f : Template → CheckM β} (h : ∀ t : Template, t.form ≠ .erroneous → Tidy (f t)) :
    Tidy (node id >>= f) :=
  fun env s hs => .node_then fun t hNode => h t (hs.intact id t hNode) env s hs

theorem formOf_then {f : Form → CheckM β} (h : ∀ form, form ≠ .erroneous → Tidy (f form)) : Tidy (formOf id >>= f) :=
  fun env s hs => .formOf_then fun t hNode => h t.form (hs.intact id t hNode) env s hs

theorem isErroneous_then {f : Bool → CheckM β} (h : Tidy (f false)) : Tidy (isErroneous id >>= f) := by
  unfold isErroneous
  rw [bind_assoc]
  apply formOf_then
  intro form hForm
  cases form with
  | erroneous => exact absurd rfl hForm
  | _ => exact h

theorem ite {c : Prop} [Decidable c] {y : CheckM α} (hx : Tidy x) (hy : Tidy y) : Tidy (if c then x else y) := by
  split
  · exact hx
  · exact hy

theorem onlyIf {c : Bool} {x : CheckM Unit} (hx : Tidy x) : Tidy (onlyIf c x) := ite hx (pure ())

theorem forM {f : α → CheckM Unit} (hf : ∀ a, Tidy (f a)) : Tidy (xs.forM f) := by
  induction xs with
  | nil => exact pure ()
  | cons a xs ih => exact (hf a).bind fun _ => ih

theorem foldlM {f : β → α → CheckM β} {b : β} (hf : ∀ b a, Tidy (f b a)) : Tidy (xs.foldlM f b) := by
  induction xs generalizing b with
  | nil => exact pure b
  | cons a xs ih =>
    rw [List.foldlM_cons]
    exact (hf b a).bind fun _ => ih

theorem mapM (hf : ∀ a, Tidy (f a)) : Tidy (xs.mapM f) := by
  induction xs with
  | nil =>
    rw [List.mapM_nil]
    exact pure []
  | cons a xs ih =>
    rw [List.mapM_cons]
    exact (hf a).bind fun _ => ih.bind fun _ => pure _

theorem inside (c : Context) (h : Tidy x) : Tidy (inside c x) := fun env s hs => (h env s hs).inside c

theorem modifyNode {f : Template → Template} {h : ∀ t : Template, t.Evolves (f t)}
    (hf : ∀ t : Template, t.form ≠ .erroneous → t.form.Succeeds (f t).form) :
    Tidy (onStore (Store.modifyNode id f h)) := by
  intro env s hs
  apply Concludes.modifyNode.mono
  rintro _ _ ⟨-, rfl⟩
  exact hs.update fun t hNode => hf t (hs.intact id t hNode)

theorem mark (id : NodeId) (m : Mark) : Tidy (mark id m) := modifyNode fun _ h => .of_eq h rfl

theorem govern (id : NodeId) (type : TypeKey) : Tidy (govern id type) := modifyNode fun _ h => .of_eq h rfl

theorem settle (id : NodeId) (flattened : Bool) : Tidy (settle id flattened) := modifyNode fun _ h => .of_eq h rfl

theorem rememberLast (id last : NodeId) : Tidy (rememberLast id last) := by
  apply modifyNode
  intro t hIntact
  unfold Template.remember
  split
  · rename_i hForm
    exact ⟨nofun, nofun, fun _ hr => by rw [hForm]; exact hr⟩
  · exact .of_eq hIntact rfl

theorem replaceForm {form : Form} (hIntact : form ≠ .erroneous) (hSlot : ∀ target, form ≠ .allFrom target)
    (hCites : form.cited? = none) : Tidy (replaceForm id form) := by
  intro env s hs
  apply Concludes.replaceForm.mono
  rintro _ _ ⟨-, rfl⟩
  exact hs.update fun _ _ => ⟨hIntact, fun target hForm => absurd hForm (hSlot target),
    fun r hr => by simp [hCites] at hr⟩

theorem alloc (hIntact : t.form ≠ .erroneous) (hSlot : ∀ target, t.form ≠ .allFrom target) :
    Tidy (onStore (Store.alloc t)) := by
  intro env s hs
  constructor
  intro report a after hRun _
  cases hRun
  exact hs.push hIntact fun target hForm => absurd hForm (hSlot target)

end Tidy

section Resolution

variable {span : Span}

section

variable {resolve : NodeId → CheckM NodeId} (hResolve : ∀ id, Tidy (resolve id)) {depth : Nat}

include hResolve

theorem clean_partAt_spotless {decl : TypeDecl} {step : PathStep} (h : s.Spotless env) :
    Clean env s (partAt resolve decl span depth id step) fun p s' => p ≠ .invalid ∧ s'.Spotless env := by
  induction depth generalizing id s with
  | zero => cases step <;> exact .throw _
  | succ depth ih =>
    apply concludes_partAt
    intro g hGlance
    cases g with
    | part p =>
      refine .pure ⟨?_, h⟩
      rintro rfl
      exact Reading.glance_ne_invalid hGlance
    | lost fault => exact Clean.after_error (.problem span _)
    | inherited base => exact (hResolve base env s h).bind fun _ s' h' => ih h'

theorem clean_narrow_spotless {path : List PathStep} {type : TypeKey} (h : s.Spotless env) :
    Clean env s (narrow resolve span depth path id type) fun p s' => p ≠ .invalid ∧ s'.Spotless env := by
  induction path generalizing id type s with
  | nil => exact .pure ⟨by simp, h⟩
  | cons step path ih =>
    rw [narrow]
    apply (hResolve id env s h).bind
    intro last s' h'
    apply Concludes.formOf_then
    intro t _
    split
    · exact .pure ⟨by simp, h'⟩
    split
    · exact .pure ⟨by simp, h'⟩
    apply Concludes.read_then
    split
    · apply (clean_partAt_spotless hResolve h').bind
      rintro p s'' ⟨hValid, h''⟩
      cases p with
      | found part partType => exact ih h''
      | unknown => exact .pure ⟨by simp, h''⟩
      | invalid => exact absurd rfl hValid
    · exact .pure ⟨by simp, h'⟩

end

theorem tidy_chainEnd {resolve : ReferenceChain → NodeId → CheckM NodeId}
    (hResolve : ∀ chain id, Tidy (resolve chain id)) (chain : ReferenceChain) (id : NodeId) (r : Reference)
    (body : NodeId) (type : TypeKey) : Tidy (chainEnd resolve chain id r body type) := by
  intro env s h
  unfold chainEnd
  split
  · rename_i longer _
    apply Concludes.store_then
    apply (clean_narrow_spotless (hResolve longer) h).bind
    rintro p s' ⟨hValid, h'⟩
    cases p with
    | found part _ => exact hResolve longer part env s' h'
    | unknown => exact .pure h'
    | invalid => exact absurd rfl hValid
  · exact Clean.after_error (.reject id _)

theorem tidy_lastWithin (depth : Nat) (chain : ReferenceChain) (id : NodeId) : Tidy (lastWithin depth chain id) := by
  induction depth generalizing chain id with
  | zero => exact .throw _
  | succ depth ih =>
    rw [lastWithin]
    apply Tidy.formOf_then
    intro form _
    split
    · exact .pure _
    · apply Tidy.still_then .read
      intro env
      split
      · split
        · apply (tidy_chainEnd ih chain id _ _ _).bind
          intro last
          exact (Tidy.rememberLast id last).bind fun _ => (Tidy.mark id _).bind fun _ => .pure last
        · exact (Tidy.rememberLast id id).bind fun _ => .pure id
      · exact .pure id
    · exact .pure id

theorem tidy_lastTemplate (id : NodeId) : Tidy (lastTemplate id) :=
  .still_then .currentStore fun _ => tidy_lastWithin _ _ id

theorem tidy_recognizeReference (id : NodeId) : Tidy (recognizeReference id) := by
  intro env s h
  apply Concludes.formOf_then
  intro t hNode
  split
  · rename_i r hForm
    apply Concludes.read_then
    split
    · exact Clean.reject id _
    · split
      · apply Concludes.replaceForm.mono
        rintro _ _ ⟨-, rfl⟩
        apply h.update
        intro u hNode'
        cases hNode.symm.trans hNode'
        exact ⟨nofun, nofun, fun _ hr => by rw [hForm]; exact hr⟩
      · exact .pure h
  · exact .pure h

theorem tidy_basePart (r : Reference) (template : TemplateDef) (type : TypeKey) : Tidy (basePart r template type) := by
  intro env s h
  apply Concludes.store_then
  apply (clean_narrow_spotless (tidy_lastWithin _ _) h).bind
  rintro p s' ⟨-, h'⟩
  cases p <;> exact .pure h'

end Resolution

end TemplateCheck
