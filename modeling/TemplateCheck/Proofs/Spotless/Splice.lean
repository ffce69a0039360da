import TemplateCheck.Proofs.Locality.Splice
import TemplateCheck.Proofs.Spotless

/-!
# Splicing keeps a store spotless

A copy of a slot takes in what the slot takes in. Where the type of a target can be told all along the path, every
way in which splicing fails is reported, so a slot is given up only after an error.
-/

namespace TemplateCheck

open Store

variable {env : Env} {s : Store} {type : TypeKey} {form : Form} {items : List NodeId}

theorem Form.eq_erroneous_of_variant (h : form.variant = .erroneous) : form = .erroneous := by
  cases form <;> cases h
  rfl

theorem Form.eq_allFrom_of_variant (h : form.variant = .allFrom) : ∃ target, form = .allFrom target := by
  cases form <;> cases h
  exact ⟨_, rfl⟩

section Copies

variable {α : Type} {id : NodeId}

theorem Form.variant_withChildren (form : Form) (news : List NodeId) :
    (form.withChildren news).variant = form.variant := by
  cases form <;> rfl

theorem Form.cited?_withChildren (form : Form) (news : List NodeId) :
    (form.withChildren news).cited? = form.cited? := by
  cases form <;> rfl

theorem Tidy.of_storeRuns {x : StoreM α}
    (h : ∀ env s, s.Spotless env → StoreRuns (·.Spotless env) True s x fun _ _ => True) : Tidy (onStore x) := by
  intro env s hs
  constructor
  intro report a after hRun _
  have hStore : after.store = (x.run s).2 := by
    rw [show after = ((onStore x env).run ⟨s, report⟩).2 by rw [hRun]]
    rfl
  rw [hStore]
  exact (h env s hs _ _ rfl).1

namespace Store

theorem copyWithin_spotless (depth : Nat) (h : s.Spotless env) :
    StoreRuns (·.Spotless env) True s (copyWithin depth id) fun new s' => ∀ t, s.get? id = some t →
      ∃ t', s'.get? new = some t' ∧ t'.form.cited? = t.form.cited? := by
  induction depth generalizing id s with
  | zero =>
    intro result after hRun
    cases hRun
    exact ⟨h, trivial⟩
  | succ depth ih =>
    apply StoreRuns.get_then h
    intro t hNode
    have hKnown : ∀ {new : NodeId} {s' : Store} {t' : Template}, s'.get? new = some t' →
        t'.form.cited? = t.form.cited? → ∀ u, s.get? id = some u →
          ∃ t', s'.get? new = some t' ∧ t'.form.cited? = u.form.cited? := by
      intro new s' t' hNew hCites u hNode'
      cases hNode.symm.trans hNode'
      exact ⟨t', hNew, hCites⟩
    -- For a slot it matters what its target names; of all other forms it is enough that they stay what they are.
    by_cases hSlot : ∃ target, t.form = .allFrom target
    · obtain ⟨target, hForm⟩ := hSlot
      obtain ⟨u, hTarget, hTraces⟩ := h.slots id t target hNode hForm
      rw [hForm]
      have hCopy : StoreRuns (·.Spotless env) True s (Form.mapChildrenM (copyWithin depth) (.allFrom target))
          fun form s' => ∃ new u', form = .allFrom new ∧ s'.get? new = some u' ∧ u'.form.cited? = u.form.cited? := by
        apply (ih h).bind
        intro new s' _ h' hNew
        obtain ⟨u', hNew, hCites⟩ := hNew u hTarget
        exact .pure h' ⟨new, u', rfl, hNew, hCites⟩
      apply hCopy.bind
      rintro _ s' - h' ⟨new, u', rfl, hNew, hCites⟩
      apply StoreRuns.alloc
      · apply h'.push
        · intro hErroneous
          cases hErroneous
        · intro target' hTarget'
          cases hTarget'
          exact ⟨u', hNew, fun r hr => hTraces r (hCites ▸ hr)⟩
      · exact hKnown (get?_push_nextId ..) (by rw [hForm]; rfl)
    · have hChildren : ∀ child s', s'.Spotless env →
          StoreRuns (·.Spotless env) True s' (copyWithin depth child) fun _ _ => True :=
        fun child s' h' => (ih h').mono fun _ _ _ => trivial
      apply (StoreRuns.mapChildrenM (J := fun _ _ => True) t.form h trivial fun child _ _ s' h' _ =>
        hChildren child s' h').bind
      rintro _ s' - h' ⟨news, -, rfl, -⟩
      have hVariant := t.form.variant_withChildren news
      apply StoreRuns.alloc
      · apply h'.push
        · intro hForm
          exact h.intact id t hNode (Form.eq_erroneous_of_variant (hVariant.symm.trans (congrArg Form.variant hForm)))
        · intro target hForm
          exact absurd (Form.eq_allFrom_of_variant (hVariant.symm.trans (congrArg Form.variant hForm))) hSlot
      · exact hKnown (get?_push_nextId ..) (t.form.cited?_withChildren news)

end Store

theorem tidy_deepCopy (id : NodeId) : Tidy (onStore (deepCopy id)) :=
  .of_storeRuns fun _ s h => (copyWithin_spotless (s.size + 1) h).mono fun _ _ _ => trivial

end Copies

section Targets

variable {span : Span} {path : List PathStep} {owner : TypeDecl} {walk : TargetWalk}

theorem Registry.spliceStep_ne_unresolved {types : Registry} (h : (types.decl? type).isSome) (step : PathStep) :
    types.spliceStep type step ≠ .error none := by
  obtain ⟨decl, hDecl⟩ := Option.isSome_iff_exists.1 h
  simp only [Registry.spliceStep, hDecl]
  repeat' split
  all_goals simp

theorem clean_spliceStep (h : (env.types.decl? type).isSome) (step : PathStep) :
    Clean env s (spliceStep span type step) fun next s' =>
      s' = s ∧ ∃ n, next = some n ∧ env.types.spliceStep type step = .ok n := by
  apply Concludes.read_then
  split
  · rename_i next hStep
    exact .pure ⟨rfl, next, rfl, hStep⟩
  · rename_i fault? hStep
    cases fault? with
    | none => exact absurd hStep (Registry.spliceStep_ne_unresolved h step)
    | some fault => exact Clean.after_error (.problem span _)

theorem clean_splicePath (h : env.types.Traces type path) : Clean env s (splicePath span type path) fun result s' =>
      s' = s ∧ ∃ n, result = some n ∧ (env.types.decl? n).isSome := by
  induction path generalizing type with
  | nil => exact .pure ⟨rfl, type, rfl, h⟩
  | cons step path ih =>
    apply (clean_spliceStep h.1 step).bind
    rintro _ _ ⟨rfl, next, rfl, hStep⟩
    exact ih (h.2 next hStep)

theorem clean_targetItem {number : Int} :
    Clean env s (targetItem span owner number items walk) fun result s' => s' = s ∧ result ≠ none := by
  unfold targetItem
  dsimp only
  split
  · apply Concludes.formOf_then
    intro t _
    split
    · exact Clean.after_error (.problem span _)
    · exact .pure ⟨rfl, nofun⟩
  · exact Clean.after_error (.problem span _)

theorem clean_targetElement {index : Value} :
    Clean env s (targetElement span owner index walk) fun result s' => s' = s ∧ result ≠ none := by
  apply Concludes.read_then
  split
  · apply Concludes.formOf_then
    intro t _
    split
    case h_1 | h_2 => exact .pure ⟨rfl, nofun⟩
    case h_3 | h_4 => exact clean_targetItem
    · exact Clean.after_error (.problem span _)
  · exact .pure ⟨rfl, nofun⟩

theorem clean_targetField {name : String} :
    Clean env s (targetField span owner name walk) fun result s' => s' = s ∧ result ≠ none := by
  apply Concludes.formOf_then
  intro t _
  split
  · split
    · apply Concludes.formOf_then
      intro u _
      split
      case h_1 | h_2 => exact Clean.after_error (.problem span _)
      · exact .pure ⟨rfl, nofun⟩
    · exact Clean.after_error (.problem span _)
  · exact .pure ⟨rfl, nofun⟩
  · exact Clean.after_error (.problem span _)

theorem clean_moveTarget {step : PathStep} (h : s.Spotless env) :
    Clean env s (moveTarget span owner walk step) fun result s' => result ≠ none ∧ s'.Spotless env := by
  unfold moveTarget
  split
  · apply (tidy_lastTemplate walk.node env s h).bind
    intro last s' h'
    cases step with
    | field name =>
      apply clean_targetField.mono
      rintro _ _ ⟨rfl, hResult⟩
      exact ⟨hResult, h'⟩
    | index index =>
      apply clean_targetElement.mono
      rintro _ _ ⟨rfl, hResult⟩
      exact ⟨hResult, h'⟩
  · exact .pure ⟨nofun, h⟩

theorem clean_walkTarget (hTraces : env.types.Traces walk.type path) (h : s.Spotless env) :
    Clean env s (walkTarget span path walk) fun result s' =>
      (∃ w, result = some w ∧ (env.types.decl? w.type).isSome) ∧ s'.Spotless env := by
  induction path generalizing walk s with
  | nil => exact .pure ⟨⟨walk, rfl, hTraces⟩, h⟩
  | cons step path ih =>
    apply Concludes.read_then
    obtain ⟨owner, hOwner⟩ := Option.isSome_iff_exists.1 hTraces.1
    rw [hOwner]
    apply (clean_spliceStep hTraces.1 step).bind
    rintro _ _ ⟨rfl, next, rfl, hStep⟩
    apply (clean_moveTarget h).bind
    rintro (_ | moved) s' ⟨hMoved, h'⟩
    · exact absurd rfl hMoved
    · exact ih (hTraces.2 next hStep) h'

end Targets

section Slots

variable {slot : NodeId} {r : Reference} {definition : Definition} {expand : Expand} {inPermutation : Bool}
  {active : List DefId}

def Supplies (env : Env) (s : Store) (x : CheckM SlotContent) : Prop :=
  Clean env s x fun content s' => content ≠ .invalid ∧ s'.Spotless env

def Expand.Tidy (expand : Expand) : Prop :=
  ∀ inPermutation active items, TemplateCheck.Tidy (expand inPermutation active items)

theorem supplies_listTarget {span : Span} {what : String} (h : s.Spotless env)
    (hResolves : (env.types.decl? type).isSome) : Supplies env s (listTarget type span what) := by
  obtain ⟨decl, hDecl⟩ := Option.isSome_iff_exists.1 hResolves
  apply Concludes.read_then
  rw [hDecl]
  dsimp only
  split
  · exact .pure ⟨nofun, h⟩
  · exact Clean.after_error (.problem span _)

theorem supplies_spliceElements (hExpand : expand.Tidy) (h : s.Spotless env) :
    Supplies env s (spliceElements expand inPermutation active slot items) := by
  apply Concludes.still_then (Still.stepwise.elementsObstacle _ items)
  intro obstacle
  split
  · exact Clean.after_error (.problemAt slot _)
  · exact .pure ⟨nofun, h⟩
  · have hCopies : Tidy (items.mapM fun item => onStore (deepCopy item)) := .mapM tidy_deepCopy
    apply (hCopies env s h).bind
    intro copies s' h'
    apply (hExpand inPermutation active copies env s' h').bind
    rintro ⟨expanded, complete⟩ s'' h''
    exact .pure ⟨nofun, h''⟩

theorem supplies_spliceNamed {entries : List NamedEntry} (h : s.Spotless env) :
    Supplies env s (spliceNamed slot entries) := by
  induction entries with
  | nil => exact .pure ⟨nofun, h⟩
  | cons entry entries ih =>
    apply Concludes.formOf_then
    intro t _
    split
    · exact Clean.after_error (.problemAt slot _)
    · exact ih

theorem supplies_spliceFromTemplate (hExpand : expand.Tidy) {body : NodeId}
    (hType : definition.type = some type) (hTraces : env.types.Traces type r.path) (h : s.Spotless env) :
    Supplies env s (spliceFromTemplate expand inPermutation active slot definition body r) := by
  unfold spliceFromTemplate
  rw [hType]
  have hWalk : env.types.Traces (TargetWalk.mk body type !r.isParameterized).type r.path := hTraces
  apply (clean_walkTarget hWalk h).bind
  rintro _ s' ⟨⟨walk, rfl, hResolves⟩, h'⟩
  dsimp only
  split
  · exact supplies_listTarget h' hResolves
  apply (tidy_lastTemplate walk.node env s' h').bind
  intro last s'' h''
  apply Concludes.formOf_then
  intro t hNode
  split
  case h_1 | h_2 => exact .pure ⟨nofun, h''⟩
  case h_3 | h_4 => exact supplies_spliceElements hExpand h''
  · exact supplies_spliceNamed h''
  case h_6 | h_7 => exact Clean.after_error (.problemAt last _)
  · rename_i hForm
    exact absurd hForm (h''.intact last t hNode)
  · exact .read_then (Clean.after_error (.problemAt last _))

theorem supplies_spliceFromConstant (hTraces : ∀ type, definition.type = some type → env.types.Traces type r.path)
    (h : s.Spotless env) : Supplies env s (spliceFromConstant slot definition r) := by
  unfold spliceFromConstant
  split
  · rename_i declared hType
    apply (clean_splicePath (hTraces declared hType)).bind
    rintro _ _ ⟨rfl, type, rfl, hResolves⟩
    apply (supplies_listTarget h hResolves).bind
    rintro content s' ⟨hValid, h'⟩
    split
    · exact absurd rfl hValid
    split
    · exact .pure ⟨nofun, h'⟩
    apply Concludes.read_then
    split
    · rename_i values _
      apply Concludes.node_then
      intro t _
      have hItems : Tidy (values.mapM fun value =>
          onStore (alloc { form := .specific value, span := t.span })) :=
        .mapM fun _ => .alloc nofun nofun
      apply (hItems env s' h').bind
      intro items s'' h''
      exact .pure ⟨nofun, h''⟩
    case h_2 | h_3 => exact .pure ⟨nofun, h'⟩
    · exact Clean.after_error (.problem _ _)
  · exact .pure ⟨nofun, h⟩

theorem supplies_spliceAtRuntime (hTraces : ∀ type, definition.type = some type → env.types.Traces type r.path)
    (h : s.Spotless env) : Supplies env s (spliceAtRuntime definition r) := by
  unfold spliceAtRuntime
  split
  · rename_i declared hType
    apply (clean_splicePath (hTraces declared hType)).bind
    rintro _ _ ⟨rfl, type, rfl, hResolves⟩
    exact supplies_listTarget h hResolves
  · exact .pure ⟨nofun, h⟩

theorem supplies_spliceDefinition (hExpand : expand.Tidy) {target : DefId}
    (hTarget : env.definitions.target? r = some definition) (hTraces : env.Traces r) (h : s.Spotless env) :
    Supplies env s (spliceDefinition expand inPermutation active slot target definition r) := by
  obtain ⟨hTyped, hTraces⟩ := hTraces definition hTarget
  unfold spliceDefinition
  split
  · rename_i template hKind
    obtain ⟨type, hType⟩ := Option.isSome_iff_exists.1 (hTyped (by rw [hKind]; rfl))
    exact supplies_spliceFromTemplate hExpand hType (hTraces type hType) h
  · exact supplies_spliceFromConstant hTraces h
  case h_3 | h_4 => exact Clean.after_error (.problemAt slot _)
  · exact supplies_spliceAtRuntime hTraces h

theorem supplies_rejectSlot (p : Problem) : Supplies env s (rejectSlot slot p) := .after_error (.reject slot p)

theorem supplies_spliceReference (hExpand : expand.Tidy) (hTraces : env.Traces r) (h : s.Spotless env) :
    Supplies env s (spliceReference expand inPermutation active slot r) := by
  apply Concludes.read_then
  dsimp only
  split
  · rename_i target definition _ hTarget
    split
    · exact supplies_rejectSlot _
    · apply (supplies_spliceDefinition hExpand hTarget hTraces h).bind
      rintro content s' ⟨hValid, h'⟩
      split
      · exact absurd rfl hValid
      · exact .pure ⟨hValid, h'⟩
  · exact supplies_rejectSlot _

theorem supplies_spliceSlot (hExpand : expand.Tidy) {t : Template} {target : NodeId} (h : s.Spotless env)
    (hNode : s.get? slot = some t) (hForm : t.form = .allFrom target) :
    Supplies env s (spliceSlot expand inPermutation active slot target) := by
  obtain ⟨u, hTarget, hTraces⟩ := h.slots slot t target hNode hForm
  apply Concludes.formIs_then hTarget
  split
  · rename_i r hCited
    exact supplies_spliceReference hExpand (hTraces r (by rw [hCited]; rfl)) h
  · rename_i r _ hCited
    exact supplies_spliceReference hExpand (hTraces r (by rw [hCited]; rfl)) h
  · rename_i hErroneous
    exact absurd hErroneous (h.intact target u hTarget)
  · exact supplies_rejectSlot _

theorem tidy_expandNode (hExpand : expand.Tidy) (inPermutation : Bool) (active : List DefId) (id : NodeId) :
    Tidy (expandNode expand inPermutation active id) := by
  apply Tidy.node_then
  intro t _
  split
  · exact .pure _
  split
  · rename_i shape items _
    apply (Tidy.mark id .folded).bind
    intro _
    apply (hExpand inPermutation active items).bind
    rintro ⟨expanded, flattened⟩
    have hReplace : Tidy (replaceForm id (.list shape expanded)) := .replaceForm nofun nofun rfl
    exact hReplace.bind fun _ => (Tidy.settle id flattened).bind fun _ => .pure flattened
  · exact .pure true

theorem tidy_expandItem (hExpand : expand.Tidy) (inPermutation : Bool) (active : List DefId)
    (done : List NodeId × Bool) (item : NodeId) : Tidy (expandItem expand inPermutation active done item) := by
  have hNested : ∀ inner, Tidy (do
      let flat ← expandNode expand inner active item
      return (done.1 ++ [item], done.2 && flat)) :=
    fun inner => (tidy_expandNode hExpand inner active item).bind fun _ => .pure _
  intro env s h
  apply Concludes.formOf_then
  intro t hNode
  split
  · rename_i target hForm
    apply (supplies_spliceSlot hExpand h hNode hForm).bind
    rintro content s' ⟨hValid, h'⟩
    cases content with
    | elements elements complete => exact .pure h'
    | runtime => exact ((Tidy.mark item _).bind fun _ => .pure _) env s' h'
    | invalid => exact absurd rfl hValid
  · exact hNested true env s h
  case h_3 | h_4 => exact hNested false env s h
  · exact .pure h

theorem tidy_expandWithin (depth : Nat) : (expandWithin depth).Tidy := by
  induction depth with
  | zero => exact fun _ _ _ => .throw _
  | succ depth ih => exact fun inPermutation active items => .foldlM (tidy_expandItem ih inPermutation active)

theorem tidy_flattenWithin (depth : Nat) (id : NodeId) : Tidy (flattenWithin depth id) :=
  .still_then .read fun _ => tidy_expandNode (tidy_expandWithin depth) false _ id

end Slots

end TemplateCheck
