import TemplateCheck.Proofs.Substitution.Treatment

/-!
# Splicing is substitution

Items are expanded one after the other, each on its own: an item that is kept stays in place, a list is
expanded at its node, and a slot gives way to new nodes. Definitions whose elements are spliced in are kept on
a stack, and none of them comes up again if no definition leads back to itself. So the nodes of a list become
nodes of the trees that the substitution yields, at every depth that is large enough.
-/

namespace TemplateCheck

open List Store
open Relation (ReflTransGen TransGen)

theorem elementObstacle_bare (inPermutation : Bool) (form : Form) :
    elementObstacle inPermutation form.bare = elementObstacle inPermutation form := by
  cases form with
  | list shape items => cases shape <;> rfl
  | _ => rfl

theorem elementObstacle_of_false {form : Form} (h : elementObstacle false form = none) (inPermutation : Bool) :
    elementObstacle inPermutation form = none := by
  cases inPermutation with
  | false => exact h
  | true =>
    cases form with
    | anyOrOmit => rfl
    | specific value => cases value <;> exact h
    | list shape items => cases shape <;> exact h
    | _ => exact h

theorem Tree.form_of_reference? {t : Template} {children : List Tree} {r : Reference}
    (h : (Tree.node t.bare children).reference? = some r) :
    t.form = .specific (.ref r) ∨ ∃ known, t.form = .referenced r known := by
  obtain ⟨form⟩ := t
  cases form with
  | specific value =>
    cases value with
    | ref r' =>
      cases h
      exact .inl rfl
    | _ => cases h
  | referenced r' known =>
    cases h
    exact .inr ⟨known, rfl⟩
  | _ => cases h

namespace Reading

variable {m : Reading} {s : Store} {active : List DefId} {trees trees' elements elements' : List Tree} {d e : DefId}
  {target : Tree} {expand : Expand} {inPermutation : Bool} {items ids own : List NodeId} {id slot : NodeId}
  {t : Template} {r : Reference} {children children' : List Tree} {definition : Definition} {values : List Value}
  {head : Template}

/-- No definition that comes up in the trees is active, and none comes up in its own elements. -/
def Avoids (m : Reading) (active : List DefId) (trees : List Tree) : Prop :=
  ∀ d, m.ReachesDefinition trees d → d ∉ active ∧ ¬ TransGen m.Splices d d

theorem Avoids.mono (h : m.Avoids active trees) (hSlots : ∀ target, SlotIn trees' target → SlotIn trees target) :
    m.Avoids active trees' := by
  rintro d ⟨target, hReaches, hTarget⟩
  refine h d ⟨target, ?_, hTarget⟩
  cases hReaches with
  | direct hSlot => exact .direct (hSlots _ hSlot)
  | through hSlot hFirst hContains hReaches => exact .through (hSlots _ hSlot) hFirst hContains hReaches

theorem ReachesSlot.splices (h : m.ReachesSlot elements target) (hContains : m.Contains d elements)
    (hTarget : target.target? = some e) : TransGen m.Splices d e := by
  induction h generalizing d with
  | direct hSlot => exact .single ⟨_, _, hContains, hSlot, hTarget⟩
  | through hSlot hFirst hContains' _ ih =>
    exact .head ⟨_, _, hContains, hSlot, hFirst⟩ (ih hContains' hTarget)

theorem Avoids.enter (h : m.Avoids active trees) (hSlot : SlotIn trees target)
    (hTarget : target.target? = some d) (hContains : m.Contains d elements) : m.Avoids (active ++ [d]) elements := by
  rintro e ⟨inner, hReaches, hInner⟩
  obtain ⟨hInactive, hAcyclic⟩ := h e ⟨inner, .through hSlot hTarget hContains hReaches, hInner⟩
  refine ⟨?_, hAcyclic⟩
  intro hMem
  obtain hMem | hMem := mem_append.1 hMem
  · exact hInactive hMem
  · obtain rfl := mem_singleton.1 hMem
    exact hAcyclic (hReaches.splices hContains hInner)

def Rewrites (m : Reading) (expand : Expand) (trees trees' : List Tree) : Prop :=
  ∀ s items ids inPermutation active, m.Agrees s → m.Pending s items ids trees → m.Avoids active trees →
    Attains true m.env s (expand inPermutation active items) fun result s' =>
      result.2 = true ∧ m.Yields s ids items result.1 trees' s'

theorem attains_expandNode (hExpand : m.Rewrites expand children children')
    (hs : m.Agrees s) (hPending : m.Pending s [id] own [.node t.bare children]) (hNode : s.get? id = some t)
    {shape : ListShape} (hForm : t.form = .list shape items) (hAvoids : m.Avoids active children) :
    Attains true m.env s (expandNode expand inPermutation active id) fun flattened s' =>
      flattened = true ∧ m.Yields s own [id] [id] [.node t.bare children'] s' ∧
        ∃ items' marks, s'.get? id = some { t with form := .list shape items', marks } ∧ s.Fills items items' := by
  obtain ⟨_, below, hNode', -, rfl, hNew, hBelow⟩ := hPending.of_single
  cases hNode.symm.trans hNode'
  have hView : m.view id = none := hPending.unread id mem_cons_self
  have hUnfolded : t.marks.folded = false := hPending.unfolded id mem_cons_self t hNode
  rw [expandNode]
  apply Attains.node_then hNode
  simp only [hUnfolded, hForm, Bool.false_eq_true, if_false]
  apply (Attains.modifyNode hNode).bind
  rintro _ s1 rfl
  rw [hForm] at hBelow
  have hUntouched : ∀ other ∈ below, (s.update id (·.mark .folded)).get? other = s.get? other := by
    intro other hMem
    apply get?_update_of_ne
    rintro rfl
    exact hNew hMem
  apply (hExpand _ items below inPermutation active (hs.update_unread hView _) (hBelow.congr hUntouched) hAvoids).bind
  rintro ⟨items', _⟩ s2 ⟨rfl, hYields⟩
  have hNode2 : s2.get? id = some (t.mark .folded) := by
    rw [hYields.others id (has_update.2 (has_of_get? hNode)) hNew hView]
    simp [hNode]
  apply (attains_fill hNode2 hForm items' true).mono
  rintro _ _ ⟨rfl, rfl⟩
  have hSelf := get?_update_some hNode2 fun t => { t with form := .list shape items' }.settle true
  refine ⟨rfl, ?_, items', _, hSelf, ?_⟩
  · exact hYields.list hNode hForm hBelow hNew (hYields.agrees.update_unread hView _) hSelf
      fun other hNe => get?_update_of_ne hNe
  · apply hYields.fills.earlier _ fun _ hHas => has_update.2 hHas
    exact fun item hItem => hUntouched item (hBelow.unfolds.mem_of_root hItem)

def Offers (m : Reading) (s : Store) (trees : List Tree) (content : SlotContent) (s' : Store) : Prop :=
  ∃ items, content = .elements items true ∧ m.Provides s items trees s'

omit m in
theorem attains_elementsObstacle {env : Env} (hUnfolds : Unfolds s.get? items ids elements)
    (hNone : ∀ tree ∈ elements, elementObstacle false tree.form = none) (inPermutation : Bool) :
    Attains true env s (elementsObstacle inPermutation items) fun obstacle s' => obstacle = none ∧ s' = s := by
  generalize hView : s.get? = view at hUnfolds
  induction hUnfolds with
  | nil => exact .pure ⟨rfl, rfl⟩
  | @cons root t rest below ids children trees hFound _ _ _ ih =>
    subst hView
    rw [elementsObstacle]
    apply Attains.formOf_then hFound
    have hObstacle : elementObstacle false t.bare.form = none := hNone _ mem_cons_self
    rw [Template.bare, elementObstacle_bare] at hObstacle
    simp only [elementObstacle_of_false hObstacle inPermutation]
    exact ih fun tree hMem => hNone tree (mem_cons_of_mem _ hMem)

theorem attains_spliceElements (hExpand : m.Rewrites expand elements elements') (hs : m.Agrees s)
    (hUnfolds : Unfolds m.view items ids elements)
    (hNone : ∀ tree ∈ elements, elementObstacle false tree.form = none) (hAvoids : m.Avoids active elements) :
    Attains true m.env s (spliceElements expand inPermutation active slot items) fun content s' =>
      m.Offers s elements' content s' := by
  have hUnfolds := hs.unfolds hUnfolds
  rw [spliceElements]
  apply (attains_elementsObstacle hUnfolds hNone inPermutation).bind
  rintro _ _ ⟨rfl, rfl⟩
  apply (attains_copies hUnfolds).bind
  intro copies s1 hPlants
  obtain ⟨ids, hPending, hNew⟩ := hs.pending hPlants
  apply (hExpand s1 copies ids inPermutation active (hs.plants hPlants) hPending hAvoids).bind
  rintro ⟨expanded, _⟩ s2 ⟨rfl, hYields⟩
  exact .pure ⟨expanded, rfl, .of_copies hPlants hNew hYields⟩

theorem attains_spliceFromTemplate (hExpand : m.Rewrites expand elements elements')
    (hs : m.Agrees s) {template : TemplateDef} (hDefinition : m.env.definitions.get? d = some definition)
    (hTemplate : definition.kind = .template template) (hContains : m.Contains d elements)
    (hNone : ∀ tree ∈ elements, elementObstacle false tree.form = none) (hAvoids : m.Avoids active elements)
    (hPath : r.path = []) (hArgs : r.args = none) :
    Attains true m.env s (spliceFromTemplate expand inPermutation active slot definition template.body r)
      fun content s' => m.Offers s elements' content s' := by
  obtain ⟨_, _, last, t, items, ids, hDefinition', hTemplate', hType, hLast, hView, hForm, hUnfolds⟩ := hContains
  cases hDefinition.symm.trans hDefinition'
  cases hTemplate.symm.trans hTemplate'
  obtain ⟨type, hType⟩ := Option.isSome_iff_exists.1 hType
  rw [spliceFromTemplate]
  simp only [hType, hPath, walkTarget, Reference.isParameterized, hArgs, pure_bind]
  apply (attains_lastTemplate hLast hs).bind
  rintro _ s1 ⟨rfl, hLearns⟩
  obtain ⟨t', hFound, hFollowed⟩ := hLearns.agrees.nodes _ t hView
  apply Attains.formOf_then hFound
  have hList : t'.form = .list .positional items ∨ t'.form = .list .valueList items := by
    cases hFollowed with
    | same => exact hForm
    | known _ hReferenced =>
      rw [hReferenced] at hForm
      obtain hForm | hForm := hForm <;> cases hForm
  have hElements : Attains true m.env s1 (spliceElements expand inPermutation active slot items) fun content s' =>
      m.Offers s elements' content s' := by
    apply (attains_spliceElements hExpand hLearns.agrees hUnfolds hNone hAvoids).mono
    rintro content s' ⟨items', rfl, hProvides⟩
    exact ⟨items', rfl, hLearns.provides hProvides⟩
  obtain hList | hList := hList
  · simpa only [hList] using hElements
  · simpa only [hList] using hElements

theorem attains_spliceFromConstant (hs : m.Agrees s) (hNode : s.get? slot = some t)
    {type : TypeKey} {decl : TypeDecl} (hType : definition.type = some type)
    (hDecl : m.env.types.decl? type = some decl) (hList : decl.isList)
    (hFold : m.env.fold (.ref r) = .ok (.list values)) (hPath : r.path = []) (hArgs : r.args = none) :
    Attains true m.env s (spliceFromConstant slot definition r) fun content s' =>
      m.Offers s (values.map (.ofValue t.span)) content s' := by
  have hTarget : Attains true m.env s (listTarget type r.span "constant") fun content s' =>
      content = .runtime ∧ s' = s := by
    rw [listTarget]
    apply Attains.read_then
    simp only [hDecl, hList, if_true]
    exact .pure ⟨rfl, rfl⟩
  rw [spliceFromConstant]
  simp only [hType, hPath, splicePath, pure_bind]
  apply hTarget.bind
  rintro _ _ ⟨rfl, rfl⟩
  simp only [Reference.isParameterized, hArgs, Option.isSome_none, Bool.false_eq_true, if_false]
  apply Attains.read_then
  simp only [hFold]
  apply Attains.node_then hNode
  apply (attains_values values t.span).bind
  intro items s' hPlants
  exact .pure ⟨items, rfl, hs.provides hPlants⟩

theorem attains_spliceReference (hTarget : r.target = some d) (hDefinition : m.env.definitions.get? d = some definition)
    (hInactive : d ∉ active)
    (h : Attains true m.env s (spliceDefinition expand inPermutation active slot d definition r) fun content =>
      m.Offers s trees content) :
    Attains true m.env s (spliceReference expand inPermutation active slot r) fun content =>
      m.Offers s trees content := by
  rw [spliceReference]
  apply Attains.read_then
  simp only [hTarget, Definitions.target?, Option.bind_some, hDefinition, hInactive, if_false]
  apply h.bind
  rintro _ s' ⟨items, rfl, hProvides⟩
  exact .pure ⟨items, rfl, hProvides⟩

theorem attains_spliceSlot {u : Template} {target : NodeId} {Q : SlotContent → Store → Prop}
    (hNode : s.get? target = some u) (hReference : (Tree.node u.bare children).reference? = some r)
    (h : Attains true m.env s (spliceReference expand inPermutation active slot r) Q) :
    Attains true m.env s (spliceSlot expand inPermutation active slot target) Q := by
  rw [spliceSlot]
  apply Attains.formOf_then hNode
  obtain hForm | ⟨known, hForm⟩ := Tree.form_of_reference? hReference
  · simpa only [hForm] using h
  · simpa only [hForm] using h

def RewritesItem (m : Reading) (expand : Expand) (tree : Tree) (trees : List Tree) : Prop :=
  ∀ s item own inPermutation active done, m.Agrees s → m.Pending s [item] own [tree] → m.Avoids active [tree] →
    Attains true m.env s (expandItem expand inPermutation active (done, true) item) fun result s' =>
      ∃ items, result = (done ++ items, true) ∧ m.Yields s own [item] items trees s'

def RewritesAll (m : Reading) (expand : Expand) (trees trees' : List Tree) : Prop :=
  ∀ s items ids inPermutation active done, m.Agrees s → m.Pending s items ids trees → m.Avoids active trees →
    Attains true m.env s (items.foldlM (expandItem expand inPermutation active) (done, true)) fun result s' =>
      ∃ items', result = (done ++ items', true) ∧ m.Yields s ids items items' trees' s'

theorem rewritesItem_kept (hSlot : head.form.isSlot = false) (hExpanded : head.form.isExpanded = false) :
    m.RewritesItem expand (.node head children) [.node head children] := by
  intro s item own inPermutation active done hs hPending _
  obtain ⟨t, below, hNode, rfl, -⟩ := hPending.of_single
  have hNotSlot : t.form.isSlot = false := t.form.isSlot_bare.symm.trans hSlot
  have hYields := hPending.yields_self hs (.item hNode hNotSlot .nil)
  rw [expandItem]
  apply Attains.formOf_then hNode
  obtain ⟨form⟩ := t
  cases form with
  | allFrom target => cases hSlot
  | list shape items =>
    cases shape with
    | positional | valueList | permutation => cases hExpanded
    | _ => exact .pure ⟨[item], rfl, hYields⟩
  | _ => exact .pure ⟨[item], rfl, hYields⟩

theorem rewritesItem_list (hExpanded : head.form.isExpanded) (h : m.Rewrites expand children children') :
    m.RewritesItem expand (.node head children) [.node head children'] := by
  intro s item own inPermutation active done hs hPending hAvoids
  obtain ⟨t, below, hNode, rfl, -⟩ := hPending.of_single
  have hAvoids' : m.Avoids active children := hAvoids.mono fun target hSlot => .inside hExpanded hSlot
  have hItem : ∀ shape items inPermutation, t.form = .list shape items → Attains true m.env s (do
        let inner ← expandNode expand inPermutation active item
        return (done ++ [item], true && inner)) fun result s' =>
          ∃ items, result = (done ++ items, true) ∧ m.Yields s own [item] items [.node t.bare children'] s' := by
    intro shape items inPermutation hForm
    apply (attains_expandNode h hs hPending hNode hForm hAvoids').bind
    rintro _ s' ⟨rfl, hYields, -⟩
    exact .pure ⟨[item], rfl, hYields⟩
  rw [expandItem]
  apply Attains.formOf_then hNode
  obtain ⟨form⟩ := t
  cases form with
  | list shape items =>
    cases shape with
    | positional => exact hItem .positional items false rfl
    | valueList => exact hItem .valueList items false rfl
    | permutation => exact hItem .permutation items true rfl
    | _ => cases hExpanded
  | _ => cases hExpanded

theorem rewritesItem_slot (hSlot : head.form.isSlot) (hReference : target.reference? = some r)
    (h : ∀ s slot t inPermutation active, m.Agrees s → s.get? slot = some t → t.span = head.span →
      m.Avoids active [.node head [target]] →
      Attains true m.env s (spliceReference expand inPermutation active slot r) fun content =>
        m.Offers s trees content) : m.RewritesItem expand (.node head [target]) trees := by
  intro s item own inPermutation active done hs hPending hAvoids
  obtain ⟨t, below, hNode, rfl, rfl, -, hBelow⟩ := hPending.of_single
  have hSplice := h s item t inPermutation active hs hNode rfl hAvoids
  have hYields : ∀ items s', m.Provides s items trees s' → m.Yields s (item :: below) [item] items trees s' := by
    intro items s' hProvides
    exact hPending.yields_slot hNode (t.form.isSlot_bare.symm.trans hSlot) hProvides
  rw [expandItem]
  apply Attains.formOf_then hNode
  obtain ⟨form⟩ := t
  cases form with
  | allFrom id =>
    obtain ⟨head', children⟩ := target
    obtain ⟨u, _, hTarget, rfl, -⟩ := hBelow.of_single
    apply (attains_spliceSlot hTarget hReference hSplice).bind
    rintro _ s' ⟨items, rfl, hProvides⟩
    exact .pure ⟨items, rfl, hYields items s' hProvides⟩
  | _ => cases hSlot

theorem rewritesItem_template (hSlot : head.form.isSlot) (hFrom : m.FromTemplate target d elements)
    (h : m.Rewrites expand elements elements') : m.RewritesItem expand (.node head [target]) elements' := by
  obtain ⟨r, hReference, hPath, hArgs, hTarget, hContains, hNone⟩ := hFrom
  have hNamed : target.target? = some d := by simp [Tree.target?, hReference, hTarget]
  apply rewritesItem_slot hSlot hReference
  intro s slot t inPermutation active hs _ _ hAvoids
  have hInactive := (hAvoids d ⟨target, .direct (.here hSlot), hNamed⟩).1
  obtain ⟨definition, template, -, -, -, -, hDefinition, hTemplate, -⟩ := id hContains
  apply attains_spliceReference hTarget hDefinition hInactive
  rw [spliceDefinition]
  simp only [hTemplate]
  exact attains_spliceFromTemplate h hs hDefinition hTemplate hContains hNone
    (hAvoids.enter (.here hSlot) hNamed hContains) hPath hArgs

theorem rewritesItem_constant (hSlot : head.form.isSlot) (hFrom : m.FromConstant target values) :
    m.RewritesItem expand (.node head [target]) (values.map (.ofValue head.span)) := by
  obtain ⟨r, definition, initial, type, decl, hReference, hPath, hArgs, hDefinition, hKind, hType, hDecl, hList,
    hFold⟩ := hFrom
  obtain ⟨d, hTarget, hDefinition⟩ := Option.bind_eq_some_iff.1 hDefinition
  have hNamed : target.target? = some d := by simp [Tree.target?, hReference, hTarget]
  apply rewritesItem_slot hSlot hReference
  intro s slot t inPermutation active hs hNode hSpan hAvoids
  have hInactive := (hAvoids d ⟨target, .direct (.here hSlot), hNamed⟩).1
  apply attains_spliceReference hTarget hDefinition hInactive
  rw [spliceDefinition]
  simp only [hKind]
  rw [← hSpan]
  exact attains_spliceFromConstant hs hNode hType hDecl hList hFold hPath hArgs

theorem RewritesAll.cons {tree : Tree} {first : List Tree} (hItem : m.RewritesItem expand tree first)
    (h : m.RewritesAll expand trees trees') : m.RewritesAll expand (tree :: trees) (first ++ trees') := by
  intro s items ids inPermutation active done hs hPending hAvoids
  cases items with
  | nil => cases hPending.unfolds
  | cons item rest =>
    obtain ⟨own, others, rfl, hOwn, hOthers, hApart⟩ := hPending.of_cons
    rw [foldlM_cons]
    have hFirst : m.Avoids active [tree] := by
      apply hAvoids.mono
      intro target hSlot
      cases hSlot with
      | here hSlot => exact .here hSlot
      | inside hExpanded hSlot => exact .inside hExpanded hSlot
      | later hSlot => cases hSlot
    have hLater : m.Avoids active trees := hAvoids.mono fun target hSlot => .later hSlot
    apply (hItem s item own inPermutation active done hs hOwn hFirst).bind
    rintro _ s' ⟨items, rfl, hYields⟩
    apply (h s' rest others inPermutation active _ hYields.agrees (hOthers.treats hYields.toTreats hApart) hLater).mono
    rintro _ s'' ⟨items', rfl, hYields'⟩
    exact ⟨items ++ items', by rw [List.append_assoc], hYields.append hs hOwn hOthers hApart hYields'⟩

theorem rewrites_expandWithin {depth : Nat} (h : m.RewritesAll (expandWithin depth) trees trees') :
    m.Rewrites (expandWithin (depth + 1)) trees trees' := by
  intro s items ids inPermutation active hs hPending hAvoids
  apply (h s items ids inPermutation active [] hs hPending hAvoids).mono
  rintro _ s' ⟨items', rfl, hYields⟩
  exact ⟨rfl, hYields⟩

/-- Slots are replaced by what they stand for, if the expansion may go deep enough. -/
theorem Substituted.rewrites (h : m.Substituted trees trees') :
    ∃ depth, ∀ depth' ≥ depth, m.RewritesAll (expandWithin depth') trees trees' := by
  induction h with
  | nil =>
    refine ⟨0, fun depth' _ s items ids inPermutation active done hs hPending _ => ?_⟩
    have hUnfolds := hPending.unfolds
    cases hUnfolds
    exact .pure ⟨[], by rw [append_nil], hPending.yields_self hs .nil⟩
  | kept hSlot hExpanded _ ih =>
    obtain ⟨depth, ih⟩ := ih
    exact ⟨depth, fun depth' hLe => .cons (rewritesItem_kept hSlot hExpanded) (ih depth' hLe)⟩
  | list hExpanded _ _ ihBelow ih =>
    obtain ⟨inner, ihBelow⟩ := ihBelow
    obtain ⟨depth, ih⟩ := ih
    refine ⟨max (inner + 1) depth, fun depth' hLe => ?_⟩
    obtain ⟨depth', rfl⟩ : ∃ n, depth' = n + 1 := ⟨depth' - 1, by omega⟩
    have hBelow := rewrites_expandWithin (ihBelow depth' (by omega))
    exact .cons (rewritesItem_list hExpanded hBelow) (ih (depth' + 1) (by omega))
  | template hSlot hFrom _ _ ihElements ih =>
    obtain ⟨inner, ihElements⟩ := ihElements
    obtain ⟨depth, ih⟩ := ih
    refine ⟨max (inner + 1) depth, fun depth' hLe => ?_⟩
    obtain ⟨depth', rfl⟩ : ∃ n, depth' = n + 1 := ⟨depth' - 1, by omega⟩
    have hElements := rewrites_expandWithin (ihElements depth' (by omega))
    exact .cons (rewritesItem_template hSlot hFrom hElements) (ih (depth' + 1) (by omega))
  | constant hSlot hFrom _ ih =>
    obtain ⟨depth, ih⟩ := ih
    exact ⟨depth, fun depth' hLe => .cons (rewritesItem_constant hSlot hFrom) (ih depth' hLe)⟩

end Reading

end TemplateCheck
