import TemplateCheck.Proofs.Plain
import TemplateCheck.Proofs.Substitution.Flattening
import TemplateCheck.Proofs.Termination

/-!
# A check without end

A list `t` whose only element is a complemented list that takes in the elements of `t`. Checking such a
complemented list splices a copy of itself into it and goes on with the copy. Splicing notices a
definition that is spliced into itself only while it runs, and it starts anew in every list.
-/

namespace TemplateCheck

open List Store

variable {t : Template}

section

variable {α β : Type} {env : Env} {s : Store} {x y : CheckM α} {f : α → CheckM β}

def Sinks (env : Env) (s : Store) (x : CheckM α) : Prop :=
  ∀ report, ((x env).run ⟨s, report⟩).1 = .error .tooDeep

theorem Sinks.bind (h : Sinks env s x) (f : α → CheckM β) : Sinks env s (x >>= f) := by
  intro report
  rcases hRun : (x env).run ⟨s, report⟩ with ⟨result, after⟩
  obtain rfl : result = .error .tooDeep := by simpa [hRun] using h report
  rw [run_bind_error f hRun]

theorem Sinks.inside (h : Sinks env s x) (c : Context) : Sinks env s (inside c x) :=
  fun report => h (report.enter c)

theorem Attains.sinks_then {Q : α → Store → Prop} (h : Attains true env s x Q)
    (hf : ∀ a s', Q a s' → Sinks env s' (f a)) : Sinks env s (x >>= f) := by
  intro report
  obtain ⟨a, ⟨s', report'⟩, hRun, -, hResult⟩ := h.run report
  rw [run_bind_ok f hRun]
  exact hf a s' hResult report'

theorem Deepens.sinks (h : Deepens x y) (hSinks : Sinks env s y) : Sinks env s x := by
  intro report
  obtain hSame | hDeep := h.run env ⟨s, report⟩
  · rw [← hSame]
    exact hSinks report
  · exact hDeep

theorem sinks_of_node {id : NodeId} {f : Template → CheckM β} (hNode : s.get? id = some t)
    (h : Sinks env s (f t)) : Sinks env s (node id >>= f) := by
  intro report
  have hRun : (node id env).run ⟨s, report⟩ = (.ok t, ⟨s, report⟩) := run_node hNode
  rw [run_bind_ok f hRun]
  exact h report

end

def toList : Reference := .plain "t" (some 0) {}

def toListDefinition : Definition := ⟨"t", some 2, .template { body := 3 }, {}⟩

/-- A list whose element takes in the elements of the list, and such an element for itself. -/
def circular : Session where
  types := .numbers
  definitions := ⟨[toListDefinition]⟩
  store := .ofForms [.specific (.ref toList), .allFrom 0, .list .complemented [1], .ofItems [2],
    .specific (.ref toList), .allFrom 4, .list .complemented [5]]

namespace circular

/-- The list by itself, without the further element. -/
def outside : Reading := circular.store.readingWithout circular.env [6, 5, 4]

def slot : Tree := .node { form := .allFrom 0 } [.node { form := .specific (.ref toList) } []]

def taker : Tree := .node { form := .list .complemented [] } [slot]

theorem unfolds_taker : Unfolds outside.view [2] [2, 1, 0] [taker] := by
  have hTarget := Unfolds.cons (show outside.view 0 = some _ from rfl) .nil .nil
  have hSlot := Unfolds.cons (show outside.view 1 = some _ from rfl) hTarget .nil
  exact Unfolds.cons (show outside.view 2 = some _ from rfl) hSlot .nil

variable {s : Store} {list : NodeId} {roots ids : List NodeId}

/-- An element that takes in the list and has not been checked yet. -/
structure Takes (s : Store) (list : NodeId) : Prop where
  agrees : outside.Agrees s
  unread : outside.view list = none
  unfolds : ∃ ids, Unfolds s.get? [list] ids [taker]
  fresh : ∀ t, s.get? list = some t → t.marks = {}

theorem takes_self : Takes circular.store 6 where
  agrees := Reading.agrees_without _ _ _
  unread := rfl
  unfolds := by
    have hTarget := Unfolds.cons (show circular.store.get? 4 = some _ from rfl) .nil .nil
    have hSlot := Unfolds.cons (show circular.store.get? 5 = some _ from rfl) hTarget .nil
    exact ⟨_, Unfolds.cons (show circular.store.get? 6 = some _ from rfl) hSlot .nil⟩
  fresh := by
    rintro _ ⟨⟩
    rfl

theorem of_unfolds {view : NodeId → Option Template} {head : Template}
    {children : List Tree} (h : Unfolds view roots ids [.node head children]) : ∃ id t below, roots = [id] ∧
      view id = some t ∧ head.form = t.form.bare ∧ Unfolds view t.form.children below children := by
  obtain _ | ⟨hView, hBelow, hRest⟩ := h
  cases hRest
  exact ⟨_, _, _, rfl, hView, rfl, hBelow⟩

theorem of_taker (h : Unfolds s.get? roots ids [taker]) :
    ∃ list t slot u target v, roots = [list] ∧ s.get? list = some t ∧ t.form = .list .complemented [slot] ∧
      s.get? slot = some u ∧ u.form = .allFrom target ∧ s.get? target = some v ∧ v.form = .specific (.ref toList) := by
  obtain ⟨list, t, _, rfl, hList, hForm, hBelow⟩ := of_unfolds h
  obtain ⟨slot, u, _, hItems, hSlot, hForm', hBelow'⟩ := of_unfolds hBelow
  obtain ⟨target, v, _, hTarget, hFound, hForm'', -⟩ := of_unfolds hBelow'
  refine ⟨list, t, slot, u, target, v, rfl, hList, ?_, hSlot, ?_, hFound, ?_⟩
  · cases hList : t.form <;> rw [hList] at hForm hItems <;> cases hForm
    rw [← hItems]
    rfl
  · cases hAll : u.form <;> rw [hAll] at hForm' hTarget <;> cases hForm'
    cases hTarget
    rfl
  · cases hRef : v.form <;> rw [hRef] at hForm'' <;> cases hForm''
    rfl

theorem unfolds_update {f : Template → Template} (hf : ∀ t, (f t).bare = t.bare)
    (hChildren : ∀ t, (f t).form.children = t.form.children) (h : Unfolds s.get? [list] ids [taker]) :
    Unfolds (s.update list f).get? [list] ids [taker] := by
  apply h.congr
  intro id _ u hFound
  by_cases hEq : id = list
  · exact ⟨f u, by simp [← hEq, hFound], hf u, hChildren u⟩
  · exact ⟨u, (get?_update_of_ne hEq).trans hFound, rfl, rfl⟩

/-- The content of a slot is a copy of the element. -/
def Copied (s : Store) (content : SlotContent) (s' : Store) : Prop :=
  ∃ copy, content = .elements [copy] true ∧ s.Plants [copy] [taker] s'

theorem attains_spliceElements (depth : Nat) (id : NodeId) (hs : outside.Agrees s) :
    Attains true circular.env s (spliceElements (expandWithin (depth + 1)) false [0] id [2]) (Copied s) := by
  have hUnfolds := hs.unfolds unfolds_taker
  rw [spliceElements]
  apply (Reading.attains_elementsObstacle hUnfolds (by simp [taker, Tree.form, elementObstacle]) false).bind
  rintro _ _ ⟨rfl, rfl⟩
  apply (attains_copies hUnfolds).bind
  intro copies s1 hPlants
  obtain ⟨_, hCopy, -⟩ := hPlants.planted
  obtain ⟨copy, t, _, _, _, _, rfl, hNode, hForm, -⟩ := of_taker hCopy
  have hExpand : Attains true circular.env s1 (expandWithin (depth + 1) false [0] [copy]) fun result s' =>
      result = ([copy], true) ∧ s' = s1 := by
    rw [expandWithin, foldlM_cons, expandItem, bind_assoc]
    apply Attains.formOf_then hNode
    rw [hForm]
    exact .pure ⟨rfl, rfl⟩
  apply hExpand.bind
  rintro _ _ ⟨rfl, rfl⟩
  exact .pure ⟨copy, rfl, hPlants⟩

/-- Splicing leaves an element with a new one as its only item. -/
theorem attains_flattenWithin (depth : Nat) (hs : outside.Agrees s) (hUnread : outside.view list = none)
    (hUnfolds : ∃ ids, Unfolds s.get? [list] ids [taker]) (hNode : s.get? list = some t)
    (hUnfolded : t.marks.folded = false) : Attains true circular.env s (flattenWithin (depth + 2) list) fun _ s' =>
      ∃ copy t', s'.get? list = some t' ∧ t'.form = .list .complemented [copy] ∧ Takes s' copy := by
  set s1 := s.update list (·.mark .folded)
  have hAgrees1 : outside.Agrees s1 := hs.update_unread hUnread _
  obtain ⟨ids, hUnfolds⟩ := hUnfolds
  obtain ⟨_, _, slot, u, target, v, ⟨⟩, hNode1, hForm, hSlot, hSlotForm, hTarget, hTargetForm⟩ :=
    of_taker (unfolds_update (f := (·.mark .folded)) (fun _ => rfl) (fun _ => rfl) hUnfolds)
  obtain rfl : _ = t.mark .folded := Option.some.inj (hNode1.symm.trans (by simp [hNode]))
  obtain ⟨body, hBody, hFollowed⟩ := hAgrees1.nodes 3 _ rfl
  have hBodyForm : body.form = .list .positional [2] := by
    cases hFollowed with
    | same => rfl
    | known _ hForm => cases hForm
  have hFrom : Attains true circular.env s1
      (spliceFromTemplate (expandWithin (depth + 1)) false [0] slot toListDefinition 3 toList) (Copied s1) := by
    have hEnd : ∀ r last, body.form ≠ .referenced r last := by simp [hBodyForm]
    apply (Attains.lastTemplate hBody hEnd).bind
    rintro _ _ ⟨rfl, rfl⟩
    apply Attains.formOf_then hBody
    rw [hBodyForm]
    exact attains_spliceElements depth slot hAgrees1
  have hSplice : Attains true circular.env s1 (spliceSlot (expandWithin (depth + 1)) false [] slot target)
      (Copied s1) := by
    apply Attains.formOf_then hTarget
    rw [hTargetForm]
    exact .read_then (hFrom.bind fun _ _ ⟨copy, hContent, hPlants⟩ => hContent ▸ .pure ⟨copy, rfl, hPlants⟩)
  have hExpand : Attains true circular.env s1 (expandWithin (depth + 2) false [] [slot]) fun result s' =>
      ∃ copy, result = ([copy], true) ∧ s1.Plants [copy] [taker] s' := by
    rw [expandWithin, foldlM_cons, expandItem, bind_assoc]
    apply Attains.formOf_then hSlot
    rw [hSlotForm, bind_assoc]
    apply hSplice.bind
    rintro _ s2 ⟨copy, rfl, hPlants⟩
    exact .pure ⟨copy, rfl, hPlants⟩
  apply Attains.read_then
  apply Attains.node_then hNode
  have hList : t.form = .list .complemented [slot] := hForm
  simp only [hUnfolded, hList, Bool.false_eq_true, if_false]
  apply (Attains.mark hNode .folded).bind
  rintro _ _ rfl
  apply hExpand.bind
  rintro _ s2 ⟨copy, rfl, hPlants⟩
  apply (attains_fill (hPlants.keeps list _ hNode1) hForm [copy] true).mono
  rintro _ _ ⟨-, rfl⟩
  obtain ⟨ids', hCopy, -, hNew⟩ := hPlants.planted
  have hNe : ∀ id ∈ ids', id ≠ list := by
    rintro id hMem rfl
    exact (hNew id hMem).1 (has_of_get? hNode1)
  have hMem : copy ∈ ids' := hCopy.mem_of_root mem_cons_self
  refine ⟨copy, _, get?_update_some (hPlants.keeps list _ hNode1) _, rfl,
    (hAgrees1.plants hPlants).update_unread hUnread _, hAgrees1.view_eq_none (hNew copy hMem).1,
    ⟨ids', hCopy.congr fun id hId u hFound => ?_⟩, fun u hFound => ?_⟩
  · exact ⟨u, (get?_update_of_ne (hNe id hId)).trans hFound, rfl, rfl⟩
  · rw [get?_update_of_ne (hNe copy hMem)] at hFound
    exact (hNew copy hMem).2 u hFound

theorem sinks_checkWithin (depth : Nat) (site : Site) (h : Takes s list) :
    Sinks circular.env s (checkWithin depth list 2 site) := by
  induction depth generalizing s list site with
  | zero => exact fun report => rfl
  | succ depth ih =>
    -- Splicing that may go deeper does not help: deep enough, it makes a new element.
    have hDeeper : ∀ n, Sinks circular.env s (checkStep (checkWithin depth) (flattenWithin (n + 1)) list 2 site) →
        Sinks circular.env s (checkStep (checkWithin depth) (flattenWithin n) list 2 site) := fun n =>
      (checking_deepens.checkStep (c := fun _ => checkWithin depth)
        (l := fun deeper => cond deeper (flattenWithin (n + 1)) (flattenWithin n)) (fun _ _ _ _ => .refl)
        (fun _ _ => deepens_flattenWithin n) trivial 2 site).sinks
    apply hDeeper
    apply hDeeper
    obtain ⟨ids, hUnfolds⟩ := h.unfolds
    obtain ⟨_, t, slot, -, -, -, ⟨⟩, hNode, hForm, -⟩ := of_taker hUnfolds
    set s1 := s.update list (·.govern 2) with hs1
    have hNode1 : s1.get? list = some (t.govern 2) := by simp [hs1, hNode]
    have hForm1 : (t.govern 2).form = .list .complemented [slot] := hForm
    have hUnfolded : (t.govern 2).marks.folded = false := by simp [Template.govern, Marks.set, h.fresh t hNode]
    have hItems : Attains true circular.env s1 (flattenedItems (flattenWithin (depth + 2)) list) fun items s' =>
        ∃ copy, items = [copy] ∧ Takes s' copy := by
      have hUnfolds1 : Unfolds s1.get? _ _ _ := unfolds_update (fun _ => rfl) (fun _ => rfl) hUnfolds
      apply (attains_flattenWithin depth (h.agrees.update_unread h.unread _) h.unread ⟨ids, hUnfolds1⟩ hNode1
        hUnfolded).bind
      rintro _ s' ⟨copy, t', hNode', hForm', hTakes⟩
      apply Attains.formOf_then hNode'
      rw [hForm']
      exact .pure ⟨copy, rfl, hTakes⟩
    unfold checkStep
    apply sinks_of_node hNode
    simp only [h.fresh t hNode, Bool.false_eq_true, if_false]
    apply (Attains.modifyNode hNode).sinks_then
    rintro _ _ rfl
    change Sinks circular.env s1 (checkGoverned _ _ _ _ _ _)
    rw [checkGoverned_eq]
    apply (Attains.beforeForm hNode1 (by simp [hForm1, Form.isDirect]) (.inl rfl) (by simp [hForm1])
      (by simp [hForm1])).sinks_then
    rintro _ _ rfl
    apply Sinks.bind
    rw [checkForm, formOf, bind_assoc]
    apply sinks_of_node hNode1
    rw [pure_bind, hForm1]
    apply hItems.sinks_then
    rintro _ s' ⟨copy, rfl, hTakes⟩
    have hChild : Sinks circular.env s' (checkChild (checkWithin depth) (.listItem 1) copy 2
        { allowOmit := circular.env.settings.omitInValueLists && site.allowOmit }) :=
      Sinks.bind ((ih _ hTakes).inside _) _
    exact Sinks.bind (Sinks.bind (Sinks.bind hChild _) _) _

end circular

/-- A well-formed session without base links and a check in it that does not come to an end. -/
theorem circular_not_ends :
    circular.WellFormed ∧ (∀ t ∈ circular.store.nodes, t.base = none) ∧
      (Operation.check 6 2 {}).InRange circular ∧ ¬ circular.Ends (.check 6 2 {}) := by
  refine ⟨Ordered.wellFormed (by decide), by decide, (by decide : Has _ _), ?_⟩
  rintro ⟨depth, hEnd⟩
  have hSinks := circular.sinks_checkWithin depth {} circular.takes_self circular.report
  have hDeep : (circular.performWithin depth (.check 6 2 {})).1 = some .tooDeep :=
    Session.ended_fst_eq_some.2 hSinks
  rw [hDeep] at hEnd
  cases hEnd

end TemplateCheck
