import TemplateCheck.Proofs.Slots.Splice

/-!
# Expanding once more

Where no slot is left, expanding a list finds nothing to do, even if it has to look: it only marks the lists that it
comes by. So a copy of a list that has been expanded completely, which carries no marks, stays as it is.
-/

namespace TemplateCheck

open List Store

variable {s : Store} {ids : List NodeId} {id : NodeId} {trees : List Tree}

theorem Form.isExpanded_bare (form : Form) : form.bare.isExpanded = form.isExpanded := by
  cases form with
  | list shape items => cases shape <;> rfl
  | _ => rfl

theorem Form.listShape?_bare (form : Form) : form.bare.listShape? = form.listShape? := by
  cases form <;> rfl

theorem Store.Lists.unfolds {roots : List NodeId} (h : s.Lists roots ids) :
    ∃ trees, Unfolds s.get? roots ids trees := by
  induction h with
  | nil => exact ⟨[], .nil⟩
  | cons hNode _ _ ihBelow ih =>
    obtain ⟨children, hChildren⟩ := ihBelow
    obtain ⟨trees, hTrees⟩ := ih
    exact ⟨_, .cons hNode hChildren hTrees⟩

theorem Unfolds.of_root (h : Unfolds s.get? [id] ids trees) : ∃ tree, trees = [tree] := by
  cases h with
  | cons _ _ hRest =>
    cases hRest
    exact ⟨_, rfl⟩

theorem Unfolds.same_root {s' : Store} {copy : NodeId} {ids' : List NodeId} {tree : Tree} {t : Template}
    (h : Unfolds s.get? [id] ids [tree]) (h' : Unfolds s'.get? [copy] ids' [tree]) (hNode : s.get? id = some t) :
    ∃ u below below' children, s'.get? copy = some u ∧ u.form.listShape? = t.form.listShape? ∧
      Unfolds s.get? t.form.children below children ∧ Unfolds s'.get? u.form.children below' children := by
  obtain ⟨head, children⟩ := tree
  obtain ⟨_, below, hNode', rfl, -, hBelow⟩ := h.of_single
  cases hNode.symm.trans hNode'
  obtain ⟨u, below', hCopy, hBare, -, hBelow'⟩ := h'.of_single
  refine ⟨u, below, below', children, hCopy, ?_, hBelow, hBelow'⟩
  have hForm : u.form.bare = t.form.bare := congrArg Template.form hBare.symm
  rw [← u.form.listShape?_bare, hForm, t.form.listShape?_bare]

theorem Unfolds.slotAmong_iff {items : List NodeId}
    (h : Unfolds s.get? items ids trees) : (∃ slot, s.SlotAmong items slot) ↔ ∃ target, SlotIn trees target := by
  induction h with
  | nil =>
    constructor
    · rintro ⟨slot, hSlot⟩
      exact absurd hSlot not_slotAmong_nil
    · rintro ⟨target, hSlot⟩
      cases hSlot
  | @cons root t rest below ids children trees hView hBelow _ ihBelow ih =>
    have hSplit : ∀ slot, s.SlotAmong ([root] ++ rest) slot ↔ s.SlotAmong [root] slot ∨ s.SlotAmong rest slot :=
      fun _ => slotAmong_append
    constructor
    · rintro ⟨slot, hSlot⟩
      obtain hSlot | hSlot := (hSplit slot).1 hSlot
      · obtain ⟨rfl, hIs⟩ | ⟨hExpanded, hInside⟩ := (slotAmong_single hView).1 hSlot
        · obtain ⟨target, hForm⟩ : ∃ target, t.form = .allFrom target := by
            revert hIs
            cases t.form <;> simp [Form.isSlot]
          rw [hForm] at hBelow
          obtain ⟨tree, rfl⟩ := hBelow.of_root
          exact ⟨tree, .here ((Form.isSlot_bare t.form).trans hIs)⟩
        · obtain ⟨target, hTarget⟩ := ihBelow.1 ⟨slot, hInside⟩
          exact ⟨target, .inside ((Form.isExpanded_bare t.form).trans hExpanded) hTarget⟩
      · obtain ⟨target, hTarget⟩ := ih.1 ⟨slot, hSlot⟩
        exact ⟨target, .later hTarget⟩
    · rintro ⟨target, hTarget⟩
      cases hTarget with
      | here hIs =>
        rw [show t.bare.form = t.form.bare from rfl, Form.isSlot_bare] at hIs
        exact ⟨root, .here mem_cons_self hView hIs⟩
      | inside hExpanded hInside =>
        rw [show t.bare.form = t.form.bare from rfl, Form.isExpanded_bare] at hExpanded
        obtain ⟨slot, hSlot⟩ := ihBelow.2 ⟨target, hInside⟩
        exact ⟨slot, .inside mem_cons_self hView hExpanded hSlot⟩
      | later hLater =>
        obtain ⟨slot, hSlot⟩ := ih.2 ⟨target, hLater⟩
        exact ⟨slot, (hSplit slot).2 (.inr hSlot)⟩

namespace Store

/-- Nothing has changed but the marks of some nodes. -/
structure Remarked (ids : List NodeId) (s s' : Store) : Prop where
  size_eq : s'.size = s.size
  nodes : ∀ id t, s.get? id = some t → ∃ marks, s'.get? id = some { t with marks } ∧ (id ∉ ids → marks = t.marks)

variable {s' s'' : Store} {t : Template} {others items more : List NodeId} {flat : Bool}

theorem Remarked.refl (s : Store) : s.Remarked ids s := ⟨rfl, fun _ t hNode => ⟨t.marks, hNode, fun _ => rfl⟩⟩

theorem Remarked.trans (h : s.Remarked ids s') (h' : s'.Remarked others s'') (hIds : ∀ id ∈ ids, id ∈ more)
    (hOthers : ∀ id ∈ others, id ∈ more) : s.Remarked more s'' where
  size_eq := h'.size_eq.trans h.size_eq
  nodes id t hNode := by
    obtain ⟨marks, hNode', hOut⟩ := h.nodes id t hNode
    obtain ⟨marks', hNode'', hOut'⟩ := h'.nodes id _ hNode'
    refine ⟨marks', hNode'', fun hNew => ?_⟩
    rw [hOut' fun hMem => hNew (hOthers id hMem), ← hOut fun hMem => hNew (hIds id hMem)]

theorem remarked_update {f : Template → Template} (hNode : s.get? id = some t) {marks : Marks}
    (hf : f t = { t with marks }) (hMem : id ∈ ids) : s.Remarked ids (s.update id f) where
  size_eq := size_update s id f
  nodes other u hOther := by
    by_cases hEq : other = id
    · subst hEq
      cases hNode.symm.trans hOther
      refine ⟨marks, ?_, fun hNew => absurd hMem hNew⟩
      rw [← hf]
      exact get?_update_some hNode f
    · exact ⟨u.marks, (get?_update_of_ne hEq).trans hOther, fun _ => rfl⟩

theorem Remarked.sameSlots (h : s.Remarked ids s') (hNew : ∀ id ∈ others, id ∉ ids) : s.SameSlots others s' := by
  intro id hMem t hNode
  obtain ⟨marks, hNode', hOut⟩ := h.nodes id t hNode
  rw [hOut (hNew id hMem)] at hNode'
  exact ⟨t, hNode', Template.Pursued.same.sameSlots⟩

theorem Tells.of_cons (h : s.Tells (id :: items) true) : s.Tells [id] true ∧ s.Tells items true := by
  have hNone := h.flat_iff.1 rfl
  have hSplit : ∀ slot, ¬ s.SlotAmong [id] slot ∧ ¬ s.SlotAmong items slot :=
    fun slot => not_or.1 fun hSlot => hNone slot (slotAmong_append.2 hSlot)
  exact ⟨⟨by simp [hSplit], fun slot _ hSlot => absurd hSlot (hSplit slot).1⟩,
    ⟨by simp [hSplit], fun slot _ hSlot => absurd hSlot (hSplit slot).2⟩⟩

theorem Tells.of_list (h : s.Tells [id] flat) (hNode : s.get? id = some t) (hExpanded : t.form.isExpanded) :
    s.Tells t.form.children flat := by
  have hInside : ∀ slot, s.SlotAmong t.form.children slot → s.SlotAmong [id] slot :=
    fun slot hSlot => .inside mem_cons_self hNode hExpanded hSlot
  have hBack : ∀ slot, s.SlotAmong [id] slot → s.SlotAmong t.form.children slot := by
    intro slot hSlot
    obtain ⟨-, hIs⟩ | ⟨-, hInside⟩ := (slotAmong_single hNode).1 hSlot
    · revert hIs hExpanded
      cases t.form <;> simp [Form.isSlot, Form.isExpanded]
    · exact hInside
  constructor
  · exact h.flat_iff.trans (forall_congr' fun slot => not_congr ⟨hBack slot, hInside slot⟩)
  · exact fun slot u hSlot => h.marked slot u (hInside slot hSlot)

end Store

section

variable {env : Env} {t : Template} {expand : Expand} {inPermutation : Bool} {active : List DefId} {items : List NodeId}
  {depth : Nat}

def Expand.Idle (env : Env) (depth : Nat) (expand : Expand) : Prop :=
  ∀ s inPermutation active items ids, s.Truthful items ids → s.Tells items true → ids.length < depth →
    Attains true env s (expand inPermutation active items) fun result s' =>
      result = (items, true) ∧ s.Remarked ids s'

theorem attains_expandNode_of_flat (hExpand : expand.Idle env depth) (h : s.Truthful [id] ids)
    (hNode : s.get? id = some t) (hShape : t.form.listShape?.isSome) (hFlat : s.Tells t.form.children true)
    (hDepth : ids.length ≤ depth) : Attains true env s (expandNode expand inPermutation active id) fun flat s' =>
      flat = true ∧ s.Remarked ids s' := by
  obtain ⟨_, below, hNode', hBelow, hNew, rfl, hHonest⟩ := h.of_single
  cases hNode.symm.trans hNode'
  apply Attains.node_then hNode
  cases hFolded : t.marks.folded with
  | true =>
    have hFlattened : t.marks.flattened = true := (hHonest trivial hFolded hShape).flat_iff.2 (hFlat.flat_iff.1 rfl)
    exact .pure ⟨hFlattened, .refl s⟩
  | false =>
    cases hForm : t.form with
    | list shape items =>
      simp only [Bool.false_eq_true, if_false]
      rw [hForm] at hBelow hFlat
      apply (Attains.mark hNode .folded).bind
      rintro _ s1 rfl
      have hMark : s.Remarked (id :: below) (s.update id (·.mark .folded)) :=
        remarked_update hNode rfl mem_cons_self
      have hSame : s.SameSlots below (s.update id (·.mark .folded)) := sameSlots_update hNew
      apply (hExpand _ inPermutation active items below (hBelow.congr hSame) (hFlat.congr hBelow.lists hSame)
        hDepth).bind
      rintro _ s2 ⟨rfl, hRemarked⟩
      -- The form that is put back is the one that was there.
      obtain ⟨marks, hNode2, hOut⟩ := hRemarked.nodes id (t.mark .folded) (get?_update_some hNode _)
      obtain rfl := hOut hNew
      apply (attains_fill hNode2 hForm items true).mono
      rintro _ _ ⟨rfl, rfl⟩
      have hAgain : { t.mark .folded with form := .list shape items } = t.mark .folded := by
        simp [Template.mark, hForm]
      have hFill : s2.Remarked (id :: below) (s2.update id fun t => { t with form := .list shape items }.settle true) :=
        remarked_update hNode2 (congrArg (Template.settle · true) hAgain) mem_cons_self
      have hSelf : ∀ other ∈ id :: below, other ∈ id :: below := fun _ hMem => hMem
      exact ⟨rfl, (hMark.trans hRemarked hSelf fun _ => mem_cons_of_mem _).trans hFill hSelf hSelf⟩
    | _ => simp [hForm, Form.listShape?] at hShape

theorem attains_expandItem_of_flat (hExpand : expand.Idle env depth) (done : List NodeId × Bool) {item : NodeId}
    (h : s.Truthful [item] ids) (hFlat : s.Tells [item] true) (hDepth : ids.length ≤ depth) :
    Attains true env s (expandItem expand inPermutation active done item) fun result s' =>
      result = (done.1 ++ [item], done.2) ∧ s.Remarked ids s' := by
  obtain ⟨items, before⟩ := done
  obtain ⟨t, _, hNode, -⟩ := h.of_single
  have hList : ∀ inPermutation, t.form.isExpanded → Attains true env s (do
      let inner ← expandNode expand inPermutation active item
      return (items ++ [item], before && inner)) fun result s' =>
        result = (items ++ [item], before) ∧ s.Remarked ids s' := by
    intro inPermutation hExpanded
    have hShape : t.form.listShape?.isSome := by
      obtain hShape | hShape | hShape := Form.isExpanded_iff.1 hExpanded <;> simp [hShape]
    apply (attains_expandNode_of_flat hExpand h hNode hShape (hFlat.of_list hNode hExpanded) hDepth).bind
    rintro _ s' ⟨rfl, hRemarked⟩
    exact .pure ⟨by simp, hRemarked⟩
  apply Attains.formOf_then hNode
  split
  · rename_i target hForm
    exact absurd (.here mem_cons_self hNode (by rw [hForm]; rfl)) (hFlat.flat_iff.1 rfl item)
  · rename_i hForm
    exact hList true (by rw [hForm]; rfl)
  case h_3 | h_4 =>
    rename_i hForm
    exact hList false (by rw [hForm]; rfl)
  · exact .pure ⟨rfl, .refl s⟩

theorem idle_expandWithin (depth : Nat) : (expandWithin depth).Idle env depth := by
  induction depth with
  | zero => exact fun _ _ _ _ _ _ _ hDepth => absurd hDepth (Nat.not_lt_zero _)
  | succ depth ih =>
    have hFold : ∀ inPermutation active items s ids done, s.Truthful items ids → s.Tells items true →
        ids.length ≤ depth →
        Attains true env s (items.foldlM (expandItem (expandWithin depth) inPermutation active) done)
          fun result s' => result = (done.1 ++ items, done.2) ∧ s.Remarked ids s' := by
      intro inPermutation active items
      induction items with
      | nil => exact fun s _ done _ _ _ => .pure ⟨by simp, .refl s⟩
      | cons item items ihItems =>
        intro s ids done h hFlat hDepth
        obtain ⟨own, others, hItem, hItems, rfl⟩ := h.of_cons
        obtain ⟨hFlatItem, hFlatItems⟩ := hFlat.of_cons
        rw [length_append] at hDepth
        rw [foldlM_cons]
        apply (attains_expandItem_of_flat ih done hItem hFlatItem (by omega)).bind
        rintro _ s1 ⟨rfl, hRemarked⟩
        have hSame : s.SameSlots others s1 := hRemarked.sameSlots fun id hMem hOwn =>
          (nodup_append.1 h.nodup).2.2 id hOwn id hMem rfl
        apply (ihItems s1 others _ (hItems.congr hSame) (hFlatItems.congr hItems.lists hSame) (by omega)).mono
        rintro _ s2 ⟨rfl, hRemarked'⟩
        refine ⟨by simp, hRemarked.trans hRemarked' ?_ ?_⟩
        · exact fun id hMem => mem_append_left _ hMem
        · exact fun id hMem => mem_append_right _ hMem
    intro s inPermutation active items ids h hFlat hDepth
    exact hFold inPermutation active items s ids ([], true) h hFlat (by omega)

end

namespace Session

/-- The result of expanding a list tells exactly whether a slot is left in it, and so do its marks; the slots that are
left are marked. If none is left, expanding a copy changes nothing but marks. -/
theorem flatten_exact (s : Session) (depth : Nat) (id : NodeId) {t : Template} {shape : ListShape}
    {items ids : List NodeId} {b : Bool} (hNode : s.store.get? id = some t) (hForm : t.form = .list shape items)
    (hTree : s.store.Lists [id] ids) (hNodup : ids.Nodup) (hUnfolded : ∀ u ∈ s.store.nodes, u.marks.folded = false)
    (hEnds : (s.run (flattenWithin depth id)).1 = .ok b) :
    let after := (s.run (flattenWithin depth id)).2
    ∃ t' items', after.store.get? id = some t' ∧ t'.form = .list shape items' ∧
      (b = true ↔ ∀ slot, ¬ after.store.SlotAmong items' slot) ∧
      t'.marks.flattened = b ∧ t'.marks.needsExpansion = (t.marks.needsExpansion || !b) ∧
      (∀ slot u, after.store.SlotAmong items' slot → after.store.get? slot = some u → u.marks.needsExpansion) ∧
      (b = true → ∃ copy ids', (after.copy id).1 = .ok copy ∧ (after.copy id).2.store.Lists [copy] ids' ∧
        ∀ depth' ≥ (after.copy id).2.store.size,
          ((after.copy id).2.run (flattenWithin depth' copy)).1 = .ok true ∧
          ((after.copy id).2.run (flattenWithin depth' copy)).2.report = after.report ∧
          (after.copy id).2.store.Remarked ids' ((after.copy id).2.run (flattenWithin depth' copy)).2.store) := by
  intro after
  have hTruthful : s.store.Truthful [id] ids := by
    refine ⟨hTree, hNodup, fun _ other _ u hOther hFolded => ?_⟩
    rw [hUnfolded u (mem_of_getElem? hOther)] at hFolded
    cases hFolded
  obtain ⟨t', ids', hNode', hFolded, hTruthful', -⟩ := of_run_of_returns
    (returns_flattenWithin depth hTruthful hNode (by rw [hForm]; rfl)) hEnds (by simp)
  obtain ⟨items', hForm'⟩ : ∃ items', t'.form = .list shape items' := by
    have hShape := hFolded.listShape?
    rw [hForm] at hShape
    revert hShape
    cases t'.form <;> simp [Form.listShape?]
  have hTells : after.store.Tells items' b := by
    have hChildren := hFolded.tells trivial
    rw [hForm'] at hChildren
    exact hChildren
  refine ⟨t', items', hNode', hForm', hTells.flat_iff, hFolded.flattened, ?_, hTells.marked, ?_⟩
  · exact hFolded.needsExpansion (hUnfolded t (mem_of_getElem? hNode))
  rintro rfl
  obtain ⟨trees, hUnfolds⟩ := hTruthful'.lists.unfolds
  obtain ⟨tree, rfl⟩ := hUnfolds.of_root
  have hCopies : Attains true after.env after.store (onStore (deepCopy id)) fun copy s' =>
      after.store.Plants [copy] [tree] s' := .onStore (attains_deepCopy hUnfolds)
  obtain ⟨copy, hCopy, hReport, hPlants⟩ := run_of_attains hCopies
  obtain ⟨_, hUnfolds', -⟩ := hPlants.planted
  obtain ⟨ids'', (hTruthful'' : (after.copy id).2.store.Truthful [copy] ids''), -⟩ := hPlants.grove
  obtain ⟨u, _, _, children, hNode'', hShape, hChildren, hChildren'⟩ := hUnfolds.same_root hUnfolds' hNode'
  have hNone : ∀ slot, ¬ (after.copy id).2.store.SlotAmong u.form.children slot := by
    intro slot hSlot
    rw [hForm'] at hChildren
    obtain ⟨slot', hSlot'⟩ := hChildren.slotAmong_iff.2 (hChildren'.slotAmong_iff.1 ⟨slot, hSlot⟩)
    exact hTells.flat_iff.1 rfl slot' hSlot'
  have hFlat : (after.copy id).2.store.Tells u.form.children true :=
    ⟨by simp [hNone], fun slot _ hSlot => absurd hSlot (hNone slot)⟩
  refine ⟨copy, ids'', hCopy, hTruthful''.lists, fun depth' hDepth => ?_⟩
  have hLength := length_le_size hTruthful''.nodup fun _ => hTruthful''.lists.has
  have hRefolds : Attains true (after.copy id).2.env (after.copy id).2.store (flattenWithin depth' copy)
      fun flat s' => flat = true ∧ (after.copy id).2.store.Remarked ids'' s' :=
    .read_then (attains_expandNode_of_flat (idle_expandWithin depth') hTruthful'' hNode''
      (by rw [hShape, hForm']; rfl) hFlat (Nat.le_trans hLength hDepth))
  obtain ⟨_, hEnds', hReport', rfl, hRemarked⟩ := run_of_attains hRefolds
  exact ⟨hEnds', (hReport' rfl).trans (hReport rfl), hRemarked⟩

/-- The permutation in the list at 7 has a slot for two numbers, and the list in the list at 11 one for a variable. -/
def pairAndVariable : Session where
  types := .numbers
  definitions := ⟨[.ofBody "pair" 2 2, ⟨"v", some 2, .var, {}⟩]⟩
  store := .ofForms [.ofInteger 1, .ofInteger 2, .ofItems [0, 1],
    .ofName "pair" 0, .allFrom 3, .list .permutation [4], .ofInteger 7,
    .ofItems [5, 6], .ofName "v" 1, .allFrom 8, .list .valueList [9],
    .ofItems [10]]

theorem flatten_exact_pairAndVariable :
    (pairAndVariable.run (flattenWithin 4 7)).1 = .ok true ∧
    (∃ copy, ((pairAndVariable.run (flattenWithin 4 7)).2.copy 7).1 = .ok copy ∧
      (((pairAndVariable.run (flattenWithin 4 7)).2.copy 7).2.run (flattenWithin 20 copy)).1 = .ok true) ∧
    (pairAndVariable.run (flattenWithin 4 11)).1 = .ok false ∧
    ∃ slot, (pairAndVariable.run (flattenWithin 4 11)).2.store.SlotAmong [10] slot := by
  have hUnfolded : ∀ u ∈ pairAndVariable.store.nodes, u.marks.folded = false := by decide
  have hFirst : pairAndVariable.store.Lists [7] [7, 5, 4, 3, 6] :=
    lists_of_preorderWithin (show pairAndVariable.store.preorderWithin 6 7 = .ok _ from rfl)
  have hSecond : pairAndVariable.store.Lists [11] [11, 10, 9, 8] :=
    lists_of_preorderWithin (show pairAndVariable.store.preorderWithin 6 11 = .ok _ from rfl)
  obtain ⟨-, -, -, -, -, -, -, -, hRefolds⟩ :=
    flatten_exact pairAndVariable 4 7 rfl rfl hFirst (by decide) hUnfolded rfl
  obtain ⟨copy, ids, hCopy, -, hAgain⟩ := hRefolds rfl
  obtain ⟨t, items, hNode, hForm, hExact, -⟩ :=
    flatten_exact pairAndVariable 4 11 rfl rfl hSecond (by decide) hUnfolded rfl
  cases hNode
  cases hForm
  refine ⟨rfl, ⟨copy, hCopy, (hAgain 20 (by decide)).1⟩, rfl, ?_⟩
  by_contra hNone
  cases hExact.2 fun slot hSlot => hNone ⟨slot, hSlot⟩

end Session

end TemplateCheck
