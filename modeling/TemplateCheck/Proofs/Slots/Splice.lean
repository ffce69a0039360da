import TemplateCheck.Proofs.Plain
import TemplateCheck.Proofs.Slots.Contents

/-!
# Splicing tells what is left

The flag that is handed up while lists are expanded is gathered from nested lists, from what takes the place of slots,
and from lists that were expanded before. In trees it is exact, whatever is reported on the way: a slot that cannot be
spliced stays and is marked, or is given up, and then it is no slot any more.
-/

namespace TemplateCheck

open List Store

variable {s s' : Store} {id : NodeId} {t : Template} {items ids rest : List NodeId} {trusted : Prop}

namespace Store

variable {s1 : Store} {roots own below more : List NodeId} {flat : Bool} {trees : List TemplateCheck.Tree}

theorem Grove.of_single (h : s.Grove trusted [id] ids) :
    ∃ t below, s.get? id = some t ∧ s.Grove trusted t.form.children below ∧ id ∉ below ∧ ids = id :: below ∧
      (trusted → t.marks.folded → t.form.listShape?.isSome → s.Tells t.form.children t.marks.flattened) := by
  obtain ⟨t, below, hNode, hBelow, rfl⟩ := h.lists.of_single
  obtain ⟨hNew, hNodup⟩ := nodup_cons.1 h.nodup
  refine ⟨t, below, hNode, ⟨hBelow, hNodup, ?_⟩, hNew, rfl, fun hTrusted => ?_⟩
  · exact fun hTrusted other hMem => h.honest hTrusted other (mem_cons_of_mem id hMem)
  · exact h.honest hTrusted id mem_cons_self t hNode

theorem Grove.node (hNode : s.get? id = some t) (h : s.Grove trusted t.form.children below) (hNew : id ∉ below)
    (hHonest : trusted → t.marks.folded → t.form.listShape?.isSome → s.Tells t.form.children t.marks.flattened) :
    s.Grove trusted [id] (id :: below) where
  lists := .single hNode h.lists
  nodup := nodup_cons.2 ⟨hNew, h.nodup⟩
  honest hTrusted other hMem u hOther := by
    obtain rfl | hMem := mem_cons.1 hMem
    · cases hNode.symm.trans hOther
      exact hHonest hTrusted
    · exact h.honest hTrusted other hMem u hOther

theorem Grove.append {others : List NodeId} (h : s.Grove trusted items ids) (h' : s.Grove trusted more others)
    (hNodup : (ids ++ others).Nodup) : s.Grove trusted (items ++ more) (ids ++ others) where
  lists := h.lists.append h'.lists
  nodup := hNodup
  honest hTrusted id hMem := (mem_append.1 hMem).elim (h.honest hTrusted id) (h'.honest hTrusted id)

theorem grove_nil (s : Store) : s.Grove trusted [] [] := ⟨.nil, .nil, fun _ _ hMem => absurd hMem not_mem_nil⟩

theorem Grove.of_cons (h : s.Grove trusted (id :: rest) ids) :
    ∃ own others, s.Grove trusted [id] own ∧ s.Grove trusted rest others ∧ ids = own ++ others := by
  obtain ⟨own, others, hOwn, hRest, rfl⟩ := h.lists.of_cons
  obtain ⟨hNodup, hNodup', -⟩ := nodup_append.1 h.nodup
  refine ⟨own, others, ⟨hOwn, hNodup, ?_⟩, ⟨hRest, hNodup', ?_⟩, rfl⟩
  · exact fun hTrusted other hMem => h.honest hTrusted other (mem_append_left _ hMem)
  · exact fun hTrusted other hMem => h.honest hTrusted other (mem_append_right _ hMem)

theorem Plants.grove (h : s.Plants roots trees s') : ∃ ids, s'.Grove trusted roots ids ∧ ∀ id ∈ ids, ¬ s.Has id := by
  obtain ⟨ids, hUnfolds, hNodup, hNew⟩ := h.planted
  refine ⟨ids, ⟨hUnfolds.lists, hNodup, fun _ id hMem t hNode hFolded => ?_⟩, fun id hMem => (hNew id hMem).1⟩
  rw [(hNew id hMem).2 t hNode] at hFolded
  cases hFolded

structure Spliced (trusted : Prop) (s : Store) (own items : List NodeId) (flat : Bool) (s' : Store) : Prop where
  tells : trusted → s'.Tells items flat
  trees : ∃ ids, s'.Grove trusted items ids ∧ ∀ id ∈ ids, id ∈ own ∨ ¬ s.Has id

theorem Spliced.mono (h : s1.Spliced trusted own items flat s')
    (hNew : ∀ id, id ∈ own ∨ ¬ s1.Has id → id ∈ more ∨ ¬ s.Has id) : s.Spliced trusted more items flat s' := by
  obtain ⟨ids, hGrove, hOwn⟩ := h.trees
  exact ⟨h.tells, ids, hGrove, fun id hMem => hNew id (hOwn id hMem)⟩

theorem Spliced.after (h : s1.Spliced trusted own items flat s') (hSize : s.size ≤ s1.size) :
    s.Spliced trusted own items flat s' :=
  h.mono fun _ hOwn => hOwn.imp_right fun hNew hHas => hNew (hHas.of_size_le hSize)

end Store

section

variable {env : Env} {item : NodeId} {expand : Expand} {inPermutation : Bool} {active : List DefId}

structure Expand.Exact (trusted : Prop) (env : Env) (expand : Expand) : Prop where
  reworks : ∀ D, expand.Reworks D env
  spliced : ∀ s inPermutation active items ids, s.Grove trusted items ids →
    Returns false env s (expand inPermutation active items) fun result => s.Spliced trusted ids result.1 result.2

theorem Store.tells_of_specific (h : ∀ item ∈ items, ∃ t value, s.get? item = some t ∧ t.form = .specific value) :
    s.Tells items true := by
  induction items with
  | nil => exact s.tells_nil
  | cons item items ih =>
    obtain ⟨⟨t, value, hNode, hForm⟩, hRest⟩ := forall_mem_cons.1 h
    exact (tells_other hNode (by rw [hForm]; rfl) (by rw [hForm]; rfl)).append (ih hRest)

theorem Expand.Exact.splices (h : expand.Exact trusted env) :
    expand.Splices (fun s items complete s' => s.Spliced trusted [] items complete s') env inPermutation where
  after := Spliced.after
  reworks := h.reworks
  copies s active items hItems := by
    apply (returns_copies hItems).bind
    rintro copies s1 ⟨⟨trees, hPlants⟩, -⟩
    obtain ⟨fresh, hGrove, hNew⟩ := hPlants.grove
    apply (h.spliced s1 inPermutation active copies fresh hGrove).mono
    intro result s2 hSpliced
    apply hSpliced.mono
    rintro other (hMem | hFresh)
    · exact .inr (hNew other hMem)
    · exact .inr fun hHas => hFresh (hPlants.has hHas)
  values hPlants := by
    obtain ⟨fresh, hGrove, hNew⟩ := hPlants.grove
    obtain ⟨_, hUnfolds, -⟩ := hPlants.planted
    exact ⟨fun _ => tells_of_specific (specific_of_values hUnfolds), fresh, hGrove, fun other hMem => .inr
      (hNew other hMem)⟩

/-- A list after its items have been expanded. -/
structure Store.Folded (trusted : Prop) (s : Store) (t : Template) (flat : Bool) (t' : Template) (s' : Store) :
    Prop where
  listShape? : t'.form.listShape? = t.form.listShape?
  tells : trusted → s'.Tells t'.form.children flat
  flattened : t'.marks.flattened = flat
  needsExpansion : t.marks.folded = false → t'.marks.needsExpansion = (t.marks.needsExpansion || !flat)

theorem returns_expandNode (hExpand : expand.Exact trusted env) (h : s.Grove trusted [id] ids)
    (hNode : s.get? id = some t)
    (hShape : t.form.listShape?.isSome) : Returns false env s (expandNode expand inPermutation active id) fun flat s' =>
      ∃ t' ids', s'.get? id = some t' ∧ s.Folded trusted t flat t' s' ∧ s'.Grove trusted [id] ids' ∧
        ∀ other ∈ ids', other ∈ ids ∨ ¬ s.Has other := by
  obtain ⟨_, below, hNode', hBelow, hNew, rfl, hHonest⟩ := h.of_single
  cases hNode.symm.trans hNode'
  apply Concludes.nodeIs_then hNode
  cases hFolded : t.marks.folded with
  | true =>
    refine .pure ⟨t, _, hNode, ⟨rfl, (hHonest · hFolded hShape), rfl, ?_⟩, h, fun _ => .inl⟩
    simp [hFolded]
  | false =>
    cases hForm : t.form with
    | list shape items =>
      simp only [Bool.false_eq_true, if_false]
      rw [hForm] at hBelow
      apply Concludes.bind (Concludes.of_attains (Attains.mark hNode .folded))
      intro _ s1 hs1
      have hNode1 : s1.get? id = some (t.mark .folded) := by simp [hs1, hNode]
      have hHas : ∀ other, ¬ s1.Has other → ¬ s.Has other := by simp [hs1]
      have hBelow1 : s1.Grove trusted items below := hs1 ▸ hBelow.congr (sameSlots_update hNew)
      have hInside := hExpand.reworks (fun other => other ∈ below ∨ ¬ s1.Has other) s1 inPermutation active items
        hBelow1.lists.closed fun item hItem => .inl (hBelow1.lists.mem_of_root hItem)
      apply ((hExpand.spliced s1 inPermutation active items below hBelow1).and_moves hInside).bind
      rintro ⟨expanded, flat⟩ s2 ⟨⟨hTells, below', hBelow', hOwn⟩, hConfined, -⟩
      -- The list itself is not among the nodes that can have changed.
      have hOut : ¬ (id ∈ below ∨ ¬ s1.Has id) :=
        not_or.2 ⟨hNew, not_not.2 (has_of_get? hNode1)⟩
      have hNew' : id ∉ below' := fun hMem => hOut (hOwn id hMem)
      have hNode2 : s2.get? id = some (t.mark .folded) :=
        hConfined.get?_eq hOut hNode1 (by simp [Template.mark, hForm])
      apply (Concludes.of_attains (attains_fill hNode2 hForm expanded flat)).mono
      rintro flat s3 ⟨rfl, hs3⟩
      have hNode3 : s3.get? id = some ({ t.mark .folded with form := .list shape expanded }.settle flat) := by
        simp [hs3, hNode2]
      have hSame : s2.SameSlots below' s3 := hs3 ▸ sameSlots_update hNew'
      have hTells3 : trusted → s3.Tells expanded flat := fun hTrusted =>
        (hTells hTrusted).congr hBelow'.lists hSame
      refine ⟨_, id :: below', hNode3, ⟨?_, hTells3, ?_, fun _ => ?_⟩, ?_, ?_⟩
      · rw [hForm]
        rfl
      · cases flat <;> rfl
      · cases flat <;> simp [Template.settle, Marks.settle, Template.mark, Marks.set]
      · exact .node hNode3 (hBelow'.congr hSame) hNew' fun hTrusted _ _ => by
          cases flat <;> exact hTells3 hTrusted
      · intro other hMem
        obtain rfl | hMem := mem_cons.1 hMem
        · exact .inl mem_cons_self
        · exact (hOwn other hMem).imp (mem_cons_of_mem id) (hHas other)
    | _ => simp [hForm, Form.listShape?] at hShape

namespace Store

variable {s0 : Store}

theorem Grove.sameSlots_of_confined_new (h : s.Grove trusted items ids)
    (hConfined : s.Confined (fun id => ¬ s.Has id) s') : s.SameSlots ids s' :=
  hConfined.sameSlots fun _ hMem hNew => hNew (h.lists.has hMem)

theorem spliced_marked (h : s.Grove trusted [id] ids) (hNode : s.get? id = some t) (hSlot : t.form.isSlot) :
    s0.Spliced trusted ids [id] false (s.update id (·.mark .needsExpansion)) := by
  obtain ⟨_, below, hNode', hBelow, hNew, rfl, -⟩ := h.of_single
  cases hNode.symm.trans hNode'
  have hMarked : (s.update id (·.mark .needsExpansion)).get? id = some (t.mark .needsExpansion) := by simp [hNode]
  refine ⟨fun _ => tells_slot hMarked hSlot rfl, id :: below, .node hMarked
    (hBelow.congr (sameSlots_update hNew)) hNew ?_,
    fun _ => .inl⟩
  intro _ _ hShape
  revert hSlot hShape
  cases hForm : t.form <;> simp [Template.mark, Form.isSlot, Form.listShape?, hForm]

theorem GivenUp.spliced (h : s.GivenUp id) (hMem : id ∈ ids) : s0.Spliced trusted ids [id] true s := by
  obtain ⟨t, hNode, hForm⟩ := h
  have hNone : s.Grove trusted t.form.children [] := by
    rw [hForm]
    exact s.grove_nil
  refine ⟨fun _ => tells_other hNode (by rw [hForm]; rfl) (by rw [hForm]; rfl), [id],
    .node hNode hNone not_mem_nil (by simp [hForm, Form.listShape?]), ?_⟩
  intro other hOther
  rw [mem_singleton.1 hOther]
  exact .inl hMem

end Store

theorem returns_expandItem_spliced (hExpand : expand.Exact trusted env) (done : List NodeId × Bool)
    (h : s.Grove trusted [item] ids) :
    Returns false env s (expandItem expand inPermutation active done item) fun result s' =>
      ∃ added flat, result = (done.1 ++ added, done.2 && flat) ∧ s.Spliced trusted ids added flat s' := by
  obtain ⟨items, before⟩ := done
  have hList : ∀ inPermutation t, s.get? item = some t → t.form.isExpanded → Returns false env s (do
        let inner ← expandNode expand inPermutation active item
        return (items ++ [item], before && inner)) fun result s' =>
          ∃ added flat, result = (items ++ added, before && flat) ∧ s.Spliced trusted ids added flat s' := by
    intro inPermutation t hNode hExpanded
    have hShape : t.form.listShape?.isSome := by
      obtain hShape | hShape | hShape := Form.isExpanded_iff.1 hExpanded <;> simp [hShape]
    apply (returns_expandNode hExpand h hNode hShape).bind
    rintro flat s' ⟨t', ids', hNode', hFolded, hGrove, hOwn⟩
    have hExpanded' : t'.form.isExpanded := (Form.isExpanded_of_listShape? hFolded.listShape?).trans hExpanded
    exact .pure ⟨[item], flat, rfl, fun hTrusted => tells_list hNode' hExpanded' (hFolded.tells hTrusted),
      ids', hGrove, hOwn⟩
  apply Concludes.formOf_then
  intro t hNode
  split
  · rename_i target hForm
    apply (hExpand.splices.spliceSlot target).bind
    intro content s1 hContent
    cases content with
    | elements elements complete =>
      exact .pure ⟨elements, complete, rfl, hContent.holds.mono fun _ hNew => .inr (hNew.resolve_left (by simp))⟩
    | runtime =>
      have hKept := hContent.kept (by simp)
      have hNode1 := hKept.get?_eq (not_not.2 (has_of_get? hNode)) hNode (by simp [hForm])
      apply Concludes.bind (Concludes.of_attains (Attains.mark hNode1 .needsExpansion))
      rintro _ _ rfl
      exact .pure ⟨[item], false, by simp, spliced_marked (h.congr (h.sameSlots_of_confined_new hKept)) hNode1
        (by rw [hForm]; rfl)⟩
    | invalid =>
      exact .pure ⟨[item], true, by simp, (hContent.givenUp rfl).spliced (h.lists.mem_of_root mem_cons_self)⟩
  · rename_i hForm
    exact hList true t hNode (by rw [hForm]; rfl)
  case h_3 | h_4 =>
    rename_i hForm
    exact hList false t hNode (by rw [hForm]; rfl)
  · rename_i hSlot hPermutation hPositional hValueList
    have hOther : t.form.isSlot = false ∧ t.form.isExpanded = false := by
      cases hForm : t.form with
      | allFrom target => exact absurd hForm (hSlot target)
      | list shape items => cases shape <;> simp_all [Form.isSlot, Form.isExpanded]
      | _ => exact ⟨rfl, rfl⟩
    exact .pure ⟨[item], true, by simp, fun _ => tells_other hNode hOther.1 hOther.2, ids, h, fun _ => .inl⟩

structure Store.Filling (trusted : Prop) (s0 : Store) (own : List NodeId) (done : List NodeId × Bool)
    (rest : List NodeId) (s : Store) : Prop where
  size_le : s0.size ≤ s.size
  tells : trusted → s.Tells done.1 done.2
  trees : ∃ ids others, s.Grove trusted done.1 ids ∧ s.Grove trusted rest others ∧ (ids ++ others).Nodup ∧
    ∀ id ∈ ids ++ others, id ∈ own ∨ ¬ s0.Has id

theorem Store.Filling.start (h : s.Grove trusted items ids) : s.Filling trusted ids ([], true) items s :=
  ⟨Nat.le_refl _, fun _ => s.tells_nil, [], ids, s.grove_nil, h, h.nodup, fun _ => .inl⟩

theorem returns_expandItem (hExpand : expand.Exact trusted env) {s0 : Store} {own : List NodeId}
    {done : List NodeId × Bool} (h : s0.Filling trusted own done (item :: rest) s) :
    Returns false env s (expandItem expand inPermutation active done item) fun result =>
      s0.Filling trusted own result rest := by
  obtain ⟨ids, _, hDone, hRest, hNodup, hOwn⟩ := h.trees
  obtain ⟨mine, others, hItem, hLater, rfl⟩ := hRest.of_cons
  have hReworks : Steps (Reworks fun id => id ∈ mine ∨ ¬ s.Has id) env s
      (expandItem expand inPermutation active done item) :=
    (moves_expandItem (hExpand.reworks _) hItem.lists.closed done (.inl (hItem.lists.mem_of_root mem_cons_self))).steps
  apply ((returns_expandItem_spliced hExpand done hItem).and_moves hReworks).mono
  rintro _ s' ⟨⟨added, flat, rfl, hTells, mine', hAdded, hNew⟩, hReworks', -⟩
  have hSame : ∀ {others : List NodeId} {items : List NodeId}, s.Grove trusted items others →
      (∀ id ∈ others, id ∉ mine) → s.SameSlots others s' := by
    intro others items hTrees hOut
    exact hReworks'.sameSlots fun id hMem hIn => hIn.elim (hOut id hMem) fun hNot => hNot (hTrees.lists.has hMem)
  have hSameDone : s.SameSlots ids s' := hSame hDone fun id hMem hMine =>
    (nodup_append.1 hNodup).2.2 id hMem id (mem_append_left _ hMine) rfl
  have hSameLater : s.SameSlots others s' := hSame hLater fun id hMem hMine =>
    (nodup_append.1 hRest.nodup).2.2 id hMine id hMem rfl
  have hAll := nodup_replace hNodup (fun id => hDone.lists.has) (fun id => hLater.lists.has) hAdded.nodup hNew
  rw [← append_assoc] at hAll
  refine ⟨Nat.le_trans h.size_le hReworks'.size_le,
    fun hTrusted => ((h.tells hTrusted).congr hDone.lists hSameDone).append (hTells hTrusted), ids ++ mine',
    others, (hDone.congr hSameDone).append hAdded (nodup_append.1 hAll).1,
    hLater.congr hSameLater, hAll, ?_⟩
  intro id hMem
  simp only [append_assoc, mem_append] at hMem hOwn
  obtain hMem | hMem | hMem := hMem
  · exact hOwn id (.inl hMem)
  · obtain hOld | hFresh := hNew id hMem
    · exact hOwn id (.inr (.inl hOld))
    · exact .inr fun hHas => hFresh (hHas.of_size_le h.size_le)
  · exact hOwn id (.inr (.inr hMem))

theorem exact_expandWithin (depth : Nat) : (expandWithin depth).Exact trusted env := by
  induction depth with
  | zero => exact ⟨fun _ => reworks_expandWithin 0, fun _ _ _ _ _ _ => .throw _⟩
  | succ depth ih =>
    refine ⟨fun _ => reworks_expandWithin _, fun s inPermutation active items ids hTrees => ?_⟩
    apply (Concludes.foldlM (J := s.Filling trusted ids) (.start hTrees) fun _ _ _ _ _ => returns_expandItem ih).mono
    rintro result s' ⟨-, hTells, ids', others, hDone, -, -, hOwn⟩
    exact ⟨hTells, ids', hDone, fun id hMem => hOwn id (mem_append_left _ hMem)⟩

/-- The result of expanding a list tells whether a slot is left in it, and so do the marks of the list. -/
theorem returns_flattenWithin (depth : Nat) (h : s.Grove trusted [id] ids) (hNode : s.get? id = some t)
    (hShape : t.form.listShape?.isSome) : Returns false env s (flattenWithin depth id) fun flat s' =>
      ∃ t' ids', s'.get? id = some t' ∧ s.Folded trusted t flat t' s' ∧ s'.Grove trusted [id] ids' ∧
        ∀ other ∈ ids', other ∈ ids ∨ ¬ s.Has other :=
  .read_then (returns_expandNode (exact_expandWithin depth) h hNode hShape)

end

end TemplateCheck
