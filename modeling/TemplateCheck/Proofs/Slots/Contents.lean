import TemplateCheck.Proofs.Slots
import TemplateCheck.Proofs.Spotless.Splice

/-!
# What takes the place of slots

What a slot stands for is found in the same way whatever is asked about it. One question is which elements get into a
list. The filter looks at the elements of one target only, but it is applied again, with the same permission, to every
target that is spliced into the copies. So no permutation gets anywhere, and `*` gets into permutations only.
-/

namespace TemplateCheck

open Form
open List Store

variable {s : Store} {id : NodeId} {t : Template} {items : List NodeId} {form : Form} {inPermutation : Bool}

theorem Form.admitted_iff : form.admitted inPermutation ↔
    form.variant ≠ .list .permutation ∧ (inPermutation = false → form.variant ≠ .anyOrOmit) := by
  cases form with
  | list shape items => cases shape <;> simp [admitted, variant]
  | _ => simp [admitted, variant]

theorem Form.Becomes.admitted {f g : Form} (h : f.Becomes g) (hf : f.admitted inPermutation) :
    g.admitted inPermutation := by
  rw [admitted_iff] at hf ⊢
  exact ⟨h.variant_ne (.inr (.inr ⟨_, rfl⟩)) hf.1, fun hOut => h.variant_ne (.inr (.inl rfl)) (hf.2 hOut)⟩

theorem Form.listShape?_ne_of_admitted (h : form.admitted inPermutation) : form.listShape? ≠ some .permutation :=
  fun hShape => (admitted_iff.1 h).1 (listShape?_eq_some.1 hShape)

namespace Store

variable {s' : Store} {trees : List TemplateCheck.Tree}

theorem Admits.evolves (h : s.Admits inPermutation id) (hEvolves : s.Evolves s') : s'.Admits inPermutation id := by
  obtain ⟨t, hNode, hForm⟩ := h
  obtain ⟨t', hNode', ht⟩ := hEvolves id t hNode
  exact ⟨t', hNode', ht.form.admitted hForm⟩

theorem Admits.noPermutation (h : s.Admits inPermutation id) : s.NoPermutation id := by
  obtain ⟨t, hNode, hForm⟩ := h
  exact ⟨t, hNode, listShape?_ne_of_admitted hForm⟩

theorem NoPermutation.admits (h : s.NoPermutation id) : s.Admits true id := by
  obtain ⟨t, hNode, hForm⟩ := h
  refine ⟨t, hNode, admitted_iff.2 ⟨fun hVariant => hForm (listShape?_eq_some.2 hVariant), by simp⟩⟩

def NoList (s : Store) (id : NodeId) : Prop := ∃ t, s.get? id = some t ∧ t.form.listShape? = none

theorem NoList.evolves (h : s.NoList id) (hEvolves : s.Evolves s') : s'.NoList id := by
  obtain ⟨t, hNode, hForm⟩ := h
  obtain ⟨t', hNode', ht⟩ := hEvolves id t hNode
  refine ⟨t', hNode', Option.eq_none_iff_forall_ne_some.2 fun shape => ?_⟩
  exact ht.form.listShape?_ne (by simp [hForm])

structure StaysShallow (s s' : Store) : Prop where
  evolves : s.Evolves s'
  lists : ∀ id t t', s.get? id = some t → s'.get? id = some t' → t.form.listShape?.isSome →
    t'.form.listShape? = t.form.listShape?
  shallow : ∀ id, s.Has id → s.Shallow id → s'.Shallow id

instance : Course StaysShallow where
  refl s := by
    refine ⟨Course.refl s, fun id t t' hNode hNode' _ => ?_, fun _ _ h => h⟩
    cases hNode.symm.trans hNode'
    rfl
  trans := by
    intro first second third hFirst hSecond
    refine ⟨Course.trans hFirst.evolves hSecond.evolves, fun id t t'' hNode hNode'' hList => ?_,
      fun id hHas hShallow => ?_⟩
    · obtain ⟨t', hNode', -⟩ := hFirst.evolves id t hNode
      have hShape := hFirst.lists id t t' hNode hNode' hList
      rw [hSecond.lists id t' t'' hNode' hNode'' (hShape ▸ hList), hShape]
    · obtain ⟨t, hNode⟩ := hHas.exists_get?
      obtain ⟨t', hNode', -⟩ := hFirst.evolves id t hNode
      exact hSecond.shallow id (has_of_get? hNode') (hFirst.shallow id hHas hShallow)

theorem Shallow.of_members (h : s.Shallow id) (hEvolves : s.Evolves s') (hNode : s.get? id = some t)
    (hMembers : ∀ t', s'.get? id = some t' → t'.form.listShape? = some .permutation →
      ∀ member ∈ t'.form.children, member ∈ t.form.children ∨ s'.NoPermutation member) : s'.Shallow id := by
  intro t' hNode' hShape member hMember
  obtain ⟨_, hFound, ht⟩ := hEvolves id t hNode
  cases hNode'.symm.trans hFound
  have hBefore : t.form.listShape? = some .permutation := by
    by_contra hNone
    exact ht.form.listShape?_ne hNone hShape
  obtain hOld | hNone := hMembers t' hNode' hShape member hMember
  · exact (h t hNode hBefore member hOld).evolves hEvolves
  · exact hNone

theorem Bounds.staysShallow (h : s.Confined (fun id => ¬ s.Has id) s') (hEvolves : s.Evolves s') :
    s.StaysShallow s' := by
  have hSame : ∀ id t t', s.get? id = some t → s'.get? id = some t' → t.SameSlots t' := by
    intro id t t' hNode hNode'
    obtain ⟨_, hFound, hPursued⟩ := h.nodes id t hNode
    cases hNode'.symm.trans hFound
    exact (hPursued (not_not.2 (has_of_get? hNode))).sameSlots
  refine ⟨hEvolves, fun id t t' hNode hNode' _ => (hSame id t t' hNode hNode').listShape?, fun id hHas hShallow => ?_⟩
  obtain ⟨t, hNode⟩ := hHas.exists_get?
  refine hShallow.of_members hEvolves hNode fun t' hNode' _ member hMember => .inl ?_
  rwa [← (hSame id t t' hNode hNode').children]

theorem staysShallow_update {f : Template → Template} (hEvolves : s.Evolves (s.update id f))
    (hForm : ∀ t, s.get? id = some t → (f t).form = t.form ∨ t.form.listShape? = none ∧ (f t).form = .erroneous) :
    s.StaysShallow (s.update id f) := by
  have hCases : ∀ other t t', s.get? other = some t → (s.update id f).get? other = some t' →
      t'.form = t.form ∨ t.form.listShape? = none ∧ t'.form = .erroneous := by
    intro other t t' hNode hNode'
    obtain ⟨hSame, -⟩ | ⟨rfl, u, hFound, rfl⟩ := get?_update_cases hNode'
    · cases hNode.symm.trans hSame
      exact .inl rfl
    · cases hNode.symm.trans hFound
      exact hForm t hNode
  refine ⟨hEvolves, fun other t t' hNode hNode' hList => ?_, fun other hHas hShallow => ?_⟩
  · obtain hSame | ⟨hNone, -⟩ := hCases other t t' hNode hNode'
    · rw [hSame]
    · simp [hNone] at hList
  · obtain ⟨t, hNode⟩ := hHas.exists_get?
    refine hShallow.of_members hEvolves hNode fun t' hNode' hShape member hMember => .inl ?_
    obtain hSame | ⟨-, hErroneous⟩ := hCases other t t' hNode hNode'
    · rwa [← hSame]
    · simp [hErroneous, Form.listShape?] at hShape

theorem copyWithin_plants (depth : Nat) :
    StoreRuns (fun _ => True) True s (copyWithin depth id) fun new s' => (∃ trees, s.Plants [new] trees s') ∧
      ∀ t, s.get? id = some t → ∃ t', s'.get? new = some t' ∧ t'.form.variant = t.form.variant := by
  induction depth generalizing s id with
  | zero =>
    intro result after hRun
    cases hRun
    exact ⟨trivial, trivial⟩
  | succ depth ih =>
    apply StoreRuns.get_then trivial
    intro t hNode
    apply (StoreRuns.mapChildrenM (J := fun news s' => ∃ trees, s.Plants news trees s') t.form trivial
      ⟨[], s.plants_nil⟩ ?_).bind
    · rintro _ s' - - ⟨news, hLength, rfl, trees, hPlants⟩
      rw [← children_withChildren hLength] at hPlants
      refine .alloc trivial ⟨⟨_, Plants.push
        (t := { t with form := t.form.withChildren news, governor := none, marks := {} }) hPlants rfl⟩, ?_⟩
      intro _ hNode'
      cases hNode.symm.trans hNode'
      exact ⟨_, get?_push_nextId .., variant_withChildren ..⟩
    · rintro child - done s' - ⟨trees, hPlants⟩
      apply ih.mono
      rintro new s'' ⟨⟨more, hPlants'⟩, -⟩
      exact ⟨_, hPlants.append hPlants'⟩

theorem Plants.admits (h : s.Plants items trees s') (hId : s.Admits inPermutation id) : s'.Admits inPermutation id := by
  obtain ⟨t, hNode, hForm⟩ := hId
  exact ⟨t, h.keeps id t hNode, hForm⟩

def GivenUp (s : Store) (id : NodeId) : Prop := ∃ t, s.get? id = some t ∧ t.form = .erroneous

theorem closed_new (s : Store) : s.Closed fun id => ¬ s.Has id where
  new _ hNew := hNew
  child _ _ hParent hChild := by
    obtain ⟨t, hNode, -⟩ := hChild
    exact absurd (has_of_get? hNode) hParent

end Store

section

variable {env : Env} {slot : NodeId} {expand : Expand} {active : List DefId}
  {P : Store → List NodeId → Bool → Store → Prop}

/-- Something that is said about what takes the place of slots, with the store as it was before. -/
structure Expand.Splices (P : Store → List NodeId → Bool → Store → Prop) (env : Env) (inPermutation : Bool)
    (expand : Expand) : Prop where
  after : ∀ {s s1 s' : Store} {items : List NodeId} {complete : Bool}, P s1 items complete s' → s.size ≤ s1.size →
    P s items complete s'
  reworks : ∀ D, expand.Reworks D env
  copies : ∀ (s : Store) (active : List DefId) (items : List NodeId),
    (∀ item ∈ items, s.Admits inPermutation item) → Returns false env s (do
      let copies ← items.mapM fun item => onStore (deepCopy item)
      expand inPermutation active copies) fun result => P s result.1 result.2
  values : ∀ {s s' : Store} {items : List NodeId} {values : List Value} {span : Span},
    s.Plants items (values.map (.ofValue span)) s' → P s items true s'

instance : Course fun _ _ : Store => True := ⟨fun _ => trivial, fun _ _ => trivial⟩

theorem Expand.Splices.supplies (h : expand.Splices P env inPermutation) :
    expand.Supplies (fun _ _ => True) (fun _ => True) P env inPermutation where
  pursues _ _ := trivial
  invariant _ _ := trivial
  after hP hPursues := h.after hP (Nat.le_of_eq hPursues.size_eq.symm)
  copies s active items _ hItems := (h.copies s active items hItems).moves
  values s values span _ := by
    have hValues : Returns false env s (values.mapM fun value =>
        onStore (alloc { form := .specific value, span := span })) fun items => P s items true :=
      Concludes.mono (.of_attains (attains_values values span)) fun _ _ hPlants => h.values hPlants
    exact hValues.moves

theorem returns_markErroneous :
    Returns false env s (markErroneous id) fun _ s' => s'.GivenUp id ∧ (s.NoList id → s.StaysShallow s') := by
  apply Concludes.replaceForm.and_evolves.mono
  rintro _ s' ⟨⟨⟨t, hNode, -⟩, rfl⟩, hEvolves⟩
  refine ⟨⟨{ t with form := .erroneous }, by simp [hNode], rfl⟩, fun ⟨u, hFound, hForm⟩ => ?_⟩
  refine staysShallow_update hEvolves fun u' hFound' => .inr ⟨?_, rfl⟩
  cases hFound.symm.trans hFound'
  exact hForm

theorem Form.eq_erroneous_of_isErroneous (h : form.isErroneous) : form = .erroneous := by
  cases form <;> first | rfl | cases h

theorem returns_isErroneous : Returns false env s (isErroneous id) fun erroneous s' =>
    s' = s ∧ ∃ t, s.get? id = some t ∧ erroneous = t.form.isErroneous :=
  .formOf_then fun t hNode => .pure ⟨rfl, t, hNode, rfl⟩

/-- What has become of a slot: an illegal one has been given up, and one that is left has not been touched. -/
structure SlotContent.Accounts (P : Store → List NodeId → Bool → Store → Prop) (s : Store) (slot : NodeId)
    (content : SlotContent) (s' : Store) : Prop where
  holds : content.Holds P s s'
  kept : content ≠ .invalid → s.Confined (fun id => ¬ s.Has id) s'
  givenUp : content = .invalid → s'.GivenUp slot
  shallow : s.NoList slot → s.StaysShallow s'

theorem SlotContent.accounts_invalid {s' : Store} (h : s'.GivenUp slot) (hShallow : s.NoList slot → s.StaysShallow s') :
    SlotContent.invalid.Accounts P s slot s' :=
  ⟨trivial, by simp, fun _ => h, hShallow⟩

theorem returns_rejectSlot (p : Problem) :
    Returns false env s (rejectSlot slot p) fun content => content.Accounts P s slot := by
  unfold rejectSlot reject
  rw [bind_assoc]
  apply Concludes.still_then (Still.problemAt slot p)
  intro _
  apply returns_markErroneous.bind
  rintro _ s' ⟨hGivenUp, hShallow⟩
  exact .pure (SlotContent.accounts_invalid hGivenUp hShallow)

namespace Expand.Splices

variable (h : expand.Splices P env inPermutation)

include h

theorem spliceReference (r : Reference) :
    Returns false env s (spliceReference expand inPermutation active slot r) fun content =>
      content.Accounts P s slot := by
  apply Concludes.read_then
  dsimp only
  split
  · split
    · exact returns_rejectSlot _
    · apply ((Concludes.of_moves (h.supplies.spliceDefinition trivial _ _ r)).and_moves
        ((h.reworks _).supplies.spliceDefinition s.closed_new _ _ r)).bind
      rintro content s1 ⟨⟨-, hHolds⟩, hReworks, -⟩
      have hShallow := hReworks.toBounds.staysShallow hReworks.evolves
      split
      · apply returns_isErroneous.bind
        rintro erroneous _ ⟨rfl, t, hNode, rfl⟩
        cases hForm : t.form.isErroneous with
        | true =>
          exact .pure (SlotContent.accounts_invalid ⟨t, hNode, eq_erroneous_of_isErroneous hForm⟩ fun _ => hShallow)
        | false =>
          apply returns_markErroneous.bind
          rintro _ s2 ⟨hGivenUp, hShallow2⟩
          exact .pure (SlotContent.accounts_invalid hGivenUp fun hSlot =>
            Course.trans hShallow (hShallow2 (hSlot.evolves hReworks.evolves)))
      · rename_i hValid
        exact .pure ⟨hHolds, fun _ => hReworks.toBounds, fun hInvalid => absurd hInvalid hValid, fun _ => hShallow⟩
  · exact returns_rejectSlot _

theorem spliceSlot (target : NodeId) :
    Returns false env s (spliceSlot expand inPermutation active slot target) fun content =>
      content.Accounts P s slot := by
  apply Concludes.still_then (Still.formOf target)
  intro form
  split
  case h_1 | h_2 => exact h.spliceReference _
  · exact returns_markErroneous.bind fun _ _ hGivenUp => .pure (SlotContent.accounts_invalid hGivenUp.1 hGivenUp.2)
  · exact returns_rejectSlot _

end Expand.Splices

theorem returns_copies (h : ∀ item ∈ items, s.Admits inPermutation item) :
    Returns false env s (items.mapM fun item => onStore (deepCopy item)) fun copies s' =>
      (∃ trees, s.Plants copies trees s') ∧ ∀ copy ∈ copies, s'.Admits inPermutation copy := by
  apply Concludes.mapM (J := fun copies s' => (∃ trees, s.Plants copies trees s') ∧
    ∀ copy ∈ copies, s'.Admits inPermutation copy) ⟨⟨[], s.plants_nil⟩, by simp⟩
  rintro item hItem done s' ⟨⟨trees, hPlants⟩, hDone⟩
  have hCopy : Moves (fun _ _ => True) env s' (onStore (deepCopy item)) fun new s'' =>
      (∃ trees, s'.Plants [new] trees s'') ∧
        ∀ t, s'.get? item = some t → ∃ t', s''.get? new = some t' ∧ t'.form.variant = t.form.variant :=
    moves_onStore (copyWithin_plants (s'.size + 1))
  apply (Concludes.of_moves hCopy).mono
  rintro new s'' ⟨-, ⟨more, hPlants'⟩, hNew⟩
  refine ⟨⟨_, hPlants.append hPlants'⟩, fun copy hCopy => ?_⟩
  obtain hCopy | hCopy := mem_append.1 hCopy
  · exact hPlants'.admits (hDone copy hCopy)
  · obtain ⟨t, hNode, hForm⟩ := hPlants.admits (h item hItem)
    obtain ⟨t', hNode', hVariant⟩ := hNew t hNode
    rw [admitted_iff, ← hVariant, ← admitted_iff] at hForm
    rw [mem_singleton.1 hCopy]
    exact ⟨t', hNode', hForm⟩

theorem Store.specific_of_values {ids : List NodeId} {values : List Value} {span : Span}
    (h : Unfolds s.get? items ids (values.map (.ofValue span))) :
    ∀ item ∈ items, ∃ t value, s.get? item = some t ∧ t.form = .specific value := by
  induction values generalizing items ids with
  | nil =>
    cases h
    simp
  | cons value values ih =>
    rw [map_cons, Tree.ofValue] at h
    generalize hHead : ({ form := .specific value, span } : Template) = head at h
    cases h with
    | @cons root t rest below ids _ _ hNode _ hRest =>
      have hBare : t.form.bare = .specific value := (congrArg Template.form hHead).symm
      have hForm : t.form = .specific value := by
        revert hBare
        cases t.form <;> simp [Form.bare]
      exact forall_mem_cons.2 ⟨⟨t, value, hNode, hForm⟩, ih hRest⟩

def Store.Filtered (inPermutation : Bool) (items items' : List NodeId) (s' : Store) : Prop :=
  ∀ item ∈ items', item ∈ items ∨ s'.Admits inPermutation item

structure Expand.Filters (env : Env) (expand : Expand) : Prop where
  reworks : ∀ D, expand.Reworks D env
  filtered : ∀ s inPermutation active items, Returns false env s (expand inPermutation active items) fun result s' =>
    s.StaysShallow s' ∧ s'.Filtered inPermutation items result.1

theorem Expand.Filters.splices (h : expand.Filters env) :
    expand.Splices (fun _ items _ s' => ∀ item ∈ items, s'.Admits inPermutation item) env inPermutation where
  after hItems _ := hItems
  reworks := h.reworks
  copies s active items hItems := by
    apply (returns_copies hItems).bind
    rintro copies s1 ⟨-, hCopies⟩
    apply (h.filtered s1 inPermutation active copies).mono
    rintro result s2 ⟨hShallow, hFiltered⟩ item hItem
    exact (hFiltered item hItem).elim (fun hCopy => (hCopies item hCopy).evolves hShallow.evolves) fun hNew => hNew
  values hPlants item hItem := by
    obtain ⟨_, hUnfolds, -⟩ := hPlants.planted
    obtain ⟨t, _, hNode, hForm⟩ := specific_of_values hUnfolds item hItem
    exact ⟨t, hNode, by rw [hForm]; rfl⟩

theorem Store.staysShallow_fill {s1 s2 s3 : Store} {shape : ListShape} {expanded : List NodeId}
    (hNode : s1.get? id = some t) (hForm : t.form = .list shape items) (h : s1.StaysShallow s2)
    (hFiltered : s2.Filtered inPermutation items expanded) (hEvolves : s2.Evolves s3)
    (hFilled : ∃ t3, s3.get? id = some t3 ∧ t3.form = .list shape expanded)
    (hOther : ∀ other ≠ id, s3.get? other = s2.get? other) : s1.StaysShallow s3 := by
  have hAll : s1.Evolves s3 := Course.trans h.evolves hEvolves
  refine ⟨hAll, fun other t1 t3 hNode1 hNode3 hList => ?_, fun other hHas hShallow => ?_⟩
  · by_cases hEq : other = id
    · subst hEq
      obtain ⟨_, hFound, hForm3⟩ := hFilled
      cases hNode3.symm.trans hFound
      cases hNode1.symm.trans hNode
      rw [hForm, hForm3]
      rfl
    · exact h.lists other t1 t3 hNode1 ((hOther other hEq).symm.trans hNode3) hList
  by_cases hEq : other = id
  · subst hEq
    refine hShallow.of_members hAll hNode fun t3 hNode3 _ member hMember => ?_
    obtain ⟨_, hFound, hForm3⟩ := hFilled
    cases hNode3.symm.trans hFound
    rw [hForm3] at hMember
    rw [hForm]
    exact (hFiltered member hMember).imp_right fun hNew => (hNew.evolves hEvolves).noPermutation
  · obtain ⟨t1, hNode1⟩ := hHas.exists_get?
    obtain ⟨t2, hNode2, -⟩ := h.evolves other t1 hNode1
    refine (h.shallow other hHas hShallow).of_members hEvolves hNode2 fun t3 hNode3 _ member hMember => .inl ?_
    cases ((hOther other hEq).trans hNode2).symm.trans hNode3
    exact hMember

theorem returns_expandNode_filtered (h : expand.Filters env) (hNode : s.get? id = some t) :
    Returns false env s (expandNode expand inPermutation active id) fun _ s' => s.StaysShallow s' ∧
      ∀ shape items, t.form = .list shape items → ∃ t' items', s'.get? id = some t' ∧ t'.form = .list shape items' ∧
        (t.marks.folded → items' = items) ∧ s'.Filtered inPermutation items items' := by
  apply Concludes.nodeIs_then hNode
  cases hFolded : t.marks.folded with
  | true =>
    exact .pure ⟨Course.refl s, fun shape items hForm => ⟨t, items, hNode, hForm, fun _ => rfl, fun _ => .inl⟩⟩
  | false =>
    cases hForm : t.form with
    | list shape items =>
      simp only [Bool.false_eq_true, if_false]
      apply Concludes.bind (Concludes.of_attains (Attains.modifyNode hNode)).and_evolves
      rintro _ s1 ⟨hs1, hEvolves1⟩
      have hNode1 : s1.get? id = some (t.mark .folded) := by simp [hs1, hNode]
      have hMarked : s.StaysShallow s1 := by
        rw [hs1] at hEvolves1 ⊢
        exact staysShallow_update hEvolves1 fun _ _ => .inl rfl
      apply (h.filtered s1 inPermutation active items).bind
      rintro ⟨expanded, flat⟩ s2 ⟨hShallow, hFiltered⟩
      apply Concludes.replaceForm.and_evolves.bind
      rintro _ s3 ⟨⟨⟨t2, hNode2, -⟩, hs3⟩, hEvolves3⟩
      have hNode3 : s3.get? id = some { t2 with form := .list shape expanded } := by simp [hs3, hNode2]
      apply Concludes.bind (Concludes.of_attains (Attains.modifyNode hNode3)).and_evolves
      rintro _ s4 ⟨hs4, hEvolves4⟩
      have hNode4 : s4.get? id = some ({ t2 with form := .list shape expanded }.settle flat) := by simp [hs4, hNode3]
      have hOther : ∀ other ≠ id, s4.get? other = s2.get? other := by
        intro other hNe
        rw [hs4, hs3, get?_update_of_ne hNe, get?_update_of_ne hNe]
      have hEvolves := Course.trans hEvolves3 hEvolves4
      refine .pure ⟨Course.trans hMarked (staysShallow_fill hNode1 hForm hShallow hFiltered hEvolves
        ⟨_, hNode4, rfl⟩ hOther), ?_⟩
      rintro _ _ ⟨⟩
      exact ⟨_, expanded, hNode4, rfl, by simp, fun item hItem => (hFiltered item hItem).imp_right (·.evolves hEvolves)⟩
    | _ => exact .pure ⟨Course.refl s, by simp⟩

theorem returns_expandItem_filtered (h : expand.Filters env) {s0 : Store} {all : List NodeId}
    {done : List NodeId × Bool} {item : NodeId} (hItem : item ∈ all)
    (hDone : s0.StaysShallow s ∧ s.Filtered inPermutation all done.1) :
    Returns false env s (expandItem expand inPermutation active done item) fun result s' =>
      s0.StaysShallow s' ∧ s'.Filtered inPermutation all result.1 := by
  obtain ⟨items, before⟩ := done
  have hAdd {added : List NodeId} {s' : Store} (hShallow : s.StaysShallow s')
      (hAdded : s'.Filtered inPermutation all added) :
      s0.StaysShallow s' ∧ s'.Filtered inPermutation all (items ++ added) := by
    refine ⟨Course.trans hDone.1 hShallow, fun other hOther => ?_⟩
    obtain hOther | hOther := mem_append.1 hOther
    · exact (hDone.2 other hOther).imp_right (·.evolves hShallow.evolves)
    · exact hAdded other hOther
  have hSame (s' : Store) : s'.Filtered inPermutation all [item] := by
    intro other hOther
    rw [mem_singleton.1 hOther]
    exact .inl hItem
  have hList {inner : Bool} {t : Template} (hNode : s.get? item = some t) : Returns false env s (do
        let flat ← expandNode expand inner active item
        return (items ++ [item], before && flat)) fun result s' =>
          s0.StaysShallow s' ∧ s'.Filtered inPermutation all result.1 :=
    (returns_expandNode_filtered h hNode).bind fun _ s' hFiltered => .pure (hAdd hFiltered.1 (hSame s'))
  apply Concludes.formOf_then
  intro t hNode
  split
  · rename_i target hForm
    apply (h.splices.spliceSlot target).bind
    intro content s1 hContent
    have hShallow := hContent.shallow ⟨t, hNode, by rw [hForm]; rfl⟩
    cases content with
    | elements elements complete =>
      exact .pure (hAdd hShallow fun other hOther => .inr (hContent.holds other hOther))
    | runtime =>
      apply Concludes.modifyNode.and_evolves.bind
      rintro _ _ ⟨⟨-, rfl⟩, hEvolves⟩
      have hMarked := staysShallow_update hEvolves fun _ _ => .inl rfl
      exact .pure (hAdd (Course.trans hShallow hMarked) (hSame _))
    | invalid => exact .pure (hAdd hShallow (hSame s1))
  case h_2 | h_3 | h_4 => exact hList hNode
  · exact .pure (hAdd (Course.refl s) (hSame s))

theorem filters_expandWithin (depth : Nat) : (expandWithin depth).Filters env := by
  induction depth with
  | zero => exact ⟨fun _ => reworks_expandWithin 0, fun _ _ _ _ => .throw _⟩
  | succ depth ih =>
    refine ⟨fun _ => reworks_expandWithin _, fun s inPermutation active items => ?_⟩
    apply Concludes.foldlM (J := fun (done : List NodeId × Bool) _ s' => s.StaysShallow s' ∧
      s'.Filtered inPermutation items done.1)
    · exact ⟨Course.refl s, fun _ hItem => absurd hItem not_mem_nil⟩
    · exact fun done item hItem _ s' hDone => returns_expandItem_filtered ih hItem hDone

theorem returns_flattenWithin_filtered (depth : Nat) (hNode : s.get? id = some t) :
    Returns false env s (flattenWithin depth id) fun _ s' => s.StaysShallow s' ∧
      ∀ shape items, t.form = .list shape items → ∃ t' items', s'.get? id = some t' ∧ t'.form = .list shape items' ∧
        (t.marks.folded → items' = items) ∧ s'.Filtered false items items' :=
  .read_then (returns_expandNode_filtered (filters_expandWithin depth) hNode)

end

namespace Session

variable (s : Session)

/-- Splicing brings neither `*` nor a permutation into a list that has none, and no permutation into its permutations,
whatever is spliced into what is spliced. -/
theorem flatten_admits (depth : Nat) (id : NodeId) {t : Template} {shape : ListShape} {items : List NodeId}
    {flat : Bool} (hNode : s.store.get? id = some t) (hForm : t.form = .list shape items)
    (hEnds : (s.run (flattenWithin depth id)).1 = .ok flat) :
    let after := (s.run (flattenWithin depth id)).2.store
    (t.marks.folded = false → (∀ item ∈ items, s.store.Admits false item) →
      ∃ t' items', after.get? id = some t' ∧ t'.form = .list shape items' ∧ ∀ item ∈ items', after.Admits false item) ∧
    ∀ item ∈ items, ∀ u members, s.store.get? item = some u → u.form = .list .permutation members →
      (∀ member ∈ members, s.store.Admits true member) →
      ∃ u' members', after.get? item = some u' ∧ u'.form = .list .permutation members' ∧
        ∀ member ∈ members', after.Admits true member := by
  obtain ⟨hStays, hFiltered⟩ := of_run_of_returns (returns_flattenWithin_filtered depth hNode) hEnds (by simp)
  refine ⟨fun _ hItems => ?_, fun item hItem u members hFound hPermutation hMembers => ?_⟩
  · obtain ⟨t', items', hNode', hForm', -, hNew⟩ := hFiltered shape items hForm
    refine ⟨t', items', hNode', hForm', fun item hItem => ?_⟩
    exact (hNew item hItem).elim (fun hOld => (hItems item hOld).evolves hStays.evolves) fun hAdmits => hAdmits
  · obtain ⟨u', hFound', -⟩ := hStays.evolves item u hFound
    have hShape := hStays.lists item u u' hFound hFound' (by simp [hPermutation, Form.listShape?])
    have hShallow : s.store.Shallow item := by
      intro _ hSame _ member hMember
      cases hFound.symm.trans hSame
      rw [hPermutation] at hMember
      exact (hMembers member hMember).noPermutation
    have hShallow' := hStays.shallow item (has_of_get? hFound) hShallow u' hFound'
    rw [hPermutation] at hShape
    cases hForm' : u'.form with
    | list shape' members' =>
      rw [hForm'] at hShape hShallow'
      cases hShape
      exact ⟨u', members', hFound', hForm', fun member hMember => (hShallow' rfl member hMember).admits⟩
    | _ => simp [hForm', Form.listShape?] at hShape

/-- All of `outer`, which takes in a `*`, is spliced into the list at 9 and into the permutation at 12. -/
def starBehindSlot : Session where
  types := .numbers
  definitions := ⟨[.ofBody "star" 2 2, .ofBody "outer" 2 6]⟩
  store := .ofForms [.anyOrOmit, .ofInteger 1, .ofItems [0, 1],
    .ofName "star" 0, .allFrom 3, .ofInteger 2,
    .ofItems [5, 4], .ofName "outer" 1, .allFrom 7,
    .ofItems [8], .ofName "outer" 1, .allFrom 10,
    .list .permutation [11], .ofItems [12]]

theorem flatten_admits_starBehindSlot :
    (∃ t items, (starBehindSlot.run (flattenWithin 4 9)).2.store.get? 9 = some t ∧
      t.form = .list .positional items ∧ items.length = 2 ∧
      ∀ item ∈ items, (starBehindSlot.run (flattenWithin 4 9)).2.store.Admits false item) ∧
    ∃ u members, (starBehindSlot.run (flattenWithin 4 13)).2.store.get? 12 = some u ∧
      u.form = .list .permutation members ∧
      (∀ member ∈ members, (starBehindSlot.run (flattenWithin 4 13)).2.store.Admits true member) ∧
      ∃ member ∈ members, ((starBehindSlot.run (flattenWithin 4 13)).2.store.get? member).map (·.form.variant) =
        some .anyOrOmit := by
  have hSlot : ∀ item ∈ [8], starBehindSlot.store.Admits false item := forall_mem_singleton.2 ⟨_, rfl, rfl⟩
  have hMember : ∀ item ∈ [11], starBehindSlot.store.Admits true item := forall_mem_singleton.2 ⟨_, rfl, rfl⟩
  obtain ⟨t, items, hNode, hForm, hItems⟩ := (flatten_admits starBehindSlot 4 9 rfl rfl rfl).1 rfl hSlot
  obtain ⟨u, members, hFound, hPermutation, hMembers⟩ :=
    (flatten_admits starBehindSlot 4 13 rfl rfl rfl).2 12 (by simp) _ _ rfl rfl hMember
  refine ⟨⟨t, items, hNode, hForm, ?_, hItems⟩, u, members, hFound, hPermutation, hMembers, ?_⟩
  · cases hNode
    cases hForm
    rfl
  · obtain rfl : members = [14, 17, 18] := by
      cases hFound
      cases hPermutation
      rfl
    exact ⟨17, by simp, rfl⟩

end Session

end TemplateCheck
