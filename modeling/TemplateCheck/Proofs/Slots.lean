import TemplateCheck.Proofs.Substitution

/-!
# Slots that are left

A list is expanded together with the lists among its items, level by level. Whether a slot is left among them is a
matter of the nodes of its tree. A list that has been expanded says so by a mark, and the mark can be trusted if it was
set in a tree: whatever happens elsewhere leaves the slots of the tree as they are.
-/

namespace TemplateCheck

open List

variable {form f g : Form} {shape : ListShape} {t t' : Template}

theorem Form.isExpanded_iff : form.isExpanded ↔ form.listShape? = some .positional ∨
    form.listShape? = some .valueList ∨ form.listShape? = some .permutation := by
  cases form with
  | list shape items => cases shape <;> simp [isExpanded, listShape?]
  | _ => simp [isExpanded, listShape?]

theorem Form.isExpanded_of_listShape? (h : f.listShape? = g.listShape?) : f.isExpanded = g.isExpanded := by
  rw [Bool.eq_iff_iff, isExpanded_iff, isExpanded_iff, h]

theorem Form.Becomes.variant_ne {v : Variant} (h : f.Becomes g)
    (hKind : v = .allFrom ∨ v = .anyOrOmit ∨ ∃ shape, v = .list shape) (hf : f.variant ≠ v) : g.variant ≠ v := by
  induction h with
  | refl => exact hf
  | @step second third _ hStep ih =>
    simp only [mayBecome, Bool.or_eq_true, decide_eq_true_eq] at hStep
    obtain (hSame | hErroneous) | hRefined := hStep
    · rwa [← hSame]
    · obtain rfl | rfl | ⟨shape, rfl⟩ := hKind <;> cases third <;> simp_all [isErroneous, variant]
    · obtain rfl | rfl | ⟨shape, rfl⟩ := hKind <;> split at hRefined <;> simp_all [variant]

theorem Form.listShape?_eq_some : form.listShape? = some shape ↔ form.variant = .list shape := by
  cases form <;> simp [listShape?, variant]

theorem Form.isSlot_eq_true : form.isSlot = true ↔ form.variant = .allFrom := by
  cases form <;> simp [isSlot, variant]

theorem Form.Becomes.listShape?_ne (h : f.Becomes g) (hf : f.listShape? ≠ some shape) : g.listShape? ≠ some shape := by
  rw [ne_eq, listShape?_eq_some] at hf ⊢
  exact h.variant_ne (.inr (.inr ⟨shape, rfl⟩)) hf

theorem Form.Becomes.isSlot_eq_false (h : f.Becomes g) (hf : f.isSlot = false) : g.isSlot = false := by
  rw [← Bool.not_eq_true, isSlot_eq_true] at hf ⊢
  exact h.variant_ne (.inl rfl) hf

/-- Nodes that differ in nothing that splicing looks at when it comes back to them. -/
structure Template.SameSlots (t t' : Template) : Prop where
  isSlot : t'.form.isSlot = t.form.isSlot
  listShape? : t'.form.listShape? = t.form.listShape?
  children : t'.form.children = t.form.children
  needsExpansion : t'.marks.needsExpansion = t.marks.needsExpansion
  folded : t'.marks.folded = t.marks.folded
  flattened : t'.marks.flattened = t.marks.flattened

theorem Template.SameSlots.symm (h : t.SameSlots t') : t'.SameSlots t :=
  ⟨h.isSlot.symm, h.listShape?.symm, h.children.symm, h.needsExpansion.symm, h.folded.symm, h.flattened.symm⟩

theorem Template.SameSlots.trans {t'' : Template} (h : t.SameSlots t') (h' : t'.SameSlots t'') : t.SameSlots t'' :=
  ⟨h'.isSlot.trans h.isSlot, h'.listShape?.trans h.listShape?, h'.children.trans h.children,
    h'.needsExpansion.trans h.needsExpansion, h'.folded.trans h.folded, h'.flattened.trans h.flattened⟩

theorem Template.Pursued.sameSlots (h : t.Pursued t') : t.SameSlots t' := by
  cases h with
  | same => exact ⟨rfl, rfl, rfl, rfl, rfl, rfl⟩
  | followed hForm hMarks | givenUp hForm hMarks =>
    obtain rfl | rfl := hMarks <;> constructor <;> first | rfl | (rw [hForm]; rfl)

namespace Store

/-- A slot among the items of a list or, level by level, among those of the lists that are expanded with it. -/
inductive SlotAmong (s : Store) : List NodeId → NodeId → Prop where
  | here {items : List NodeId} {slot : NodeId} {t : Template} :
      slot ∈ items → s.get? slot = some t → t.form.isSlot → SlotAmong s items slot
  | inside {items : List NodeId} {list slot : NodeId} {t : Template} :
      list ∈ items → s.get? list = some t → t.form.isExpanded → SlotAmong s t.form.children slot →
      SlotAmong s items slot

/-- The flag tells whether no slot is left among the items, and those that are left are marked. -/
structure Tells (s : Store) (items : List NodeId) (flat : Bool) : Prop where
  flat_iff : flat = true ↔ ∀ slot, ¬ s.SlotAmong items slot
  marked : ∀ slot t, s.SlotAmong items slot → s.get? slot = some t → t.marks.needsExpansion

/-- Trees. If they can be trusted, the lists in them that have been expanded tell whether a slot is left. -/
structure Grove (trusted : Prop) (s : Store) (roots ids : List NodeId) : Prop where
  lists : s.Lists roots ids
  nodup : ids.Nodup
  honest : trusted → ∀ id ∈ ids, ∀ t, s.get? id = some t → t.marks.folded → t.form.listShape?.isSome →
    s.Tells t.form.children t.marks.flattened

/-- Trees in which the lists that have been expanded tell whether a slot is left. -/
abbrev Truthful (s : Store) (roots ids : List NodeId) : Prop := s.Grove True roots ids

def SameSlots (ids : List NodeId) (s s' : Store) : Prop :=
  ∀ id ∈ ids, ∀ t, s.get? id = some t → ∃ t', s'.get? id = some t' ∧ t.SameSlots t'

def NoPermutation (s : Store) (id : NodeId) : Prop := ∃ t, s.get? id = some t ∧ t.form.listShape? ≠ some .permutation

/-- The members of a permutation are no permutations; nothing is said about other nodes. -/
def Shallow (s : Store) (id : NodeId) : Prop := ∀ t, s.get? id = some t → t.form.listShape? = some .permutation →
  ∀ member ∈ t.form.children, s.NoPermutation member

variable {D : NodeId → Prop} {s s' : Store} {id slot : NodeId} {items more ids others : List NodeId} {flat flat' : Bool}
  {trusted : Prop}

theorem SameSlots.symm (h : s.SameSlots ids s') (hHas : ∀ id ∈ ids, s.Has id) : s'.SameSlots ids s := by
  intro id hMem t' hNode'
  obtain ⟨t, hNode⟩ := (hHas id hMem).exists_get?
  obtain ⟨_, hFound, hSame⟩ := h id hMem t hNode
  cases hFound.symm.trans hNode'
  exact ⟨t, hNode, hSame.symm⟩

theorem SameSlots.mono (h : s.SameSlots ids s') (hSub : ∀ id ∈ others, id ∈ ids) : s.SameSlots others s' :=
  fun id hMem => h id (hSub id hMem)

theorem Bounds.sameSlots (h : s.Confined D s') (hOut : ∀ id ∈ ids, ¬ D id) : s.SameSlots ids s' := by
  intro id hMem t hNode
  obtain ⟨t', hNode', hPursued⟩ := h.nodes id t hNode
  exact ⟨t', hNode', (hPursued (hOut id hMem)).sameSlots⟩

theorem sameSlots_update {f : Template → Template} (hNew : id ∉ ids) : s.SameSlots ids (s.update id f) := by
  intro other hMem t hNode
  have hNe : other ≠ id := fun hEq => hNew (hEq ▸ hMem)
  exact ⟨t, (get?_update_of_ne hNe).trans hNode, Template.Pursued.same.sameSlots⟩

theorem SameSlots.lists (h : s.SameSlots ids s') (hLists : s.Lists items ids) : s'.Lists items ids := by
  apply hLists.congr
  intro id hMem t hNode
  obtain ⟨t', hNode', hSame⟩ := h id hMem t hNode
  exact ⟨t', hNode', hSame.children⟩

theorem not_slotAmong_nil : ¬ s.SlotAmong [] slot := by
  intro h
  cases h with
  | here hMem | inside hMem => cases hMem

theorem SlotAmong.mono (h : s.SlotAmong items slot) (hSub : ∀ id ∈ items, id ∈ more) : s.SlotAmong more slot := by
  cases h with
  | here hMem hNode hSlot => exact .here (hSub _ hMem) hNode hSlot
  | inside hMem hNode hExpanded hInside => exact .inside (hSub _ hMem) hNode hExpanded hInside

theorem slotAmong_append : s.SlotAmong (items ++ more) slot ↔ s.SlotAmong items slot ∨ s.SlotAmong more slot := by
  constructor
  · intro h
    cases h with
    | here hMem hNode hSlot =>
      exact (mem_append.1 hMem).imp (.here · hNode hSlot) (.here · hNode hSlot)
    | inside hMem hNode hExpanded hInside =>
      exact (mem_append.1 hMem).imp (.inside · hNode hExpanded hInside) (.inside · hNode hExpanded hInside)
  · rintro (h | h)
    · exact h.mono fun _ => mem_append_left _
    · exact h.mono fun _ => mem_append_right _

theorem SlotAmong.congr (h : s.SlotAmong items slot) (hLists : s.Lists items ids) (hSame : s.SameSlots ids s') :
    slot ∈ ids ∧ s'.SlotAmong items slot := by
  induction h generalizing ids with
  | here hMem hNode hSlot =>
    have hIn := hLists.mem_of_root hMem
    obtain ⟨t', hNode', hItem⟩ := hSame _ hIn _ hNode
    exact ⟨hIn, .here hMem hNode' (hItem.isSlot.trans hSlot)⟩
  | @inside items list slot t hMem hNode hExpanded _ ih =>
    obtain ⟨own, hOwn, hSub⟩ := hLists.of_mem hMem
    obtain ⟨t1, below, hNode1, hBelow, rfl⟩ := hOwn.of_single
    cases hNode.symm.trans hNode1
    obtain ⟨t', hNode', hList⟩ := hSame list (hLists.mem_of_root hMem) t hNode
    have hIds : ∀ id ∈ below, id ∈ ids := fun id hId => hSub.subset (mem_cons_of_mem _ hId)
    obtain ⟨hIn, hInside⟩ := ih hBelow (hSame.mono hIds)
    rw [← hList.children] at hInside
    refine ⟨hIds slot hIn, .inside hMem hNode' ?_ hInside⟩
    rw [Form.isExpanded_of_listShape? hList.listShape?, hExpanded]

theorem Tells.congr (h : s.Tells items flat) (hLists : s.Lists items ids) (hSame : s.SameSlots ids s') :
    s'.Tells items flat := by
  have hBack : s'.SameSlots ids s := hSame.symm fun _ => hLists.has
  have hLists' : s'.Lists items ids := hSame.lists hLists
  constructor
  · rw [h.flat_iff]
    constructor
    · exact fun hNone slot hSlot => hNone slot (hSlot.congr hLists' hBack).2
    · exact fun hNone slot hSlot => hNone slot (hSlot.congr hLists hSame).2
  · intro slot t' hSlot hNode'
    obtain ⟨hMem, hSlot'⟩ := hSlot.congr hLists' hBack
    obtain ⟨t, hNode, hItem⟩ := hBack slot hMem t' hNode'
    rw [← hItem.needsExpansion]
    exact h.marked slot t hSlot' hNode

theorem Grove.congr (h : s.Grove trusted items ids) (hSame : s.SameSlots ids s') : s'.Grove trusted items ids where
  lists := hSame.lists h.lists
  nodup := h.nodup
  honest hTrusted id hMem t' hNode' hFolded hShape := by
    obtain ⟨t, hNode, hList⟩ := hSame.symm (fun _ => h.lists.has) id hMem t' hNode'
    obtain ⟨_, own, hFound, hBelow, hSub⟩ := h.lists.below_mem hMem
    cases hNode.symm.trans hFound
    rw [← hList.children, ← hList.flattened]
    rw [← hList.folded] at hFolded
    rw [← hList.listShape?] at hShape
    exact (h.honest hTrusted id hMem t hNode hFolded hShape).congr hBelow (hSame.mono fun _ hIn =>
      hSub.subset (mem_cons_of_mem id hIn))

theorem NoPermutation.evolves (h : s.NoPermutation id) (hEvolves : s.Evolves s') : s'.NoPermutation id := by
  obtain ⟨t, hNode, hForm⟩ := h
  obtain ⟨t', hNode', ht⟩ := hEvolves id t hNode
  exact ⟨t', hNode', ht.form.listShape?_ne hForm⟩

theorem NoPermutation.shallow (h : s.NoPermutation id) : s.Shallow id := by
  obtain ⟨t, hNode, hForm⟩ := h
  intro _ hNode' hShape
  cases hNode.symm.trans hNode'
  exact absurd hShape hForm

theorem Shallow.congr (h : s.Shallow id) (hHas : s.Has id) (hSame : s.SameSlots [id] s') (hEvolves : s.Evolves s') :
    s'.Shallow id := by
  intro t' hNode' hShape member hMember
  obtain ⟨t, hNode, ht⟩ := hSame.symm (by simpa using hHas) id mem_cons_self t' hNode'
  rw [← ht.listShape?] at hShape
  rw [← ht.children] at hMember
  exact (h t hNode hShape member hMember).evolves hEvolves

theorem tells_nil (s : Store) : s.Tells [] true :=
  ⟨by simp [not_slotAmong_nil], fun _ _ hSlot => absurd hSlot not_slotAmong_nil⟩

theorem Tells.append (h : s.Tells items flat) (h' : s.Tells more flat') : s.Tells (items ++ more) (flat && flat') where
  flat_iff := by
    simp only [Bool.and_eq_true, h.flat_iff, h'.flat_iff, slotAmong_append, not_or, forall_and]
  marked slot t hSlot := by
    obtain hSlot | hSlot := slotAmong_append.1 hSlot
    · exact h.marked slot t hSlot
    · exact h'.marked slot t hSlot

section

variable (hNode : s.get? id = some t)

include hNode

theorem slotAmong_single :
    s.SlotAmong [id] slot ↔ slot = id ∧ t.form.isSlot ∨ t.form.isExpanded ∧ s.SlotAmong t.form.children slot := by
  constructor
  · intro h
    cases h with
    | here hMem hNode' hSlot =>
      obtain rfl := mem_singleton.1 hMem
      cases hNode.symm.trans hNode'
      exact .inl ⟨rfl, hSlot⟩
    | inside hMem hNode' hExpanded hInside =>
      obtain rfl := mem_singleton.1 hMem
      cases hNode.symm.trans hNode'
      exact .inr ⟨hExpanded, hInside⟩
  · rintro (⟨rfl, hSlot⟩ | ⟨hExpanded, hInside⟩)
    · exact .here mem_cons_self hNode hSlot
    · exact .inside mem_cons_self hNode hExpanded hInside

theorem tells_list (hExpanded : t.form.isExpanded) (h : s.Tells t.form.children flat) : s.Tells [id] flat := by
  have hSlot : t.form.isSlot = false := by
    revert hExpanded
    cases t.form <;> simp [Form.isExpanded, Form.isSlot]
  have hSame : ∀ slot, s.SlotAmong [id] slot ↔ s.SlotAmong t.form.children slot := by
    intro slot
    simp [slotAmong_single hNode, hSlot, hExpanded]
  constructor
  · simpa only [hSame] using h.flat_iff
  · simpa only [hSame] using h.marked

theorem tells_other (hSlot : t.form.isSlot = false) (hExpanded : t.form.isExpanded = false) : s.Tells [id] true := by
  have hNone : ∀ slot, ¬ s.SlotAmong [id] slot := by
    intro slot
    simp [slotAmong_single hNode, hSlot, hExpanded]
  exact ⟨by simp [hNone], fun slot _ h => absurd h (hNone slot)⟩

theorem tells_slot (hSlot : t.form.isSlot) (hMarked : t.marks.needsExpansion) : s.Tells [id] false := by
  have hExpanded : t.form.isExpanded = false := by
    revert hSlot
    cases t.form <;> simp [Form.isExpanded, Form.isSlot]
  have hOnly : ∀ slot, s.SlotAmong [id] slot ↔ slot = id := by
    intro slot
    simp [slotAmong_single hNode, hSlot, hExpanded]
  constructor
  · simp [hOnly]
  · intro slot u hIs hNode'
    obtain rfl := (hOnly slot).1 hIs
    cases hNode.symm.trans hNode'
    exact hMarked

end

end Store

end TemplateCheck
