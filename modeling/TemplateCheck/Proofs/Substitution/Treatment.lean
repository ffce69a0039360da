import TemplateCheck.Proofs.Chains.Following
import TemplateCheck.Proofs.Substitution

/-!
# What splicing does to the nodes of a list

The nodes that are treated are kept apart from the reading, which tells what slots stand for. Splicing
changes the nodes that are treated and caches of the reading; all other nodes stay as they are. Of the nodes
that are treated only lists change, and only by new nodes that take the place of slots. Treatments of trees
that have no nodes in common can be put together.
-/

namespace TemplateCheck

open List Store

namespace Store

variable {s s' : Store} {items items' : List NodeId} {t t' : Template}

/-- Items of a list with new nodes in the place of slots. -/
inductive Fills (s : Store) : List NodeId → List NodeId → Prop where
  | nil : Fills s [] []
  | item {id : NodeId} {t : Template} {items items' : List NodeId} : s.get? id = some t →
      t.form.isSlot = false → Fills s items items' → Fills s (id :: items) (id :: items')
  | slot {id : NodeId} {t : Template} {new items items' : List NodeId} : s.get? id = some t →
      t.form.isSlot → (∀ id ∈ new, ¬ s.Has id) → Fills s items items' → Fills s (id :: items) (new ++ items')

inductive Refilled (s : Store) (t : Template) : Template → Prop where
  | same : Refilled s t t
  | filled {shape : ListShape} {items items' : List NodeId} (marks : Marks) : t.form = .list shape items →
      s.Fills items items' → Refilled s t { t with form := .list shape items', marks }

theorem Fills.append {rest rest' : List NodeId} (h : s.Fills items items') (h' : s.Fills rest rest') :
    s.Fills (items ++ rest) (items' ++ rest') := by
  induction h with
  | nil => exact h'
  | item hNode hItem _ ih => exact .item hNode hItem ih
  | slot hNode hSlot hNew _ ih =>
    rw [append_assoc]
    exact .slot hNode hSlot hNew ih

theorem Fills.earlier (h : s'.Fills items items') (hNodes : ∀ id ∈ items, s'.get? id = s.get? id)
    (hHas : ∀ id, s.Has id → s'.Has id) : s.Fills items items' := by
  induction h with
  | nil => exact .nil
  | item hNode hItem _ ih =>
    rw [hNodes _ mem_cons_self] at hNode
    exact .item hNode hItem (ih fun id hMem => hNodes id (mem_cons_of_mem _ hMem))
  | slot hNode hSlot hNew _ ih =>
    rw [hNodes _ mem_cons_self] at hNode
    exact .slot hNode hSlot (fun id hMem hOld => hNew id hMem (hHas id hOld))
      (ih fun id hMem => hNodes id (mem_cons_of_mem _ hMem))

theorem Refilled.earlier (h : s'.Refilled t t') (hNodes : ∀ id ∈ t.form.children, s'.get? id = s.get? id)
    (hHas : ∀ id, s.Has id → s'.Has id) : s.Refilled t t' := by
  cases h with
  | same => exact .same
  | filled marks hForm hFills =>
    rw [hForm] at hNodes
    exact .filled marks hForm (hFills.earlier hNodes hHas)

end Store

theorem Unfolds.child {view : NodeId → Option Template} {roots ids : List NodeId} {trees : List Tree}
    (h : Unfolds view roots ids trees) {id child : NodeId} {t : Template} (hMem : id ∈ ids)
    (hView : view id = some t) (hChild : child ∈ t.form.children) : child ∈ ids := by
  induction h with
  | nil => cases hMem
  | cons hRoot hBelow _ ihBelow ih =>
    apply mem_cons_of_mem
    obtain rfl | hMem := mem_cons.1 hMem
    · cases hRoot.symm.trans hView
      exact mem_append_left _ (hBelow.mem_of_root hChild)
    · obtain hMem | hMem := mem_append.1 hMem
      · exact mem_append_left _ (ihBelow hMem)
      · exact mem_append_right _ (ih hMem)

namespace Reading

variable {m : Reading} {s s' s'' : Store} {items items' rest rest' own others ids : List NodeId}
  {trees trees' children : List Tree} {id : NodeId} {t : Template} {tree : Tree}

structure Pending (m : Reading) (s : Store) (items ids : List NodeId) (trees : List Tree) : Prop where
  unfolds : Unfolds s.get? items ids trees
  nodup : ids.Nodup
  unread : ∀ id ∈ ids, m.view id = none
  unfolded : ∀ id ∈ ids, ∀ t, s.get? id = some t → t.marks.folded = false

/-- What a treatment of some nodes does to the store. -/
structure Treats (m : Reading) (ids : List NodeId) (s s' : Store) : Prop where
  agrees : m.Agrees s'
  has : ∀ id, s.Has id → s'.Has id
  others : ∀ id, s.Has id → id ∉ ids → m.view id = none → s'.get? id = s.get? id
  nodes : ∀ id ∈ ids, ∀ t, s.get? id = some t → ∃ t', s'.get? id = some t' ∧ s.Refilled t t'

/-- A treatment turns items into items that stand for the given trees. -/
structure Yields (m : Reading) (s : Store) (ids items items' : List NodeId) (trees : List Tree) (s' : Store) :
    Prop extends m.Treats ids s s' where
  fills : s.Fills items items'
  unfolds : ∃ ids', Unfolds s'.get? items' ids' trees ∧ ids'.Nodup ∧ ∀ id ∈ ids', id ∈ ids ∨ ¬ s.Has id

theorem Agrees.view_eq_none (h : m.Agrees s) (hNew : ¬ s.Has id) : m.view id = none := by
  cases hView : m.view id with
  | none => rfl
  | some t =>
    obtain ⟨t', hFound, -⟩ := h.nodes id t hView
    exact absurd (has_of_get? hFound) hNew

theorem Pending.has (h : m.Pending s items ids trees) (hMem : id ∈ ids) : s.Has id := h.unfolds.lists.has hMem

theorem Pending.congr (h : m.Pending s items ids trees) (hNodes : ∀ id ∈ ids, s'.get? id = s.get? id) :
    m.Pending s' items ids trees := by
  refine ⟨h.unfolds.congr fun id hMem t hFound => ⟨t, (hNodes id hMem).trans hFound, rfl, rfl⟩, h.nodup, h.unread, ?_⟩
  intro id hMem t hFound
  rw [hNodes id hMem] at hFound
  exact h.unfolded id hMem t hFound

theorem Pending.treats (h : m.Pending s rest others trees) (hTreats : m.Treats own s s')
    (hApart : ∀ id ∈ others, id ∉ own) : m.Pending s' rest others trees :=
  h.congr fun id hMem => hTreats.others id (h.has hMem) (hApart id hMem) (h.unread id hMem)

theorem Yields.append {first : List Tree} (hs : m.Agrees s) (hFirst : m.Pending s items own first)
    (hRest : m.Pending s rest others trees) (hApart : ∀ id ∈ others, id ∉ own) {done done' : List Tree}
    (h : m.Yields s own items items' done s') (h' : m.Yields s' others rest rest' done' s'') :
    m.Yields s (own ++ others) (items ++ rest) (items' ++ rest') (done ++ done') s'' := by
  have hUntouched : ∀ id ∈ others, s'.get? id = s.get? id :=
    fun id hMem => h.others id (hRest.has hMem) (hApart id hMem) (hRest.unread id hMem)
  obtain ⟨ids, hUnfolds, hNodup, hOrigin⟩ := h.unfolds
  obtain ⟨ids', hUnfolds', hNodup', hOrigin'⟩ := h'.unfolds
  -- What the first treatment made is neither read nor treated again.
  have hMade : ∀ id ∈ ids, id ∉ others ∧ m.view id = none := by
    intro id hMem
    obtain hOwn | hNew := hOrigin id hMem
    · exact ⟨fun hOther => hApart id hOther hOwn, hFirst.unread id hOwn⟩
    · exact ⟨fun hOther => hNew (hRest.has hOther), hs.view_eq_none hNew⟩
  have hKept : ∀ id, s'.Has id → id ∉ others ∧ m.view id = none → s''.get? id = s'.get? id :=
    fun id hHas hApart => h'.others id hHas hApart.1 hApart.2
  refine { agrees := h'.agrees, has := fun id hHas => h'.has id (h.has id hHas), others := ?_, nodes := ?_,
           fills := ?_, unfolds := ⟨ids ++ ids', ?_, ?_, ?_⟩ }
  · intro id hHas hMem hView
    simp only [mem_append, not_or] at hMem
    rw [hKept id (h.has id hHas) ⟨hMem.2, hView⟩]
    exact h.others id hHas hMem.1 hView
  · intro id hMem t hFound
    obtain hMem | hMem := mem_append.1 hMem
    · obtain ⟨t', hFound', hRefilled⟩ := h.nodes id hMem t hFound
      refine ⟨t', ?_, hRefilled⟩
      rw [hKept id (has_of_get? hFound') ⟨fun hOther => hApart id hOther hMem, hFirst.unread id hMem⟩]
      exact hFound'
    · obtain ⟨t', hFound', hRefilled⟩ := h'.nodes id hMem t ((hUntouched id hMem).trans hFound)
      refine ⟨t', hFound', hRefilled.earlier (fun child hChild => ?_) h.has⟩
      exact hUntouched child (hRest.unfolds.child hMem hFound hChild)
  · apply h.fills.append
    apply h'.fills.earlier _ h.has
    exact fun id hMem => hUntouched id (hRest.unfolds.mem_of_root hMem)
  · apply (hUnfolds.congr fun id hMem t hFound => _).append hUnfolds'
    intro id hMem t hFound
    exact ⟨t, (hKept id (has_of_get? hFound) (hMade id hMem)).trans hFound, rfl, rfl⟩
  · refine nodup_append.2 ⟨hNodup, hNodup', ?_⟩
    rintro id hMem _ hMem' rfl
    obtain hOther | hNew := hOrigin' id hMem'
    · exact (hMade id hMem).1 hOther
    · exact hNew (hUnfolds.lists.has hMem)
  · intro id hMem
    obtain hMem | hMem := mem_append.1 hMem
    · exact (hOrigin id hMem).imp_left (mem_append_left _)
    · obtain hOther | hNew := hOrigin' id hMem
      · exact .inl (mem_append_right _ hOther)
      · exact .inr fun hHas => hNew (h.has id hHas)

theorem Pending.yields_self (h : m.Pending s items own trees) (hs : m.Agrees s) (hFills : s.Fills items items) :
    m.Yields s own items items trees s where
  agrees := hs
  has _ hHas := hHas
  others _ _ _ _ := rfl
  nodes _ _ t hFound := ⟨t, hFound, .same⟩
  fills := hFills
  unfolds := ⟨own, h.unfolds, h.nodup, fun _ => .inl⟩

theorem Pending.of_cons {item : NodeId} (h : m.Pending s (item :: rest) ids (tree :: trees)) :
    ∃ own others, ids = own ++ others ∧ m.Pending s [item] own [tree] ∧ m.Pending s rest others trees ∧
      ∀ id ∈ others, id ∉ own := by
  obtain ⟨hUnfolds, hNodup, hUnread, hUnfolded⟩ := h
  cases hUnfolds with
  | @cons _ t _ below others children _ hView hBelow hRest =>
    have hOwn : Unfolds s.get? [item] (item :: below) [.node t.bare children] := by
      simpa using Unfolds.cons hView hBelow .nil
    rw [← cons_append] at hNodup hUnread hUnfolded
    obtain ⟨hNodup1, hNodup2, hApart⟩ := nodup_append.1 hNodup
    refine ⟨item :: below, others, rfl, ⟨hOwn, hNodup1, ?_, ?_⟩, ⟨hRest, hNodup2, ?_, ?_⟩, ?_⟩
    · exact fun id hMem => hUnread id (mem_append_left _ hMem)
    · exact fun id hMem => hUnfolded id (mem_append_left _ hMem)
    · exact fun id hMem => hUnread id (mem_append_right _ hMem)
    · exact fun id hMem => hUnfolded id (mem_append_right _ hMem)
    · exact fun id hOther hMem => hApart id hMem id hOther rfl

theorem Pending.of_single {head : Template} (h : m.Pending s [id] own [.node head children]) :
    ∃ t below, s.get? id = some t ∧ head = t.bare ∧ own = id :: below ∧ id ∉ below ∧
      m.Pending s t.form.children below children := by
  obtain ⟨hUnfolds, hNodup, hUnread, hUnfolded⟩ := h
  obtain ⟨t, below, hView, rfl, rfl, hBelow⟩ := hUnfolds.of_single
  obtain ⟨hNew, hNodup⟩ := nodup_cons.1 hNodup
  refine ⟨t, below, hView, rfl, rfl, hNew, hBelow, hNodup, ?_, ?_⟩
  · exact fun id hMem => hUnread id (mem_cons_of_mem _ hMem)
  · exact fun id hMem => hUnfolded id (mem_cons_of_mem _ hMem)

theorem Agrees.update_unread (h : m.Agrees s) (hView : m.view id = none) (f : Template → Template) :
    m.Agrees (s.update id f) := by
  apply h.update
  intro t t' hView'
  cases hView.symm.trans hView'

theorem Yields.list {shape : ListShape} {marks : Marks} {f : Template → Template} {below : List NodeId}
    {children' : List Tree} (hNode : s.get? id = some t) (hForm : t.form = .list shape items)
    (hPending : m.Pending s items below children) (hNew : id ∉ below)
    (h : m.Yields (s.update id f) below items items' children' s') (hAgrees : m.Agrees s'')
    (hSelf : s''.get? id = some { t with form := .list shape items', marks })
    (hOthers : ∀ other, other ≠ id → s''.get? other = s'.get? other) :
    m.Yields s (id :: below) [id] [id] [.node t.bare children'] s'' := by
  have hUpdate : ∀ other, other ≠ id → (s.update id f).get? other = s.get? other :=
    fun other hNe => get?_update_of_ne hNe
  have hHas : ∀ other, s.Has other → (s.update id f).Has other := fun _ hHas => has_update.2 hHas
  have hBelow : ∀ other ∈ below, other ≠ id := fun other hMem hEq => hNew (hEq ▸ hMem)
  obtain ⟨ids, hUnfolds, hNodup, hOrigin⟩ := h.unfolds
  have hMade : ∀ other ∈ ids, other ≠ id := by
    rintro other hMem rfl
    obtain hMem | hNew' := hOrigin other hMem
    · exact hNew hMem
    · exact hNew' (hHas other (has_of_get? hNode))
  refine { agrees := hAgrees, has := ?_, others := ?_, nodes := ?_, fills := ?_,
           unfolds := ⟨id :: (ids ++ []), ?_, ?_, ?_⟩ }
  · intro other hOld
    by_cases hEq : other = id
    · rw [hEq]
      exact has_of_get? hSelf
    · obtain ⟨t', hFound⟩ := (h.has other (hHas other hOld)).exists_get?
      exact has_of_get? ((hOthers other hEq).trans hFound)
  · intro other hOld hMem hView
    simp only [mem_cons, not_or] at hMem
    rw [hOthers other hMem.1, h.others other (hHas other hOld) hMem.2 hView, hUpdate other hMem.1]
  · intro other hMem u hFound
    obtain rfl | hMem := mem_cons.1 hMem
    · cases hNode.symm.trans hFound
      refine ⟨_, hSelf, .filled marks hForm (h.fills.earlier (fun item hItem => ?_) hHas)⟩
      exact hUpdate item (hBelow item (hPending.unfolds.mem_of_root hItem))
    · obtain ⟨u', hFound', hRefilled⟩ := h.nodes other hMem u ((hUpdate other (hBelow other hMem)).trans hFound)
      refine ⟨u', (hOthers other (hBelow other hMem)).trans hFound', hRefilled.earlier (fun child hChild => ?_) hHas⟩
      exact hUpdate child (hBelow child (hPending.unfolds.child hMem hFound hChild))
  · exact .item hNode (by rw [hForm]; rfl) .nil
  · have hBare : ({ t with form := .list shape items', marks } : Template).bare = t.bare := by
      simp [Template.bare, hForm, Form.bare]
    rw [← hBare]
    refine .cons hSelf (hUnfolds.congr fun other hMem u hFound => ?_) .nil
    exact ⟨u, (hOthers other (hMade other hMem)).trans hFound, rfl, rfl⟩
  · rw [append_nil]
    exact nodup_cons.2 ⟨fun hMem => hMade id hMem rfl, hNodup⟩
  · rw [append_nil]
    intro other hMem
    obtain rfl | hMem := mem_cons.1 hMem
    · exact .inl mem_cons_self
    · obtain hMem | hNew' := hOrigin other hMem
      · exact .inl (mem_cons_of_mem _ hMem)
      · exact .inr fun hOld => hNew' (hHas other hOld)

/-- New items stand for the given trees, and of the old nodes only those of the reading may have changed. -/
structure Provides (m : Reading) (s : Store) (items : List NodeId) (trees : List Tree) (s' : Store) : Prop where
  agrees : m.Agrees s'
  has : ∀ id, s.Has id → s'.Has id
  old : ∀ id, s.Has id → m.view id = none → s'.get? id = s.get? id
  unfolds : ∃ ids, Unfolds s'.get? items ids trees ∧ ids.Nodup ∧ ∀ id ∈ ids, ¬ s.Has id

theorem Pending.yields_slot (h : m.Pending s [id] own [tree]) (hNode : s.get? id = some t)
    (hSlot : t.form.isSlot) (hProvides : m.Provides s items' trees' s') : m.Yields s own [id] items' trees' s' := by
  obtain ⟨ids, hUnfolds, hNodup, hNew⟩ := hProvides.unfolds
  refine { agrees := hProvides.agrees, has := hProvides.has, others := ?_, nodes := ?_, fills := ?_,
           unfolds := ⟨ids, hUnfolds, hNodup, fun other hMem => .inr (hNew other hMem)⟩ }
  · exact fun other hOld _ => hProvides.old other hOld
  · intro other hMem u hFound
    exact ⟨u, (hProvides.old other (h.has hMem) (h.unread other hMem)).trans hFound, .same⟩
  · rw [← append_nil items']
    exact .slot hNode hSlot (fun other hMem => hNew other (hUnfolds.mem_of_root hMem)) .nil

theorem Agrees.plants (h : m.Agrees s) (hPlants : s.Plants items trees s') : m.Agrees s' where
  room := by
    have hLe : s.size ≤ s'.size := by
      cases hSize : s.size with
      | zero => exact Nat.zero_le _
      | succ last =>
        have hHas : s.Has ⟨last⟩ := by rw [Has, hSize]; exact Nat.lt_succ_self last
        exact hPlants.has hHas
    have := h.room
    omega
  nodes id t hView := by
    obtain ⟨t', hFound, hFollowed⟩ := h.nodes id t hView
    exact ⟨t', hPlants.keeps id t' hFound, hFollowed⟩

theorem Agrees.provides (h : m.Agrees s) (hPlants : s.Plants items trees s') : m.Provides s items trees s' where
  agrees := h.plants hPlants
  has _ := hPlants.has
  old id hHas _ := by
    obtain ⟨t, hFound⟩ := hHas.exists_get?
    rw [hPlants.keeps id t hFound, hFound]
  unfolds := by
    obtain ⟨ids, hUnfolds, hNodup, hNew⟩ := hPlants.planted
    exact ⟨ids, hUnfolds, hNodup, fun id hMem => (hNew id hMem).1⟩

theorem Agrees.pending (h : m.Agrees s) (hPlants : s.Plants items trees s') :
    ∃ ids, m.Pending s' items ids trees ∧ ∀ id ∈ ids, ¬ s.Has id := by
  obtain ⟨ids, hUnfolds, hNodup, hNew⟩ := hPlants.planted
  refine ⟨ids, ⟨hUnfolds, hNodup, ?_, fun id hMem t hFound => by rw [(hNew id hMem).2 t hFound]⟩, fun id hMem =>
    (hNew id hMem).1⟩
  exact fun id hMem => h.view_eq_none (hNew id hMem).1

theorem Provides.of_copies {copies : List NodeId} {elements : List Tree} (hPlants : s.Plants copies elements s')
    (hNew : ∀ id ∈ ids, ¬ s.Has id) (h : m.Yields s' ids copies items trees s'') : m.Provides s items trees s'' := by
  obtain ⟨ids', hUnfolds, hNodup, hOrigin⟩ := h.unfolds
  refine ⟨h.agrees, fun id hHas => h.has id (hPlants.has hHas), ?_, ids', hUnfolds, hNodup, ?_⟩
  · intro id hHas hView
    rw [h.others id (hPlants.has hHas) (fun hMem => hNew id hMem hHas) hView]
    obtain ⟨t, hFound⟩ := hHas.exists_get?
    rw [hPlants.keeps id t hFound, hFound]
  · intro id hMem hHas
    obtain hMem | hFresh := hOrigin id hMem
    · exact hNew id hMem hHas
    · exact hFresh (hPlants.has hHas)

theorem Learns.provides (hLearns : m.Learns s s') (h : m.Provides s' items trees s'') :
    m.Provides s items trees s'' := by
  have hHas : ∀ id, s.Has id → s'.Has id := fun id hHas => by rwa [Has, hLearns.size_eq]
  obtain ⟨ids, hUnfolds, hNodup, hNew⟩ := h.unfolds
  refine ⟨h.agrees, fun id hOld => h.has id (hHas id hOld), fun id hOld hView => ?_, ids, hUnfolds, hNodup, ?_⟩
  · rw [h.old id (hHas id hOld) hView, hLearns.unread id hView]
  · exact fun id hMem hOld => hNew id hMem (hHas id hOld)

theorem Followed.bare {t' : Template} (h : m.Followed id t t') :
    t'.bare = t.bare ∧ t'.form.children = t.form.children := by
  cases h with
  | same => exact ⟨rfl, rfl⟩
  | known _ hForm => simp [Template.bare, hForm, Form.bare, Form.children]

theorem Agrees.unfolds (h : m.Agrees s) (hUnfolds : Unfolds m.view items ids trees) :
    Unfolds s.get? items ids trees := by
  apply hUnfolds.congr
  intro id _ t hView
  obtain ⟨t', hFound, hFollowed⟩ := h.nodes id t hView
  exact ⟨t', hFound, hFollowed.bare⟩

end Reading

end TemplateCheck
