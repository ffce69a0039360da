import TemplateCheck.Proofs.Trees
import TemplateCheck.Session

/-!
# Copies of trees

A copy of a tree is made of new nodes, one for every place of a node in the tree, so a node that is shared is copied
more than once. Each new node is the node it was made from, with the copies of its children in their places, and it
is neither governed nor marked. A copy comes to an end if no node lies below itself: a path is then no longer than the
store is large.
-/

namespace TemplateCheck

open List Store

variable {α β : Type} {s : Store} {id : NodeId}

structure StoreAttains (s : Store) (x : StoreM α) (Q : α → Store → Prop) : Prop where
  run : ∃ a s', x.run s = (.ok a, s') ∧ Q a s'

namespace StoreAttains

variable {x : StoreM α} {f : α → StoreM β} {Q Q' : α → Store → Prop} {P : β → Store → Prop} {a : α} {t : Template}

theorem pure (hQ : Q a s) : StoreAttains s (pure a) Q := ⟨a, s, rfl, hQ⟩

theorem mono (hx : StoreAttains s x Q) (h : ∀ a s', Q a s' → Q' a s') : StoreAttains s x Q' := by
  obtain ⟨a, s', hRun, hQ⟩ := hx.run
  exact ⟨a, s', hRun, h a s' hQ⟩

theorem bind (hx : StoreAttains s x Q) (hf : ∀ a s', Q a s' → StoreAttains s' (f a) P) :
    StoreAttains s (x >>= f) P := by
  obtain ⟨a, s', hRun, hQ⟩ := hx.run
  obtain ⟨b, s'', hRun', hP⟩ := (hf a s' hQ).run
  exact ⟨b, s'', by rw [Tracked.run_bind, hRun]; exact hRun', hP⟩

theorem get_then {f : Template → StoreM β} (hNode : s.get? id = some t)
    (h : StoreAttains s (f t) P) : StoreAttains s (get id >>= f) P := by
  have hGet : StoreAttains s (get id) fun found s' => found = t ∧ s' = s :=
    ⟨t, s, by simp [Store.get, Tracked.still, hNode], rfl, rfl⟩
  apply hGet.bind
  rintro _ _ ⟨rfl, rfl⟩
  exact h

theorem alloc {Q : NodeId → Store → Prop} (hQ : Q s.nextId (s.push t)) : StoreAttains s (alloc t) Q :=
  ⟨s.nextId, s.push t, rfl, hQ⟩

end StoreAttains

namespace Store

variable {s' s'' origin : Store} {t : Template} {depth : Nat}
  {roots more ids others copies news ids' others' : List NodeId} {root : NodeId}

/-- The trees below some roots, in preorder, and their copies in another store: each copy has the copies of its children
in their places, and is neither governed nor marked. -/
inductive Copies (s s' : Store) : List NodeId → List NodeId → List NodeId → List NodeId → Prop where
  | nil : Copies s s' [] [] [] []
  | cons {root copy : NodeId} {t : Template} {roots copies below below' news ids ids' : List NodeId} :
      s.get? root = some t → Copies s s' t.form.children below news below' →
      s'.get? copy = some { t with form := t.form.withChildren news, governor := none, marks := {} } →
      Copies s s' roots ids copies ids' →
      Copies s s' (root :: roots) (root :: (below ++ ids)) (copy :: copies) (copy :: (below' ++ ids'))

namespace Copies

section

variable (h : Copies s s' roots ids copies ids')

include h

theorem length_eq : copies.length = roots.length := by
  induction h with
  | nil => rfl
  | cons _ _ _ _ _ ih => simp [ih]

theorem lists : s'.Lists copies ids' := by
  induction h with
  | nil => exact .nil
  | cons _ hBelow hCopy _ ihBelow ih =>
    refine .cons hCopy ?_ ih
    rwa [Form.children_withChildren hBelow.length_eq]

theorem keep (hKeeps : ∀ id t, s'.get? id = some t → s''.get? id = some t) : Copies s s'' roots ids copies ids' := by
  induction h with
  | nil => exact .nil
  | cons hFound _ hCopy _ ihBelow ih => exact .cons hFound ihBelow (hKeeps _ _ hCopy) ih

theorem append (h' : Copies s s' more others news others') :
    Copies s s' (roots ++ more) (ids ++ others) (copies ++ news) (ids' ++ others') := by
  induction h with
  | nil => exact h'
  | cons hFound hBelow hCopy _ _ ih =>
    simp only [cons_append, append_assoc]
    exact .cons hFound hBelow hCopy ih

end

end Copies

/-- A store and what it is after the trees have been copied, from a store whose nodes it has. -/
structure Copied (origin s : Store) (roots ids copies ids' : List NodeId) (s' : Store) : Prop where
  copies : Copies origin s' roots ids copies ids'
  keeps : ∀ id t, s.get? id = some t → s'.get? id = some t
  size_eq : s'.size = s.size + ids.length
  nodup : ids'.Nodup
  fresh : ∀ id ∈ ids', ¬ s.Has id

namespace Copied

theorem nil (origin s : Store) : Copied origin s [] [] [] [] s := ⟨.nil, fun _ _ h => h, rfl, .nil, nofun⟩

theorem append (h : Copied origin s roots ids copies ids' s') (h' : Copied origin s' more others news others' s'') :
    Copied origin s (roots ++ more) (ids ++ others) (copies ++ news) (ids' ++ others') s'' where
  copies := (h.copies.keep h'.keeps).append h'.copies
  keeps id t hFound := h'.keeps id t (h.keeps id t hFound)
  size_eq := by rw [h'.size_eq, h.size_eq, length_append, Nat.add_assoc]
  nodup := by
    refine nodup_append.2 ⟨h.nodup, h'.nodup, ?_⟩
    rintro id hMem _ hOther rfl
    exact h'.fresh id hOther (h.copies.lists.has hMem)
  fresh := by
    intro id hMem hHas
    obtain hMem | hMem := mem_append.1 hMem
    · exact h.fresh id hMem hHas
    · obtain ⟨t, hFound⟩ := hHas.exists_get?
      exact h'.fresh id hMem (has_of_get? (h.keeps id t hFound))

theorem push (hFound : origin.get? root = some t) (h : Copied origin s t.form.children ids news ids' s') :
    Copied origin s [root] (root :: ids) [s'.nextId] (s'.nextId :: ids')
      (s'.push { t with form := t.form.withChildren news, governor := none, marks := {} }) where
  copies := by
    have hList := Copies.cons hFound (h.copies.keep fun _ _ => get?_push_of_get?) (get?_push_nextId s' _) .nil
    rwa [append_nil, append_nil] at hList
  keeps id u hFound := get?_push_of_get? (h.keeps id u hFound)
  size_eq := by rw [size_push, h.size_eq, length_cons, Nat.add_assoc]
  nodup := nodup_cons.2 ⟨fun hMem => not_has_nextId s' (h.copies.lists.has hMem), h.nodup⟩
  fresh := by
    intro id hMem hHas
    obtain rfl | hMem := mem_cons.1 hMem
    · obtain ⟨u, hFound⟩ := hHas.exists_get?
      exact not_has_nextId s' (has_of_get? (h.keeps _ u hFound))
    · exact h.fresh id hMem hHas

end Copied

theorem copied_mapM {lists : List (List NodeId)} (hRoot : ∀ root own s, origin.preorderWithin depth root = .ok own →
      (∀ id t, origin.get? id = some t → s.get? id = some t) →
      StoreAttains s (copyWithin depth root) fun copy s' => ∃ ids', Copied origin s [root] own [copy] ids' s')
    (h : roots.mapM (origin.preorderWithin depth) = .ok lists)
    (hKeeps : ∀ id t, origin.get? id = some t → s.get? id = some t) :
    StoreAttains s (roots.mapM (copyWithin depth)) fun copies s' =>
      ∃ ids', Copied origin s roots lists.flatten copies ids' s' := by
  rw [mapM_eq_ok_iff] at h
  induction h generalizing s with
  | nil => exact .pure ⟨[], .nil origin s⟩
  | @cons root own roots lists hFirst _ ih =>
    rw [mapM_cons]
    apply (hRoot root own s hFirst hKeeps).bind
    rintro copy s1 ⟨ids1, hCopy⟩
    apply (ih fun id t hFound => hCopy.keeps id t (hKeeps id t hFound)).bind
    rintro copies s2 ⟨ids2, hCopies⟩
    exact .pure ⟨ids1 ++ ids2, hCopy.append hCopies⟩

/-- A tree is copied to the depth to which it can be listed. -/
theorem copied_copyWithin (h : origin.preorderWithin depth root = .ok ids)
    (hKeeps : ∀ id t, origin.get? id = some t → s.get? id = some t) :
    StoreAttains s (copyWithin depth root) fun copy s' => ∃ ids', Copied origin s [root] ids [copy] ids' s' := by
  induction depth generalizing root ids s with
  | zero => cases h
  | succ depth ih =>
    obtain ⟨t, lists, hFound, hLists, rfl⟩ := preorderWithin_eq_ok_iff.1 h
    rw [copyWithin]
    apply StoreAttains.get_then (hKeeps root t hFound)
    rw [Form.mapChildrenM_eq, bind_assoc]
    apply (copied_mapM (fun _ _ _ => ih) hLists hKeeps).bind
    rintro news s' ⟨ids', hNews⟩
    rw [pure_bind]
    exact .alloc ⟨_, hNews.push hFound⟩

theorem copied_deepCopy (h : s.preorder root = .ok ids) :
    StoreAttains s (deepCopy root) fun copy s' => ∃ ids', Copied s s [root] ids [copy] ids' s' := by
  obtain ⟨copy, s', hRun, hCopied⟩ := (copied_copyWithin h fun _ _ hFound => hFound).run
  exact ⟨copy, s', hRun, hCopied⟩

theorem Founded.exists_preorderWithin (h : s.Founded id) (hDepth : ¬ s.Descends depth id) :
    ∃ ids, s.preorderWithin depth id = .ok ids := by
  induction depth generalizing id with
  | zero => exact absurd (.here id) hDepth
  | succ depth ih =>
    obtain ⟨t, hFound⟩ := (h.has id .refl).exists_get?
    have hChild (child : NodeId) (hMem : child ∈ t.form.children) : ∃ own, s.preorderWithin depth child = .ok own :=
      ih (h.of_child ⟨t, hFound, hMem⟩) fun hPath => hDepth (.step ⟨t, hFound, hMem⟩ hPath)
    obtain ⟨lists, hLists⟩ := exists_mapM_eq_ok hChild
    exact ⟨_, preorderWithin_eq_ok_iff.2 ⟨t, lists, hFound, hLists, rfl⟩⟩

theorem Founded.exists_preorder (h : s.Founded id) : ∃ ids, s.preorder id = .ok ids :=
  h.exists_preorderWithin fun hPath => by
    have hLt := h.descends_lt hPath
    omega

end Store

/-- A tree is listed in preorder, with every node before its children. A copy of it adds as many nodes as are listed and
changes no other; it is a tree of its own, and node for node like the one it was made from. -/
theorem Session.copy_exact_and_disjoint (s : Session) (id : NodeId) (h : s.store.Founded id) :
    ∃ ids copy ids' after, s.subtree id = .ok ids ∧ s.store.preorder id = .ok ids ∧ s.store.Lists [id] ids ∧
      s.copy id = (.ok copy, { s with store := after }) ∧ after.size = s.store.size + ids.length ∧
      (∀ other t, s.store.get? other = some t → after.get? other = some t) ∧
      { s with store := after }.subtree copy = .ok ids' ∧ ids'.Nodup ∧
      (∀ other ∈ ids', ¬ s.store.Has other) ∧ s.store.Copies after [id] ids [copy] ids' := by
  obtain ⟨ids, hIds⟩ := h.exists_preorder
  obtain ⟨copy, after, hRun, ids', hCopied⟩ := (copied_deepCopy hIds).run
  refine ⟨ids, copy, ids', after, subtree_of_preorder hIds, hIds, lists_of_preorderWithin hIds, ?_,
    hCopied.size_eq, hCopied.keeps, subtree_of_preorder (hCopied.copies.lists.preorder hCopied.nodup),
    hCopied.nodup, hCopied.fresh, hCopied.copies⟩
  simp [Session.copy, Session.run, onStore, hRun]

/-- Two fields of the same list, which holds one item twice. -/
def sharedItems : Session where
  store := ⟨[{ form := .ofInteger 1 }, { form := .ofItems [0, 0] },
    { form := .named [⟨"first", 1, {}⟩, ⟨"second", 1, {}⟩], marks := { checked := true } }]⟩

theorem Session.copy_exact_and_disjoint_sharedItems : sharedItems.store.Founded 2 ∧ ∃ copy ids' after,
    sharedItems.copy 2 = (.ok copy, { sharedItems with store := after }) ∧ after.size = 3 + 7 ∧
      { sharedItems with store := after }.subtree copy = .ok ids' ∧ ids'.Nodup ∧
      sharedItems.store.Copies after [2] [2, 1, 0, 0, 1, 0, 0] [copy] ids' := by
  have hIds : sharedItems.subtree 2 = .ok [2, 1, 0, 0, 1, 0, 0] := rfl
  have hFounded : sharedItems.store.Founded 2 :=
    (lists_of_subtree hIds).founded mem_cons_self
  obtain ⟨_, copy, ids', after, hSame, -, -, hCopy, hSize, -, hSubtree, hNodup, -, hCopies⟩ :=
    Session.copy_exact_and_disjoint sharedItems 2 hFounded
  cases hIds.symm.trans hSame
  exact ⟨hFounded, copy, ids', after, hCopy, hSize, hSubtree, hNodup, hCopies⟩

end TemplateCheck
