import Mathlib.Algebra.Order.BigOperators.Group.List
import Mathlib.Algebra.Order.Group.Nat
import TemplateCheck.Proofs.Locality.Splice

/-!
# Trees in a store

The nodes of trees are listed in preorder, as the stack leaves them. A list without repetition says that the trees are
trees: no node has two parents, and no two of them share a node. What happens to nodes outside of such a list leaves
the trees as they are, and one of several trees can be replaced by trees made of its own nodes and new
ones.
-/

namespace TemplateCheck

open List Store

variable {s s' : Store} {id : NodeId} {t : Template} {roots ids : List NodeId}

namespace Store

variable {root : NodeId} {rest below : List NodeId} {depth : Nat}

/-- The nodes of a tree at most `depth` levels deep, each before its children. -/
def preorderWithin (s : Store) : Nat → NodeId → Except Fault (List NodeId)
  | 0, _ => .error .endlessWalk
  | depth + 1, id =>
    match s.get? id with
    | none => .error (.danglingTemplate id)
    | some t => do
      let below ← t.form.children.mapM (s.preorderWithin depth)
      return id :: below.flatten

def preorder (s : Store) (id : NodeId) : Except Fault (List NodeId) :=
  s.preorderWithin (s.size + 1) id

theorem preorderWithin_eq_ok_iff : s.preorderWithin (depth + 1) root = .ok ids ↔
    ∃ t lists, s.get? root = some t ∧ t.form.children.mapM (s.preorderWithin depth) = .ok lists ∧
      root :: lists.flatten = ids := by
  rw [preorderWithin]
  cases s.get? root with
  | none => simp
  | some t => simp [bind_eq_ok_iff, pure, Except.pure]

/-- The nodes of the trees below some roots, each before its children. -/
inductive Lists (s : Store) : List NodeId → List NodeId → Prop where
  | nil : Lists s [] []
  | cons {root : NodeId} {t : Template} {rest below ids : List NodeId} :
      s.get? root = some t → Lists s t.form.children below → Lists s rest ids →
      Lists s (root :: rest) (root :: (below ++ ids))

namespace Lists

theorem single (hFound : s.get? root = some t) (h : s.Lists t.form.children below) :
    s.Lists [root] (root :: below) := by
  have hList := Lists.cons hFound h .nil
  rwa [append_nil] at hList

theorem of_single (h : s.Lists [root] ids) :
    ∃ t below, s.get? root = some t ∧ s.Lists t.form.children below ∧ ids = root :: below := by
  cases h with
  | cons hFound hBelow hRest =>
    cases hRest
    exact ⟨_, _, hFound, hBelow, by rw [append_nil]⟩

theorem of_cons (h : s.Lists (root :: rest) ids) :
    ∃ own others, s.Lists [root] own ∧ s.Lists rest others ∧ ids = own ++ others := by
  cases h with
  | cons hFound hBelow hRest => exact ⟨_, _, single hFound hBelow, hRest, rfl⟩

theorem of_append (h : s.Lists (roots ++ rest) ids) :
    ∃ own others, s.Lists roots own ∧ s.Lists rest others ∧ ids = own ++ others := by
  induction roots generalizing ids with
  | nil => exact ⟨[], ids, .nil, h, rfl⟩
  | cons root roots ih =>
    cases h with
    | cons hFound hBelow hRest =>
      obtain ⟨own, others, hOwn, hOthers, rfl⟩ := ih hRest
      exact ⟨_, others, .cons hFound hBelow hOwn, hOthers, by simp⟩

section

variable (h : s.Lists roots ids)

include h

theorem of_mem (hRoot : root ∈ roots) : ∃ own, s.Lists [root] own ∧ own.Sublist ids := by
  induction h with
  | nil => cases hRoot
  | cons hFound hBelow _ _ ih =>
    obtain rfl | hRoot := mem_cons.1 hRoot
    · exact ⟨_, .single hFound hBelow, (sublist_append_left _ _).cons_cons _⟩
    · obtain ⟨own, hOwn, hSub⟩ := ih hRoot
      exact ⟨own, hOwn, (hSub.trans (sublist_append_right _ _)).cons _⟩

theorem append {more others : List NodeId} (hMore : s.Lists more others) : s.Lists (roots ++ more) (ids ++ others) := by
  induction h with
  | nil => exact hMore
  | cons hFound hBelow _ _ ih =>
    rw [cons_append, cons_append, List.append_assoc]
    exact .cons hFound hBelow ih

theorem drain {steps : Nat} (hSteps : ids.length ≤ steps) (taken : List NodeId) :
    s.drain steps taken roots = .ok (taken.reverse ++ ids) := by
  induction steps generalizing roots ids taken with
  | zero =>
    cases h with
    | nil => simp [drain]
    | cons => simp at hSteps
  | succ steps ih =>
    cases h with
    | nil => simp [drain]
    | @cons root _ _ _ _ hFound hBelow hRest =>
      rw [drain, hFound]
      refine (ih (hBelow.append hRest) (by simpa using hSteps) (root :: taken)).trans ?_
      simp

theorem mem_of_root (hRoot : id ∈ roots) : id ∈ ids := by
  induction h with
  | nil => cases hRoot
  | cons _ _ _ _ ih =>
    obtain rfl | hRest := mem_cons.1 hRoot
    · exact mem_cons_self
    · exact mem_cons_of_mem _ (mem_append_right _ (ih hRest))

theorem has (hMem : id ∈ ids) : s.Has id := by
  induction h with
  | nil => cases hMem
  | cons hFound _ _ ihBelow ihRest =>
    obtain rfl | hMem := mem_cons.1 hMem
    · exact has_of_get? hFound
    · obtain hBelow | hRest := mem_append.1 hMem
      · exact ihBelow hBelow
      · exact ihRest hRest

theorem child {parent child : NodeId} (hMem : parent ∈ ids) (hChild : s.Child parent child) : child ∈ ids := by
  induction h with
  | nil => cases hMem
  | cons hFound hBelow _ ihBelow ihRest =>
    apply mem_cons_of_mem
    obtain rfl | hMem := mem_cons.1 hMem
    · obtain ⟨t, hFound', hChild⟩ := hChild
      cases hFound.symm.trans hFound'
      exact mem_append_left _ (hBelow.mem_of_root hChild)
    · obtain hMem | hMem := mem_append.1 hMem
      · exact mem_append_left _ (ihBelow hMem)
      · exact mem_append_right _ (ihRest hMem)

theorem mem_of_below {first last : NodeId} (hMem : first ∈ ids) (hBelow : s.Below first last) : last ∈ ids := by
  induction hBelow with
  | refl => exact hMem
  | tail _ hChild ih => exact h.child ih hChild

theorem below_root (hMem : id ∈ ids) : ∃ root ∈ roots, s.Below root id := by
  induction h with
  | nil => cases hMem
  | cons hFound _ _ ihBelow ihRest =>
    obtain rfl | hMem := mem_cons.1 hMem
    · exact ⟨_, mem_cons_self, .refl⟩
    obtain hMem | hMem := mem_append.1 hMem
    · obtain ⟨child, hChild, hPath⟩ := ihBelow hMem
      exact ⟨_, mem_cons_self, .head ⟨_, hFound, hChild⟩ hPath⟩
    · obtain ⟨root, hRoot, hPath⟩ := ihRest hMem
      exact ⟨root, mem_cons_of_mem _ hRoot, hPath⟩

theorem not_below_self (hMem : id ∈ ids) : ¬ Relation.TransGen s.Child id id := by
  induction h with
  | nil => cases hMem
  | cons hFound hBelow _ ihBelow ihRest =>
    obtain rfl | hMem := mem_cons.1 hMem
    · intro hCycle
      obtain ⟨child, ⟨t, hFound', hChild⟩, hPath⟩ := Relation.TransGen.head'_iff.1 hCycle
      cases hFound.symm.trans hFound'
      exact ihBelow (hBelow.mem_of_below (hBelow.mem_of_root hChild) hPath) hCycle
    · exact (mem_append.1 hMem).elim ihBelow ihRest

/-- No root of trees that share no node lies below a root. -/
theorem not_below_root {other : NodeId} (hNodup : ids.Nodup) (hRoot : root ∈ roots) (hOther : other ∈ roots) :
    ¬ Relation.TransGen s.Child other root := by
  intro hPath
  induction h with
  | nil => cases hRoot
  | cons hFound hBelow hRest _ ihRest =>
    obtain ⟨hNew, hNodup⟩ := nodup_cons.1 hNodup
    obtain ⟨-, hNodupRest, hDisjoint⟩ := nodup_append.1 hNodup
    obtain rfl | hIn := mem_cons.1 hRoot <;> obtain rfl | hAlso := mem_cons.1 hOther
    · exact (single hFound hBelow).not_below_self mem_cons_self hPath
    · exact hNew (mem_append_right _ (hRest.mem_of_below (hRest.mem_of_root hAlso) hPath.to_reflTransGen))
    · obtain ⟨child, ⟨t, hFound', hChild⟩, hPath⟩ := Relation.TransGen.head'_iff.1 hPath
      cases hFound.symm.trans hFound'
      exact hDisjoint _ (hBelow.mem_of_below (hBelow.mem_of_root hChild) hPath) _ (hRest.mem_of_root hIn) rfl
    · exact ihRest hNodupRest hIn hAlso

theorem founded (hMem : id ∈ ids) : s.Founded id where
  has _ hBelow := h.has (h.mem_of_below hMem hBelow)
  acyclic _ hBelow := h.not_below_self (h.mem_of_below hMem hBelow)

theorem thin (hNodes : ∀ id ∈ ids, ∀ t, s.get? id = some t → ∃ t', s'.get? id = some t' ∧
      (t'.form.children = t.form.children ∨ t'.form.children = [])) :
    ∃ ids', s'.Lists roots ids' ∧ ids'.Sublist ids := by
  induction h with
  | nil => exact ⟨[], .nil, .slnil⟩
  | @cons root t rest below ids hFound _ _ ihBelow ihRest =>
    obtain ⟨below', hBelow', hSub⟩ := ihBelow fun id hMem =>
      hNodes id (mem_cons_of_mem _ (mem_append_left _ hMem))
    obtain ⟨ids', hRest', hSub'⟩ := ihRest fun id hMem =>
      hNodes id (mem_cons_of_mem _ (mem_append_right _ hMem))
    obtain ⟨t', hFound', hSame | hNone⟩ := hNodes root mem_cons_self t hFound
    · rw [← hSame] at hBelow'
      exact ⟨_, .cons hFound' hBelow' hRest', (hSub.append hSub').cons_cons root⟩
    · refine ⟨_, .cons hFound' (by rw [hNone]; exact .nil) hRest', ?_⟩
      exact (hSub'.trans (sublist_append_right below ids)).cons_cons root

theorem congr (hNodes : ∀ id ∈ ids, ∀ t, s.get? id = some t →
      ∃ t', s'.get? id = some t' ∧ t'.form.children = t.form.children) : s'.Lists roots ids := by
  induction h with
  | nil => exact .nil
  | @cons root t rest below ids hFound _ _ ihBelow ihRest =>
    obtain ⟨t', hFound', hSame⟩ := hNodes root mem_cons_self t hFound
    have hBelow' := ihBelow fun id hMem =>
      hNodes id (mem_cons_of_mem _ (mem_append_left _ hMem))
    rw [← hSame] at hBelow'
    exact .cons hFound' hBelow' (ihRest fun id hMem =>
      hNodes id (mem_cons_of_mem _ (mem_append_right _ hMem)))

theorem closed : s.Closed fun id => id ∈ ids ∨ ¬ s.Has id where
  new _ hNew := .inr hNew
  child parent child hParent hChild := by
    obtain hMem | hNew := hParent
    · exact .inl (h.child hMem hChild)
    · obtain ⟨t, hFound, -⟩ := hChild
      exact absurd (has_of_get? hFound) hNew

theorem length_le (hNodup : ids.Nodup) : ids.length ≤ s.size :=
  length_le_size hNodup fun _ => h.has

theorem mapM_preorderWithin (depth : Nat) (hDepth : ids.length ≤ depth) :
    ∃ lists, roots.mapM (s.preorderWithin depth) = .ok lists ∧ lists.flatten = ids := by
  induction h generalizing depth with
  | nil => exact ⟨[], rfl, rfl⟩
  | @cons root t rest below ids hFound _ _ ihBelow ihRest =>
    simp only [length_cons, length_append] at hDepth
    obtain ⟨depth, rfl⟩ : ∃ n, depth = n + 1 := ⟨depth - 1, by omega⟩
    obtain ⟨lists, hLists, hFlat⟩ := ihBelow depth (by omega)
    obtain ⟨others, hOthers, hFlat'⟩ := ihRest (depth + 1) (by omega)
    have hRoot : s.preorderWithin (depth + 1) root = .ok (root :: below) :=
      preorderWithin_eq_ok_iff.2 ⟨t, lists, hFound, hLists, by rw [hFlat]⟩
    refine ⟨(root :: below) :: others, ?_, by simp [hFlat']⟩
    rw [mapM_cons, hRoot, hOthers]
    rfl

end

theorem preorderWithin (h : s.Lists [root] ids) (hDepth : ids.length ≤ depth) :
    s.preorderWithin depth root = .ok ids := by
  obtain ⟨_, hLists, rfl⟩ := h.mapM_preorderWithin depth hDepth
  obtain _ | ⟨hRoot, _ | _⟩ := mapM_eq_ok_iff.1 hLists
  simpa using hRoot

theorem preorder (h : s.Lists [root] ids) (hNodup : ids.Nodup) : s.preorder root = .ok ids :=
  h.preorderWithin (Nat.le_succ_of_le (h.length_le hNodup))

theorem below_mem (h : s.Lists roots ids) (hMem : id ∈ ids) :
    ∃ t below, s.get? id = some t ∧ s.Lists t.form.children below ∧ (id :: below).Sublist ids := by
  induction h with
  | nil => cases hMem
  | @cons root t rest below ids hFound hBelow _ ihBelow ihRest =>
    obtain rfl | hMem := mem_cons.1 hMem
    · exact ⟨t, below, hFound, hBelow, (sublist_append_left below ids).cons_cons _⟩
    obtain hMem | hMem := mem_append.1 hMem
    · obtain ⟨t', own, hFound', hOwn, hSub⟩ := ihBelow hMem
      exact ⟨t', own, hFound', hOwn, (hSub.trans (sublist_append_left below ids)).cons root⟩
    · obtain ⟨t', own, hFound', hOwn, hSub⟩ := ihRest hMem
      exact ⟨t', own, hFound', hOwn, (hSub.trans (sublist_append_right below ids)).cons root⟩

end Lists

theorem lists_of_mapM (hRoot : ∀ root own, s.preorderWithin depth root = .ok own → s.Lists [root] own)
    {lists : List (List NodeId)} (h : roots.mapM (s.preorderWithin depth) = .ok lists) :
    s.Lists roots lists.flatten := by
  rw [mapM_eq_ok_iff] at h
  induction h with
  | nil => exact .nil
  | cons hFirst _ ih => exact (hRoot _ _ hFirst).append ih

theorem lists_of_preorderWithin (h : s.preorderWithin depth root = .ok ids) : s.Lists [root] ids := by
  induction depth generalizing root ids with
  | zero => cases h
  | succ depth ih =>
    obtain ⟨t, lists, hFound, hLists, rfl⟩ := preorderWithin_eq_ok_iff.1 h
    exact .single hFound (lists_of_mapM (fun _ _ => ih) hLists)

theorem lists_of_drain {steps : Nat} {taken : List NodeId} (h : s.drain steps taken roots = .ok ids) :
    ∃ own, s.Lists roots own ∧ ids = taken.reverse ++ own := by
  induction steps generalizing roots taken with
  | zero =>
    cases roots with
    | nil =>
      cases h
      exact ⟨[], .nil, by simp⟩
    | cons => cases h
  | succ steps ih =>
    cases roots with
    | nil =>
      cases h
      exact ⟨[], .nil, by simp⟩
    | cons root rest =>
      rw [drain] at h
      cases hFound : s.get? root with
      | none => simp [hFound] at h
      | some t =>
        rw [hFound] at h
        obtain ⟨own, hOwn, rfl⟩ := ih h
        obtain ⟨below, others, hBelow, hRest, rfl⟩ := hOwn.of_append
        exact ⟨_, .cons hFound hBelow hRest, by simp⟩

theorem length_flatten_le {bound : Nat} {lists : List (List NodeId)}
    (hRoot : ∀ root own, s.preorderWithin depth root = .ok own → own.length ≤ bound)
    (h : roots.mapM (s.preorderWithin depth) = .ok lists) : lists.flatten.length ≤ roots.length * bound := by
  rw [mapM_eq_ok_iff] at h
  induction h with
  | nil => simp
  | cons hFirst _ ih =>
    have hOwn := hRoot _ _ hFirst
    rw [flatten_cons, length_append, length_cons, Nat.succ_mul]
    omega

theorem length_children_le (hFound : s.get? id = some t) : t.form.children.length ≤ s.links := by
  rw [links, length_flatMap]
  exact le_sum_of_mem (mem_map_of_mem (mem_of_getElem? hFound))

theorem length_preorderWithin_le (h : s.preorderWithin depth root = .ok ids) :
    ids.length ≤ (s.links + 1) ^ depth := by
  induction depth generalizing root ids with
  | zero => cases h
  | succ depth ih =>
    obtain ⟨t, lists, hFound, hLists, rfl⟩ := preorderWithin_eq_ok_iff.1 h
    calc (root :: lists.flatten).length
        ≤ t.form.children.length * (s.links + 1) ^ depth + 1 :=
          Nat.succ_le_succ (length_flatten_le (fun _ _ => ih) hLists)
      _ ≤ s.links * (s.links + 1) ^ depth + (s.links + 1) ^ depth :=
          Nat.add_le_add (Nat.mul_le_mul_right _ (length_children_le hFound)) (Nat.pow_pos (Nat.succ_pos _))
      _ = (s.links + 1) ^ (depth + 1) := by rw [Nat.pow_succ']; exact (Nat.succ_mul _ _).symm

theorem lists_of_subtree (h : s.subtree root = .ok ids) : s.Lists [root] ids := by
  obtain ⟨_, hLists, rfl⟩ := lists_of_drain h
  exact hLists

/-- What is taken from the stack is the preorder. -/
theorem subtree_of_preorder (h : s.preorder root = .ok ids) : s.subtree root = .ok ids :=
  (lists_of_preorderWithin h).drain (length_preorderWithin_le h) []

end Store

/-- The node is governed as before and has the same form, or is a reference that was followed. -/
structure Template.Steady (t t' : Template) : Prop where
  governor : t'.governor = t.governor
  checked : t'.marks.checked = t.marks.checked
  form : t'.form = t.form ∨ (∃ r, t.form = .referenced r none) ∧ t'.form.children = [] ∧ t'.form ≠ .notUsed

namespace Template

variable {t' t'' : Template}

theorem Steady.refl (t : Template) : t.Steady t := ⟨rfl, rfl, .inl rfl⟩

theorem Steady.children (h : t.Steady t') : t'.form.children = t.form.children := by
  obtain hSame | ⟨⟨r, hForm⟩, hNone, -⟩ := h.form
  · rw [hSame]
  · rw [hNone, hForm]
    rfl

theorem Steady.notUsed_iff (h : t.Steady t') : t'.form = .notUsed ↔ t.form = .notUsed := by
  obtain hSame | ⟨⟨r, hForm⟩, -, hNe⟩ := h.form
  · rw [hSame]
  · rw [hForm]
    exact ⟨fun hNotUsed => absurd hNotUsed hNe, nofun⟩

theorem Steady.form_eq (h : t.Steady t') (hForm : ∀ r, t.form ≠ .referenced r none) : t'.form = t.form := by
  obtain hSame | ⟨⟨r, hReferenced⟩, -⟩ := h.form
  · exact hSame
  · exact absurd hReferenced (hForm r)

theorem Steady.trans (hFirst : t.Steady t') (hSecond : t'.Steady t'') : t.Steady t'' where
  governor := hSecond.governor.trans hFirst.governor
  checked := hSecond.checked.trans hFirst.checked
  form := by
    obtain hSame | ⟨hReferenced, hNone, hNe⟩ := hFirst.form
    · rw [← hSame]
      exact hSecond.form
    · refine .inr ⟨hReferenced, ?_, ?_⟩
      · rw [hSecond.children, hNone]
      · rwa [Ne, hSecond.notUsed_iff]

theorem Pursued.steady (h : t.Pursued t') : t.Steady t' where
  governor := h.governor
  checked := h.checked
  form := by
    cases h with
    | same => exact .inl rfl
    | followed hForm | givenUp hForm => exact .inr ⟨⟨_, hForm⟩, rfl, nofun⟩

end Template

namespace Store

variable {K D : NodeId → Prop}

structure Steady (K : NodeId → Prop) (before after : Store) : Prop where
  size_le : before.size ≤ after.size
  nodes : ∀ id t, K id → before.get? id = some t → ∃ t', after.get? id = some t' ∧ t.Steady t'

instance : Course (Steady K) where
  refl s := ⟨Nat.le_refl _, fun _ t _ h => ⟨t, h, .refl t⟩⟩
  trans := by
    intro first second third hFirst hSecond
    refine ⟨Nat.le_trans hFirst.size_le hSecond.size_le, fun id t hId h => ?_⟩
    obtain ⟨t', h', hSteady⟩ := hFirst.nodes id t hId h
    obtain ⟨t'', h'', hSteady'⟩ := hSecond.nodes id t' hId h'
    exact ⟨t'', h'', hSteady.trans hSteady'⟩

theorem Steady.mono {K' : NodeId → Prop} (h : s.Steady K s') (hK : ∀ id, K' id → K id) : s.Steady K' s' :=
  ⟨h.size_le, fun id t hId => h.nodes id t (hK id hId)⟩

theorem Confined.steady (h : s.Confined D s') (hOut : ∀ id, K id → s.Has id → ¬ D id) : s.Steady K s' where
  size_le := h.size_le
  nodes id t hId hFound := by
    obtain ⟨t', hFound', hPursued⟩ := h.nodes id t hFound
    exact ⟨t', hFound', (hPursued (hOut id hId (has_of_get? hFound))).steady⟩

theorem Pursues.steady (h : s.Pursues s') : s.Steady K s' where
  size_le := Nat.le_of_eq h.size_eq.symm
  nodes id t _ hFound := by
    obtain ⟨t', hFound', hPursued⟩ := h.nodes id t hFound
    exact ⟨t', hFound', hPursued.steady⟩

theorem Alters.steady (h : s.Alters id s') (hOut : ¬ K id) : s.Steady K s' where
  size_le := Nat.le_of_eq h.size_eq.symm
  nodes other t hOther hFound := by
    obtain ⟨t', hFound', -, hPursued⟩ := h.nodes other t hFound
    exact ⟨t', hFound', (hPursued fun hEq => hOut (hEq ▸ hOther)).steady⟩

theorem steady_update {f : Template → Template} (h : ∀ t : Template, t.Steady (f t)) : s.Steady K (s.update id f) where
  size_le := Nat.le_of_eq (size_update s id f).symm
  nodes other t _ hFound := by
    by_cases hEq : other = id
    · subst hEq
      exact ⟨f t, by simp [hFound], h t⟩
    · exact ⟨t, (get?_update_of_ne hEq).trans hFound, .refl t⟩

theorem Steady.lists (h : s.Steady K s') (hLists : s.Lists roots ids) (hIds : ∀ id ∈ ids, K id) :
    s'.Lists roots ids := by
  apply hLists.congr
  intro id hMem t hFound
  obtain ⟨t', hFound', hSteady⟩ := h.nodes id t (hIds id hMem) hFound
  exact ⟨t', hFound', hSteady.children⟩

def Unchecked (s : Store) (ids : List NodeId) : Prop :=
  ∀ id ∈ ids, ∀ t, s.get? id = some t → t.marks.checked = false

theorem Steady.unchecked (h : s.Steady K s') (hUnchecked : s.Unchecked ids)
    (hIds : ∀ id ∈ ids, K id) (hHas : ∀ id ∈ ids, s.Has id) : s'.Unchecked ids := by
  intro id hMem t' hFound'
  obtain ⟨t, hFound⟩ := (hHas id hMem).exists_get?
  obtain ⟨_, hFound'', hSteady⟩ := h.nodes id t (hIds id hMem) hFound
  cases hFound'.symm.trans hFound''
  rw [hSteady.checked]
  exact hUnchecked id hMem t hFound

structure Pristine (s : Store) (roots ids : List NodeId) : Prop where
  lists : s.Lists roots ids
  nodup : ids.Nodup
  unchecked : s.Unchecked ids

theorem Pristine.steady (h : s.Pristine roots ids) (hSteady : s.Steady K s')
    (hIds : ∀ id ∈ ids, K id) : s'.Pristine roots ids where
  lists := hSteady.lists h.lists hIds
  nodup := h.nodup
  unchecked := hSteady.unchecked h.unchecked hIds fun _ => h.lists.has

theorem pristine_nil (s : Store) : s.Pristine [] [] := ⟨.nil, .nil, nofun⟩

theorem nodup_replace {first own last own' : List NodeId} (h : (first ++ (own ++ last)).Nodup)
    (hFirst : ∀ id ∈ first, s.Has id) (hLast : ∀ id ∈ last, s.Has id) (hOwn : own'.Nodup)
    (hNew : ∀ id ∈ own', id ∈ own ∨ ¬ s.Has id) : (first ++ (own' ++ last)).Nodup := by
  simp only [nodup_append, mem_append] at h ⊢
  obtain ⟨hFirstNodup, ⟨-, hLastNodup, hOwnLast⟩, hFirstRest⟩ := h
  refine ⟨hFirstNodup, ⟨hOwn, hLastNodup, ?_⟩, ?_⟩
  · intro id hMem other hOther hEq
    obtain hOld | hFresh := hNew id hMem
    · exact hOwnLast id hOld other hOther hEq
    · exact hFresh (hEq ▸ hLast other hOther)
  · intro id hMem other hOther hEq
    obtain hOther | hOther := hOther
    · obtain hOld | hFresh := hNew other hOther
      · exact hFirstRest id hMem other (.inl hOld) hEq
      · exact hFresh (hEq ▸ hFirst id hMem)
    · exact hFirstRest id hMem other (.inr hOther) hEq

end Store

end TemplateCheck
