import TemplateCheck.Proofs.ArraySize.Count
import TemplateCheck.Proofs.Safety.Values

/-!
# Counters of elements agree

Three counters tell how many elements a list has: for the test run, for a length restriction and for the size of an
array. They differ in what they make of slots and `*`, and the last one counts the items while these are checked. It
agrees with the others as long as checking an item leaves the permutations after it alone.
-/

namespace TemplateCheck

open List Store

variable {s : Store} {id : NodeId} {t : Template} {shape : ListShape} {items : List NodeId}

def stars (leaves : List (NodeId × Form)) : Nat := leaves.countP fun leaf => leaf.2.variant = .anyOrOmit

namespace Store

theorem sum_extent (leaves : List (NodeId × Form)) :
    (sum itemExtent Extent.add {} leaves).count + stars leaves = (sum itemCardinality Cardinality.add {} leaves).fixed ∧
      ((sum itemExtent Extent.add {} leaves).unbounded = true ↔
        (sum itemCardinality Cardinality.add {} leaves).slots ≠ [] ∨ 0 < stars leaves) := by
  induction leaves with
  | nil => simp [sum, stars]
  | cons leaf leaves ih =>
    obtain ⟨item, form⟩ := leaf
    have hStars : stars ((item, form) :: leaves) = stars leaves + if form.variant = .anyOrOmit then 1 else 0 := by
      simp [stars, countP_cons]
    rw [hStars, sum_cons, sum_cons]
    generalize sum itemExtent Extent.add {} leaves = e at ih ⊢
    generalize sum itemCardinality Cardinality.add {} leaves = c at ih ⊢
    cases form <;> simp [itemExtent, itemCardinality, Form.variant, Extent.add, Cardinality.add, ih.2, ← ih.1] <;> omega

theorem Founded.exists_leavesWithin (h : s.Founded id) (hNode : s.get? id = some t)
    (hForm : t.form = .list shape items) : ∃ leaves, s.leavesWithin (s.size + 1) items = .ok leaves := by
  have hItems : ∀ item ∈ items, s.Founded item ∧ ¬ s.Descends s.size item := by
    intro item hItem
    have hFounded := h.of_child ⟨t, hNode, by rwa [hForm]⟩
    exact ⟨hFounded, fun hPath => Nat.lt_irrefl _ (hFounded.descends_lt hPath)⟩
  obtain ⟨total, hTotal⟩ := exists_tallyWithin_eq_ok itemExtent Extent.add {} s.size hItems
  rw [tallyWithin_eq_sum Extent.add_assoc Extent.zero_add Extent.add_zero] at hTotal
  cases hLeaves : s.leavesWithin (s.size + 1) items with
  | error fault => simp [hLeaves, Except.map] at hTotal
  | ok leaves => exact ⟨leaves, rfl⟩

end Store

/-- A length restriction counts the elements of a list that the test run takes as fixed, without the `*`, and knows no
upper bound exactly if there is a `*` or a slot. What is compared with the size of an array counts the slots as well,
if no permutation lies below an item of the spliced list that stands before it, nor directly inside of another one. -/
theorem element_counts_agree (s : Store) (id : NodeId) {t : Template} {shape : ListShape} {items : List NodeId}
    (hNode : s.get? id = some t) (hForm : t.form = .list shape items) (hFounded : s.Founded id) :
    (∃ leaves c e, s.leavesWithin (s.size + 1) items = .ok leaves ∧ s.cardinality id = .ok c ∧
      s.extent items = .ok e ∧ e.count + stars leaves = c.fixed ∧
      (e.unbounded = true ↔ c.slots ≠ [] ∨ 0 < stars leaves)) ∧
    (items.Pairwise (fun earlier later => s.NoPermutation later ∨ ¬ Relation.TransGen s.Child earlier later) →
      (∀ item ∈ items, s.Shallow item) →
      ∀ env depth g permitted report count found after,
        (checkItems (checkWithin depth) g id permitted items.zipIdx (0, false) env).run ⟨s, report⟩ =
          (.ok (count, found), after) →
        ∃ c, s.cardinality id = .ok c ∧ count = c.fixed + c.slots.length) := by
  refine ⟨?_, ?_⟩
  · obtain ⟨leaves, hLeaves⟩ := hFounded.exists_leavesWithin hNode hForm
    obtain ⟨hCount, hUnbounded⟩ := sum_extent leaves
    refine ⟨leaves, _, _, hLeaves, by rw [cardinality_eq_sum hNode hForm, hLeaves]; rfl, ?_, hCount, hUnbounded⟩
    rw [Store.extent, Store.tallyWithin_eq_sum Extent.add_assoc Extent.zero_add Extent.add_zero, hLeaves]
    rfl
  · intro hApart hShallow env depth g permitted report count found after hRun
    have hHas : ∀ item ∈ items, s.Has item := fun item hItem => hFounded.has item (.single ⟨t, hNode, by rwa [hForm]⟩)
    obtain ⟨n, hAmounts⟩ := amounts_of_shallow hHas hShallow (.inl rfl)
    obtain ⟨c, hCardinality, hTotal, -⟩ := hAmounts.cardinality hNode hForm
    have hCount : count = n := ((returns_checkItems (fun _ => confined_checkWithin depth) g permitted hAmounts hHas
      hApart).post report _ after hRun (by simp [Report.Calm])).1
    exact ⟨c, hCardinality, by rw [hCount, hTotal]⟩

namespace Session

/-- A permutation of a slot and `*`, an element, and the same `*` again. -/
def mixedItems : Session where
  types := .numbers
  definitions := ⟨[⟨"numbers", some 2, .var, {}⟩]⟩
  store := .ofForms [.ofName "numbers" 0, .allFrom 0, .anyOrOmit,
    .list .permutation [1, 2], .anyValue, .ofItems [3, 4, 2]]

theorem element_counts_agree_mixedItems : mixedItems.store.Founded 5 ∧
    (∃ c e, mixedItems.cardinality 5 = .ok c ∧ mixedItems.store.extent [3, 4, 2] = .ok e ∧
      e.count + 2 = c.fixed ∧ (e.unbounded = true ↔ c.slots ≠ [] ∨ 0 < 2)) ∧
    ∃ c, mixedItems.cardinality 5 = .ok c ∧ 4 = c.fixed + c.slots.length := by
  have hFounded := (lists_of_preorderWithin (show mixedItems.store.preorderWithin 5 5 = .ok _ from rfl)).founded
    mem_cons_self
  obtain ⟨⟨leaves, c, e, hLeaves, hRest⟩, hCounted⟩ := element_counts_agree mixedItems.store 5 rfl rfl hFounded
  cases hLeaves
  have hOthers : ∀ item ∈ [1, 4, 2], mixedItems.store.NoPermutation item := by
    intro item hItem
    simp only [mem_cons, not_mem_nil, or_false] at hItem
    obtain rfl | rfl | rfl := hItem <;> exact ⟨_, rfl, by decide⟩
  have hShallow : ∀ item ∈ [3, 4, 2], mixedItems.store.Shallow item := by
    intro item hItem t hNode hShape member hMember
    simp only [mem_cons, not_mem_nil, or_false] at hItem
    obtain rfl | rfl | rfl := hItem <;> cases hNode <;> cases hShape
    exact hOthers member ((by simp : ([1, 2] : List NodeId) ⊆ [1, 4, 2]) hMember)
  have hApart : [3, 4, 2].Pairwise fun earlier later =>
      mixedItems.store.NoPermutation later ∨ ¬ Relation.TransGen mixedItems.store.Child earlier later :=
    .cons (fun later hLater => .inl (hOthers later (.tail _ hLater)))
      (.cons (fun later hLater => .inl (hOthers later (.tail _ (.tail _ hLater)))) (pairwise_singleton _ _))
  refine ⟨hFounded, ⟨c, e, hRest⟩, ?_⟩
  exact hCounted hApart hShallow mixedItems.env 2 ⟨⟨"Numbers", .recordOf 1⟩, 1, false, none, true⟩ .complete {} 4
    false _ rfl

/-- Two permutations stand in an array before and after an element that has them as fields of an unknown type. -/
def sharedPermutations : Session where
  types := ⟨[(1, ⟨"Row", .record [⟨"p", 9, false, false⟩, ⟨"q", 9, false, false⟩]⟩),
    (2, ⟨"Rows", .array 1 5 0⟩)]⟩
  store := .ofForms [.anyValue, .list .permutation [0, 0], .list .permutation [0, 0],
    .named [⟨"p", 1, {}⟩, ⟨"q", 2, {}⟩], .ofItems [1, 3, 2]]

/-- The element gives both permutations up. Only the first one has been counted by then, so that the number that is
compared with the size is neither that of the list before the check nor that of the list after it. -/
theorem sharedPermutations_counted_between :
    sharedPermutations.store.Founded 4 ∧ sharedPermutations.cardinality 4 = .ok ⟨5, []⟩ ∧
      (sharedPermutations.check 4 2 { slicing := false }).1 = .ok {} ∧
      (sharedPermutations.check 4 2 { slicing := false }).2.report.diagnostics.getLast? =
        some ⟨.error (.arraySize 5 4), {}, []⟩ ∧
      (sharedPermutations.check 4 2 { slicing := false }).2.cardinality 4 = .ok ⟨3, []⟩ := by
  have hLists := lists_of_preorderWithin (show sharedPermutations.store.preorderWithin 5 4 = .ok _ from rfl)
  exact ⟨hLists.founded mem_cons_self, by rfl, by rfl, by rfl, by rfl⟩

end Session

end TemplateCheck
