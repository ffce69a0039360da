import TemplateCheck.Proofs.Safety.Session
import TemplateCheck.Proofs.Substitution.Splicing

/-!
# Flattening a list

Flattening replaces the slots of a list, and of the lists in it, by the elements they stand for. The nodes of
the list are changed on the way, so what the slots stand for must not depend on them: chains of references are
followed as if these nodes were not there. Where a chain leads through the list itself, an element may have
moved when it is followed, and the slot gets another one's elements.
-/

namespace TemplateCheck

open List Store

open Relation (TransGen)

/-- A reading that leaves out some nodes. -/
def Store.readingWithout (s : Store) (env : Env) (ids : List NodeId) : Reading :=
  { s.reading env with view := fun id => if id ∈ ids then none else s.get? id }

namespace Reading

variable {m : Reading} {s : Store} {list : NodeId} {t : Template} {shape : ListShape} {items ids own : List NodeId}
  {trees trees' : List Tree}

theorem agrees_without (s : Store) (env : Env) (ids : List NodeId) : (s.readingWithout env ids).Agrees s where
  room := Nat.le_refl _
  nodes id t hView := by
    simp only [readingWithout] at hView
    split at hView
    · cases hView
    · exact ⟨t, hView, .same t.marks⟩

theorem pending_without (env : Env) (hNode : s.get? list = some t) (hItems : Unfolds s.get? t.form.children ids trees)
    (hTree : (list :: ids).Nodup) (hUnfolded : ∀ id ∈ list :: ids, ∀ t, s.get? id = some t → t.marks.folded = false) :
    (s.readingWithout env (list :: ids)).Pending s [list] (list :: ids) [.node t.bare trees] where
  unfolds := by simpa using Unfolds.cons hNode hItems .nil
  nodup := hTree
  unread _ hMem := if_pos hMem
  unfolded := hUnfolded

/-- A list is flattened to the trees that its items become by substitution. -/
theorem Substituted.flattens (h : m.Substituted trees trees') (hs : m.Agrees s)
    (hPending : m.Pending s [list] own [.node t.bare trees]) (hNode : s.get? list = some t)
    (hForm : t.form = .list shape items) (hAvoids : m.Avoids m.env.current.toList trees) :
    ∃ depth, ∀ depth' ≥ depth, Attains true m.env s (flattenWithin depth' list) fun flattened s' =>
      flattened = true ∧ m.Treats own s s' ∧
        ∃ items' ids' marks, s'.get? list = some { t with form := .list shape items', marks } ∧
          s.Fills items items' ∧ Unfolds s'.get? items' ids' trees' ∧ (list :: ids').Nodup := by
  obtain ⟨depth, hRewrites⟩ := h.rewrites
  refine ⟨depth + 1, fun depth' hLe => ?_⟩
  obtain ⟨depth', rfl⟩ : ∃ n, depth' = n + 1 := ⟨depth' - 1, by omega⟩
  have hExpand := rewrites_expandWithin (hRewrites depth' (by omega))
  rw [flattenWithin]
  apply Attains.read_then
  apply (attains_expandNode hExpand hs hPending hNode hForm hAvoids).mono
  rintro _ s' ⟨rfl, hYields, items', marks, hSelf, hFills⟩
  obtain ⟨ids', hUnfolds, hNodup, -⟩ := hYields.unfolds
  obtain ⟨_, below, hSelf', -, rfl, hBelow⟩ := hUnfolds.of_single
  cases hSelf.symm.trans hSelf'
  exact ⟨rfl, hYields.toTreats, items', below, marks, hSelf, hFills, hBelow, hNodup⟩

end Reading

/-- Substitution has a result, and flattening gives it: every slot of a list is replaced by what it stands for,
expanded in turn. Nothing is reported, the other items of the list stay in place, and so do those of the lists
in it. -/
theorem flatten_substitutes (env : Env) (s : Store) (list : NodeId) {t : Template} {shape : ListShape}
    {items ids : List NodeId} {trees : List Tree} (hNode : s.get? list = some t)
    (hForm : t.form = .list shape items) (hItems : Unfolds s.get? items ids trees)
    (hTree : (list :: ids).Nodup)
    (hUnfolded : ∀ id ∈ list :: ids, ∀ t, s.get? id = some t → t.marks.folded = false)
    (hFits : ∀ target, (s.readingWithout env (list :: ids)).ReachesSlot trees target →
      (s.readingWithout env (list :: ids)).Fits target)
    (hAcyclic : ∀ d, (s.readingWithout env (list :: ids)).ReachesDefinition trees d →
      ¬ TransGen (s.readingWithout env (list :: ids)).Splices d d)
    (hCurrent : ∀ d, (s.readingWithout env (list :: ids)).ReachesDefinition trees d → env.current ≠ some d) :
    (∃ trees', (s.readingWithout env (list :: ids)).Substituted trees trees') ∧
      ∀ trees', (s.readingWithout env (list :: ids)).Substituted trees trees' →
        ∃ depth, ∀ depth' ≥ depth, Attains true env s (flattenWithin depth' list) fun flattened s' =>
          flattened = true ∧ (s.readingWithout env (list :: ids)).Treats (list :: ids) s s' ∧
            ∃ items' ids' marks, s'.get? list = some { t with form := .list shape items', marks } ∧
              s.Fills items items' ∧ Unfolds s'.get? items' ids' trees' ∧ (list :: ids').Nodup := by
  refine ⟨Reading.exists_substituted hItems hFits hAcyclic, fun trees' hTrees => ?_⟩
  have hChildren : Unfolds s.get? t.form.children ids trees := by rwa [hForm]
  have hPending := Reading.pending_without env hNode hChildren hTree hUnfolded
  have hAvoids : (s.readingWithout env (list :: ids)).Avoids env.current.toList trees := by
    intro d hReaches
    exact ⟨fun hMem => hCurrent d hReaches (Option.mem_toList.1 hMem), hAcyclic d hReaches⟩
  exact hTrees.flattens (Reading.agrees_without s env _) hPending hNode hForm hAvoids

namespace Session

/-- The slot in a permutation names a template, and the slot among the elements of that template names a
constant. -/
def nestedSlots : Session where
  types := .numbers
  definitions := ⟨[.ofBody "outer" 2 3,
    ⟨"inner", some 2, .const (.list [.integer 2, .integer 3]), {}⟩]⟩
  store := .ofForms [.ofInteger 1, .ofName "inner" 1, .allFrom 1,
    .ofItems [0, 2], .ofName "outer" 0, .allFrom 4,
    .list .permutation [5], .ofInteger 4, .ofItems [6, 7]]

namespace nestedSlots

variable {target : Tree} {d : DefId}

def outer : Tree := .node { form := .specific (.ref (.plain "outer" (some 0) {})) } []

def inner : Tree := .node { form := .specific (.ref (.plain "inner" (some 1) {})) } []

def slot (target : Tree) : Tree := .node { form := .allFrom 0 } [target]

def elements : List Tree := [.ofValue {} (.integer 1), slot inner]

def items : List Tree := [.node { form := .list .permutation [] } [slot outer], .ofValue {} (.integer 4)]

def outside : Reading := nestedSlots.store.readingWithout nestedSlots.env [8, 6, 5, 4, 7]

theorem unfolds_items : Unfolds nestedSlots.store.get? [6, 7] [6, 5, 4, 7] items := by
  have hTarget := Unfolds.cons (show nestedSlots.store.get? 4 = some _ from rfl) .nil .nil
  have hSlot := Unfolds.cons (show nestedSlots.store.get? 5 = some _ from rfl) hTarget .nil
  have hValue := Unfolds.cons (show nestedSlots.store.get? 7 = some _ from rfl) .nil .nil
  exact Unfolds.cons (show nestedSlots.store.get? 6 = some _ from rfl) hSlot hValue

theorem slotIn_slot {tree : Tree} (h : SlotIn [slot target] tree) : tree = target := by
  cases h with
  | here => rfl
  | inside hExpanded => cases hExpanded
  | later hSlot => cases hSlot

theorem slotIn_items (h : SlotIn items target) : target = outer := by
  cases h with
  | here hSlot => cases hSlot
  | inside _ hSlot => exact slotIn_slot hSlot
  | later hSlot =>
    cases hSlot with
    | inside hExpanded => cases hExpanded
    | later hSlot => cases hSlot

theorem slotIn_elements (h : SlotIn elements target) : target = inner := by
  cases h with
  | inside hExpanded => cases hExpanded
  | later hSlot => exact slotIn_slot hSlot

theorem contains_elements : outside.Contains 0 elements := by
  have hTarget := Unfolds.cons (show outside.view 1 = some _ from rfl) .nil .nil
  have hSlot := Unfolds.cons (show outside.view 2 = some _ from rfl) hTarget .nil
  have hElements := Unfolds.cons (show outside.view 0 = some _ from rfl) .nil hSlot
  exact ⟨_, _, 3, _, _, _, rfl, rfl, rfl, ⟨1, _, rfl, rfl⟩, rfl, .inl rfl, hElements⟩

theorem of_contains {trees : List Tree} (h : outside.Contains d trees) : d = 0 ∧ trees = elements := by
  have hFirst : d = 0 := by
    obtain ⟨definition, template, -, -, -, -, hGet, hKind, -⟩ := id h
    obtain ⟨index⟩ := d
    match index with
    | 0 => rfl
    | 1 =>
      cases hGet
      cases hKind
    | _ + 2 => cases hGet
  subst hFirst
  exact ⟨rfl, h.eq contains_elements⟩

theorem fromTemplate_outer : outside.FromTemplate outer 0 elements := by
  refine ⟨_, rfl, rfl, rfl, rfl, contains_elements, fun tree hMem => ?_⟩
  obtain rfl | hMem := mem_cons.1 hMem
  · rfl
  · obtain rfl := mem_singleton.1 hMem
    rfl

theorem fromConstant_inner : outside.FromConstant inner [.integer 2, .integer 3] :=
  ⟨_, _, _, _, _, rfl, rfl, rfl, rfl, rfl, rfl, rfl, rfl, rfl⟩

theorem fits_reached (h : outside.ReachesSlot items target) : outside.Fits target := by
  cases h with
  | direct hSlot =>
    rw [slotIn_items hSlot]
    exact .inl ⟨0, elements, fromTemplate_outer⟩
  | through _ _ hContains hReaches =>
    obtain ⟨-, rfl⟩ := of_contains hContains
    cases hReaches with
    | direct hSlot =>
      rw [slotIn_elements hSlot]
      exact .inr ⟨_, fromConstant_inner⟩
    | through hSlot hTarget hContains =>
      obtain rfl := slotIn_elements hSlot
      cases hTarget
      cases (of_contains hContains).1

theorem of_splices {e : DefId} (h : outside.Splices d e) : d = 0 ∧ e = 1 := by
  obtain ⟨trees, target, hContains, hSlot, hTarget⟩ := h
  obtain ⟨rfl, rfl⟩ := of_contains hContains
  obtain rfl := slotIn_elements hSlot
  cases hTarget
  exact ⟨rfl, rfl⟩

theorem not_splices_cycle (d : DefId) : ¬ TransGen outside.Splices d d := by
  intro hCycle
  obtain ⟨_, hFirst, -⟩ := TransGen.head'_iff.1 hCycle
  obtain ⟨_, -, hLast⟩ := TransGen.tail'_iff.1 hCycle
  cases (of_splices hFirst).1.symm.trans (of_splices hLast).2

def items' : List Tree :=
  [.node { form := .list .permutation [] } ([1, 2, 3].map fun i => .ofValue {} (.integer i)), .ofValue {} (.integer 4)]

theorem substituted_items : outside.Substituted items items' := by
  have hInner := @Reading.Substituted.constant outside { form := .allFrom 0 } inner _ [] [] rfl
    fromConstant_inner .nil
  have hElements : outside.Substituted elements _ := .kept rfl rfl hInner
  have hOuter := @Reading.Substituted.template outside { form := .allFrom 0 } outer 0 elements _ [] [] rfl
    fromTemplate_outer hElements .nil
  exact .list rfl hOuter (.kept rfl rfl .nil)

end nestedSlots

theorem flatten_substitutes_nested :
    ∃ depth, ∀ depth' ≥ depth, Attains true nestedSlots.env nestedSlots.store (flattenWithin depth' 8)
      fun flattened s' => flattened = true ∧
        nestedSlots.outside.Treats [8, 6, 5, 4, 7] nestedSlots.store s' ∧
          ∃ items' ids' marks, s'.get? 8 = some { form := .list .positional items', marks } ∧
            nestedSlots.store.Fills [6, 7] items' ∧ Unfolds s'.get? items' ids' nestedSlots.items' ∧
              (8 :: ids').Nodup := by
  have hUnfolded : ∀ id ∈ [8, 6, 5, 4, 7], ∀ t, nestedSlots.store.get? id = some t →
      t.marks.folded = false := by
    have hAll : ∀ t ∈ nestedSlots.store.nodes, t.marks.folded = false := by decide
    exact fun id _ t hFound => hAll t (mem_of_getElem? hFound)
  exact (flatten_substitutes nestedSlots.env nestedSlots.store 8 rfl rfl nestedSlots.unfolds_items (by decide)
    hUnfolded (fun _ => nestedSlots.fits_reached) (fun d _ => nestedSlots.not_splices_cycle d)
    (fun _ _ => nofun)).2 nestedSlots.items' nestedSlots.substituted_items

/-- A slot comes first in the list at 10, and the slot in the list at 13 names the element after it by its position. -/
def movedElement : Session where
  types := ⟨Registry.numbers.entries ++ [(3, ⟨"Rows", .recordOf 2⟩),
    (4, ⟨"Tables", .recordOf 3⟩)]⟩
  definitions := ⟨[.ofBody "rows" 3 4, .ofBody "nine" 2 6,
    .ofBody "second" 2 16,
    .ofBody "tables" 4 15]⟩
  store := .ofForms [.ofInteger 1, .ofItems [0], .ofInteger 2, .ofItems [2],
    .ofItems [1, 3], .ofInteger 9, .ofItems [5],
    .ofName "rows" 0, .allFrom 7, .following "nine" 1,
    .ofItems [8, 9], .ofName "second" 2, .allFrom 11,
    .ofItems [12], .ofItems [13], .ofItems [10, 14],
    .following "tables" 3 [.index (.integer 0), .index (.integer 1)]]

/-- Each constant but the first is the one before it, and the slot names the last. -/
def constantChain : Session where
  types := .numbers
  definitions := ⟨⟨"first", some 2, .const (.list [.integer 7]), {}⟩ :: (range 63).map fun before =>
    ⟨"next", some 2, .const (.ref ⟨"before", some ⟨before⟩, [], none, {}⟩), {}⟩⟩
  store := .ofForms [.ofName "next" 63, .allFrom 0, .ofItems [1]]

namespace movedElement

def row : Tree :=
  .node { form := .list .positional [] }
    [.node { form := .allFrom 0 } [.node { form := .specific (.ref (.plain "second" (some 2) {})) } []]]

def filled : Tree := .node { form := .list .positional [] } [.ofValue {} (.integer 9)]

theorem unfolds_row : Unfolds movedElement.store.get? [13] [13, 12, 11] [row] := by
  have hTarget := Unfolds.cons (show movedElement.store.get? 11 = some _ from rfl) .nil .nil
  have hSlot := Unfolds.cons (show movedElement.store.get? 12 = some _ from rfl) hTarget .nil
  exact Unfolds.cons (show movedElement.store.get? 13 = some _ from rfl) hSlot .nil

theorem substituted_row : (movedElement.store.reading movedElement.env).Substituted [row] [filled] := by
  have hEnd : (movedElement.store.reading movedElement.env).EndsAt 16 6 :=
    endsAt_of_lastTemplate (by rfl) (by rfl)
  have hNine := Unfolds.cons (show movedElement.store.get? 5 = some _ from rfl) .nil .nil
  have hFrom : (movedElement.store.reading movedElement.env).FromTemplate
      (.node { form := .specific (.ref (.plain "second" (some 2) {})) } []) 2
      [.ofValue {} (.integer 9)] := by
    refine ⟨_, rfl, rfl, rfl, rfl, ⟨_, _, 6, _, _, _, rfl, rfl, rfl, hEnd, rfl, .inl rfl, hNine⟩, ?_⟩
    intro tree hMem
    obtain rfl := mem_singleton.1 hMem
    rfl
  have hSlot := @Reading.Substituted.template _ { form := .allFrom 0 } _ _ _ _ [] [] rfl hFrom
    (.kept rfl rfl .nil) .nil
  exact .list rfl hSlot .nil

theorem not_filled (ids : List NodeId) :
    ¬ Unfolds (movedElement.run (flattenWithin 5 15)).2.store.get? [13] ids [filled] := by
  intro h
  obtain ⟨t, below, hRow, -, -, hBelow⟩ := h.of_single
  cases hRow
  obtain ⟨u, _, hItem, hBare, -⟩ := hBelow.of_single
  cases hItem
  cases hBare

end movedElement

/-- An element that moves while its list is flattened takes the place of another one, and a constant whose
value can be told is left to the test run if a reference to it cannot be followed any more. -/
theorem flatten_exceptions :
    (movedElement.WellFormed ∧ (∀ t ∈ movedElement.store.nodes, t.marks.folded = false) ∧
      (∃ ids, movedElement.store.Lists [15] ids ∧ ids.Nodup) ∧
      (movedElement.lastTemplate 16).1 = .ok 6 ∧
      (movedElement.lastTemplate 16).2.report = movedElement.report ∧
      (movedElement.run (flattenWithin 5 15)).1 = .ok true ∧
      Unfolds movedElement.store.get? [13] [13, 12, 11] [movedElement.row] ∧
      (movedElement.store.reading movedElement.env).Substituted [movedElement.row] [movedElement.filled] ∧
      ∀ ids, ¬ Unfolds (movedElement.run (flattenWithin 5 15)).2.store.get? [13] ids [movedElement.filled]) ∧
    (constantChain.definitions.get? 63).bind (·.kind.constant?) =
        some (.ref (.plain "before" (some 62) {})) ∧
      constantChain.fold (.ref (.plain "before" (some 62) {})) = .ok (.list [.integer 7]) ∧
      (constantChain.run (flattenWithin 5 2)).1 = .ok false := by
  have hWell : movedElement.WellFormed := Ordered.wellFormed (by decide)
  have hLists : movedElement.store.Lists [15] [15, 10, 8, 7, 9, 14, 13, 12, 11] :=
    lists_of_preorderWithin (show movedElement.store.preorderWithin 6 15 = .ok _ from rfl)
  exact ⟨⟨hWell, by decide, ⟨_, hLists, by decide⟩, rfl, rfl, rfl, movedElement.unfolds_row,
    movedElement.substituted_row, movedElement.not_filled⟩, rfl, rfl, rfl⟩

end Session

end TemplateCheck
