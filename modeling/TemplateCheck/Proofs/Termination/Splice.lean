import TemplateCheck.Proofs.Chains.Settling
import TemplateCheck.Proofs.Locality.Splice
import TemplateCheck.Proofs.Termination

/-!
# Splicing comes to an end

A slot that is spliced puts a definition on a stack that holds none twice, and the elements it takes in are copies of
nodes that are there. So splicing goes down through the definitions that are left and, for each of them, through the
lists of a store that is known when it begins. Only the search for an inherited field may go on for ever: splicing
changes what references lead to, and may close a circle of base links by that.
-/

namespace TemplateCheck

open List Store
open Relation (TransGen)

/-- Nothing has happened but the following of references since a node was built on itself. -/
def Store.Loops (env : Env) (s : Store) : Prop :=
  ∃ before : Store, before.Pursues s ∧ ∃ id, TransGen (before.reading env).Builds id id

inductive Halt {α : Type} (env : Env) (Q : α → Store → Prop) : Except Fault α → Store → Prop where
  | result {a : α} {s : Store} : Q a s → Halt env Q (.ok a) s
  | fault {fault : Fault} {s : Store} :
      fault ≠ .tooDeep → (fault = .endlessWalk → s.Loops env) → Halt env Q (.error fault) s

/-- The computation is the same within all depths from some depth on. -/
structure Halts (env : Env) (s : Store) {α : Type} (x : Nat → CheckM α) (Q : α → Store → Prop) : Prop where
  run : ∀ report, ∃ depth result after, Halt env Q result after.store ∧
    ∀ more ≥ depth, (x more env).run ⟨s, report⟩ = (result, after)

namespace Halts

variable {α β : Type} {env : Env} {s : Store} {x : Nat → CheckM α} {f : Nat → α → CheckM β} {Q Q' : α → Store → Prop}
  {P : β → Store → Prop}

theorem bind (hx : Halts env s x Q) (hf : ∀ a s', Q a s' → Halts env s' (fun depth => f depth a) P) :
    Halts env s (fun depth => x depth >>= f depth) P := by
  refine ⟨fun report => ?_⟩
  obtain ⟨depth, result, after, hHalt, hRun⟩ := hx.run report
  cases hHalt with
  | @result a _ hQ =>
    obtain ⟨depth', result', after', hHalt', hRun'⟩ := (hf a _ hQ).run after.report
    refine ⟨max depth depth', result', after', hHalt', fun more hMore => ?_⟩
    rw [run_bind_ok _ (hRun more (by omega))]
    exact hRun' more (by omega)
  | fault hDeep hWalk =>
    exact ⟨depth, _, after, .fault hDeep hWalk, fun more hMore => run_bind_error _ (hRun more hMore)⟩

theorem and_moves {R : Store → Store → Prop} (h : Halts env s x Q) (hMoves : ∀ depth, Moves R env s (x depth) Q') :
    Halts env s x fun a s' => Q a s' ∧ R s s' ∧ Q' a s' := by
  refine ⟨fun report => ?_⟩
  obtain ⟨depth, result, after, hHalt, hRun⟩ := h.run report
  obtain ⟨hR, hQ'⟩ := hMoves depth report result after (hRun depth (Nat.le_refl depth))
  refine ⟨depth, result, after, ?_, hRun⟩
  cases hHalt with
  | @result a _ hQ => exact .result ⟨hQ, hR, hQ'⟩
  | fault hDeep hWalk => exact .fault hDeep hWalk

theorem mono (h : Halts env s x Q) (hQ : ∀ a s', Q a s' → Q' a s') : Halts env s x Q' := by
  refine ⟨fun report => ?_⟩
  obtain ⟨depth, result, after, hHalt, hRun⟩ := h.run report
  refine ⟨depth, result, after, ?_, hRun⟩
  cases hHalt with
  | result hResult => exact .result (hQ _ _ hResult)
  | fault hDeep hWalk => exact .fault hDeep hWalk

theorem of_succ (h : Halts env s (fun depth => x (depth + 1)) Q) : Halts env s x Q := by
  refine ⟨fun report => ?_⟩
  obtain ⟨depth, result, after, hHalt, hRun⟩ := h.run report
  refine ⟨depth + 1, result, after, hHalt, fun more hMore => ?_⟩
  obtain ⟨more, rfl⟩ := Nat.exists_eq_add_one_of_ne_zero (show more ≠ 0 by omega)
  exact hRun more (by omega)

theorem foldlM {xs : List α} {g : Nat → β → α → CheckM β} {b : β} (hb : P b s)
    (h : ∀ a ∈ xs, ∀ b s', P b s' → Halts env s' (fun depth => g depth b a) P) :
    Halts env s (fun depth => xs.foldlM (g depth) b) P := by
  induction xs generalizing s b with
  | nil => exact ⟨fun report => ⟨0, _, ⟨s, report⟩, .result hb, fun _ _ => rfl⟩⟩
  | cons a xs ih =>
    simp only [foldlM_cons]
    exact (h a mem_cons_self b s hb).bind fun _ _ hb' => ih hb' fun a' ha' => h a' (mem_cons_of_mem a ha')

theorem of_run {x : CheckM α}
    (h : ∀ report result after, (x env).run ⟨s, report⟩ = (result, after) → Halt env Q result after.store) :
    Halts env s (fun _ => x) Q :=
  ⟨fun report => ⟨0, _, _, h report _ _ rfl, fun _ _ => rfl⟩⟩

theorem pure {a : α} (h : Q a s) : Halts env s (fun _ => Pure.pure a) Q := by
  refine of_run fun report result after hRun => ?_
  cases hRun
  exact .result h

/-- A computation that is given up because a node is missing. -/
theorem of_missing {x : CheckM α} (id : NodeId)
    (h : ∀ report, (x env).run ⟨s, report⟩ = (.error (.danglingTemplate id), ⟨s, report⟩)) :
    Halts env s (fun _ => x) Q := by
  refine of_run fun report result after hRun => ?_
  cases (h report).symm.trans hRun
  exact .fault (by simp) (by simp)

end Halts

section

variable {env : Env} {s : Store} {id : NodeId}

theorem halts_node (id : NodeId) : Halts env s (fun _ => node id) fun t s' => s' = s ∧ s.get? id = some t := by
  cases hNode : s.get? id with
  | none => exact .of_missing id fun report => run_node_of_none hNode
  | some t =>
    refine .of_run fun report result after hRun => ?_
    have hFound : (node id env).run ⟨s, report⟩ = _ := run_node hNode
    cases hFound.symm.trans hRun
    exact .result ⟨rfl, rfl⟩

theorem halts_formOf (id : NodeId) :
    Halts env s (fun _ => formOf id) fun form s' => s' = s ∧ ∃ t, s.get? id = some t ∧ t.form = form :=
  (halts_node id).bind fun t _ ⟨hSame, hNode⟩ => .pure ⟨hSame, t, hNode, rfl⟩

theorem halts_modifyNode {g : Template → Template} {hEvolves : ∀ t : Template, t.Evolves (g t)} :
    Halts env s (fun _ => onStore (modifyNode id g hEvolves)) fun _ s' => s.Has id ∧ s' = s.update id g := by
  cases hNode : s.get? id with
  | none => exact .of_missing id fun report => run_modifyNode_of_none hNode
  | some t =>
    refine .of_run fun report result after hRun => ?_
    cases (run_modifyNode hNode).symm.trans hRun
    exact .result ⟨has_of_get? hNode, rfl⟩

theorem halts_replaceForm (form : Form) : Halts env s (fun _ => replaceForm id form) fun _ _ => s.Has id := by
  cases hNode : s.get? id with
  | none => exact .of_missing id fun report => run_replaceForm_of_none form hNode
  | some t =>
    refine .of_run fun report result after hRun => ?_
    by_cases hMay : t.form.mayBecome form
    · cases (run_replaceForm hNode hMay).symm.trans hRun
      exact .result (has_of_get? hNode)
    · cases (run_replaceForm_of_not hNode hMay).symm.trans hRun
      exact .fault (by simp) (by simp)

theorem halts_lastTemplate (hs : s.WellFormed env.definitions) :
    Halts env s (fun _ => lastTemplate id) fun _ s' => s'.WellFormed env.definitions := by
  cases hNode : s.get? id with
  | none =>
    refine .of_missing id fun report => ?_
    rw [lastTemplate, run_bind_ok (a := s) _ rfl]
    exact run_bind_error _ (run_bind_error _ (run_node_of_none hNode))
  | some t =>
    refine .of_run fun report result after hRun => ?_
    obtain ⟨hResolves, hEnd⟩ := follows_lastTemplate (F := ⟨True, fun _ => False⟩) s id hs.backed
      (has_of_get? hNode) report result after hRun
    cases result with
    | ok last => exact .result ((hResolves.backed hs.backed).wellFormed trivial)
    | error fault =>
      obtain ⟨rfl, -⟩ := hEnd.resolve_right fun hDeep => hDeep.2
      refine .fault (by simp) fun _ => ⟨s, (pursuing_lastTemplate s id report _ after hRun).1, ?_⟩
      -- without a cycle the walk would have ended
      by_contra hBases
      obtain ⟨_, _, _, hRun', -, hEnd'⟩ := (Reading.settles_lastTemplate (fun n hCycle => hBases ⟨n, hCycle⟩)
        (Reading.matches_reading s env) id).run report
      cases hRun'.symm.trans hRun
      cases hEnd'

theorem halts_deepCopy (hs : s.WellFormed env.definitions) :
    Halts env s (fun _ => onStore (deepCopy id)) fun _ s' => s'.WellFormed env.definitions := by
  cases hNode : s.get? id with
  | none =>
    refine .of_missing id fun report => ?_
    simp [onStore, Store.deepCopy, Store.copyWithin, Store.get, Tracked.still, Tracked.run_bind, hNode]
  | some t =>
    refine .of_run fun report result after hRun => ?_
    rcases hCopy : (deepCopy id).run s with ⟨copied, s'⟩
    obtain ⟨hAdds, hEnd⟩ := deepCopy_runs hs.backed (has_of_get? hNode) copied s' hCopy
    simp only [onStore, hCopy] at hRun
    cases hRun
    cases result with
    | ok new => exact .result (hAdds.backed.wellFormed trivial)
    | error fault => exact hEnd.elim

theorem splicing_halts (env : Env) : Splicing (· = env) fun {_} (x : Nat → CheckM _) =>
    ∀ s : Store, s.WellFormed env.definitions → Halts env s x fun _ s' => s'.WellFormed env.definitions where
  pure a s hs := .pure hs
  bind hx hf s hs := (hx s hs).bind fun a s' hs' => hf a s' hs'
  read_then hf s hs := ⟨(hf env rfl s hs).run⟩
  node id s hs := (halts_node id).mono fun _ _ hEnd => hEnd.1 ▸ hs
  problem span p _ s hs := by
    refine .of_run fun report result after hRun => ?_
    cases hRun
    exact .result hs
  lastTemplate id s hs := halts_lastTemplate hs
  deepCopy id s hs := halts_deepCopy hs
  alloc value span s hs := by
    refine .of_run fun report result after hRun => ?_
    obtain ⟨hReaches, -⟩ := checks_alloc (K := fun _ => False) (F := ⟨True, fun _ => False⟩) hs.backed rfl rfl
      (.inl trivial) report result after hRun
    cases hRun
    exact .result (hReaches.wellFormed hs)
  giveUp id s hs := by
    by_cases hHas : s.Has id
    · have hOpen : Open env [id] s := hs.backed.isOpen (by simpa using hHas)
      have hSafe := (hOpen.markErroneous (F := ⟨True, fun _ => False⟩) (mem_singleton_self id)).moves
      exact ((halts_replaceForm _).and_moves fun _ => hSafe).mono fun _ _ hEnd => hEnd.2.1.wellFormed hs
    · exact (halts_replaceForm _).mono fun _ _ hEnd => absurd hEnd hHas

structure Amid (env : Env) (origin : Store) (done : List NodeId × Bool) (s : Store) : Prop where
  wellFormed : s.WellFormed env.definitions
  reworks : origin.Reworks (fun _ => True) s
  has : ∀ id ∈ done.1, s.Has id

variable {active : List DefId} {origin : Store} {inPermutation : Bool}

theorem halts_expandNode {done : List NodeId × Bool} (hHas : origin.Has id)
    (hItems : ∀ item, origin.Child id item → ∀ inPermutation done s, Amid env origin done s →
      Halts env s (fun depth => expandItem (expandWithin depth) inPermutation active done item) (Amid env origin))
    (h : Amid env origin done s) :
    Halts env s (fun depth => expandNode (expandWithin depth) inPermutation active id) fun _ _ => True := by
  obtain ⟨t0, hNode0⟩ := hHas.exists_get?
  refine (halts_node id).bind ?_
  rintro t s ⟨rfl, hNode⟩
  have hOpen : Open env [id] s := h.wellFormed.backed.isOpen (by simpa using has_of_get? hNode)
  split
  · exact .pure trivial
  rename_i hFolded
  split
  · rename_i shape items hForm
    have hMark : Halts env s (fun _ => mark id .folded) fun _ => Amid env origin ([], true) := by
      have hSafe := (hOpen.mark (F := ⟨True, fun _ => False⟩) (mem_singleton_self id) .folded).moves
      have hReworks : Steps (Reworks fun _ => True) env s (mark id .folded) :=
        (steps_mark (by simp)).reworks trivial
      refine ((halts_modifyNode.and_moves fun _ => hSafe).and_moves fun _ => hReworks).mono ?_
      exact fun _ _ hEnd => ⟨hEnd.1.2.1.wellFormed h.wellFormed, Course.trans h.reworks hEnd.2.1, by simp⟩
    have hOld : ∀ item ∈ items, origin.Child id item := by
      intro item hItem
      have hItem : item ∈ t.form.children := by rwa [hForm]
      obtain hSame | hNone := (h.reworks.reworked id t0 t hNode0 hNode).children (by simpa using hFolded)
      · exact ⟨t0, hNode0, hSame ▸ hItem⟩
      · simp [hNone] at hItem
    refine hMark.bind fun _ s1 h1 => ?_
    refine Halts.bind (.of_succ (.foldlM h1 fun item hItem => hItems item (hOld item hItem) _)) fun expanded s2 _ => ?_
    exact (halts_replaceForm _).bind fun _ _ _ => halts_modifyNode.bind fun _ _ _ => .pure trivial
  · exact .pure trivial

def SlotsHalt (env : Env) (active : List DefId) : Prop :=
  ∀ (inPermutation : Bool) (slot target : NodeId) (s : Store), s.WellFormed env.definitions →
    Halts env s (fun depth => spliceSlot (expandWithin depth) inPermutation active slot target)
      fun _ s' => s'.WellFormed env.definitions

/-- By induction on the height of the item at the beginning. -/
theorem halts_expandItem (hSlots : SlotsHalt env active) (hActive : Active env active)
    (hOrigin : origin.WellFormed env.definitions) {item : NodeId} (hHas : origin.Has item) (inPermutation : Bool)
    (done : List NodeId × Bool) (s : Store) (h : Amid env origin done s) :
    Halts env s (fun depth => expandItem (expandWithin depth) inPermutation active done item) (Amid env origin) := by
  have hHeight : ¬ origin.Descends origin.size item :=
    fun hPath => Nat.lt_irrefl _ (hOrigin.backed.descends_lt hPath hHas)
  generalize origin.size = height at hHeight
  induction height generalizing item inPermutation done s with
  | zero => exact absurd (.here item) hHeight
  | succ height ih =>
    have hList : ∀ inPermutation, Halts env s (fun depth => expandNode (expandWithin depth) inPermutation active item)
        fun _ _ => True := by
      refine fun _ => halts_expandNode hHas (fun child hChild => ?_) h
      obtain ⟨t, hNode, hMem⟩ := hChild
      exact fun _ done s' h' => ih (hOrigin.backed.has_child hNode hMem) _ done s' h' fun hPath =>
        hHeight (.step ⟨t, hNode, hMem⟩ hPath)
    have hEnds : Halts env s (fun depth => expandItem (expandWithin depth) inPermutation active done item)
        fun _ _ => True := by
      refine (halts_formOf item).bind ?_
      rintro form s ⟨rfl, -⟩
      split
      · refine (hSlots _ _ _ s h.wellFormed).bind fun content s' _ => ?_
        split
        · exact .pure trivial
        · exact halts_modifyNode.bind fun _ _ _ => .pure trivial
        · exact .pure trivial
      case h_2 | h_3 | h_4 => exact (hList _).bind fun _ _ _ => .pure trivial
      · exact .pure trivial
    have hOpen : Open env (done.1 ++ [item]) s := by
      refine h.wellFormed.backed.isOpen fun id hMem => ?_
      obtain hMem | hMem := mem_append.1 hMem
      · exact h.has id hMem
      · exact mem_singleton.1 hMem ▸ hHas.of_size_le h.reworks.size_le
    have hSafe : ∀ depth, Moves (Reaches ⟨env.definitions, True⟩ fun _ => False) env s
        (expandItem (expandWithin depth) inPermutation active done item)
        fun done' s' => Expands (done.1 ++ [item]) s s' done'.1 := fun depth =>
      (checks_expandItem (expandsSafely_expandWithin depth (Nat.zero_le (depth + 1)))
        (expandsSafely_expandWithin depth (Nat.zero_le _)) hOpen (Course.refl s) hActive (Nat.zero_le _) (by simp)
        fun id hMem => ⟨.inl (mem_append_left _ hMem), h.has id hMem⟩).moves
    have hReworks : ∀ depth, Steps (Reworks fun _ => True) env s
        (expandItem (expandWithin depth) inPermutation active done item) := fun depth =>
      (moves_expandItem (reworks_expandWithin depth) ⟨fun _ _ => trivial, fun _ _ _ _ => trivial⟩ done trivial).steps
    refine ((hEnds.and_moves hSafe).and_moves hReworks).mono ?_
    rintro done' s' ⟨⟨-, hReaches, hDone⟩, hReworks, -⟩
    exact ⟨hReaches.wellFormed h.wellFormed, Course.trans h.reworks hReworks, fun id hMem => (hDone id hMem).2⟩

theorem halts_expandWithin (hSlots : SlotsHalt env active) (hActive : Active env active) (items : List NodeId)
    (hs : s.WellFormed env.definitions) : Halts env s (fun depth => expandWithin depth inPermutation active items)
      fun _ s' => s'.WellFormed env.definitions := by
  refine .of_succ ((Halts.foldlM (P := fun done s' => Amid env s' done s') ?_ ?_).mono fun _ _ h => h.wellFormed)
  · exact ⟨hs, Course.refl s, by simp⟩
  intro item _ done s' h
  by_cases hHas : s'.Has item
  · exact (halts_expandItem hSlots hActive h.wellFormed hHas _ done s' h).mono fun _ s'' h'' =>
      ⟨h''.wellFormed, Course.refl s'', h''.has⟩
  · refine (halts_formOf item).bind fun form _ hForm => ?_
    obtain ⟨t, hNode, -⟩ := hForm.2
    exact absurd (has_of_get? hNode) hHas

/-- By induction on the number of definitions that are not being spliced. -/
theorem slotsHalt (hActive : Active env active) : SlotsHalt env active := by
  induction hLeft : env.definitions.size + 1 - active.length using Nat.strong_induction_on generalizing active with
  | _ left ih =>
    intro inPermutation slot target s hs
    refine (splicing_halts env).spliceSlot (e := expandWithin) slot ?_ target s hs
    rintro _ target items rfl hNew hExists s hs
    have hPushed := hActive.push hNew hExists
    have hLe := hPushed.length_le
    simp only [length_append, length_singleton] at hLe
    exact halts_expandWithin (ih _ (by simp only [length_append, length_singleton]; omega) hPushed rfl) hPushed items hs

theorem halts_flattenWithin (hs : s.WellFormed env.definitions) (hHas : s.Has id) :
    Halts env s (fun depth => flattenWithin depth id) fun _ _ => True := by
  have hBegin : Amid env s ([], true) s := ⟨hs, Course.refl s, by simp⟩
  have hList : Halts env s (fun depth => expandNode (expandWithin depth) false env.current.toList id)
      fun _ _ => True := by
    refine halts_expandNode hHas (fun item hChild inPermutation done s' h => ?_) hBegin
    obtain ⟨t, hNode, hMem⟩ := hChild
    exact halts_expandItem (slotsHalt (.current env)) (.current env) hs (hs.backed.has_child hNode hMem) inPermutation
      done s' h
  exact ⟨hList.run⟩

end

namespace Session

/-- From some depth on, splicing a list has one outcome, and the nodes are still well-formed then. It has a result,
unless the nodes it has made or changed close a circle of base links and it goes round it. -/
theorem flatten_halts (s : Session) (id : NodeId) (h : s.WellFormed) (hId : s.store.Has id) :
    ∃ depth, (∀ more ≥ depth, s.performWithin more (.flatten id) = s.performWithin depth (.flatten id)) ∧
      (s.performWithin depth (.flatten id)).2.WellFormed ∧
      ((s.performWithin depth (.flatten id)).1 = none ∨ (s.performWithin depth (.flatten id)).1 = some .endlessWalk ∧
        (s.performWithin depth (.flatten id)).2.store.Loops s.env) := by
  have hHalts : Halts s.env s.store (fun depth => flattenWithin depth id) fun _ _ => True :=
    halts_flattenWithin h hId
  obtain ⟨depth, result, after, hHalt, hRun⟩ := hHalts.run s.report
  have hSame : ∀ more ≥ depth, s.performWithin more (.flatten id) =
      ended (result, { s with store := after.store, report := after.report }) := by
    intro more hMore
    rw [performWithin, run_of_run (hRun more hMore)]
  have hHere := hSame depth (Nat.le_refl depth)
  have hPerformed := performed_performWithin depth (.flatten id) h hId
  refine ⟨depth, fun more hMore => (hSame more hMore).trans hHere.symm, hPerformed.wellFormed, ?_⟩
  have hFaults := hPerformed.faults
  rw [hHere] at hFaults ⊢
  cases hHalt with
  | result => exact .inl rfl
  | @fault fault _ hDeep hWalk =>
    obtain rfl | ⟨rfl, -⟩ := hFaults fault rfl
    · exact .inr ⟨rfl, hWalk rfl⟩
    · exact absurd rfl hDeep

theorem flatten_halts_spliced :
    spliced.WellFormed ∧ spliced.store.Has 5 ∧ ∃ depth, ∀ more ≥ depth,
      spliced.performWithin more (.flatten 5) = spliced.performWithin depth (.flatten 5) := by
  have hWell : spliced.WellFormed := Ordered.wellFormed (by decide)
  obtain ⟨depth, hSame, -⟩ := flatten_halts spliced 5 hWell (by decide)
  exact ⟨hWell, by decide, depth, hSame⟩

/-- The first element of a list takes in a template that is built on the first element of that element. -/
def roundabout : Session where
  types := ⟨Registry.numbers.entries ++ [(3, ⟨"R", .record [⟨"f", 2, false, false⟩]⟩), (4, ⟨"Records", .recordOf 3⟩),
      (5, ⟨"Lists", .recordOf 4⟩)]⟩
  definitions := ⟨[.ofBody "t" 5 5, .ofBody "d" 4 9,
    .ofBody "e" 3 7, .ofBody "g" 2 10]⟩
  store := ⟨[{ form := .ofName "d" 1 }, { form := .allFrom 0 },
    { form := .ofItems [1] }, { form := .ofName "g" 3 },
    { form := .allFrom 3 }, { form := .ofItems [2, 4] },
    { form := .following "t" 0 [.index (.integer 0), .index (.integer 0)] },
    { form := .named [], base := some 6 }, { form := .named [], base := some 7 },
    { form := .ofItems [8] }, { form := .following "e" 2 [.field "f"] }]⟩

theorem roundabout.lt_of_builds {id last : NodeId} (h : (roundabout.store.reading roundabout.env).Builds id last) :
    last.index < id.index := by
  obtain ⟨t, base, hNode, hBase, hEnd⟩ := h
  have hSeven : (roundabout.store.reading roundabout.env).EndsAt 7 7 := ⟨1, _, rfl, rfl⟩
  have hSix : (roundabout.store.reading roundabout.env).EndsAt 6 1 :=
    endsAt_of_lastTemplate (by decide +kernel) (by decide +kernel)
  obtain ⟨index⟩ := id
  have hLt : index < 11 := has_of_get? hNode
  match index, hLt with
  | 0, _ | 1, _ | 2, _ | 3, _ | 4, _ | 5, _ | 6, _ | 9, _ | 10, _ =>
    cases hNode
    cases hBase
  | 7, _ =>
    cases hNode
    cases hBase
    cases hEnd.eq hSix
    decide
  | 8, _ =>
    cases hNode
    cases hBase
    cases hEnd.eq hSeven
    decide

/-- Splicing its first element builds a template on itself, and the second one is looked for there. -/
theorem roundabout_never_flattened :
    roundabout.WellFormed ∧ (∀ id, ¬ TransGen (roundabout.store.reading roundabout.env).Builds id id) ∧
      ¬ roundabout.Ends (.flatten 5) := by
  refine ⟨Ordered.wellFormed (by decide), fun id hCycle => ?_, ?_⟩
  · have hLt : ∀ {first last}, TransGen (roundabout.store.reading roundabout.env).Builds first last →
        last.index < first.index := by
      intro first last hPath
      induction hPath with
      | single hStep => exact roundabout.lt_of_builds hStep
      | tail _ hStep ih => exact Nat.lt_trans (roundabout.lt_of_builds hStep) ih
    exact Nat.lt_irrefl _ (hLt hCycle)
  · rintro ⟨depth, hEnd⟩
    have hWalk : (roundabout.performWithin 4 (.flatten 5)).1 = some .endlessWalk := by decide +kernel
    have hEarly := roundabout.performWithin_of_le (.flatten 5) (Nat.le_max_left 4 depth) (by simp [hWalk])
    have hLate := roundabout.performWithin_of_le (.flatten 5) (Nat.le_max_right 4 depth) (by simp [hEnd])
    rw [← hEarly, hLate, hEnd] at hWalk
    cases hWalk

end Session

end TemplateCheck
