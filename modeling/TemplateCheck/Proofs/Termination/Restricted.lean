import Mathlib.Data.Finite.Prod
import Mathlib.Data.Set.Finite.Range
import TemplateCheck.Proofs.Duties.Restricted
import TemplateCheck.Proofs.Duties.Total
import TemplateCheck.Proofs.Termination

/-!
# When checks of restrictions end

A check of a restriction goes from a node to the checks that the node demands, and through references it comes
to the templates of other definitions. It keeps no record of where it has been. So it ends if and only if no
check that it comes to demands itself again. That no node lies below itself, that no base leads back to itself
and that every chain of references ends is not enough: the template `recurring` refers to itself from one of
its fields, and its check never ends.
-/

namespace TemplateCheck

open List Reading Store
open Relation (ReflTransGen TransGen)

namespace AnyOf

variable {holds holds' : Restriction → NodeId → Bool → Prop} {parts : List (Restriction × NodeId)} {b : Bool}

theorem mono (hHolds : ∀ required id b, holds required id b → holds' required id b)
    (h : AnyOf holds parts b) : AnyOf holds' parts b := by
  induction parts generalizing b with
  | nil => exact h
  | cons part parts ih =>
    obtain ⟨one, others, hOne, hOthers, rfl⟩ := h
    exact ⟨one, others, hHolds _ _ _ hOne, ih hOthers, rfl⟩

theorem exists_of_mem (h : AnyOf holds parts b) {part : Restriction × NodeId} (hMem : part ∈ parts) :
    ∃ one, holds part.1 part.2 one := by
  induction parts generalizing b with
  | nil => cases hMem
  | cons head parts ih =>
    obtain ⟨one, others, hOne, hOthers, -⟩ := h
    obtain rfl | hMem := mem_cons.1 hMem
    · exact ⟨one, hOne⟩
    · exact ih hOthers hMem

end AnyOf

instance : Finite Restriction :=
  have : Fintype Restriction := Fintype.ofList [.unrestricted, .valueOrOmit, .value, .present] (by rintro ⟨⟩ <;> simp)
  inferInstance

namespace Reading

section

variable {m : Reading} {quiet : Bool} {depth : Nat} {required : Restriction} {id : NodeId} {b : Bool}

theorem Fulfils.mono {depth' : Nat} (hLe : depth ≤ depth') (h : m.Fulfils quiet depth required id b) :
    m.Fulfils quiet depth' required id b := by
  induction depth generalizing depth' required id b with
  | zero => exact h.elim
  | succ depth ih =>
    obtain ⟨depth', rfl⟩ : ∃ n, depth' = n + 1 := ⟨depth' - 1, by omega⟩
    obtain ⟨duty, others, hOwes, hQuiet, hOthers, rfl⟩ := h
    exact ⟨duty, others, hOwes, hQuiet, hOthers.mono fun _ _ _ => ih (by omega), rfl⟩

theorem exists_anyOf {parts : List (Restriction × NodeId)}
    (h : ∀ part ∈ parts, ∃ depth b, m.Fulfils quiet depth part.1 part.2 b) :
    ∃ depth b, AnyOf (m.Fulfils quiet depth) parts b := by
  induction parts with
  | nil => exact ⟨0, false, rfl⟩
  | cons part parts ih =>
    obtain ⟨depth, one, hOne⟩ := h part mem_cons_self
    obtain ⟨depth', others, hOthers⟩ := ih fun other hMem => h other (mem_cons_of_mem _ hMem)
    refine ⟨max depth depth', one || others, one, others, hOne.mono (Nat.le_max_left _ _), ?_, rfl⟩
    exact hOthers.mono fun _ _ _ => Fulfils.mono (Nat.le_max_right _ _)

theorem Fulfils.acc
    (h : m.Fulfils quiet depth required id b) : Acc (fun next check => m.Imposes check next) (required, id) := by
  induction depth generalizing required id b with
  | zero => exact h.elim
  | succ depth ih =>
    obtain ⟨duty, others, hOwes, -, hOthers, -⟩ := h
    constructor
    rintro next ⟨duty', hOwes', hMem⟩
    obtain rfl := hOwes.eq hOwes'
    obtain ⟨one, hOne⟩ := hOthers.exists_of_mem hMem
    exact ih hOne

end

section

variable {s : Store} {env : Env} (hWell : s.WellFormed env.definitions)
  (hEnds : ∀ id, s.Has id → ∃ last, (s.reading env).EndsAt id last)

include hWell

theorem finite_imposed (check : Restriction × NodeId) (hHas : s.Has check.2) :
    {next | ReflTransGen (s.reading env).Imposes check next}.Finite := by
  apply (Set.finite_range fun p : Restriction × Fin s.size => (p.1, NodeId.mk p.2)).subset
  intro next hReach
  have hNext : s.Has next.2 := by
    obtain rfl | ⟨_, -, hLast⟩ := hReach.cases_tail
    · exact hHas
    · exact hLast.has hWell
  exact ⟨(next.1, ⟨next.2.index, hNext⟩), rfl⟩

include hEnds

theorem exists_fulfils (hBases : ∀ id, ¬ TransGen (s.reading env).Modifies id id)
    (check : Restriction × NodeId) (hHas : s.Has check.2)
    (hAcc : Acc (fun next check => (s.reading env).Imposes check next) check) :
    ∃ depth b, (s.reading env).Fulfils false depth check.1 check.2 b := by
  induction hAcc with
  | intro check _ ih =>
    obtain ⟨duty, hOwes⟩ := exists_owes hWell hEnds hBases hHas check.1
    have hParts : ∀ part ∈ duty.parts, ∃ depth b, (s.reading env).Fulfils false depth part.1 part.2 b := by
      intro part hMem
      have hImposes : (s.reading env).Imposes check part := ⟨duty, hOwes, hMem⟩
      exact ih part hImposes (hImposes.has hWell)
    obtain ⟨depth, others, hOthers⟩ := exists_anyOf hParts
    exact ⟨depth + 1, _, duty, others, hOwes, nofun, hOthers, rfl⟩

end

theorem followsAll_of_ends {s : Store} {env : Env}
    (hEnds : ∀ id, s.Has id → ∃ last, (s.reading env).EndsAt id last) (quiet : Bool) :
    (s.reading env).FollowsAll quiet := by
  intro s' id hs
  by_cases hHas : s.Has id
  · obtain ⟨last, hLast⟩ := hEnds id hHas
    apply (Concludes.of_attains (attains_lastTemplate hLast hs.toAgrees)).mono
    rintro _ s'' ⟨rfl, hLearns⟩
    exact ⟨hLast, hs.learns hLearns⟩
  · rw [lastTemplate]
    apply Concludes.store_then
    rw [lastWithin]
    apply Concludes.formOf_then
    intro t hFound
    obtain ⟨t', hView, -⟩ := hs.of_get? hFound
    exact absurd (has_of_get? hView) hHas

end Reading

namespace Session

/-- Every chain of references can be followed to its end, and nothing is reported on the way. -/
def Resolves (s : Session) : Prop :=
  ∀ id, s.store.Has id → ∃ last, (s.lastTemplate id).1 = .ok last ∧ (s.lastTemplate id).2.report = s.report

theorem Resolves.ends {s : Session} (h : s.Resolves) (id : NodeId) (hHas : s.store.Has id) :
    ∃ last, (s.store.reading s.env).EndsAt id last := by
  obtain ⟨last, hLast, hReport⟩ := h id hHas
  exact ⟨last, endsAt_of_lastTemplate hLast hReport⟩

theorem ended_fst_eq_none {α : Type} {r : Except Fault α × Session} : (ended r).1 = none ↔ ∃ a, r.1 = .ok a := by
  rcases r with ⟨_ | _, s⟩ <;> simp [ended]

section

variable {s : Session} (hResolves : s.Resolves) {id : NodeId}

include hResolves

theorem ends_iff_fulfils (use : RestrictedUse) (required : Restriction) : s.Ends (.checkRestriction use id required) ↔
      ∃ depth b, (s.store.reading s.env).Fulfils false depth required id b := by
  have hMatches := matches_reading s.store s.env
  have hDetermines (depth : Nat) := determines_restrictWithin
    (followsAll_of_ends hResolves.ends false) use depth id required
  constructor
  · rintro ⟨depth, hEnd⟩
    rw [performWithin, ended_fst_eq_none] at hEnd
    obtain ⟨b, hEnd⟩ := hEnd
    have hReturns := (hDetermines depth).returns hMatches
    exact ⟨depth, b, (of_run_of_returns hReturns hEnd (Report.calm_false _ _)).1⟩
  · rintro ⟨depth, b, hFulfils⟩
    obtain ⟨_, hEnd, -⟩ := run_of_attains ((hDetermines depth).attains hMatches hFulfils)
    exact ⟨depth, by rw [performWithin, ended_fst_eq_none]; exact ⟨_, hEnd⟩⟩

theorem ends_iff_acc (hWell : s.WellFormed)
    (hBases : ∀ id, ¬ TransGen (s.store.reading s.env).Modifies id id) (hHas : s.store.Has id)
    (use : RestrictedUse) (required : Restriction) : s.Ends (.checkRestriction use id required) ↔
      Acc (fun next check => (s.store.reading s.env).Imposes check next) (required, id) := by
  have hStore : s.store.WellFormed s.env.definitions := hWell
  rw [ends_iff_fulfils hResolves]
  constructor
  · rintro ⟨depth, b, hFulfils⟩
    exact hFulfils.acc
  · exact exists_fulfils hStore hResolves.ends hBases (required, id) hHas

end

theorem finite_imposed {s : Session} (hWell : s.WellFormed) {id : NodeId} (hHas : s.store.Has id)
    (required : Restriction) : {check | ReflTransGen (s.store.reading s.env).Imposes (required, id) check}.Finite := by
  have hStore : s.store.WellFormed s.env.definitions := hWell
  exact Reading.finite_imposed hStore (required, id) hHas

/-- A check of a restriction comes to an end exactly if no check that it leads to demands itself again. -/
theorem restriction_ends_iff (s : Session) (hWell : s.WellFormed) (hResolves : s.Resolves)
    (hBases : ∀ id, ¬ TransGen (s.store.reading s.env).Modifies id id) (use : RestrictedUse) (id : NodeId)
    (hHas : s.store.Has id) (required : Restriction) :
    s.Ends (.checkRestriction use id required) ↔
      ¬ ∃ check, ReflTransGen (s.store.reading s.env).Imposes (required, id) check ∧
        TransGen (s.store.reading s.env).Imposes check check := by
  rw [ends_iff_acc hResolves hWell hBases hHas]
  exact acc_iff_not_cycle (finite_imposed hWell hHas required)

/-- A record that modifies another one, whose only field refers to a number. -/
def inheritedNumber : Session where
  types := ⟨[(1, ⟨"integer", .integer⟩), (2, ⟨"Wrapped", .record [⟨"content", 1, false, false⟩]⟩)]⟩
  definitions := ⟨[.ofBody "number" 1 0]⟩
  store := ⟨[{ form := .ofInteger 3 }, { form := .following "number" 0 },
    { form := .named [⟨"content", 1, {}⟩] },
    { form := .named [], governor := some 2, base := some 2 }]⟩

theorem inheritedNumber_resolves : inheritedNumber.Resolves := by
  rintro ⟨index⟩ hHas
  have hLt : index < 4 := hHas
  match index, hLt with
  | 0, _ | 1, _ | 2, _ | 3, _ => exact ⟨_, by rfl, by rfl⟩

theorem inheritedNumber_modifies {id base : NodeId}
    (h : (inheritedNumber.store.reading inheritedNumber.env).Modifies id base) :
    base = 2 ∧ (inheritedNumber.store.reading inheritedNumber.env).EndsAt id 3 := by
  obtain ⟨⟨index⟩, t, hLast, hView, hBase⟩ := h
  have hLt : index < 4 := has_of_get? hView
  match index, hLt with
  | 0, _ | 1, _ | 2, _ =>
    cases hView
    cases hBase
  | 3, _ =>
    cases hView
    cases hBase
    exact ⟨rfl, hLast⟩

theorem restriction_ends_iff_inherited :
    inheritedNumber.Ends (.checkRestriction ⟨"inherited", {}⟩ 3 .value) ↔
      ¬ ∃ check,
        ReflTransGen (inheritedNumber.store.reading inheritedNumber.env).Imposes (.value, 3) check ∧
          TransGen (inheritedNumber.store.reading inheritedNumber.env).Imposes check check := by
  have hWell : inheritedNumber.WellFormed := Ordered.wellFormed (by decide)
  refine restriction_ends_iff inheritedNumber hWell inheritedNumber_resolves ?_ _ _ (by decide) _
  intro id hCycle
  obtain ⟨_, hFirst, -⟩ := TransGen.head'_iff.1 hCycle
  obtain ⟨_, -, hLast⟩ := TransGen.tail'_iff.1 hCycle
  obtain ⟨rfl, -⟩ := inheritedNumber_modifies hLast
  have hSelf : (inheritedNumber.store.reading inheritedNumber.env).EndsAt 2 2 :=
    endsAt_of_lastTemplate (by rfl) (by rfl)
  cases hSelf.eq (inheritedNumber_modifies hFirst).2

/-- A template whose optional field refers to the template itself. -/
def recurring : Session where
  types := ⟨[(1, ⟨"R", .record [⟨"f", 1, true, false⟩]⟩)]⟩
  definitions := ⟨[.ofBody "t" 1 1]⟩
  store := .ofForms [.following "t" 0, .named [⟨"f", 0, {}⟩]]

theorem recurring_body {required : Restriction} (hRequired : required = .value ∨ required = .valueOrOmit) :
    (recurring.store.reading recurring.env).Imposes (required, 1) (.valueOrOmit, 0) := by
  refine ⟨{ parts := [(.valueOrOmit, 0)] }, ?_, mem_singleton_self _⟩
  obtain rfl | rfl := hRequired <;> exact ⟨_, _, rfl, ⟨[], false, ⟨rfl, rfl⟩, rfl⟩, rfl⟩

theorem recurring_field : (recurring.store.reading recurring.env).Imposes (.valueOrOmit, 0) (.valueOrOmit, 1) := by
  have hEnd : (recurring.store.reading recurring.env).EndsAt 0 1 := endsAt_of_lastTemplate (by rfl) (by rfl)
  refine ⟨{ parts := [(.valueOrOmit, 1)] }, ?_, mem_singleton_self _⟩
  exact ⟨_, _, rfl, ⟨_, rfl, ⟨_, hEnd, rfl⟩⟩, rfl⟩

theorem recurring_never_ends :
    recurring.WellFormed ∧ recurring.Resolves ∧
      (∀ id base, ¬ (recurring.store.reading recurring.env).Modifies id base) ∧
      ¬ recurring.Ends (.checkRestriction ⟨"t", {}⟩ 1 .value) := by
  have hWell : recurring.WellFormed := Ordered.wellFormed (by decide)
  have hResolves : recurring.Resolves := by
    rintro ⟨index⟩ hHas
    have hLt : index < 2 := hHas
    match index, hLt with
    | 0, _ | 1, _ => exact ⟨_, by rfl, by rfl⟩
  have hNoBase : ∀ id base, ¬ (recurring.store.reading recurring.env).Modifies id base := by
    rintro id base ⟨last, t, -, hView, hBase⟩
    have hNone : ∀ t ∈ recurring.store.nodes, t.base = none := by decide
    rw [hNone t (mem_of_getElem? hView)] at hBase
    cases hBase
  refine ⟨hWell, hResolves, hNoBase, ?_⟩
  have hBases : ∀ id, ¬ TransGen (recurring.store.reading recurring.env).Modifies id id := by
    intro id hCycle
    obtain ⟨base, hStep, -⟩ := TransGen.head'_iff.1 hCycle
    exact hNoBase id base hStep
  rw [ends_iff_acc hResolves hWell hBases (by decide), acc_iff_not_cycle (finite_imposed hWell (by decide) _),
    not_not]
  exact ⟨_, .single (recurring_body (.inl rfl)), .tail (.single recurring_field) (recurring_body (.inr rfl))⟩

end Session

end TemplateCheck
