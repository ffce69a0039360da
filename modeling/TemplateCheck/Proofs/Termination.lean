import TemplateCheck.Proofs.Compatibility
import TemplateCheck.Proofs.Depth
import TemplateCheck.Proofs.Safety.Session

/-!
# When operations come to an end

Each level of a check spends a mark or enters a definition, so an operation that goes too deep has as many nodes as that
takes. Hence an operation comes to an end unless it walks along a cycle of links or makes ever more nodes, or compares
list types that contain themselves. Making ever more nodes does happen: `circular` is a list whose elements, once
spliced into a complemented list, contain that list again.
-/

namespace TemplateCheck

namespace Session

variable {s : Session} {op : Operation}

/-- The operation has a result within some depth. -/
def Ends (s : Session) (op : Operation) : Prop := ∃ depth, (s.performWithin depth op).1 = none

/-- Within a depth that its nodes and definitions cannot account for, an operation is not too deep. -/
theorem performWithin_ne_tooDeep {depth : Nat} (h : s.WellFormed) (hRange : op.InRange s)
    (hRestricts : ¬ op.Restricts s.definitions)
    (hDepth : 2 * (s.performWithin depth op).2.store.size + s.definitions.size + 1 < depth) :
    (s.performWithin depth op).1 ≠ some .tooDeep := by
  intro hDeep
  obtain hEndless | ⟨-, hExhausted | hRestricted⟩ :=
    (performed_performWithin depth op h hRange).faults _ hDeep
  · cases hEndless
  · have hSpent := (s.performWithin depth op).2.store.spent_le_size
    unfold Exhausted at hExhausted
    simp only [env] at hExhausted
    omega
  · exact hRestricts hRestricted

theorem exists_size_le (s : Session) (op : Operation) (depth : Nat) :
    ∃ size, ∀ depth' ≤ depth, (s.performWithin depth' op).2.store.size ≤ size := by
  induction depth with
  | zero =>
    refine ⟨(s.performWithin 0 op).2.store.size, fun depth' hLe => ?_⟩
    obtain rfl := Nat.le_zero.1 hLe
    exact Nat.le_refl _
  | succ depth ih =>
    obtain ⟨size, hSize⟩ := ih
    refine ⟨max size (s.performWithin (depth + 1) op).2.store.size, fun depth' hLe => ?_⟩
    obtain hLt | rfl := Nat.lt_or_eq_of_le hLe
    · exact Nat.le_trans (hSize depth' (by omega)) (Nat.le_max_left _ _)
    · exact Nat.le_max_right _ _

/-- Where no list type contains itself, types are compared without a limit. Then an operation comes to an end exactly
if it does not walk along a cycle of links and its nodes stay bounded, however deep it may descend. -/
theorem ends_iff_bounded (s : Session) (op : Operation) (h : s.WellFormed) (hRange : op.InRange s)
    (hRestricts : ¬ op.Restricts s.definitions) (hTypes : ∀ key, ¬ Relation.TransGen s.types.Holds key key) :
    (∀ depth ≥ s.types.size, ∀ expected actual,
      s.types.compatibleWithin depth expected actual = s.types.compatible expected actual) ∧
    (s.Ends op ↔ (∀ depth, (s.performWithin depth op).1 ≠ some .endlessWalk) ∧
      ∃ size, ∀ depth, (s.performWithin depth op).2.store.size ≤ size) := by
  refine ⟨fun depth hLe expected actual => Registry.compatibleWithin_eq hTypes hLe, ?_, ?_⟩
  · rintro ⟨depth, hEnd⟩
    have hSame : ∀ depth' ≥ depth, s.performWithin depth' op = s.performWithin depth op :=
      fun depth' hLe => s.performWithin_of_le op hLe (by simp [hEnd])
    refine ⟨fun depth' hEndless => ?_, ?_⟩
    · have hEarlier := s.performWithin_of_le op (Nat.le_max_left depth' depth) (by simp [hEndless])
      have hLater := hSame (max depth' depth) (Nat.le_max_right depth' depth)
      rw [← hEarlier, hLater, hEnd] at hEndless
      cases hEndless
    · obtain ⟨size, hSize⟩ := s.exists_size_le op depth
      refine ⟨size, fun depth' => ?_⟩
      obtain hLe | hGe := Nat.le_total depth' depth
      · exact hSize depth' hLe
      · rw [hSame depth' hGe]
        exact hSize depth (Nat.le_refl depth)
  · rintro ⟨hWalk, size, hSize⟩
    refine ⟨2 * size + s.definitions.size + 2, ?_⟩
    set depth := 2 * size + s.definitions.size + 2 with hDepth
    cases hFault : (s.performWithin depth op).1 with
    | none => rfl
    | some fault =>
      obtain rfl | ⟨rfl, -⟩ := (performed_performWithin depth op h hRange).faults _ hFault
      · exact absurd hFault (hWalk depth)
      · have hLe := hSize depth
        exact absurd hFault (performWithin_ne_tooDeep h hRange hRestricts (by omega))

theorem ends_iff_bounded_spliced :
    spliced.Ends (.check 5 2 {}) ∧
      ∃ size, ∀ depth, (spliced.performWithin depth (.check 5 2 {})).2.store.size ≤ size := by
  have hWell : spliced.WellFormed := Store.Ordered.wellFormed (by decide)
  have hRange : (Operation.check 5 2 {}).InRange spliced := (by decide : Store.Has _ _)
  have hEnds : spliced.Ends (.check 5 2 {}) := ⟨4, by decide +kernel⟩
  have hTypes : ∀ key, ¬ Relation.TransGen spliced.types.Holds key key :=
    Registry.acyclic_of_rank (fun key => key.bits.toNat) (by decide)
  exact ⟨hEnds, ((ends_iff_bounded spliced _ hWell hRange id hTypes).2.1 hEnds).2⟩

end Session

end TemplateCheck
