import TemplateCheck.Proofs.Locality.Resolution
import TemplateCheck.Proofs.Results

/-!
# What checks of restrictions change

A check of a restriction may come to any node, through parts, bases and references. All that it leaves there is a mark,
where the restriction has to be verified at run time, and what following references leaves. So nothing is changed that
another check of a restriction reads, apart from references that had not been followed.
-/

namespace TemplateCheck

namespace Template

/-- What a check of a restriction makes of a node. -/
structure Annotated (t t' : Template) : Prop where
  governor : t'.governor = t.governor
  length : t'.length = t.length
  ifPresent : t'.ifPresent = t.ifPresent
  base : t'.base = t.base
  span : t'.span = t.span
  /-- A reference that was not followed yet learns the end of its chain or is given up. -/
  form : t'.form = t.form ∨ ∃ r, t.form = .referenced r none ∧
    ((∃ last, t'.form = .referenced r (some last)) ∨ t'.form = .erroneous)
  /-- At most two marks are added, one of them to such references only. -/
  marks : ∃ verified followed : Bool, (followed → ∃ r, t.form = .referenced r none) ∧ t'.marks = { t.marks with
      needsRestrictionCheck := t.marks.needsRestrictionCheck || verified
      recursionsChecked := t.marks.recursionsChecked || followed }

namespace Annotated

variable {t t' t'' : Template}

theorem refl (t : Template) : t.Annotated t :=
  ⟨rfl, rfl, rfl, rfl, rfl, .inl rfl, false, false, by simp, by simp⟩

theorem trans (hFirst : t.Annotated t') (hSecond : t'.Annotated t'') : t.Annotated t'' := by
  have hForm : ∀ r, t'.form = .referenced r none → t.form = .referenced r none := by
    intro r hForm'
    obtain hSame | ⟨r', -, ⟨last, hLast⟩ | hGivenUp⟩ := hFirst.form
    · rw [← hSame, hForm']
    · simp [hLast] at hForm'
    · simp [hGivenUp] at hForm'
  refine ⟨hSecond.governor.trans hFirst.governor, hSecond.length.trans hFirst.length,
    hSecond.ifPresent.trans hFirst.ifPresent, hSecond.base.trans hFirst.base, hSecond.span.trans hFirst.span, ?_, ?_⟩
  · obtain hSame | ⟨r, hForm', hEnd⟩ := hSecond.form
    · rw [hSame]
      exact hFirst.form
    · exact .inr ⟨r, hForm r hForm', hEnd⟩
  · obtain ⟨verified, followed, hFollowed, hMarks⟩ := hFirst.marks
    obtain ⟨verified', followed', hFollowed', hMarks'⟩ := hSecond.marks
    refine ⟨verified || verified', followed || followed', fun hEither => ?_, ?_⟩
    · obtain hEarly | hLate := Bool.or_eq_true_iff.1 hEither
      · exact hFollowed hEarly
      · obtain ⟨r, hForm'⟩ := hFollowed' hLate
        exact ⟨r, hForm r hForm'⟩
    · rw [hMarks', hMarks]
      simp only [Bool.or_assoc]

theorem mark (t : Template) : t.Annotated (t.mark .needsRestrictionCheck) :=
  ⟨rfl, rfl, rfl, rfl, rfl, .inl rfl, true, false, by simp, by simp [Template.mark, Marks.set]⟩

end Annotated

theorem Pursued.annotated {t t' : Template} (h : t.Pursued t') : t.Annotated t' := by
  have hMarks : ∀ {r : Reference} {marks : Marks}, t.form = .referenced r none →
      marks = t.marks ∨ marks = t.marks.set .recursionsChecked →
      ∃ verified followed : Bool, (followed → ∃ r, t.form = .referenced r none) ∧ marks = { t.marks with
        needsRestrictionCheck := t.marks.needsRestrictionCheck || verified
        recursionsChecked := t.marks.recursionsChecked || followed } := by
    rintro r marks hForm (rfl | rfl)
    · exact ⟨false, false, by simp, by simp⟩
    · exact ⟨false, true, fun _ => ⟨r, hForm⟩, by simp [Marks.set]⟩
  cases h with
  | same => exact .refl t
  | @followed r last marks hForm hSet =>
    exact ⟨rfl, rfl, rfl, rfl, rfl, .inr ⟨r, hForm, .inl ⟨last, rfl⟩⟩, hMarks hForm hSet⟩
  | @givenUp r marks hForm hSet => exact ⟨rfl, rfl, rfl, rfl, rfl, .inr ⟨r, hForm, .inr rfl⟩, hMarks hForm hSet⟩

end Template

instance : Course Template.Annotated := ⟨.refl, .trans⟩

abbrev Store.Annotates : Store → Store → Prop := Turns fun _ => Template.Annotated

theorem annotates_restrictWithin (env : Env) (use : RestrictedUse) (depth : Nat) (id : NodeId)
    (required : Restriction) (s : Store) : Steps Store.Annotates env s (restrictWithin use depth id required) := by
  refine Restricting.restrictWithin ⟨sequential_steps Store.Annotates env, fun id s => ?_, fun id s => ?_⟩
    use depth id required s
  · exact (pursuing_lastTemplate s id).weaken fun _ h => h.mono fun _ _ _ => Template.Pursued.annotated
  · exact (moves_modifyNode (Course.refl s) fun _ _ => Store.turns_update fun t _ => .mark t).steps

theorem returns_restrictStep_marked (env : Env) (restrict : RestrictionCheck) (use : RestrictedUse) (id : NodeId)
    (required : Restriction) (s : Store) : Returns false env s (restrictStep restrict use id required) fun b s' =>
      b = true → ∃ t, s'.get? id = some t ∧ t.marks.has .needsRestrictionCheck := by
  unfold restrictStep
  split
  · exact .pure (by simp)
  apply Concludes.trivial.bind
  intro t _ _
  apply Concludes.trivial.bind
  intro _ _ _
  apply Concludes.trivial.bind
  intro _ _ _
  apply Concludes.trivial.bind
  intro verdict _ _
  apply Concludes.trivial.bind
  intro _ _ _
  apply Concludes.trivial.bind
  intro _ s1 _
  cases verdict.runtime with
  | false => exact .pure (by simp)
  | true =>
    have hMark : Returns false env s1 (mark id .needsRestrictionCheck) fun _ s' =>
        ∃ t, s'.get? id = some t ∧ t.marks.has .needsRestrictionCheck := by
      apply Concludes.modifyNode.mono
      rintro _ _ ⟨⟨t, hNode⟩, rfl⟩
      exact ⟨_, Store.get?_update_some hNode _, Template.has_set_self t.marks .needsRestrictionCheck⟩
    exact hMark.bind fun _ _ hMarked => .pure fun _ => hMarked

/-- A check of a restriction adds no node and leaves every node as it is, apart from the mark for a verification at run
time and from references that it follows. It sets the mark on the node that it is about if it calls for a verification.
-/
theorem Session.restriction_annotates (s : Session) (current : Option DefId) (use : RestrictedUse) (depth : Nat)
    (id : NodeId) (required : Restriction) :
    let after := s.run (withReader ({ · with current }) (restrictWithin use depth id required))
    after.2.store.size = s.store.size ∧
    (∀ n t, s.store.get? n = some t → ∃ t', after.2.store.get? n = some t' ∧ t.Annotated t') ∧
    (after.1 = .ok true → ∃ t', after.2.store.get? id = some t' ∧ t'.marks.has .needsRestrictionCheck) := by
  intro after
  have hAnnotates : s.store.Annotates after.2.store :=
    (annotates_restrictWithin { s.env with current } use depth id required s.store s.report _ _ rfl).1
  refine ⟨hAnnotates.size_eq, hAnnotates.nodes, fun hTrue => ?_⟩
  cases depth with
  | zero => cases hTrue
  | succ depth =>
    exact (returns_restrictStep_marked { s.env with current } (restrictWithin use depth) use id required s.store).post
      s.report true _ (Prod.ext hTrue rfl) (Report.calm_false _ _) rfl

end TemplateCheck
