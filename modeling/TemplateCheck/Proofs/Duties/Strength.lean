import TemplateCheck.Proofs.Duties.Restricted

/-!
# The strongest restriction

What passes as a value passes under every restriction. The cases that the restrictions tell apart are not the
same: where values hold the parts of a template to `omit`, the others may not look at them at all, and a
reference is held to the very restriction that is required. So a duty to be a value is compared with the duty
under another restriction, form by form, and the comparison is carried through all checks that are demanded.
-/

namespace TemplateCheck

theorem Restriction.weakerThan_of_value {actual : Restriction} (h : actual.weakerThan .value = false)
    (required : Restriction) : actual.weakerThan required = false := by
  rw [weakerThan_eq_false_iff] at h ⊢
  obtain h | h | h := h
  · exact .inr (.inr h.symm)
  · cases h
  · exact .inr (.inr h)

variable {r : Reference}

namespace Reading

variable {m : Reading} {holds : Restriction → NodeId → Bool → Prop} {required : Restriction} {id : NodeId}
  {t : Template} {demands : Duty → Prop} {b : Bool}

def Eases (holds : Restriction → NodeId → Bool → Prop) (demands : Duty → Prop) (b : Bool) : Prop :=
  ∃ duty others, demands duty ∧ duty.objection = false ∧ AnyOf holds duty.parts others ∧ ((duty.runtime || others) → b)

theorem eases_none (h : demands {}) : Eases holds demands b :=
  ⟨{}, false, h, rfl, rfl, nofun⟩

section

variable (hEase : ∀ id b, holds .value id b → ∃ b', holds required id b' ∧ (b' → b))

include hEase

variable {duty : Duty}

theorem anyOf_ease {ids : List NodeId} (h : AnyOf holds (holdAll .value ids) b) :
    ∃ b', AnyOf holds (holdAll required ids) b' ∧ (b' → b) := by
  induction ids generalizing b with
  | nil => exact ⟨false, rfl, nofun⟩
  | cons id ids ih =>
    obtain ⟨one, others, hOne, hOthers, rfl⟩ := h
    obtain ⟨one', hOne', hImp⟩ := hEase id one hOne
    obtain ⟨others', hOthers', hImp'⟩ := ih hOthers
    refine ⟨one' || others', ⟨one', others', hOne', hOthers', rfl⟩, ?_⟩
    simp only [Bool.or_eq_true]
    exact Or.imp hImp hImp'

theorem eases_holdAll (ids : List NodeId)
    (h : AnyOf holds (holdAll .value ids) b) (hDemands : demands { parts := holdAll required ids }) :
    Eases holds demands b := by
  obtain ⟨b', hAny, hImp⟩ := anyOf_ease hEase h
  exact ⟨_, b', hDemands, rfl, hAny, hImp⟩

theorem eases_refers (hRefers : m.Refers id r .value duty)
    (hObjection : duty.objection = false) (h : AnyOf holds duty.parts b) :
    Eases holds (m.Refers id r required) (duty.runtime || b) := by
  obtain ⟨definition, hTarget, hRefers⟩ := hRefers
  split at hRefers
  · rename_i hTemplate
    obtain ⟨last, hLast, rfl⟩ := hRefers
    have hSame : ∀ duty, (duty = if last = id then {} else { parts := [(required, last)] }) →
        m.Refers id r required duty := by
      intro duty hDuty
      refine ⟨definition, hTarget, ?_⟩
      rw [if_pos hTemplate]
      exact ⟨last, hLast, hDuty⟩
    by_cases hSelf : last = id
    · exact eases_none (hSame _ (by rw [if_pos hSelf]))
    · rw [if_neg hSelf] at h ⊢
      exact eases_holdAll hEase [last] h (hSame _ (by rw [if_neg hSelf]; rfl))
  · rename_i hTemplate
    split at hRefers
    · rename_i hDeclares
      subst hRefers
      have hAdequate : m.env.inadequate definition r required = false :=
        Restriction.weakerThan_of_value hObjection required
      refine ⟨{ runtime := definition.kind.isExternalFunction || m.env.inadequate definition r required
                objection := m.env.inadequate definition r required }, false,
        ⟨definition, hTarget, by rw [if_neg hTemplate, if_pos hDeclares]⟩, hAdequate, rfl, ?_⟩
      simp only [hAdequate, Bool.or_false]
      intro hExternal
      simp [hExternal]
    · rename_i hDeclares
      refine eases_none ⟨definition, hTarget, ?_⟩
      rw [if_neg hTemplate, if_neg hDeclares]

theorem eases_values (hDemands : m.DemandsValues id t .value duty)
    (hObjection : duty.objection = false) (h : AnyOf holds duty.parts b) :
    Eases holds (m.DemandsValues id t required) (duty.runtime || b) := by
  have hSame : m.DemandsValues id t required duty → Eases holds (m.DemandsValues id t required) (duty.runtime || b) :=
    fun hDemands => ⟨duty, b, hDemands, hObjection, h, fun h => h⟩
  obtain ⟨form, _, _, _, base⟩ := t
  cases form with
  | notUsed =>
    cases base with
    | some base =>
      obtain rfl := hDemands
      exact eases_holdAll hEase [base] h rfl
    | none => exact hSame hDemands
  | referenced r known => exact eases_refers hEase hDemands hObjection h
  | list shape items =>
    cases shape with
    | positional => exact hSame hDemands
    | _ =>
      obtain rfl := hDemands
      cases hObjection
  | concat left right =>
    obtain rfl := hDemands
    exact eases_holdAll hEase [left, right] h rfl
  | erroneous | specific | invoke | named | indexed => exact hSame hDemands
  | _ =>
    obtain rfl := hDemands
    cases hObjection

theorem eases_present (hPresent : required = .present)
    (hDemands : m.DemandsValues id t .value duty) (hObjection : duty.objection = false) (h : AnyOf holds duty.parts b) :
    Eases holds (m.DemandsPresent id t) (duty.runtime || b) := by
  subst hPresent
  obtain ⟨form, _, _, _, base⟩ := t
  cases form with
  | referenced r known => exact eases_refers hEase hDemands hObjection h
  | concat left right =>
    obtain rfl := hDemands
    exact eases_holdAll hEase [left, right] h rfl
  | list shape items =>
    cases shape with
    | positional => exact eases_none rfl
    | _ =>
      obtain rfl := hDemands
      cases hObjection
  | erroneous | specific | invoke | notUsed | named | indexed => exact eases_none rfl
  | _ =>
    obtain rfl := hDemands
    cases hObjection

theorem eases_owes (hOwes : m.Owes .value id duty)
    (hObjection : duty.objection = false) (h : AnyOf holds duty.parts b) :
    Eases holds (m.Owes required id) (duty.runtime || b) := by
  by_cases hUnrestricted : required = .unrestricted
  · exact eases_none (by rw [Owes, if_pos hUnrestricted])
  · rw [Owes, if_neg (by decide)] at hOwes
    obtain ⟨t, inner, hView, hDemands, rfl⟩ := hOwes
    rw [Demands, if_neg (by decide)] at hDemands
    simp only [Bool.or_eq_false_iff] at hObjection
    obtain ⟨⟨hNot, hUnmeasured⟩, hInner⟩ := hObjection
    have hLength : t.length.isSome = false := by simpa using hUnmeasured
    have hEases : Eases holds (m.Demands id t required) (inner.runtime || b) := by
      unfold Demands
      by_cases hPresent : required = .present
      · simp only [if_pos hPresent]
        exact eases_present hEase hPresent hDemands hInner h
      · simp only [if_neg hPresent]
        exact eases_values hEase hDemands hInner h
    obtain ⟨duty, others, hDemands', hObjection', hOthers, hImp⟩ := hEases
    refine ⟨{ duty with objection := t.ifPresent || (t.length.isSome && required ≠ .present) ||
      duty.objection }, others, ?_, ?_, hOthers, hImp⟩
    · rw [Owes, if_neg hUnrestricted]
      exact ⟨t, duty, hView, hDemands', rfl⟩
    · simp [hNot, hLength, hObjection']

end

theorem Fulfils.ease {depth : Nat} (h : m.Fulfils true depth .value id b) (required : Restriction) :
    ∃ b', m.Fulfils true depth required id b' ∧ (b' → b) := by
  induction depth generalizing id b with
  | zero => exact h.elim
  | succ depth ih =>
    obtain ⟨duty, others, hOwes, hQuiet, hOthers, rfl⟩ := h
    obtain ⟨duty', others', hOwes', hObjection', hOthers', hImp⟩ :=
      eases_owes (fun _ _ => ih) hOwes (hQuiet rfl) hOthers
    exact ⟨_, ⟨duty', others', hOwes', fun _ => hObjection', hOthers', rfl⟩, hImp⟩

end Reading

namespace Session

/-- A template that passes as a value, with nothing but notes reported, passes under every restriction:
nothing at all is reported, and a verification at run time is needed only if it was needed for a value. -/
theorem restriction_monotone (s : Session) (use : RestrictedUse) (depth : Nat) (id : NodeId)
    {runtime : Bool} (hEnds : (s.run (restrictWithin use depth id .value)).1 = .ok runtime)
    (hNotes : ∃ notes, (s.run (restrictWithin use depth id .value)).2.report.diagnostics =
      s.report.diagnostics ++ notes ∧ ∀ d ∈ notes, d.finding.isNote) (required : Restriction) :
    ∃ runtime', (s.run (restrictWithin use depth id required)).1 = .ok runtime' ∧
      (s.run (restrictWithin use depth id required)).2.report = s.report ∧ (runtime' → runtime) := by
  have hMatches := Reading.matches_reading s.store s.env
  obtain ⟨notes, hNotes, hOnly⟩ := hNotes
  have hCounters := (s.run_evolves _).report.counters_of_notes hNotes hOnly
  have hDetermines := Reading.determines_restrictWithin (m := s.store.reading s.env) Reading.followsAll_quiet use depth
    id
  obtain ⟨hFulfils, -⟩ := of_run_of_returns ((hDetermines .value).returns hMatches) hEnds fun _ => hCounters
  obtain ⟨runtime', hFulfils', hImp⟩ := hFulfils.ease required
  obtain ⟨_, hEnds', hReport, rfl, -⟩ := run_of_attains ((hDetermines required).attains hMatches hFulfils')
  exact ⟨_, hEnds', hReport rfl, hImp⟩

def wrappedNumber : Session where
  types := ⟨[(1, ⟨"integer", .integer⟩), (2, ⟨"Wrapped", .record [⟨"content", 1, false, false⟩]⟩)]⟩
  definitions := ⟨[.ofBody "number" 1 0]⟩
  store := .ofForms [.ofInteger 3, .following "number" 0,
    .named [⟨"content", 1, {}⟩]]

theorem restriction_monotone_wrapped :
    ∃ runtime', (wrappedNumber.run (restrictWithin ⟨"wrapped", {}⟩ 3 2 .present)).1 = .ok runtime' ∧
      (wrappedNumber.run (restrictWithin ⟨"wrapped", {}⟩ 3 2 .present)).2.report = wrappedNumber.report ∧
      (runtime' → false) :=
  restriction_monotone wrappedNumber ⟨"wrapped", {}⟩ 3 2 (by rfl) ⟨[], by rfl, by simp⟩ .present

end Session

end TemplateCheck
