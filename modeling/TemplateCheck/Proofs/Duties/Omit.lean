import TemplateCheck.Proofs.Duties.Restricted

/-!
# What the restrictions keep out

`template(present)` and `template(value)` are meant to keep omit out. A template may match omit by itself, as
an alternative of a value list, or behind references. What passes the check silently, with nothing left to
verify at run time, matches omit in none of these ways but one: omit may be written as a value, and specific
values are let through whatever they are.
-/

namespace TemplateCheck

open List Reading

/-- The template is a value that is omit, directly or through constants. -/
def Template.WritesOmit (env : Env) (t : Template) : Prop :=
  ∃ value, t.form = .specific value ∧ env.fold value = .ok .omitted

/-- The template matches omit whatever it refers to. -/
def Template.AdmitsOmit (env : Env) (t : Template) : Prop :=
  t.form = .omitted ∨ t.form = .anyOrOmit ∨ t.ifPresent ∨ t.WritesOmit env

/-- A template of a kind can be reached through alternatives of value lists and the ends of reference
chains. Anything else a reference may name, such as a variable or a function, is known at run time only. -/
inductive Session.Offers (s : Session) (kind : Template → Prop) : NodeId → Prop where
  | self {id : NodeId} {t : Template} : s.store.get? id = some t → kind t → Offers s kind id
  | alternative {id item : NodeId} {t : Template} {items : List NodeId} : s.store.get? id = some t →
      t.form = .list .valueList items → item ∈ items → Offers s kind item → Offers s kind id
  | reference {id last : NodeId} {t : Template} {r : Reference} {known : Option NodeId}
      {definition : Definition} : s.store.get? id = some t → t.form = .referenced r known →
      s.definitions.target? r = some definition → definition.kind.template?.isSome →
      (s.lastTemplate id).1 = .ok last → Offers s kind last → Offers s kind id

theorem AnyOf.of_false {holds : Restriction → NodeId → Bool → Prop} {parts : List (Restriction × NodeId)}
    (h : AnyOf holds parts false) {part : Restriction × NodeId} (hMem : part ∈ parts) : holds part.1 part.2 false := by
  induction parts with
  | nil => cases hMem
  | cons head parts ih =>
    obtain ⟨one, others, hOne, hOthers, hFalse⟩ := h
    obtain ⟨rfl, rfl⟩ := Bool.or_eq_false_iff.1 hFalse.symm
    obtain rfl | hMem := mem_cons.1 hMem
    · exact hOne
    · exact ih hOthers hMem

namespace Reading

variable {m : Reading} {required : Restriction} {id : NodeId} {t : Template} {depth : Nat}

theorem Fulfils.demands_of_false (h : m.Fulfils true depth required id false) (hView : m.view id = some t)
    (hRestricted : required ≠ .unrestricted) :
    ∃ depth' duty, depth = depth' + 1 ∧ t.ifPresent = false ∧ m.Demands id t required duty ∧
      duty.objection = false ∧ AnyOf (m.Fulfils true depth') duty.parts false := by
  cases depth with
  | zero => exact h.elim
  | succ depth =>
    obtain ⟨duty, others, hOwes, hQuiet, hOthers, hFalse⟩ := h
    obtain ⟨-, rfl⟩ := Bool.or_eq_false_iff.1 hFalse.symm
    rw [Owes, if_neg hRestricted] at hOwes
    obtain ⟨t', inner, hView', hDemands, rfl⟩ := hOwes
    cases hView.symm.trans hView'
    have hObjection := hQuiet rfl
    simp only [Bool.or_eq_false_iff] at hObjection
    exact ⟨depth, inner, rfl, hObjection.1.1, hDemands, hObjection.2, hOthers⟩

section

variable (hRequired : required = .present ∨ required = .value) {duty : Duty}

include hRequired

theorem objects_to_omit {env : Env}
    (hAdmits : t.AdmitsOmit env) (hValue : ¬ t.WritesOmit env) (hNot : t.ifPresent = false)
    (hDemands : m.Demands id t required duty) : duty.objection = true := by
  obtain hForm | hForm | hIfPresent | hWrites := hAdmits
  · obtain rfl | rfl := hRequired <;> simp [Demands, DemandsPresent, DemandsValues, hForm] at hDemands <;>
      simp [hDemands]
  · obtain rfl | rfl := hRequired <;> simp [Demands, DemandsPresent, DemandsValues, hForm] at hDemands <;>
      simp [hDemands]
  · rw [hNot] at hIfPresent
    cases hIfPresent
  · exact absurd hWrites hValue

theorem holds_alternatives {items : List NodeId}
    (hForm : t.form = .list .valueList items) (hDemands : m.Demands id t required duty)
    (hObjection : duty.objection = false) : duty.parts = holdAll required items := by
  obtain rfl | rfl := hRequired
  · simp only [Demands, if_pos, DemandsPresent, hForm] at hDemands
    rw [hDemands]
  · simp [Demands, DemandsValues, hForm, Form.variant] at hDemands
    simp [hDemands] at hObjection

theorem demands_reference {r : Reference} {known : Option NodeId} (hForm : t.form = .referenced r known)
    (hDemands : m.Demands id t required duty) : m.Refers id r required duty := by
  obtain rfl | rfl := hRequired
  · simpa [Demands, DemandsPresent, hForm] using hDemands
  · simpa [Demands, DemandsValues, hForm] using hDemands

end

end Reading

namespace Session

variable {s : Session} {id : NodeId}

theorem Offers.mono {kind kind' : Template → Prop}
    (hKind : ∀ t, kind t → kind' t) (h : s.Offers kind id) : s.Offers kind' id := by
  induction h with
  | self hNode hLeaf => exact .self hNode (hKind _ hLeaf)
  | alternative hNode hForm hMem _ ih => exact .alternative hNode hForm hMem ih
  | reference hNode hForm hTarget hTemplate hLast _ ih =>
    exact .reference hNode hForm hTarget hTemplate hLast ih

theorem Offers.writes_omit (h : s.Offers (·.AdmitsOmit s.env) id)
    {required : Restriction} (hRequired : required = .present ∨ required = .value) {depth : Nat}
    (hFulfils : (s.store.reading s.env).Fulfils true depth required id false) : s.Offers (·.WritesOmit s.env) id := by
  have hRestricted : required ≠ .unrestricted := by obtain rfl | rfl := hRequired <;> decide
  induction h generalizing depth with
  | @self id t hNode hAdmits =>
    obtain ⟨_, duty, -, hNot, hDemands, hObjection, -⟩ := hFulfils.demands_of_false hNode hRestricted
    by_cases hWrites : t.WritesOmit s.env
    · exact .self hNode hWrites
    · have hObjects := objects_to_omit hRequired hAdmits hWrites hNot hDemands
      rw [hObjection] at hObjects
      cases hObjects
  | @alternative id item t items hNode hForm hMem _ ih =>
    obtain ⟨depth', duty, -, -, hDemands, hObjection, hParts⟩ := hFulfils.demands_of_false hNode hRestricted
    rw [holds_alternatives hRequired hForm hDemands hObjection] at hParts
    exact .alternative hNode hForm hMem (ih (hParts.of_false (mem_map.2 ⟨item, hMem, rfl⟩)))
  | @reference id last t r known definition hNode hForm hTarget hTemplate hLast _ ih =>
    refine .reference hNode hForm hTarget hTemplate hLast ?_
    obtain ⟨depth', duty, -, -, hDemands, -, hParts⟩ := hFulfils.demands_of_false hNode hRestricted
    obtain ⟨definition', hTarget', hRefers⟩ := demands_reference hRequired hForm hDemands
    cases hTarget.symm.trans hTarget'
    rw [if_pos hTemplate] at hRefers
    obtain ⟨last', hEnd, rfl⟩ := hRefers
    obtain ⟨_, hLast', -, rfl, -⟩ := run_of_attains
      (Reading.attains_lastTemplate hEnd (matches_reading s.store s.env).toAgrees)
    cases hLast.symm.trans hLast'
    by_cases hSelf : last = id
    · subst hSelf
      exact ih hFulfils
    · rw [if_neg hSelf] at hParts
      exact ih (anyOf_singleton.1 hParts)

/-- A template that passes silently, with nothing left to verify at run time, matches omit only where omit is
written as a value. -/
theorem restriction_keeps_omit_out (s : Session) (use : RestrictedUse) (depth : Nat) (id : NodeId)
    {required : Restriction} (hRequired : required = .present ∨ required = .value)
    (hEnds : (s.run (restrictWithin use depth id required)).1 = .ok false)
    (hSilent : (s.run (restrictWithin use depth id required)).2.report.diagnostics = s.report.diagnostics) :
    s.Offers (·.AdmitsOmit s.env) id ↔ s.Offers (·.WritesOmit s.env) id := by
  constructor
  · intro hOffers
    have hCounters := (s.run_evolves (restrictWithin use depth id required)).report.counters_of_notes
      (hSilent.trans (append_nil _).symm) (by simp)
    have hReturns := (Reading.determines_restrictWithin Reading.followsAll_quiet use depth id required).returns
      (Reading.matches_reading s.store s.env)
    obtain ⟨hFulfils, -⟩ := of_run_of_returns hReturns hEnds fun _ => hCounters
    exact hOffers.writes_omit hRequired hFulfils
  · exact .mono fun _ hWrites => .inr (.inr (.inr hWrites))

/-- A value list of a number and a reference to a template that is omit, written as a value. -/
def omitAmongAlternatives : Session where
  definitions := ⟨[.ofBody "nothing" 1 0]⟩
  store := .ofForms [.specific .omitted, .ofInteger 3, .following "nothing" 0,
    .list .valueList [1, 2]]

theorem restriction_keeps_omit_out_alternatives :
    omitAmongAlternatives.Offers (·.AdmitsOmit omitAmongAlternatives.env) 3 ↔
      omitAmongAlternatives.Offers (·.WritesOmit omitAmongAlternatives.env) 3 :=
  restriction_keeps_omit_out omitAmongAlternatives ⟨"t", {}⟩ 3 3 (.inl rfl) (by rfl) (by rfl)

/-- Omit, written as a value, passes under every restriction. -/
def omitAsValue : Session where
  store := .ofForms [.specific .omitted]

theorem omit_as_value_passes :
    omitAsValue.Offers (·.AdmitsOmit omitAsValue.env) 0 ∧
      ∀ required : Restriction, (omitAsValue.run (restrictWithin ⟨"t", {}⟩ 1 0 required)).1 = .ok false ∧
        (omitAsValue.run (restrictWithin ⟨"t", {}⟩ 1 0 required)).2.report.diagnostics =
          omitAsValue.report.diagnostics := by
  constructor
  · exact .self rfl (.inr (.inr (.inr ⟨.omitted, rfl, rfl⟩)))
  · intro required
    cases required <;> exact ⟨rfl, rfl⟩

end Session

end TemplateCheck
