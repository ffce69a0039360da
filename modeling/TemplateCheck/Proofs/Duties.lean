import TemplateCheck.Proofs.Chains

/-!
# What a restriction demands

A node held to a restriction demands checks of other nodes: of its parts, of the fields it inherits, of what
it refers to. They are told here without a run, as far as all chains of references on the way have an end. A
check needs a verification at run time if the node itself does or one of those checks.
-/

namespace TemplateCheck

structure Duty where
  /-- Checks of other nodes, in order. -/
  parts : List (Restriction × NodeId) := []
  /-- The restriction has to be verified at run time, whatever the other checks tell. -/
  runtime : Bool := false
  /-- Something is reported that concerns the node itself. -/
  objection : Bool := false

def AnyOf (holds : Restriction → NodeId → Bool → Prop) : List (Restriction × NodeId) → Bool → Prop
  | [], b => b = false
  | (required, id) :: parts, b =>
    ∃ one others, holds required id one ∧ AnyOf holds parts others ∧ b = (one || others)

def holdAll (required : Restriction) (ids : List NodeId) : List (Restriction × NodeId) :=
  ids.map fun id => (required, id)

def unseen : List String → List NamedEntry → List String × List NodeId
  | seen, [] => (seen, [])
  | seen, entry :: entries =>
    if entry.name ∈ seen then unseen seen entries
    else ((unseen (entry.name :: seen) entries).1, entry.template :: (unseen (entry.name :: seen) entries).2)

def Env.inadequate (env : Env) (definition : Definition) (r : Reference) (required : Restriction) : Bool :=
  let declared := definition.kind.restriction?.getD .unrestricted
  let throughOptional :=
    ((definition.type.bind (env.types.part? · r.path)).map (·.throughOptional)).getD false
  (declared.ofPart throughOptional).weakerThan required

def DefKind.declares : DefKind → Bool
  | .moduleParTemplate | .varTemplate _ | .templateParam .. | .function _ | .externalFunction _ => true
  | _ => false

def DefKind.isExternalFunction : DefKind → Bool
  | .externalFunction _ => true
  | _ => false

namespace Reading

variable (m : Reading)

def Supplies (further : List String → NodeId → List NodeId → Bool → Prop) (seen : List String)
    (t : Template) (ids : List NodeId) (wildcard : Bool) : Prop :=
  match t.form with
  | .named entries =>
    match t.base with
    | some base =>
      ∃ others, further (unseen seen entries).1 base others wildcard ∧ ids = (unseen seen entries).2 ++ others
    | none => ids = (unseen seen entries).2 ∧ wildcard = false
  | .anyValue | .anyOrOmit => ids = [] ∧ wildcard = true
  | _ => ids = [] ∧ wildcard = false

/-- The fields that a chain of at most `depth` bases supplies, as long as fewer than `needed` names are
seen. -/
def Inherits (needed : Nat) : Nat → List String → NodeId → List NodeId → Bool → Prop
  | 0, _, _, _, _ => False
  | depth + 1, seen, id, ids, wildcard =>
    if needed ≤ seen.length then ids = [] ∧ wildcard = false
    else
      ∃ last t, m.EndsAt id last ∧ m.view last = some t ∧ Supplies (Inherits needed depth) seen t ids wildcard

def LeftToBases (t : Template) (entries : List NamedEntry) (ids : List NodeId) (wildcard : Bool) : Prop :=
  match t.base, t.governor with
  | some base, some governor =>
    if m.env.types.fieldCount governor = 0 then ids = [] ∧ wildcard = false
    else
      m.Inherits (m.env.types.fieldCount governor) m.walk (entries.map (·.name)).eraseDups base ids wildcard
  | _, _ => ids = [] ∧ wildcard = false

def Refers (id : NodeId) (r : Reference) (required : Restriction) (duty : Duty) : Prop :=
  ∃ definition, m.env.definitions.target? r = some definition ∧
    if definition.kind.template?.isSome then
      ∃ last, m.EndsAt id last ∧ duty = if last = id then {} else { parts := [(required, last)] }
    else if definition.kind.declares then
      duty =
        { runtime := definition.kind.isExternalFunction || m.env.inadequate definition r required
          objection := m.env.inadequate definition r required }
    else duty = {}

def Excludes : List NodeId → Bool → Prop
  | [], b => b = false
  | item :: items, b =>
    ∃ t, m.view item = some t ∧ if t.form.excludesOmit then b = true else Excludes items b

def DemandsValues (id : NodeId) (t : Template) (required : Restriction) (duty : Duty) : Prop :=
  match t.form with
  | .erroneous | .specific _ | .invoke .. => duty = {}
  | .notUsed =>
    match t.base with
    | some base => duty = { parts := [(required, base)] }
    | none => duty = { runtime := true }
  | .referenced r _ => m.Refers id r required duty
  | .list .positional items => duty = { parts := holdAll .valueOrOmit items }
  | .named entries =>
    ∃ ids wildcard, m.LeftToBases t entries ids wildcard ∧
      duty = { parts := holdAll .valueOrOmit (entries.map (·.template) ++ ids), objection := wildcard }
  | .indexed entries => duty = { parts := holdAll .valueOrOmit (entries.map (·.template)), runtime := true }
  | .concat left right => duty = { parts := holdAll required [left, right] }
  | form => duty = { objection := !(form.variant = .omitted && required = .valueOrOmit) }

def DemandsPresent (id : NodeId) (t : Template) (duty : Duty) : Prop :=
  match t.form with
  | .referenced r _ => m.Refers id r .present duty
  | .list .valueList items => duty = { parts := holdAll .present items }
  | .list .complemented items =>
    if m.env.settings.omitInValueLists then
      ∃ excludes, m.Excludes items excludes ∧ duty = { runtime := true, objection := !excludes }
    else duty = { runtime := true }
  | .omitted | .anyOrOmit => duty = { objection := true }
  | .concat left right => duty = { parts := holdAll .present [left, right] }
  | _ => duty = {}

def Demands (id : NodeId) (t : Template) (required : Restriction) (duty : Duty) : Prop :=
  if required = .present then m.DemandsPresent id t duty else m.DemandsValues id t required duty

def Owes (required : Restriction) (id : NodeId) (duty : Duty) : Prop :=
  if required = .unrestricted then duty = {}
  else
    ∃ t inner, m.view id = some t ∧ m.Demands id t required inner ∧ duty = { inner with
        objection := t.ifPresent || (t.length.isSome && required ≠ .present) || inner.objection }

/-- The result of a check that descends at most `depth` levels. Nothing may be reported if it has to be
quiet. -/
def Fulfils (quiet : Bool) : Nat → Restriction → NodeId → Bool → Prop
  | 0, _, _, _ => False
  | depth + 1, required, id, b =>
    ∃ duty others, m.Owes required id duty ∧ (quiet → duty.objection = false) ∧
      AnyOf (Fulfils quiet depth) duty.parts others ∧ b = (duty.runtime || others)

/-! A node has one duty only, because a chain has one end only. -/

section Functional

variable {m : Reading} {id : NodeId} {t : Template} {required : Restriction} {duty duty' : Duty} {seen : List String}
  {ids ids' : List NodeId} {w w' : Bool}

theorem Supplies.eq {further : List String → NodeId → List NodeId → Bool → Prop}
    (hFurther : ∀ seen id ids ids' w w', further seen id ids w → further seen id ids' w' → ids = ids' ∧ w = w')
    (h : Supplies further seen t ids w) (h' : Supplies further seen t ids' w') : ids = ids' ∧ w = w' := by
  obtain ⟨form, _, _, _, base⟩ := t
  cases form with
  | named entries =>
    cases base with
    | none => exact ⟨h.1.trans h'.1.symm, h.2.trans h'.2.symm⟩
    | some base =>
      obtain ⟨others, hOthers, rfl⟩ := h
      obtain ⟨others', hOthers', rfl⟩ := h'
      obtain ⟨rfl, rfl⟩ := hFurther _ _ _ _ _ _ hOthers hOthers'
      exact ⟨rfl, rfl⟩
  | _ => exact ⟨h.1.trans h'.1.symm, h.2.trans h'.2.symm⟩

theorem Inherits.eq {needed depth : Nat}
    (h : m.Inherits needed depth seen id ids w) (h' : m.Inherits needed depth seen id ids' w') :
    ids = ids' ∧ w = w' := by
  induction depth generalizing seen id ids ids' w w' with
  | zero => exact h.elim
  | succ depth ih =>
    unfold Inherits at h h'
    split at h
    · rename_i hEnough
      rw [if_pos hEnough] at h'
      exact ⟨h.1.trans h'.1.symm, h.2.trans h'.2.symm⟩
    · rename_i hMore
      rw [if_neg hMore] at h'
      obtain ⟨last, t, hLast, hView, hSupplies⟩ := h
      obtain ⟨last', t', hLast', hView', hSupplies'⟩ := h'
      obtain rfl := hLast.eq hLast'
      cases hView.symm.trans hView'
      have hFurther : ∀ seen id ids ids' w w', m.Inherits needed depth seen id ids w →
          m.Inherits needed depth seen id ids' w' → ids = ids' ∧ w = w' :=
        fun _ _ _ _ _ _ => ih
      exact hSupplies.eq hFurther hSupplies'

theorem LeftToBases.eq {entries : List NamedEntry}
    (h : m.LeftToBases t entries ids w) (h' : m.LeftToBases t entries ids' w') : ids = ids' ∧ w = w' := by
  unfold LeftToBases at h h'
  split at h
  · split at h
    · simp_all
    · simp only [*, if_false] at h'
      exact h.eq h'
  · simp_all

theorem Refers.eq {r : Reference} (h : m.Refers id r required duty) (h' : m.Refers id r required duty') :
    duty = duty' := by
  obtain ⟨definition, hTarget, h⟩ := h
  obtain ⟨definition', hTarget', h'⟩ := h'
  cases hTarget.symm.trans hTarget'
  split at h
  · rename_i hTemplate
    rw [if_pos hTemplate] at h'
    obtain ⟨last, hLast, rfl⟩ := h
    obtain ⟨last', hLast', rfl⟩ := h'
    rw [hLast.eq hLast']
  · rename_i hTemplate
    rw [if_neg hTemplate] at h'
    split at h
    · rename_i hDeclares
      rw [if_pos hDeclares] at h'
      rw [h, h']
    · rename_i hDeclares
      rw [if_neg hDeclares] at h'
      rw [h, h']

theorem Excludes.eq {items : List NodeId} {b b' : Bool} (h : m.Excludes items b) (h' : m.Excludes items b') :
    b = b' := by
  induction items with
  | nil => exact Eq.trans h (Eq.symm h')
  | cons item items ih =>
    obtain ⟨t, hView, h⟩ := h
    obtain ⟨t', hView', h'⟩ := h'
    cases hView.symm.trans hView'
    split at h
    · rename_i hExcludes
      rw [if_pos hExcludes] at h'
      rw [h, h']
    · rename_i hExcludes
      rw [if_neg hExcludes] at h'
      exact ih h h'

theorem Demands.eq (h : m.Demands id t required duty) (h' : m.Demands id t required duty') : duty = duty' := by
  unfold Demands at h h'
  obtain ⟨form, _, _, _, base⟩ := t
  split at h
  · rename_i hPresent
    rw [if_pos hPresent] at h'
    cases form with
    | referenced r known => exact Refers.eq h h'
    | list shape items =>
      cases shape with
      | complemented =>
        simp only [DemandsPresent] at h h'
        split at h
        · rename_i hOmit
          rw [if_pos hOmit] at h'
          obtain ⟨excludes, hExcludes, rfl⟩ := h
          obtain ⟨excludes', hExcludes', rfl⟩ := h'
          rw [hExcludes.eq hExcludes']
        · rename_i hOmit
          rw [if_neg hOmit] at h'
          rw [h, h']
      | _ => exact Eq.trans h (Eq.symm h')
    | _ => exact Eq.trans h (Eq.symm h')
  · rename_i hValues
    rw [if_neg hValues] at h'
    cases form with
    | referenced r known => exact Refers.eq h h'
    | list shape items => cases shape <;> exact Eq.trans h (Eq.symm h')
    | notUsed => cases base <;> exact Eq.trans h (Eq.symm h')
    | named entries =>
      obtain ⟨ids, wildcard, hLeft, rfl⟩ := h
      obtain ⟨ids', wildcard', hLeft', rfl⟩ := h'
      obtain ⟨rfl, rfl⟩ := hLeft.eq hLeft'
      rfl
    | _ => exact Eq.trans h (Eq.symm h')

theorem Owes.eq (h : m.Owes required id duty) (h' : m.Owes required id duty') : duty = duty' := by
  unfold Owes at h h'
  split at h
  · rename_i hUnrestricted
    rw [if_pos hUnrestricted] at h'
    rw [h, h']
  · rename_i hRestricted
    rw [if_neg hRestricted] at h'
    obtain ⟨t, inner, hView, hDemands, rfl⟩ := h
    obtain ⟨t', inner', hView', hDemands', rfl⟩ := h'
    cases hView.symm.trans hView'
    rw [hDemands.eq hDemands']

end Functional

end Reading

end TemplateCheck
