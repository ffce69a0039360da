import TemplateCheck.Proofs.Chains.Following
import TemplateCheck.Proofs.Duties
import TemplateCheck.Proofs.Safety.Resolution

/-!
# Every node has a duty

What a restriction demands of a node is told only as far as chains of references end and bases come to an end.
In a well-formed store that is all there is to it: if every chain ends and no base leads back to itself, each
node has a duty under each restriction, and all nodes that it names exist.
-/

namespace TemplateCheck

open List Store

variable {s : Store} {env : Env} {id : NodeId} {t : Template} {seen : List String} {entries : List NamedEntry}

theorem mem_of_mem_unseen (h : id ∈ (unseen seen entries).2) : id ∈ entries.map (·.template) := by
  induction entries generalizing seen with
  | nil => cases h
  | cons entry entries ih =>
    unfold unseen at h
    split at h
    · exact mem_cons_of_mem _ (ih h)
    · obtain rfl | h := mem_cons.1 h
      · exact mem_cons_self
      · exact mem_cons_of_mem _ (ih h)

namespace Reading

def Imposes (m : Reading) (check next : Restriction × NodeId) : Prop :=
  ∃ duty, m.Owes check.1 check.2 duty ∧ next ∈ duty.parts

def Modifies (m : Reading) (id base : NodeId) : Prop :=
  ∃ last t, m.EndsAt id last ∧ m.view last = some t ∧ t.base = some base

variable {depth : Nat}

section Range

variable {last : NodeId} {required : Restriction} (hWell : s.WellFormed env.definitions)

include hWell

variable {ids : List NodeId} {wildcard : Bool}

theorem EndsAt.has (hHas : s.Has id) (hEnd : (s.reading env).EndsAt id last) : s.Has last := by
  obtain ⟨_, after, hRun, -, rfl, hLearns⟩ :=
    (attains_lastTemplate hEnd (matches_reading s env).toAgrees).run {}
  obtain ⟨-, hLast⟩ := follows_lastTemplate (F := ⟨True, fun _ => True⟩) s id hWell.backed hHas {} _ after hRun
  rwa [Has, ← hLearns.size_eq]

theorem Inherits.has {needed : Nat} (h : (s.reading env).Inherits needed depth seen id ids wildcard) (hHas : s.Has id) :
    ∀ other ∈ ids, s.Has other := by
  induction depth generalizing seen id ids wildcard with
  | zero => exact h.elim
  | succ depth ih =>
    unfold Inherits at h
    split at h
    · simp [h.1]
    · obtain ⟨last, t, hLast, hView, hSupplies⟩ := h
      have hEntries : ∀ entries, t.form = .named entries → ∀ other ∈ (unseen seen entries).2, s.Has other := by
        intro entries hForm other hMem
        apply hWell.backed.has_child hView
        rw [hForm]
        exact mem_of_mem_unseen hMem
      have hBase : ∀ base, t.base = some base → s.Has base := fun base => hWell.backed.has_base hView
      obtain ⟨form, _, _, _, base⟩ := t
      cases form with
      | named entries =>
        cases base with
        | none =>
          rw [hSupplies.1]
          exact hEntries entries rfl
        | some base =>
          obtain ⟨others, hOthers, rfl⟩ := hSupplies
          intro other hMem
          obtain hMem | hMem := mem_append.1 hMem
          · exact hEntries entries rfl other hMem
          · exact ih hOthers (hBase base rfl) other hMem
      | _ => simp [hSupplies.1]

theorem LeftToBases.has (h : (s.reading env).LeftToBases t entries ids wildcard) (hView : s.get? id = some t) :
    ∀ other ∈ ids, s.Has other := by
  unfold LeftToBases at h
  split at h
  · rename_i base governor hBase _
    split at h
    · simp [h.1]
    · exact h.has hWell (hWell.backed.has_base hView hBase)
  · simp [h.1]

theorem Demands.has {duty : Duty} (h : (s.reading env).Demands id t required duty) (hView : s.get? id = some t) :
    ∀ part ∈ duty.parts, s.Has part.2 := by
  have hChildren : ∀ (required : Restriction) (ids : List NodeId), ids ⊆ t.form.children →
      ∀ part ∈ holdAll required ids, s.Has part.2 := by
    intro required ids hSub part hMem
    obtain ⟨child, hChild, rfl⟩ := mem_map.1 hMem
    exact hWell.backed.has_child hView (hSub hChild)
  have hBase : ∀ base, t.base = some base → s.Has base := fun base => hWell.backed.has_base hView
  have hRefers : ∀ r, (s.reading env).Refers id r required duty → ∀ part ∈ duty.parts, s.Has part.2 := by
    rintro r ⟨definition, -, hRefers⟩
    split at hRefers
    · obtain ⟨last, hLast, rfl⟩ := hRefers
      split
      · simp
      · simpa using hLast.has hWell (has_of_get? hView)
    · split at hRefers <;> simp [hRefers]
  obtain ⟨form, _, _, _, base⟩ := t
  unfold Demands at h
  split at h
  · rename_i hPresent
    rw [hPresent] at hRefers
    cases form with
    | referenced r known => exact hRefers r h
    | concat left right =>
      obtain rfl := h
      exact hChildren _ _ (by simp [Form.children])
    | list shape items =>
      cases shape with
      | valueList =>
        obtain rfl := h
        exact hChildren _ _ (by simp [Form.children])
      | complemented =>
        simp only [DemandsPresent] at h
        split at h
        · obtain ⟨_, -, rfl⟩ := h
          simp
        · simp [h]
      | _ =>
        obtain rfl := h
        simp
    | _ =>
      obtain rfl := h
      simp
  · cases form with
    | referenced r known => exact hRefers r h
    | concat left right =>
      obtain rfl := h
      exact hChildren _ _ (by simp [Form.children])
    | notUsed =>
      cases base with
      | none =>
        obtain rfl := h
        simp
      | some base =>
        obtain rfl := h
        simpa using hBase base rfl
    | list shape items =>
      cases shape with
      | positional =>
        obtain rfl := h
        exact hChildren _ _ (by simp [Form.children])
      | _ =>
        obtain rfl := h
        simp
    | indexed entries =>
      obtain rfl := h
      exact hChildren _ _ (by simp [Form.children])
    | named entries =>
      obtain ⟨ids, wildcard, hLeft, rfl⟩ := h
      intro part hMem
      obtain ⟨other, hOther, rfl⟩ := mem_map.1 hMem
      obtain hOther | hOther := mem_append.1 hOther
      · exact hWell.backed.has_child hView hOther
      · exact hLeft.has hWell hView other hOther
    | _ =>
      obtain rfl := h
      simp

theorem Imposes.has {check next : Restriction × NodeId} (h : (s.reading env).Imposes check next) : s.Has next.2 := by
  obtain ⟨duty, hOwes, hMem⟩ := h
  unfold Owes at hOwes
  split at hOwes
  · rw [hOwes] at hMem
    cases hMem
  · obtain ⟨t, inner, hView, hDemands, rfl⟩ := hOwes
    exact hDemands.has hWell hView next hMem

end Range

/-! If all chains end and no base leads back to itself, every node has a duty. -/

section Total

theorem exists_excludes {items : List NodeId} (hHas : ∀ item ∈ items, s.Has item) :
    ∃ b, (s.reading env).Excludes items b := by
  induction items with
  | nil => exact ⟨false, rfl⟩
  | cons item items ih =>
    obtain ⟨t, hView⟩ := (hHas item mem_cons_self).exists_get?
    obtain ⟨b, hOthers⟩ := ih fun other hMem => hHas other (mem_cons_of_mem _ hMem)
    by_cases hExcludes : t.form.excludesOmit
    · exact ⟨true, t, hView, by rw [if_pos hExcludes]⟩
    · exact ⟨b, t, hView, by rwa [if_neg hExcludes]⟩

variable (hWell : s.WellFormed env.definitions) (hEnds : ∀ id, s.Has id → ∃ last, (s.reading env).EndsAt id last)

include hWell hEnds

theorem exists_refers {r : Reference} {known : Option NodeId} (hView : s.get? id = some t)
    (hForm : t.form = .referenced r known) (required : Restriction) :
    ∃ duty, (s.reading env).Refers id r required duty := by
  have hTarget := hWell.references id t r hView (by rw [hForm]; rfl)
  obtain ⟨definition, hTarget⟩ := Option.isSome_iff_exists.1 hTarget
  by_cases hTemplate : definition.kind.template?.isSome
  · obtain ⟨last, hLast⟩ := hEnds id (has_of_get? hView)
    refine ⟨if last = id then {} else { parts := [(required, last)] }, definition, hTarget, ?_⟩
    rw [if_pos hTemplate]
    exact ⟨last, hLast, rfl⟩
  · by_cases hDeclares : definition.kind.declares
    · refine ⟨{ runtime := definition.kind.isExternalFunction || env.inadequate definition r required
                objection := env.inadequate definition r required }, definition, hTarget, ?_⟩
      rw [if_neg hTemplate, if_pos hDeclares]
      rfl
    · refine ⟨{}, definition, hTarget, ?_⟩
      rw [if_neg hTemplate, if_neg hDeclares]

variable (hBases : ∀ id, ¬ Relation.TransGen (s.reading env).Modifies id id)

include hBases

theorem exists_inherits (needed : Nat) (path : List NodeId) (hNodup : path.Nodup)
    (hPath : ∀ other ∈ path, s.Has other ∧ Relation.TransGen (s.reading env).Modifies other id)
    (hLength : path.length + depth = s.size + 1) (hHas : s.Has id) :
    ∃ ids wildcard, (s.reading env).Inherits needed depth seen id ids wildcard := by
  induction depth generalizing seen id path with
  | zero =>
    have hLe := length_le_size hNodup fun other hMem => (hPath other hMem).1
    omega
  | succ depth ih =>
    by_cases hEnough : needed ≤ seen.length
    · exact ⟨[], false, by rw [Inherits, if_pos hEnough]; exact ⟨rfl, rfl⟩⟩
    obtain ⟨last, hLast⟩ := hEnds id hHas
    obtain ⟨t, hView⟩ := (hLast.has hWell hHas).exists_get?
    have hInherits : ∀ ids wildcard, Supplies ((s.reading env).Inherits needed depth) seen t ids wildcard →
        ∃ ids wildcard, (s.reading env).Inherits needed (depth + 1) seen id ids wildcard := by
      intro ids wildcard hSupplies
      refine ⟨ids, wildcard, ?_⟩
      rw [Inherits, if_neg hEnough]
      exact ⟨last, t, hLast, hView, hSupplies⟩
    -- The bases passed so far lead to this one, so it is none of them.
    have hFurther : ∀ base, t.base = some base → ∀ seen, ∃ ids wildcard,
        (s.reading env).Inherits needed depth seen base ids wildcard := by
      intro base hBase seen
      have hStep : (s.reading env).Modifies id base := ⟨last, t, hLast, hView, hBase⟩
      have hNew : id ∉ path := fun hMem => hBases id (hPath id hMem).2
      apply ih (id :: path) (List.nodup_cons.2 ⟨hNew, hNodup⟩) _ _ (hWell.backed.has_base hView hBase)
      · intro other hMem
        obtain rfl | hMem := mem_cons.1 hMem
        · exact ⟨hHas, .single hStep⟩
        · exact ⟨(hPath other hMem).1, (hPath other hMem).2.tail hStep⟩
      · rw [length_cons]
        omega
    obtain ⟨form, _, _, _, base⟩ := t
    cases form with
    | named entries =>
      cases base with
      | none => exact hInherits _ _ ⟨rfl, rfl⟩
      | some base =>
        obtain ⟨others, wildcard, hOthers⟩ := hFurther base rfl (unseen seen entries).1
        exact hInherits _ wildcard ⟨others, hOthers, rfl⟩
    | _ => exact hInherits _ _ ⟨rfl, rfl⟩

theorem exists_leftToBases (entries : List NamedEntry) (hView : s.get? id = some t) :
    ∃ ids wildcard, (s.reading env).LeftToBases t entries ids wildcard := by
  unfold LeftToBases
  split
  · rename_i base governor hBase _
    split
    · exact ⟨[], false, rfl, rfl⟩
    · exact exists_inherits hWell hEnds hBases _ [] nodup_nil (by simp) (by simp [reading])
        (hWell.backed.has_base hView hBase)
  · exact ⟨[], false, rfl, rfl⟩

theorem exists_demands (hView : s.get? id = some t) (required : Restriction) :
    ∃ duty, (s.reading env).Demands id t required duty := by
  have hRefers : ∀ r known, t.form = .referenced r known → ∀ required,
      ∃ duty, (s.reading env).Refers id r required duty :=
    fun r known hForm => exists_refers hWell hEnds hView hForm
  have hExcludes : ∀ items, t.form = .list .complemented items → ∃ b, (s.reading env).Excludes items b := by
    intro items hForm
    apply exists_excludes
    intro item hMem
    apply hWell.backed.has_child hView
    rw [hForm]
    exact hMem
  have hLeft := fun entries => exists_leftToBases hWell hEnds hBases entries hView
  unfold Demands
  obtain ⟨form, _, _, _, base⟩ := t
  split
  · cases form with
    | referenced r known => exact hRefers r known rfl _
    | list shape items =>
      cases shape with
      | complemented =>
        simp only [DemandsPresent]
        split
        · obtain ⟨excludes, hExcludes⟩ := hExcludes items rfl
          exact ⟨_, excludes, hExcludes, rfl⟩
        · exact ⟨_, rfl⟩
      | _ => exact ⟨_, rfl⟩
    | _ => exact ⟨_, rfl⟩
  · cases form with
    | referenced r known => exact hRefers r known rfl _
    | list shape items => cases shape <;> exact ⟨_, rfl⟩
    | notUsed => cases base <;> exact ⟨_, rfl⟩
    | named entries =>
      obtain ⟨ids, wildcard, hLeft⟩ := hLeft entries
      exact ⟨_, ids, wildcard, hLeft, rfl⟩
    | _ => exact ⟨_, rfl⟩

theorem exists_owes (hHas : s.Has id) (required : Restriction) : ∃ duty, (s.reading env).Owes required id duty := by
  unfold Owes
  split
  · exact ⟨_, rfl⟩
  · obtain ⟨t, hView⟩ := hHas.exists_get?
    obtain ⟨inner, hDemands⟩ := exists_demands hWell hEnds hBases hView required
    exact ⟨_, t, inner, hView, hDemands, rfl⟩

end Total

end Reading

end TemplateCheck
