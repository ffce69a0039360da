import TemplateCheck.Proofs.History
import TemplateCheck.Proofs.Safety.Node

/-!
# Safe histories

A session is well-formed if its store is. Whatever is done with nodes and definitions that exist, a
well-formed session stays well-formed, and no operation ends in a fault unless it walks along a cycle
of links or descends deeper than it may. A check of a restriction may come to any node, so none is guarded.
-/

namespace TemplateCheck

open Store

variable {env : Env} {ids : List NodeId} {s : Store}

abbrev Open (env : Env) (ids : List NodeId) (s : Store) : Prop :=
  Ready 0 (fun _ => False) ⟨env.definitions, True⟩ ids s

theorem Store.Backed.isOpen (h : s.Backed ⟨env.definitions, True⟩) (hHas : ∀ id ∈ ids, s.Has id) : Open env ids s :=
  ⟨h, nofun, hHas, fun _ _ _ => nofun, Nat.zero_le _⟩

def RestrictsSafely (deep : Store → Prop) (env : Env) (restrict : RestrictionCheck) : Prop :=
  ∀ s id required, Open env [id] s → Safe (fun _ => False) ⟨True, deep⟩ env s (restrict id required)

theorem restricts_stays (deep : Store → Prop) (size : Nat) : (Naming.below env size).Restricts
    (Secure (Stays ⟨env.definitions, True⟩ fun _ => False) ⟨True, deep⟩ env (Open env []) size) where
  toReports := (steady_ready ⟨env.definitions, True⟩).reports size
  endless hx _ _ _ := by
    rw [hx () trivial]
    exact .endlessWalk trivial
  undefined hNot := absurd trivial hNot
  sizes_then hf s h hs := quiet_currentStore.bind_runs fun _ hSame =>
    hSame ▸ hf (fun _ => s) _ (fun _ => ⟨Nat.le_refl _, fun _ => rfl⟩) s h hs
  lastTemplate {id} hId s h hs := by
    subst hs
    have hLast : Checks (fun _ => False) ⟨True, deep⟩ env s (lastTemplate id) _ := checks_lastTemplate h.backed hId
    refine (hLast.stays id (pursuing_lastTemplate s id).alters).mono ?_
    exact fun last s' hStays hLast => ⟨last, hStays.2 ▸ hLast, rfl⟩
  mark {id} hId s h hs := by
    subst hs
    have hReady : Open env [id] s := h.backed.isOpen (List.forall_mem_singleton.2 hId)
    exact (hReady.mark (F := ⟨True, deep⟩) (by simp) _).secured (steps_mark nofun)

theorem secure_restrictWithin (use : RestrictedUse) (depth : Nat) {size : Nat} (id : NodeId) (required : Restriction)
    (hId : id.index < size) : Agreed (Secure (Stays ⟨env.definitions, True⟩ fun _ => False)
      ⟨True, fun _ => True⟩ env (Open env []) size) fun _ => restrictWithin use depth id required := by
  induction depth generalizing id required with
  | zero => exact fun _ _ _ => .tooDeep trivial
  | succ depth ih =>
    exact (restricts_stays _ size).restrictStep (r := fun _ => restrictWithin use depth) ih use hId required

theorem restrictsSafely_restrictWithin (use : RestrictedUse) (depth : Nat) :
    RestrictsSafely (fun _ => True) env (restrictWithin use depth) := by
  intro s id required h
  refine ((secure_restrictWithin use depth id required h.head s (h.subset (by simp)) rfl).weaken
    fun _ hStays => hStays.1).mono fun _ _ _ _ => trivial

open List

variable {depth : Nat} {α : Type} {R : Store → Store → Prop} {F : Allowance} {id : DefId} {x : CheckM α}
  {Q : α → Store → Prop}

def Definitions.Restricts (defs : Definitions) : Prop :=
  ∃ d ∈ defs.entries, ∃ template, d.kind.template? = some template ∧ template.restriction ≠ .unrestricted

def Unfinished (depth : Nat) (env : Env) (s : Store) : Prop :=
  Exhausted depth env s ∨ env.definitions.Restricts

theorem Runs.withCurrent (d : DefId) (h : Runs R F { env with current := some d } s x Q) :
    Runs R F env s (withReader ({ · with current := some d }) x) Q :=
  h

theorem checks_checkDefinition (h : s.WellFormed env.definitions) (hId : (env.definitions.get? id).isSome) :
    Safe (fun _ => False) ⟨True, Unfinished depth env⟩ env s (checkDefinition depth id) := by
  obtain ⟨definition, hGet⟩ := Option.isSome_iff_exists.1 hId
  have hMem : definition ∈ env.definitions.entries := mem_of_getElem? hGet
  unfold checkDefinition
  apply Runs.read_then
  rw [hGet]
  dsimp only
  split
  · rename_i template hTemplate
    have hBody := h.bodies definition hMem template hTemplate
    have hOpen : Open env [template.body] s := h.backed.isOpen (by simpa using hBody)
    have hCheck : ChecksSafely 0 ⟨True, Exhausted depth env⟩ { env with current := some id } (checkWithin depth) :=
      checksSafely_checkWithin depth (Nat.le_refl _)
    have hInline := checks_checkInline trivial hCheck definition.type
      (show Open { env with current := some id } [(template.inline definition.span).body] s from hOpen)
    refine hOpen.bind ((hInline.withCurrent id).permit fun _ => .inl) fun outcome s1 _ h1 _ => ?_
    refine Runs.finish (.onlyIf fun hDeclared => ?_)
    have hUnfinished : ∀ s', True → Unfinished depth env s' := fun _ _ =>
      .inr ⟨definition, hMem, template, hTemplate, by simp_all⟩
    have hRestrict := restrictsSafely_restrictWithin ⟨definition.description, definition.span⟩ depth s1
      template.body template.restriction h1
    exact (hRestrict.permit hUnfinished).finish
  · exact .pure trivial

theorem Definitions.exists_of_mem_templates {defs : Definitions} (h : id ∈ defs.templates) : (defs.get? id).isSome := by
  obtain ⟨⟨definition, position⟩, hEntry, rfl⟩ := mem_map.1 h
  obtain ⟨hLt, hGet⟩ := mem_zipIdx' (mem_filter.1 hEntry).1
  simpa [get?] using hLt

theorem Definitions.length_templates (defs : Definitions) :
    defs.templates.length = defs.entries.countP (·.kind.template?.isSome) := by
  rw [templates, length_map, ← countP_eq_length_filter]
  nth_rewrite 2 [← zipIdx_map_fst 0 defs.entries]
  rw [countP_map]
  rfl

theorem checks_checkModule (h : s.WellFormed env.definitions) :
    Checks (fun _ => False) ⟨True, Unfinished depth env⟩ env s (checkModule depth) fun count _ =>
      count = env.definitions.entries.countP (·.kind.template?.isSome) := by
  apply Runs.read_then
  refine Runs.bind (.forM fun id hId s' hReaches => ?_) fun _ _ _ _ =>
    .pure env.definitions.length_templates
  exact (checks_checkDefinition (hReaches.wellFormed h) (Definitions.exists_of_mem_templates hId)).bind
    fun _ _ _ _ => .pure trivial

/-- The nodes and definitions that an operation is given exist. -/
def Operation.InRange (s : Session) : Operation → Prop
  | .check id _ _ | .flatten id | .checkRestriction _ id _ | .lastTemplate id | .copy id => s.store.Has id
  | .checkInline inline _ | .bindGovernor inline _ => s.store.Has inline.body
  | .checkDefinition id => (s.definitions.get? id).isSome
  | .checkModule => True
  | .addTemplate t => (∀ link ∈ t.links, s.store.Has link) ∧
      ∀ r, t.form.reference? = some r → (s.definitions.target? r).isSome

def Operation.Restricts (defs : Definitions) : Operation → Prop
  | .checkDefinition _ | .checkModule => defs.Restricts
  | .checkRestriction .. => True
  | _ => False

namespace Session

variable {s : Session}

def WellFormed (s : Session) : Prop := s.store.WellFormed s.definitions

structure Performed (s : Session) (depth : Nat) (op : Operation) (fault? : Option Fault) (after : Session) : Prop where
  wellFormed : after.WellFormed
  faults : ∀ fault, fault? = some fault →
    fault = .endlessWalk ∨ fault = .tooDeep ∧ (Exhausted depth s.env after.store ∨ op.Restricts s.definitions)

theorem run_of_runs (h : Runs R F s.env s.store x Q) : R s.store (s.run x).2.store ∧
      ((∃ a, (s.run x).1 = .ok a ∧ Q a (s.run x).2.store) ∨ (s.run x).1 = .error .endlessWalk ∨
        (s.run x).1 = .error .tooDeep ∧ F.deep (s.run x).2.store) := by
  rcases hRun : (x s.env).run ⟨s.store, s.report⟩ with ⟨result, after⟩
  obtain ⟨hR, hEnd⟩ := h s.report result after hRun
  rw [run_of_run hRun]
  refine ⟨hR, ?_⟩
  cases result with
  | ok a => exact .inl ⟨a, rfl, hEnd⟩
  | error fault =>
    obtain ⟨rfl, -⟩ | ⟨rfl, hB⟩ := hEnd
    · exact .inr (.inl rfl)
    · exact .inr (.inr ⟨rfl, hB⟩)

theorem performed_of_runs {op : Operation} (hWell : s.WellFormed)
    (h : Runs (Reaches ⟨s.definitions, True⟩ fun _ => False) F s.env s.store x Q)
    (hB : ∀ s', F.deep s' → Exhausted depth s.env s' ∨ op.Restricts s.definitions) :
    s.Performed depth op (ended (s.run x)).1 (ended (s.run x)).2 := by
  obtain ⟨hReaches, hEnd⟩ := run_of_runs h
  rw [ended_snd]
  refine ⟨hReaches.wellFormed hWell, fun fault hFault => ?_⟩
  rw [ended_fst_eq_some] at hFault
  rw [hFault] at hEnd
  obtain ⟨a, hOk, -⟩ | hEndless | ⟨hDeep, hSpent⟩ := hEnd
  · cases hOk
  · cases hEndless
    exact .inl rfl
  · cases hDeep
    exact .inr ⟨rfl, hB _ hSpent⟩

theorem performed_performWithin (depth : Nat) (op : Operation) (h : s.WellFormed) (hRange : op.InRange s) :
    s.Performed depth op (s.performWithin depth op).1 (s.performWithin depth op).2 := by
  have hWell : s.store.WellFormed s.env.definitions := h
  have hOpen : ∀ id, s.store.Has id → Open s.env [id] s.store := fun id hHas =>
    hWell.backed.isOpen (by simpa using hHas)
  have hCheck : ChecksSafely 0 ⟨True, Exhausted depth s.env⟩ s.env (checkWithin depth) :=
    checksSafely_checkWithin depth (Nat.le_refl _)
  cases op with
  | check id governor site =>
    exact performed_of_runs h (hCheck _ _ id governor site (hOpen id hRange)) fun _ => .inl
  | checkInline inline expected =>
    exact performed_of_runs h (checks_checkInline trivial hCheck expected (hOpen _ hRange)) fun _ => .inl
  | checkDefinition id => exact performed_of_runs h (checks_checkDefinition hWell hRange) fun _ hB => hB
  | checkModule => exact performed_of_runs h (checks_checkModule hWell) fun _ hB => hB
  | bindGovernor inline expected =>
    exact performed_of_runs h (checks_bindGovernor (F := ⟨True, fun _ => False⟩) trivial expected (hOpen _ hRange))
      fun _ => nofun
  | flatten id =>
    exact performed_of_runs h (checks_flattenWithin (Nat.le_succ depth) (hOpen id hRange)) fun _ => .inl
  | checkRestriction use id required =>
    exact performed_of_runs h (restrictsSafely_restrictWithin use depth _ id required (hOpen id hRange))
      fun _ _ => .inr trivial
  | lastTemplate id =>
    exact performed_of_runs h (checks_lastTemplate (F := ⟨True, fun _ => False⟩) hWell.backed hRange) fun _ => nofun
  | copy id =>
    exact performed_of_runs h (runs_onStore (F := ⟨True, fun _ => False⟩) (deepCopy_runs hWell.backed hRange))
      fun _ => nofun
  | addTemplate t => exact ⟨(hWell.backed.push hRange.1 hRange.2 (.inl trivial)).wellFormed trivial, nofun⟩

/-- Operations of a history are given nodes and definitions that exist when their turn comes. -/
def InRangeAlong (s : Session) : List (Nat × Operation) → Prop
  | [] => True
  | (depth, op) :: history => op.InRange s ∧ (s.performWithin depth op).2.InRangeAlong history

@[simp] theorem performWithin_definitions (s : Session) (depth : Nat) (op : Operation) :
    (s.performWithin depth op).2.definitions = s.definitions := by
  cases op <;> simp [performWithin, run]

@[simp] theorem after_definitions (s : Session) (history : List (Nat × Operation)) :
    (s.after history).definitions = s.definitions := by
  induction history generalizing s with
  | nil => rfl
  | cons entry history ih => exact (ih _).trans (s.performWithin_definitions entry.1 entry.2)

theorem after_wellFormed {history : List (Nat × Operation)} (h : s.WellFormed)
    (hRange : s.InRangeAlong history) : (s.after history).WellFormed := by
  induction history generalizing s with
  | nil => exact h
  | cons entry history ih =>
    exact ih (performed_performWithin entry.1 entry.2 h hRange.1).wellFormed hRange.2

/-- From a well-formed session, any history leads to a well-formed session, where no operation ends in
a fault unless it does not come to an end. -/
theorem history_safe (s : Session) (h : s.WellFormed) (history : List (Nat × Operation))
    (hRange : s.InRangeAlong history) :
    (s.after history).WellFormed ∧
    (∀ depth op, op.InRange (s.after history) →
      ((s.after history).performWithin depth op).2.WellFormed ∧
      ∀ fault, ((s.after history).performWithin depth op).1 = some fault →
        fault = .endlessWalk ∨ fault = .tooDeep) ∧
    (∀ id, (s.after history).store.Has id → ∃ new, ((s.after history).copy id).1 = .ok new) ∧
    ∀ depth, let result := ((s.after history).run (TemplateCheck.checkModule depth)).1
      result = .ok (s.definitions.entries.countP (·.kind.template?.isSome)) ∨
        result = .error .endlessWalk ∨ result = .error .tooDeep := by
  have hAfter := after_wellFormed h hRange
  refine ⟨hAfter, fun depth op hOp => ?_, fun id hHas => ?_, fun depth => ?_⟩
  · have hPerformed := performed_performWithin depth op hAfter hOp
    exact ⟨hPerformed.wellFormed, fun fault hFault => (hPerformed.faults fault hFault).imp_right And.left⟩
  · obtain ⟨-, hEnd⟩ := deepCopy_runs (WellFormed.backed hAfter) hHas _ _ rfl
    split at hEnd
    · rename_i new hNew
      exact ⟨new, hNew⟩
    · exact hEnd.elim
  · have hModule : Checks (fun _ => False) _ (s.after history).env _ (TemplateCheck.checkModule depth) _ :=
      checks_checkModule hAfter
    obtain ⟨-, ⟨count, hOk, hCount⟩ | hEndless | ⟨hDeep, -⟩⟩ := run_of_runs hModule
    · have hDefinitions : (s.after history).env.definitions = s.definitions := s.after_definitions history
      exact .inl (by rw [hOk, hCount, hDefinitions])
    · exact .inr (.inl hEndless)
    · exact .inr (.inr hDeep)

def spliced : Session where
  types := .numbers
  definitions := ⟨[.ofBody "few" 2 2,
    ⟨"more", some 2, .template { body := 5, restriction := .value }, {}⟩]⟩
  store := .ofForms [.ofInteger 1, .ofInteger 2, .ofItems [0, 1],
    .ofName "few" 0, .allFrom 3, .ofItems [4, 0]]

theorem history_safe_spliced :
    let history := [(4, .checkModule), (0, .copy 6), (4, .check 8 1 {})]
    spliced.WellFormed ∧ spliced.InRangeAlong history ∧ (spliced.after history).WellFormed ∧
      (∃ new, ((spliced.after history).copy 5).1 = .ok new) := by
  have hWell : spliced.WellFormed := Ordered.wellFormed (by decide)
  have hRange : spliced.InRangeAlong [(4, .checkModule), (0, .copy 6), (4, .check 8 1 {})] :=
    ⟨trivial, (by decide +kernel : Has _ _), (by decide +kernel : Has _ _), trivial⟩
  obtain ⟨hAfter, -, hCopy, -⟩ := history_safe spliced hWell _ hRange
  exact ⟨hWell, hRange, hAfter, hCopy 5 (by decide +kernel)⟩

end Session

end TemplateCheck
