import TemplateCheck.Proofs.Locality.Check
import TemplateCheck.Proofs.Spotless.Splice

/-!
# No node is given up in silence

Every check gives up nodes only after it has reported an error, apart from slots whose targets cannot be traced.
So if a session starts spotless and an operation reports no error, the session ends spotless.
-/

namespace TemplateCheck

open List

variable {α : Type}

section Nodes

variable {id : NodeId}

theorem tidy_fillOmitted (id : NodeId) (entries : List NamedEntry) (fields : List FieldDecl) :
    Tidy (fillOmitted id entries fields) := by
  apply Tidy.ite (.pure ())
  apply Tidy.node_then
  intro t _
  have hOmit : ∀ type, Tidy (onStore (Store.alloc (implicitOmit type t.span))) := fun _ => .alloc nofun nofun
  apply (Tidy.mapM fun field : FieldDecl => (hOmit field.type).bind fun _ => .pure _).bind
  exact fun filled => .replaceForm nofun nofun rfl

theorem Form.cited?_of_mentions {form : Form} (h : form.mentions = []) : form.cited? = none := by
  cases form with
  | specific value => cases value <;> first | rfl | cases h
  | referenced => cases h
  | _ => rfl

theorem Own.tidy {x : CheckM α} (h : Own id x) : Tidy x := by
  cases h with
  | recognizeReference => exact tidy_recognizeReference id
  | mark => exact .mark id _
  | giveUp span p => exact .problem_then span p _
  | giveUpWith left right => exact .isErroneous_then (.isErroneous_then (.pure _))
  | become hIntact hChildren hMentions =>
    refine .replaceForm hIntact ?_ (Form.cited?_of_mentions hMentions)
    rintro target rfl
    cases hChildren
  | linkBase | inheritBase => exact .modifyNode fun _ h => .of_eq h rfl

theorem checking_tidy : Checking (fun _ => True) (fun _ => True) fun {_} (x : Unit → CheckM _) => Tidy (x ()) where
  still hx := .of_still hx
  bind hx hf := hx.bind hf
  inside c hx := hx.inside c
  formOf_then _ hf := .still_then (.formOf _) fun form => hf form fun _ _ => trivial
  lastTemplate := tidy_lastTemplate
  basePart := tidy_basePart
  own h _ := h.tidy
  govern type _ := .govern _ type
  name _ _ := .replaceForm nofun nofun rfl
  fillOmitted fields _ _ := tidy_fillOmitted _ _ fields

theorem tidy_checkWithin (depth : Nat) (id : NodeId) (governor : TypeKey) (site : Site) :
    Tidy (checkWithin depth id governor site) := by
  induction depth generalizing id governor site with
  | zero => exact .throw _
  | succ depth ih =>
    exact checking_tidy.checkStep (c := fun _ => checkWithin depth) (l := fun _ => flattenWithin depth)
      (fun id governor site _ => ih id governor site) (fun id _ => tidy_flattenWithin depth id) trivial governor site

theorem tidy_checkInline (depth : Nat) (inline : InlineTemplate) (expected : Option TypeKey) :
    Tidy (checkInline (checkWithin depth) inline expected) :=
  checking_tidy.checkInline (c := fun _ => checkWithin depth)
    (fun id governor site _ => tidy_checkWithin depth id governor site) trivial expected

theorem tidy_bindGovernor (inline : InlineTemplate) (expected : Option TypeKey) : Tidy (bindGovernor inline expected) :=
  checking_tidy.stepwise.run
    (checking_tidy.reshapes.bindGovernor (.inl trivial) (fun r _ => Naming.covers_plain r) expected)

theorem tidy_restrictWithin (use : RestrictedUse) (depth : Nat) (id : NodeId) (required : Restriction) :
    Tidy (restrictWithin use depth id required) :=
  Restricting.restrictWithin ⟨checking_tidy.toSequential, tidy_lastTemplate, fun id => .mark id _⟩ use depth id required

end Nodes

section Definitions

theorem Tidy.withCurrent {x : CheckM α} (h : Tidy x) (current : Option DefId) :
    Tidy (withReader (fun env => { env with current }) x) := by
  intro env s hs
  constructor
  intro report a after hRun hErrors
  have hAfter := (h { env with current } s (hs.withCurrent current)).post report a after hRun hErrors
  exact ⟨hAfter.intact, hAfter.slots⟩

theorem tidy_checkDefinition (depth : Nat) (id : DefId) : Tidy (checkDefinition depth id) := by
  apply Tidy.still_then .read
  intro env
  split
  · split
    · rename_i definition _ _ template _
      apply ((tidy_checkInline depth _ definition.type).withCurrent (some id)).bind
      intro outcome
      apply (Tidy.onlyIf ?_).bind fun _ => .pure _
      exact (tidy_restrictWithin _ depth template.body template.restriction).bind fun _ => .pure _
    · exact .pure _
  · exact .throw _

theorem tidy_checkModule (depth : Nat) : Tidy (checkModule depth) := by
  apply Tidy.still_then .read
  intro env
  apply (Tidy.forM fun id => (tidy_checkDefinition depth id).bind fun _ => .pure _).bind
  exact fun _ => .pure _

end Definitions

namespace Session

variable {s : Session}

/-- No node has been given up, and all that slots take in can be traced. -/
def Spotless (s : Session) : Prop := s.store.Spotless s.env

theorem spotless_of_tidy {x : CheckM α} (hx : Tidy x) (h : s.Spotless) (hEnd : (ended (s.run x)).1 = none)
    (hErrors : (ended (s.run x)).2.report.errors = s.report.errors) : (ended (s.run x)).2.Spotless := by
  rcases hRun : (x s.env).run ⟨s.store, s.report⟩ with ⟨_ | a, after⟩
  · simp [run, hRun, ended] at hEnd
  · simp only [run, hRun, ended] at hErrors ⊢
    exact (hx s.env s.store h).post s.report a after hRun hErrors

theorem spotless_performWithin {depth : Nat} {op : Operation} (h : s.Spotless) (hOp : ∀ t, op ≠ .addTemplate t)
    (hEnd : (s.performWithin depth op).1 = none)
    (hErrors : (s.performWithin depth op).2.report.errors = s.report.errors) :
    (s.performWithin depth op).2.Spotless := by
  cases op with
  | check id governor site => exact spotless_of_tidy (tidy_checkWithin depth id governor site) h hEnd hErrors
  | checkInline inline expected =>
    exact spotless_of_tidy (tidy_checkInline depth inline expected) h hEnd hErrors
  | checkDefinition id => exact spotless_of_tidy (tidy_checkDefinition depth id) h hEnd hErrors
  | checkModule => exact spotless_of_tidy (tidy_checkModule depth) h hEnd hErrors
  | bindGovernor inline expected => exact spotless_of_tidy (tidy_bindGovernor inline expected) h hEnd hErrors
  | flatten id => exact spotless_of_tidy (tidy_flattenWithin depth id) h hEnd hErrors
  | checkRestriction use id required =>
    exact spotless_of_tidy (tidy_restrictWithin use depth id required) h hEnd hErrors
  | lastTemplate id => exact spotless_of_tidy (tidy_lastTemplate id) h hEnd hErrors
  | copy id => exact spotless_of_tidy (tidy_deepCopy id) h hEnd hErrors
  | addTemplate t => exact absurd rfl (hOp t)

/-- If an operation on a spotless session comes to an end, nodes have been given up only if it has reported an
error. Without an error the session is spotless again. -/
theorem givenUp_only_reported (depth : Nat) (op : Operation) (h : s.Spotless) (hOp : ∀ t, op ≠ .addTemplate t)
    (hEnd : (s.performWithin depth op).1 = none) :
    let after := (s.performWithin depth op).2
    (∀ id t, after.store.get? id = some t → t.form = .erroneous →
      ∃ found, after.report.diagnostics = s.report.diagnostics ++ found ∧ ∃ d ∈ found, d.finding.isError) ∧
    (after.report.errors = s.report.errors → after.Spotless) := by
  refine ⟨fun id t hNode hForm => ?_, spotless_performWithin h hOp hEnd⟩
  obtain ⟨found, hFound, -, hErrors, -⟩ := (s.performWithin_evolves depth op).report.added
  refine ⟨found, hFound, countP_pos_iff.1 (Nat.pos_of_ne_zero fun hNone => ?_)⟩
  rw [hNone, Nat.add_zero] at hErrors
  exact (spotless_performWithin h hOp hEnd hErrors).intact id t hNode hForm

/-- Numbers, and two lists. One takes in the list `few`, the other one the number `one`. -/
def takers : Session where
  types := .numbers
  definitions := ⟨[.ofBody "few" 2 1, .ofBody "one" 1 0]⟩
  store := .ofForms [.ofInteger 1, .ofItems [0], .ofName "few" 0,
    .allFrom 2, .ofItems [3, 0], .ofName "one" 1, .allFrom 5,
    .ofItems [6]]

theorem takers_traces {r : Reference} (hPath : r.path = []) : takers.env.Traces r := by
  intro definition hTarget
  obtain ⟨id, -, hGet⟩ := Option.bind_eq_some_iff.1 hTarget
  have hMem : definition ∈ takers.definitions.entries := mem_of_getElem? hGet
  have hTyped : ∀ d ∈ takers.definitions.entries, d.type.any fun type => (takers.types.decl? type).isSome := by
    decide
  obtain ⟨type, hType, hResolves⟩ := (Option.any_eq_true _ _).1 (hTyped definition hMem)
  refine ⟨fun _ => by rw [hType]; rfl, fun declared hDeclared => ?_⟩
  cases hType.symm.trans hDeclared
  rw [hPath]
  exact hResolves

theorem takers_spotless : takers.Spotless where
  intact id t hNode hForm := by
    have hIntact : ∀ t ∈ takers.store.nodes, t.form.isErroneous = false := by decide
    have hFalse := hIntact t (mem_of_getElem? hNode)
    rw [hForm] at hFalse
    cases hFalse
  slots id t target hNode hForm := by
    have hMem : t ∈ takers.store.nodes := mem_of_getElem? hNode
    simp only [takers, Store.ofForms, map_cons, map_nil, mem_cons, not_mem_nil, or_false] at hMem
    obtain rfl | rfl | rfl | rfl | rfl | rfl | rfl | rfl := hMem <;> cases hForm
    · exact ⟨_, rfl, fun r hr => takers_traces (by cases hr; rfl)⟩
    · exact ⟨_, rfl, fun r hr => takers_traces (by cases hr; rfl)⟩

/-- A list is taken in without an error. A number is not, which is reported. -/
theorem givenUp_only_reported_takers :
    let clean := (takers.performWithin 3 (.check 4 2 {})).2
    let failed := (takers.performWithin 3 (.flatten 7)).2
    clean.Spotless ∧ (failed.store.get? 6).map (·.form.isErroneous) = some true ∧
      ∃ d ∈ failed.report.diagnostics, d.finding.isError := by
  have hEnd : (takers.performWithin 3 (.check 4 2 {})).1 = none := by decide +kernel
  have hErrors : (takers.performWithin 3 (.check 4 2 {})).2.report.errors = takers.report.errors := by
    decide +kernel
  have hEnd' : (takers.performWithin 3 (.flatten 7)).1 = none := by decide +kernel
  have hGivenUp : ((takers.performWithin 3 (.flatten 7)).2.store.get? 6).map (·.form.isErroneous) = some true := by
    decide +kernel
  have hClean := givenUp_only_reported 3 (.check 4 2 {}) takers_spotless (by simp) hEnd
  have hFailed := givenUp_only_reported 3 (.flatten 7) takers_spotless (by simp) hEnd'
  obtain ⟨t, hNode, hErroneous⟩ := Option.map_eq_some_iff.1 hGivenUp
  have hForm : t.form = .erroneous := by
    cases hEq : t.form <;> rw [hEq] at hErroneous <;> first | rfl | cases hErroneous
  obtain ⟨found, hFound, d, hMem, hError⟩ := hFailed.1 _ t hNode hForm
  refine ⟨hClean.2 hErrors, hGivenUp, d, ?_, hError⟩
  rw [hFound]
  exact mem_append_right _ hMem

def untyped : Session where
  definitions := ⟨[⟨"t", none, .template { body := 1 }, {}⟩]⟩
  store := .ofForms [.ofInteger 1, .ofItems [0], .ofName "t" 0,
    .allFrom 2, .ofItems [3]]

/-- The slot is given up and nothing is reported. -/
theorem untyped_given_up :
    (∀ t ∈ untyped.store.nodes, t.form.isErroneous = false) ∧ (untyped.flatten 4).1 = .ok true ∧
      ((untyped.flatten 4).2.store.get? 3).map (·.form.isErroneous) = some true ∧
      (untyped.flatten 4).2.report.diagnostics = [] := by
  decide +kernel

end Session

end TemplateCheck
