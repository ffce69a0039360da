import TemplateCheck.Proofs.Stepwise
import TemplateCheck.Proofs.Walk.Check

/-!
# Properties of checks that are built up step by step

A property that holds of whatever leaves the store alone holds of the steps of a check that concern one node if it holds
of the few of them that change the node: it is given a mark, a base or a form without children, or it is given up. The
checks of all forms are then gone through once. They may be about the nodes of a set only, which holds the children of
its nodes.
-/

namespace TemplateCheck

/-- A step that changes one node and gives it neither a governor nor children. -/
inductive Own (id : NodeId) : {α : Type} → CheckM α → Prop where
  | recognizeReference : Own id (recognizeReference id)
  | mark {m : Mark} : m ≠ .checked → Own id (mark id m)
  | giveUp (span : Span) (p : Problem) : Own id (do problem span p; markErroneous id)
  | giveUpWith (left right : NodeId) : Own id (giveUpWith id left right)
  | become {form : Form} : form ≠ .erroneous → form.children = [] → form.mentions = [] → Own id (replaceForm id form)
  | linkBase (base : NodeId) : Own id (linkBase id base)
  | inheritBase (base : NodeId) : Own id (inheritBase id base)

/-- A property of what checks do to the nodes in `T` themselves. -/
structure Altering {ι : Type} (T : NodeId → Prop) (P : FamilyProperty ι) : Prop extends Sequential P where
  inside : ∀ {α : Type} {x : ι → CheckM α} (c : Context), P x → P fun i => inside c (x i)
  lastTemplate : ∀ id, P fun _ => lastTemplate id
  basePart : ∀ r template type, P fun _ => basePart r template type
  own : ∀ {α : Type} {id : NodeId} {x : CheckM α}, Own id x → T id → P fun _ => x

section

variable {ι : Type} {P : FamilyProperty ι}

theorem Sequential.reports (h : Sequential P) : (Naming.plain ι fun _ => True).Reports (Continues P) where
  toWalks := h.stepwise.walks
  mention span finding _ := h.stepwise.agreed (h.still (.tell span finding))
  tell span finding := h.stepwise.agreed (h.still (.tell span finding))

theorem Stepwise.follows (h : Stepwise (fun _ => True) P)
    (hTell : ∀ span finding, finding.isOrdinary → P fun _ => tell span finding)
    (hLast : ∀ id, P fun _ => lastTemplate id) (hExtent : ∀ items, P fun _ => extent items) :
    (Naming.plain ι fun _ => True).Follows (Continues P) where
  toLooks := h.walks.toLooks
  mention span finding hOrdinary := h.agreed (hTell span finding hOrdinary)
  lastTemplate _ := h.agreed (hLast _)
  extent {items} _ := h.agreed (by simpa using hExtent items)

theorem Sequential.follows (h : Sequential P) (hLast : ∀ id, P fun _ => lastTemplate id) :
    (Naming.plain ι fun _ => True).Follows (Continues P) :=
  h.stepwise.follows (fun span finding _ => h.still (.tell span finding)) hLast fun _ =>
    h.still (Still.currentStore.bind fun _ => .ofExcept _)

theorem Altering.reshapes {T : NodeId → Prop} (h : Altering T P) :
    (Naming.plain ι fun _ => True).Reshapes T (Continues P) where
  toReports := h.reports
  lastTemplate := (h.follows h.lastTemplate).lastTemplate
  extent := (h.follows h.lastTemplate).extent
  known _ := trivial
  inside c hx := h.stepwise.agreed (h.inside c (h.stepwise.run hx))
  mark _ hId hNe := h.stepwise.agreed (h.own (.mark hNe) hId)
  giveUp span p hId := h.stepwise.agreed (h.own (.giveUp span p) hId)
  basePart r template type _ _ := h.stepwise.lift (by simp) (h.basePart r template type) fun _ _ _ => trivial
  linkBase hId _ := h.stepwise.agreed (h.own (.linkBase _) hId)
  inheritBase hId _ := h.stepwise.agreed (h.own (.inheritBase _) hId)
  undefined _ _ _ := h.stepwise.agreed (h.still (.throw _))
  giveUpWith hId _ _ := h.stepwise.agreed (h.own (.giveUpWith _ _) hId)
  become hId hIntact hChildren _ hMentions := h.stepwise.agreed (h.own (.become hIntact hChildren hMentions) hId)

end

theorem sequential_still : Sequential fun {_} (x : Unit → CheckM _) => Still (x ()) := ⟨fun hx => hx, Still.bind⟩

theorem still_checkCompleteSignature (id : NodeId) (params : List ParamDecl) (entries : List NamedEntry) :
    Still (checkCompleteSignature id params entries) := by
  simpa using sequential_still.stepwise.run (sequential_still.reports.checkCompleteSignature trivial params
    fun _ _ => trivial)

theorem still_checkArraySize (id : NodeId) (bounds : ArrayBounds) (count : Nat) :
    Still (checkArraySize id bounds count) :=
  sequential_still.stepwise.run (sequential_still.reports.checkArraySize trivial bounds count)

/-- A property of checks of the nodes in `T`, whose children are in `C`. -/
structure Checking {ι : Type} (T C : NodeId → Prop) (P : FamilyProperty ι) : Prop
    extends Altering (fun id => T id ∨ C id) P where
  formOf_then : ∀ {α : Type} {id : NodeId} {f : ι → Form → CheckM α}, T id ∨ C id →
    (∀ form, (∀ child ∈ form.children, C child) → P fun i => f i form) → P fun i => formOf id >>= f i
  govern : ∀ {id : NodeId} (type : TypeKey), T id ∨ C id → P fun _ => govern id type
  name : ∀ {id : NodeId} {entries : List NamedEntry}, T id → (∀ e ∈ entries, C e.template) →
    P fun _ => replaceForm id (.named entries)
  fillOmitted : ∀ {id : NodeId} {entries : List NamedEntry} (fields : List FieldDecl), T id →
    (∀ e ∈ entries, C e.template) → P fun _ => fillOmitted id entries fields

namespace Checking

variable {ι : Type} {T C : NodeId → Prop} {P : FamilyProperty ι} (h : Checking T C P) {c : ι → ChildCheck}
  (hCheck : ∀ id type site, C id → P fun i => c i id type site) {id : NodeId}

include h

theorem checks : (Naming.plain ι fun _ => True).Checks T C (Continues P) where
  toReshapes := h.reshapes
  children_then hId hf γ k hk := by
    simp only [bind_assoc]
    refine h.formOf_then hId fun form hChildren => ?_
    simpa using hf form (Naming.holds_plain form) hChildren γ k hk
  recognized_then hId hx :=
    h.reshapes.next (h.stepwise.agreed (h.own .recognizeReference (.inl hId))) fun _ =>
      h.reshapes.next (h.reshapes.checkSupported (.inl hId)) fun _ =>
        h.reshapes.next (h.reshapes.checkPlacement trivial _) fun _ => hx
  govern type hId := h.stepwise.agreed (h.govern type hId)
  name hId hEntries := h.stepwise.agreed (by simpa using h.name hId hEntries)
  fillOmitted fields hId hEntries := h.stepwise.agreed (by simpa using h.fillOmitted fields hId hEntries)

include hCheck

theorem children_check (id : NodeId) (type : TypeKey) (site : Site) (hId : C id) :
    Agreed (Continues P) fun i => c i id type site :=
  h.stepwise.agreed (hCheck id type site hId)

theorem checkField (decl : TypeDecl) (incomplete : Bool) {item : NamedEntry × EntryStatus FieldDecl}
    (hItem : C item.1.template) : P fun i => checkField (c i) decl incomplete item :=
  h.stepwise.run (h.checks.checkField h.checks.unflagged (h.children_check hCheck) decl incomplete hItem)

theorem checkParameters {items : List (NamedEntry × EntryStatus (ParamDecl × Nat))}
    (hItems : ∀ item ∈ items, C item.1.template) (decl : TypeDecl) (incomplete : Bool) (order : EntryOrder) :
    P fun i => checkParameters (c i) decl incomplete order items := by
  simpa using h.stepwise.run
    (h.checks.checkParameters h.checks.unflagged (h.children_check hCheck) hItems decl incomplete order)

theorem checkMembers (type : TypeKey) (list : String) {members : List NodeId}
    (hMembers : ∀ member ∈ members, C member) :
    P fun i => checkMembers (c i) type list members := by
  simpa using h.stepwise.run (h.checks.checkMembers h.checks.unflagged (h.children_check hCheck) type list hMembers)

theorem checkElement (g : ListType) (permitted : Completeness) {item : NodeId} (hItem : C item) (position : Nat) :
    P fun i => checkElement (c i) g permitted item position := by
  simpa using h.stepwise.run
    (h.checks.checkElement h.checks.unflagged (h.children_check hCheck) g (fun _ _ _ _ => trivial) hItem position)

theorem checkInline {inline : InlineTemplate} (hBody : C inline.body) (expected : Option TypeKey) :
    P fun i => checkInline (c i) inline expected :=
  h.stepwise.run (h.checks.checkInline h.checks.unflagged (h.children_check hCheck) hBody
    (fun r _ => Naming.covers_plain r) expected)

theorem checkStep {l : ι → Flattening} (hFlatten : ∀ id, T id → P fun i => l i id) (hId : T id) (governor : TypeKey)
    (site : Site) : P fun i => checkStep (c i) (l i) id governor site :=
  h.stepwise.run (h.checks.checkStep (h.children_check hCheck) (fun id hId => h.stepwise.agreed (hFlatten id hId)) hId
    governor site)

end Checking

/-- A property of checks of restrictions, which only read nodes, report, follow references and set marks. -/
structure Restricting {ι : Type} (P : FamilyProperty ι) : Prop extends Sequential P where
  lastTemplate : ∀ id, P fun _ => lastTemplate id
  mark : ∀ id, P fun _ => mark id .needsRestrictionCheck

namespace Restricting

variable {ι : Type} {P : FamilyProperty ι} (h : Restricting P) (use : RestrictedUse)

include h

theorem restricts : (Naming.plain ι fun _ => True).Restricts (Continues P) where
  toReports := h.reports
  endless hx := by
    rw [funext fun i => hx i trivial]
    exact h.stepwise.agreed (h.still (.throw _))
  undefined _ _ _ := h.stepwise.agreed (h.still (.throw _))
  sizes_then hf γ k hk := by
    simp only [bind_assoc]
    exact h.bind (h.still .currentStore) fun s =>
      hf (fun _ => s) (s.size + 1) (fun _ => ⟨Nat.le_refl _, fun _ => rfl⟩) γ k hk
  lastTemplate _ := h.stepwise.agreed (h.lastTemplate _)
  mark _ := h.stepwise.agreed (h.mark _)

theorem restrictStep {r : ι → RestrictionCheck} (hRestrict : ∀ id required, P fun i => r i id required) (id : NodeId)
    (required : Restriction) : P fun i => restrictStep (r i) use id required :=
  h.stepwise.run (h.restricts.restrictStep (fun id required _ => h.stepwise.agreed (hRestrict id required)) use trivial
    required)

theorem restrictWithin (depth : Nat) (id : NodeId) (required : Restriction) :
    P fun _ => restrictWithin use depth id required := by
  induction depth generalizing id required with
  | zero => exact h.still (.throw _)
  | succ depth ih => exact h.restrictStep use (r := fun _ => TemplateCheck.restrictWithin use depth) ih id required

end Restricting

end TemplateCheck
