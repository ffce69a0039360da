import TemplateCheck.Proofs.Chains.Parts

/-!
# What modified templates inherit

A reference to an element of a modified list finds the element in the nearest member of the lineage that uses it:
where a member has `-`, its base is asked. A reference to a field of a modified record or set finds it in the
nearest member that mentions it. Here `-` counts as a mention, so it is found although it says nothing about the
field, and what the bases say is not seen. If no member gives the part, that is reported once and the reference is
given up.
-/

namespace TemplateCheck

open List Reading Store

def Form.entry? (name : String) : Form → Option NodeId
  | .named entries => (entries.find? (·.name = name)).map (·.template)
  | _ => none

def Store.uses (s : Store) (id : NodeId) : Bool := (s.get? id).any (·.form.variant ≠ .notUsed)

def Store.element? (s : Store) (position : Nat) (t : Template) : Option NodeId :=
  (t.form.elements?.bind (·[position]?)).filter s.uses

theorem Glance.ofElement_eq_ofGiven {s : Store} {item : NodeId} {u : Template} (hItem : s.get? item = some u)
    (element : TypeKey) (base : Option NodeId) : Glance.ofElement item element base u.form =
      .ofGiven element .notUsedElement base (if s.uses item then some item else none) := by
  have hUses : s.uses item = decide (u.form.variant ≠ .notUsed) := by simp [uses, hItem]
  rw [hUses]
  cases u.form with
  | notUsed => cases base <;> rfl
  | _ => rfl

namespace Store

variable {s : Store} {env : Env} {decl : TypeDecl} {members : List Template}

theorem givenBy_field {name : String} {field : FieldDecl} {fields : List FieldDecl}
    (hField : decl.field? name = some field) (hCategory : decl.category = .record fields ∨ decl.category = .set fields)
    (hForms : ∀ t ∈ members, ∃ entries, t.form = .named entries) :
    (s.reading env).GivenBy decl (.field name) field.type (.unboundField name) (·.form.entry? name) members := by
  intro id t hMem hView
  obtain ⟨entries, hForm⟩ := hForms t hMem
  simp only [Reading.glance, hView, Option.map_some, Option.some.injEq, hForm, Form.entry?]
  obtain hCategory | hCategory := hCategory <;>
  · simp only [TypeDecl.glanceField, Form.hidesFields, hField, hCategory]
    cases entries.find? (·.name = name) <;> cases t.base <;> rfl

theorem givenBy_element {index : Value} {number : Int} {element : TypeKey}
    (hElement : decl.category.element? = some element) (hIndex : env.definitions.foldInteger? index = some number)
    (hNonneg : 0 ≤ decl.category.position number)
    (hForms : ∀ t ∈ members, ∃ items item u, t.form = .list .positional items ∧
      items[(decl.category.position number).toNat]? = some item ∧ s.get? item = some u) :
    (s.reading env).GivenBy decl (.index index) element .notUsedElement
      (s.element? (decl.category.position number).toNat) members := by
  intro id t hMem hView
  obtain ⟨items, item, u, hForm, hItem, hNode⟩ := hForms t hMem
  rw [glance_item hElement hIndex hNonneg hView hForm hItem hNode, Glance.ofElement_eq_ofGiven hNode]
  simp [element?, hForm, Form.elements?, hItem, Option.filter_some]

end Store

namespace Session

variable {s : Session} {id last head : NodeId} {r : Reference} {step : PathStep} {decl : TypeDecl} {type : TypeKey}
  {fault : PathFault}

def LeadsTo (s : Session) (id last : NodeId) : Prop :=
  (s.lastTemplate id).1 = .ok last ∧ (s.lastTemplate id).2.report = s.report

/-- The chain of the node gets no further than the node. That is reported once, and the node is given up. -/
def GivesUp (s : Session) (id : NodeId) (span : Span) (p : Problem) : Prop :=
  (s.lastTemplate id).1 = .ok id ∧
  (s.lastTemplate id).2.report.diagnostics = s.report.diagnostics ++ [⟨.error p, span, s.report.context⟩] ∧
  ∃ t, (s.lastTemplate id).2.store.get? id = some t ∧ t.form = .erroneous

theorem leadsTo_iff : s.LeadsTo id last ↔ (s.store.reading s.env).EndsAt id last := by
  constructor
  · rintro ⟨hLast, hReport⟩
    exact endsAt_of_lastTemplate hLast hReport
  · intro hEnd
    obtain ⟨a, hLast, hReport, rfl, -⟩ := run_of_attains
      (Reading.attains_lastTemplate hEnd (matches_reading s.store s.env).toAgrees)
    exact ⟨hLast, hReport rfl⟩

theorem givesUp_of_lost (h : (s.store.reading s.env).Selects id head r step decl)
    (hLost : (s.store.reading s.env).LostAt (s.store.reading s.env).EndsAt decl step fault (s.store.size + 1) head) :
    s.GivesUp id r.span (.invalidPath fault) := by
  obtain ⟨a, after, found, hRun, hFound, rfl, rfl, hErroneous⟩ :=
    (h.reports_lastTemplate_lost hLost (matches_reading s.store s.env).toAgrees).run s.report rfl
  have hEq : s.lastTemplate a = _ := run_of_run hRun
  unfold GivesUp
  rw [hEq]
  exact ⟨rfl, hFound, hErroneous⟩

theorem not_givesUp_of_found {part : NodeId} (h : (s.store.reading s.env).Selects id head r step decl)
    (hPart : (s.store.reading s.env).PartAt (s.store.reading s.env).EndsAt decl step (s.store.size + 1) head
      (.found part type)) (span : Span) (fault : PathFault) : ¬ s.GivesUp id span (.invalidPath fault) := by
  rintro ⟨-, hFound, t, hNode, hForm⟩
  obtain hStands | hCircles := h.upheld hPart (matches_reading s.store s.env).toAgrees
  · exact hStands t hNode hForm
  · refine Nat.lt_irrefl s.report.circles (Nat.lt_of_lt_of_eq hCircles ?_)
    change (s.lastTemplate id).2.report.circles = s.report.circles
    rw [Report.circles, hFound, countP_append]
    rfl

/-- The node leads where the part leads that is given, and is not taken for unbound. Without such a part it is given
up as unbound. -/
def Inherits (s : Session) (id : NodeId) (r : Reference) (fault : PathFault) : Option NodeId → Prop
  | some part => (∀ last, s.LeadsTo id last ↔ s.LeadsTo part last) ∧ ¬ s.GivesUp id r.span (.invalidPath fault)
  | none => s.GivesUp id r.span (.invalidPath fault)

theorem inherits_of_givenBy {given : Template → Option NodeId} {members : List Template}
    (h : (s.store.reading s.env).Selects id head r step decl) (hMembers : (s.store.reading s.env).Lineage head members)
    (hGiven : (s.store.reading s.env).GivenBy decl step type fault given members) :
    s.Inherits id r fault (members.findSome? given) := by
  have hDepth : members.length ≤ s.store.size + 1 := Nat.le_succ_of_le hMembers.length_le
  cases hPart : members.findSome? given with
  | some part =>
    have hFound := hGiven.partAt hMembers hPart hDepth
    refine ⟨fun last => ?_, not_givesUp_of_found h hFound _ _⟩
    rw [leadsTo_iff, leadsTo_iff]
    exact h.endsAt_iff_of_found hFound
  | none => exact givesUp_of_lost h (hGiven.lostAt hMembers hPart hDepth)

/-- A field is given by the nearest member of the lineage that mentions it, be it by `-`, and an element by the
nearest member in which it is not `-`. -/
theorem reference_inherits (s : Session) {id head : NodeId} {r : Reference} {step : PathStep} {decl : TypeDecl}
    {members : List Template} (hRef : (s.store.reading s.env).Selects id head r step decl)
    (hMembers : (s.store.reading s.env).Lineage head members) :
    (∀ name field fields, step = .field name → decl.field? name = some field →
      decl.category = .record fields ∨ decl.category = .set fields →
      (∀ t ∈ members, ∃ entries, t.form = .named entries) →
      s.Inherits id r (.unboundField name) (members.findSome? (·.form.entry? name))) ∧
    (∀ index number element, step = .index index → decl.category.element? = some element →
      s.definitions.foldInteger? index = some number → 0 ≤ decl.category.position number →
      (∀ t ∈ members, ∃ items item u, t.form = .list .positional items ∧
        items[(decl.category.position number).toNat]? = some item ∧ s.store.get? item = some u) →
      s.Inherits id r .notUsedElement
        (members.findSome? (s.store.element? (decl.category.position number).toNat))) := by
  constructor
  · rintro name field fields rfl hField hCategory hForms
    exact inherits_of_givenBy hRef hMembers (givenBy_field hField hCategory hForms)
  · rintro index number element rfl hElement hIndex hNonneg hForms
    exact inherits_of_givenBy hRef hMembers (givenBy_element hElement hIndex hNonneg hForms)

/-- A record and a list that modify another one by `-`, and references to their parts. -/
def dashed : Session where
  types := ⟨[(1, ⟨"R", .record [{ name := "a", type := 3 }, { name := "b", type := 3 }]⟩),
    (2, ⟨"L", .recordOf 3⟩)]⟩
  definitions := ⟨[.ofBody "r" 1 3, .ofBody "l" 2 5]⟩
  store := ⟨[{ form := .ofInteger 1 }, { form := .notUsed }, { form := .named [⟨"a", 0, {}⟩] },
    { form := .named [⟨"a", 1, {}⟩], base := some 2 }, { form := .ofItems [0] },
    { form := .ofItems [1], base := some 4 },
    { form := .following "r" 0 [.field "a"] },
    { form := .following "r" 0 [.field "b"] },
    { form := .following "l" 1 [.index (.integer 0)] }]⟩

theorem dashed.lineage_record : (dashed.store.reading dashed.env).Lineage 3
    [{ form := .named [⟨"a", 1, {}⟩], base := some 2 }, { form := .named [⟨"a", 0, {}⟩] }] :=
  .derived rfl rfl ⟨1, _, rfl, rfl⟩ (.root rfl rfl)

theorem dashed.lineage_list : (dashed.store.reading dashed.env).Lineage 5
    [{ form := .list .positional [1], base := some 4 }, { form := .list .positional [0] }] :=
  .derived rfl rfl ⟨1, _, rfl, rfl⟩ (.root rfl rfl)

theorem dashed.selects_field (name : String) (id : NodeId) (hNode : dashed.store.get? id =
    some { form := .referenced ⟨"r", some 0, [.field name], none, {}⟩ none }) :
    (dashed.store.reading dashed.env).Selects id 3 ⟨"r", some 0, [.field name], none, {}⟩ (.field name)
      ⟨"R", .record [{ name := "a", type := 3 }, { name := "b", type := 3 }]⟩ :=
  ⟨⟨_, hNode, rfl⟩, ⟨_, _, _, rfl, rfl, rfl, rfl, 1, _, rfl, rfl⟩, rfl, rfl, _, rfl, rfl, rfl⟩

theorem dashed.selects_element : (dashed.store.reading dashed.env).Selects 8 5
    ⟨"l", some 1, [.index (.integer 0)], none, {}⟩ (.index (.integer 0)) ⟨"L", .recordOf 3⟩ :=
  ⟨⟨_, rfl, rfl⟩, ⟨_, _, _, rfl, rfl, rfl, rfl, 1, _, rfl, rfl⟩, rfl, rfl, _, rfl, rfl, rfl⟩

theorem reference_inherits_dashed :
    dashed.LeadsTo 6 1 ∧ dashed.GivesUp 7 {} (.invalidPath (.unboundField "b")) ∧ dashed.LeadsTo 8 0 := by
  have hItself : dashed.LeadsTo 1 1 ∧ dashed.LeadsTo 0 0 := ⟨⟨rfl, rfl⟩, ⟨rfl, rfl⟩⟩
  have hFields := (reference_inherits dashed (dashed.selects_field "a" 6 rfl) dashed.lineage_record).1 "a" _ _ rfl rfl
    (.inl rfl) (by simp)
  have hMissing := (reference_inherits dashed (dashed.selects_field "b" 7 rfl) dashed.lineage_record).1 "b" _ _ rfl rfl
    (.inl rfl) (by simp)
  have hElements := (reference_inherits dashed dashed.selects_element dashed.lineage_list).2 (.integer 0) 0 3 rfl rfl
    rfl (by decide) (forall_mem_cons.2 ⟨⟨_, _, _, rfl, rfl, rfl⟩,
      forall_mem_cons.2 ⟨⟨_, _, _, rfl, rfl, rfl⟩, by simp⟩⟩)
  exact ⟨(hFields.1 1).2 hItself.1, hMissing, (hElements.1 0).2 hItself.2⟩

/-- The base says more about the field than the `-` that is found. -/
theorem dash_hides_inherited_field :
    ∃ members, (dashed.store.reading dashed.env).Lineage 3 members ∧
      members.findSome? (fun t => (t.form.entry? "a").filter dashed.store.uses) = some 0 ∧
      dashed.LeadsTo 6 1 ∧ ¬ dashed.LeadsTo 6 0 := by
  refine ⟨_, dashed.lineage_record, rfl, ⟨rfl, rfl⟩, ?_⟩
  rintro ⟨hLast, -⟩
  cases hLast

end Session

end TemplateCheck
