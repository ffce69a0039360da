import TemplateCheck.Check.Restricted

/-!
# Glances at nodes

What a step of a path finds in a template is told by the node itself, by the item it leads to, or by the base. A path
goes on as these glances tell. The end of a chain that is stored in a reference and the marks of a node have no say in
that.
-/

namespace TemplateCheck

open List

inductive Glance where
  | part (p : Part)
  | lost (fault : PathFault)
  /-- The base has to be asked. -/
  | inherited (base : NodeId)

def TypeDecl.glanceField (decl : TypeDecl) (name : String) (form : Form) (base : Option NodeId) : Glance :=
  if form.hidesFields then .lost (.fieldOfWildcard name form.variant)
  else
    match decl.field? name with
    | none => .lost (decl.fieldFault name)
    | some field =>
      match decl.category, form with
      | .union _, .named entries =>
        match entries.head? with
        | some entry =>
          if entry.name = name then .part (.found entry.template field.type)
          else .lost (.inactiveField name decl.name entry.name)
        | none => .lost (.unboundField name)
      | .record _, .named entries | .set _, .named entries =>
        match entries.find? (·.name = name), base with
        | some entry, _ => .part (.found entry.template field.type)
        | none, some base => .inherited base
        | none, none => .lost (.unboundField name)
      | .record _, .list .positional items =>
        match (decl.fieldIndex? name).bind (items[·]?) with
        | some item => .part (.found item field.type)
        | none => .lost (.unboundField name)
      | _, _ => .part .unknown

def TypeDecl.glanceIndex (decl : TypeDecl) (definitions : Definitions) (index : Value) : Glance ⊕ (TypeKey × Int) :=
  match decl.category.element? with
  | none => .inl (.lost (.notIndexable decl.name))
  | some element =>
    match definitions.foldInteger? index with
    | none => .inl (.part .unknown)
    | some number =>
      if decl.category.position number < 0 then
        .inl (.lost (.negativeIndex number decl.category.name decl.name))
      else .inr (element, number)

def Form.elements? : Form → Option (List NodeId)
  | .list .positional items => some items
  | _ => none

def Glance.ofElement (item : NodeId) (element : TypeKey) (base : Option NodeId) : Form → Glance
  | .notUsed =>
    match base with
    | some base => .inherited base
    | none => .lost .notUsedElement
  | _ => .part (.found item element)

/-- Whether a path ends at a template before it has been followed to its end, or goes on into a template of
a known type. -/
def Env.entrance (env : Env) (form : Form) (id : NodeId) (type : TypeKey) : Part ⊕ TypeDecl :=
  if form.isErroneous then .inl (.found id type)
  else if form.hidesParts then .inl .unknown
  else
    match env.types.decl? type with
    | none => .inl .unknown
    | some decl => .inr decl

variable {decl : TypeDecl} {name : String} {type : TypeKey} {index : Value} {g : Glance} {env : Env} {id : NodeId}

/-- Nothing lies in the direction of the step, or it is not known what does. -/
inductive Glance.Stops : Glance → Prop where
  | unknown : Stops (.part .unknown)
  | lost (fault : PathFault) : Stops (.lost fault)

theorem Glance.Stops.ne_inherited (h : g.Stops) (below : NodeId) : g ≠ .inherited below := by
  rintro rfl
  cases h

theorem TypeDecl.stops_of_glanceIndex {definitions : Definitions}
    (h : decl.glanceIndex definitions index = .inl g) : g.Stops := by
  unfold glanceIndex at h
  repeat' split at h
  all_goals cases h
  all_goals constructor

theorem Env.entrance_inr {form : Form} (h : env.entrance form id type = .inr decl) :
    env.types.decl? type = some decl := by
  unfold Env.entrance at h
  repeat' split at h
  all_goals cases h
  assumption

def Glance.leftTo (fault : PathFault) : Option NodeId → Glance
  | some base => .inherited base
  | none => .lost fault

/-- What a template tells about a declared field, as a function of its base. -/
inductive TypeDecl.TellsField (decl : TypeDecl) (name : String) : Form → (Option NodeId → Glance) → Prop where
  | entry {field : FieldDecl} {entries : List NamedEntry} {entry : NamedEntry} :
      decl.field? name = some field → entries.find? (·.name = name) = some entry →
      TellsField decl name (.named entries) fun _ => .part (.found entry.template field.type)
  | item {field : FieldDecl} {items : List NodeId} {item : NodeId} : decl.field? name = some field → item ∈ items →
      TellsField decl name (.list .positional items) fun _ => .part (.found item field.type)
  | left {field : FieldDecl} {entries : List NamedEntry} {f : Option NodeId → Glance} :
      decl.field? name = some field → entries.find? (·.name = name) = none → f = .leftTo (.unboundField name) →
      TellsField decl name (.named entries) f

theorem TypeDecl.glanceField_cases (decl : TypeDecl) (name : String) (form : Form) :
    (∃ g : Glance, g.Stops ∧ decl.glanceField name form = fun _ => g) ∨
      decl.TellsField name form (decl.glanceField name form) := by
  unfold glanceField
  split
  · exact .inl ⟨_, .lost _, rfl⟩
  split
  · exact .inl ⟨_, .lost _, rfl⟩
  rename_i field hField
  split
  case h_2 entries _ _ | h_3 entries _ _ =>
    cases hFind : entries.find? (·.name = name) with
    | some entry => exact .inr (.entry hField hFind)
    | none => exact .inr (.left hField hFind (funext fun base => by cases base <;> rfl))
  · rename_i entries _ _
    cases entries with
    | nil => exact .inl ⟨_, .lost _, rfl⟩
    | cons entry entries =>
      by_cases hName : entry.name = name
      · simp only [head?_cons, hName, if_true]
        exact .inr (.entry hField (by simp [hName]))
      · simp only [head?_cons, hName, if_false]
        exact .inl ⟨_, .lost _, rfl⟩
  · rename_i items _ _
    cases hItem : (decl.fieldIndex? name).bind (items[·]?) with
    | some item =>
      obtain ⟨i, -, hAt⟩ := Option.bind_eq_some_iff.1 hItem
      exact .inr (.item hField (mem_of_getElem? hAt))
    | none => exact .inl ⟨_, .lost _, rfl⟩
  · exact .inl ⟨_, .unknown, rfl⟩

def Glance.Inside (K : NodeId → Prop) : Glance → Prop
  | .part (.found id _) | .inherited id => K id
  | _ => True

section Inside

variable {K : NodeId → Prop} {base : Option NodeId} {form : Form}

theorem Glance.Stops.inside (h : g.Stops) : g.Inside K := by
  cases h <;> trivial

theorem Glance.leftTo_inside (fault : PathFault) (hBase : ∀ b, base = some b → K b) : (leftTo fault base).Inside K := by
  cases base with
  | none => trivial
  | some base => exact hBase base rfl

theorem TypeDecl.glanceField_inside (decl : TypeDecl) (name : String) (hChildren : ∀ child ∈ form.children, K child)
    (hBase : ∀ b, base = some b → K b) : (decl.glanceField name form base).Inside K := by
  obtain ⟨g, hStops, hGlance⟩ | hTells := decl.glanceField_cases name form
  · rw [hGlance]
    exact hStops.inside
  · generalize decl.glanceField name form = f at hTells
    cases hTells with
    | entry _ hFind => exact hChildren _ (mem_map_of_mem (mem_of_find?_eq_some hFind))
    | item _ hItem => exact hChildren _ hItem
    | left _ _ hLeft => exact hLeft ▸ Glance.leftTo_inside _ hBase

theorem Glance.ofElement_inside {item : NodeId} (element : TypeKey) (form : Form) (hItem : K item)
    (hBase : ∀ b, base = some b → K b) : (Glance.ofElement item element base form).Inside K := by
  unfold ofElement
  split
  · split
    · exact hBase _ rfl
    · trivial
  · exact hItem

theorem Form.eq_of_elements? {items : List NodeId} (h : form.elements? = some items) :
    form = .list .positional items := by
  unfold elements? at h
  split at h
  · cases h
    rfl
  · cases h

end Inside

theorem Glance.inside_true (g : Glance) : g.Inside fun _ => True := by
  unfold Inside
  split <;> trivial

theorem Env.entrance_inl {q : Part} (h : env.entrance form id type = .inl q) : q = .found id type ∨ q = .unknown := by
  unfold Env.entrance at h
  repeat' split at h
  all_goals cases h
  · exact .inl rfl
  · exact .inr rfl
  · exact .inr rfl

/-- What a node tells about a part, as a function of its base: the node tells it itself, or leaves it to its base. -/
def LooksUp (f : Option NodeId → Glance) : Prop :=
  (∃ g, (∀ below, g ≠ .inherited below) ∧ f = fun _ => g) ∨ ∃ fault, f = Glance.leftTo fault

theorem LooksUp.const (h : ∀ below, g ≠ .inherited below) : LooksUp fun _ => g := .inl ⟨g, h, rfl⟩

theorem LooksUp.ofElement (item : NodeId) (element : TypeKey) (form : Form) :
    LooksUp fun base => .ofElement item element base form := by
  cases form with
  | notUsed =>
    refine .inr ⟨.notUsedElement, ?_⟩
    funext base
    cases base <;> rfl
  | _ => exact .const (by simp)

theorem TypeDecl.looksUp_glanceField (decl : TypeDecl) (name : String) (form : Form) :
    LooksUp (decl.glanceField name form) := by
  obtain ⟨g, hStops, hGlance⟩ | hTells := decl.glanceField_cases name form
  · rw [hGlance]
    exact .const hStops.ne_inherited
  · generalize decl.glanceField name form = f at hTells
    cases hTells with
    | entry | item => exact .const (by simp)
    | left _ _ hLeft => exact .inr ⟨_, hLeft⟩

def Form.uncached : Form → Form
  | .referenced r _ => .referenced r none
  | form => form

theorem TypeDecl.glanceField_uncached (decl : TypeDecl) (name : String) (form : Form) (base : Option NodeId) :
    decl.glanceField name form.uncached base = decl.glanceField name form base := by
  cases form with
  | referenced r known => cases decl.field? name <;> simp [glanceField, Form.uncached, Form.hidesFields]
  | _ => rfl

theorem Form.elements?_uncached (form : Form) : form.uncached.elements? = form.elements? := by
  cases form <;> rfl

theorem Form.excludesOmit_uncached (form : Form) : form.uncached.excludesOmit = form.excludesOmit := by
  cases form <;> rfl

theorem Env.entrance_uncached (env : Env) (form : Form) (id : NodeId) (type : TypeKey) :
    env.entrance form.uncached id type = env.entrance form id type := by
  cases form <;> rfl

theorem Glance.ofElement_uncached (item : NodeId) (element : TypeKey) (base : Option NodeId) (form : Form) :
    Glance.ofElement item element base form.uncached = Glance.ofElement item element base form := by
  cases form <;> rfl

def Glance.follow (resolve : NodeId → CheckM NodeId) (decl : TypeDecl) (span : Span) (depth : Nat)
    (step : PathStep) : Glance → CheckM Part
  | .part p => return p
  | .lost fault => invalidPart span fault
  | .inherited base => do partAt resolve decl span depth (← resolve base) step

section

variable {resolve : NodeId → CheckM NodeId} {span : Span} {depth : Nat} {step : PathStep}

theorem fieldPart_succ : fieldPart resolve decl name span (depth + 1) id = node id >>= fun t =>
      (decl.glanceField name t.form t.base).follow resolve decl span depth (.field name) := by
  rw [fieldPart]
  refine congrArg (node id >>= ·) (funext fun t => ?_)
  split
  · rename_i hHides
    rw [TypeDecl.glanceField, if_pos hHides]
    rfl
  · rename_i hShows
    cases hField : decl.field? name with
    | none =>
      rw [TypeDecl.glanceField, if_neg hShows, hField]
      rfl
    | some field =>
      -- The cases of the walk are told apart before the glance is opened, which has the same ones.
      simp only
      split
      · rename_i entries hCategory hForm
        rw [TypeDecl.glanceField, if_neg hShows, hField]
        simp only [hCategory, hForm]
        cases entries.head? with
        | none => rfl
        | some entry => by_cases hName : entry.name = name <;> simp only [hName] <;> rfl
      case h_2 entries hCategory hForm | h_3 entries hCategory hForm =>
        rw [TypeDecl.glanceField, if_neg hShows, hField]
        simp only [hCategory, hForm, entryPart]
        cases entries.find? (·.name = name) <;> cases t.base <;> rfl
      · rename_i items hCategory hForm
        rw [TypeDecl.glanceField, if_neg hShows, hField]
        simp only [hCategory, hForm]
        cases (decl.fieldIndex? name).bind (items[·]?) <;> rfl
      · rw [TypeDecl.glanceField, if_neg hShows, hField]
        simp only
        rfl

theorem elementPart_succ : elementPart resolve decl index span (depth + 1) id = read >>= fun env =>
      match decl.glanceIndex env.definitions index with
      | .inl g => g.follow resolve decl span depth (.index index)
      | .inr (element, number) => node id >>= fun t =>
        match t.form.elements? with
        | none => return .unknown
        | some items =>
          match items[(decl.category.position number).toNat]? with
          | none => invalidPart span (.indexOverflow number decl.category.name decl.name items.length)
          | some item => formOf item >>= fun form =>
            (Glance.ofElement item element t.base form).follow resolve decl span depth (.index index) := by
  rw [elementPart]
  unfold TypeDecl.glanceIndex
  cases decl.category.element? with
  | none => rfl
  | some element =>
    simp only
    refine congrArg (read >>= ·) (funext fun env => ?_)
    cases env.definitions.foldInteger? index with
    | none => rfl
    | some number =>
      simp only
      split
      · rfl
      · refine congrArg (node id >>= ·) (funext fun t => ?_)
        split
        · rename_i items hForm
          simp only [hForm, Form.elements?]
          cases items[(decl.category.position number).toNat]? with
          | none => rfl
          | some item =>
            refine congrArg (formOf item >>= ·) (funext fun form => ?_)
            cases form <;> cases t.base <;> rfl
        · rename_i hForm
          have hNone : t.form.elements? = none := by
            unfold Form.elements?
            split
            · exact absurd ‹_› (hForm _)
            · rfl
          rw [hNone]

theorem narrow_cons {path : List PathStep} :
    narrow resolve span depth (step :: path) id type = resolve id >>= fun id => formOf id >>= fun form =>
      read >>= fun env =>
        match env.entrance form id type with
        | .inl p => return p
        | .inr decl => partAt resolve decl span depth id step >>= fun p =>
          match p with
          | .found id type => narrow resolve span depth path id type
          | other => return other := by
  rw [narrow]
  refine congrArg (resolve id >>= ·) (funext fun last => ?_)
  refine congrArg (formOf last >>= ·) (funext fun form => ?_)
  unfold Env.entrance
  split
  · rfl
  · split
    · rfl
    · refine congrArg (read >>= ·) (funext fun env => ?_)
      cases env.types.decl? type <;> rfl

end

end TemplateCheck
