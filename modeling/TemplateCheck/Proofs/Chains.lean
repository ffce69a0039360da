import TemplateCheck.Proofs.Glance
import TemplateCheck.Proofs.Graph

/-!
# Where chains of references end

What following a reference finds is a matter of the nodes alone: of the definition it names, of the path into it, and of
the ends of further chains on the way. It is told here without a run, so without the caches that a run fills, the errors
it reports and the order in which it follows things. Only chains that end without an error have an end. Some of the
nodes may be left out of the reading; a chain that leads through one of them has no end then.
-/

namespace TemplateCheck

variable {ends' : NodeId → NodeId → Prop}

/-- The nodes that can be read, and how many of them a walk over base links may visit. -/
structure Reading where
  env : Env
  view : NodeId → Option Template
  walk : Nat

def Store.reading (s : Store) (env : Env) : Reading := ⟨env, s.get?, s.size + 1⟩

namespace Reading

variable (m : Reading) {decl : TypeDecl} {id : NodeId} {step : PathStep} {p : Part} {ends : NodeId → NodeId → Prop}

def glanceElement (decl : TypeDecl) (index : Value) (id : NodeId) : Option Glance :=
  match decl.glanceIndex m.env.definitions index with
  | .inl g => some g
  | .inr (element, number) =>
    (m.view id).bind fun t =>
      match t.form.elements? with
      | none => some (.part .unknown)
      | some items =>
        match items[(decl.category.position number).toNat]? with
        | none => some (.lost (.indexOverflow number decl.category.name decl.name items.length))
        | some item => (m.view item).map fun u => .ofElement item element t.base u.form

def glance (decl : TypeDecl) (id : NodeId) : PathStep → Option Glance
  | .field name => (m.view id).map fun t => decl.glanceField name t.form t.base
  | .index index => m.glanceElement decl index id

/-- The part of a template after a walk over at most `depth` nodes; `ends` tells where references to bases
end. -/
inductive PartAt (ends : NodeId → NodeId → Prop) (decl : TypeDecl) (step : PathStep) : Nat → NodeId → Part → Prop where
  | here {depth : Nat} {id : NodeId} {p : Part} :
      m.glance decl id step = some (.part p) → PartAt ends decl step (depth + 1) id p
  | inherited {depth : Nat} {id base last : NodeId} {p : Part} :
      m.glance decl id step = some (.inherited base) → ends base last →
      PartAt ends decl step depth last p → PartAt ends decl step (depth + 1) id p

def Onward (rest : NodeId → TypeKey → Part → Prop) (p : Part) : Part → Prop
  | .found part type => rest part type p
  | q => p = q

def Narrows (ends : NodeId → NodeId → Prop) : List PathStep → NodeId → TypeKey → Part → Prop
  | [], id, type, p => p = .found id type
  | step :: path, id, type, p =>
    ∃ last t, ends id last ∧ m.view last = some t ∧
      match m.env.entrance t.form last type with
      | .inl q => p = q
      | .inr decl =>
        ∃ q, m.PartAt ends decl step m.walk last q ∧ Onward (Narrows ends path) p q

def Arrives (ends : NodeId → NodeId → Prop) (id last : NodeId) : Part → Prop
  | .found part _ => ends part last
  | .unknown => last = id
  | .invalid => False

def Leaves (ends : NodeId → NodeId → Prop) (id last : NodeId) : Form → Prop
  | .referenced _ (some known) => last = known
  | .referenced r none =>
    match m.env.definitions.target? r with
    | none => last = id
    | some definition =>
      match definition.kind.template?, definition.type, r.args with
      | some template, some type, none =>
        ∃ p, m.Narrows ends r.path template.body type p ∧ Arrives ends id last p
      | _, _, _ => last = id
  | _ => last = id

def EndsWithin : Nat → NodeId → NodeId → Prop
  | 0, _, _ => False
  | length + 1, id, last => ∃ t, m.view id = some t ∧ m.Leaves (EndsWithin length) id last t.form

/-- The chain that starts at `id` ends at `last`. -/
def EndsAt (id last : NodeId) : Prop := ∃ length, m.EndsWithin length id last

variable {m} {depth length : Nat} {path : List PathStep} {type : TypeKey} {form : Form} {last : NodeId} {q : Part}
  {K : NodeId → Prop} {g : Glance}

/-- A step finds the same in two readings, unless it is left to the bases of a node in both. -/
theorem glance_lookUp (m' : Reading) (hGlance : m.glance decl id step = some g) (hEnv : m'.env = m.env) (hId : K id)
    (hSame : ∀ id t, K id → m.view id = some t → ∃ t', m'.view id = some t' ∧ t'.form.uncached = t.form.uncached)
    (hChild : ∀ t child, m.view id = some t → child ∈ t.form.children → K child) :
    (m'.glance decl id step = some g ∧ ∀ below, g ≠ .inherited below) ∨
      ∃ t t' fault, m.view id = some t ∧ m'.view id = some t' ∧ g = .leftTo fault t.base ∧
        m'.glance decl id step = some (.leftTo fault t'.base) := by
  suffices h : (m'.glance decl id step = some g ∧ ∀ below, g ≠ .inherited below) ∨ ∃ f t t', LooksUp f ∧
      m.view id = some t ∧ m'.view id = some t' ∧ g = f t.base ∧ m'.glance decl id step = some (f t'.base) by
    obtain h | ⟨f, t, t', ⟨g, hg, rfl⟩ | ⟨fault, rfl⟩, hView, hView', rfl, hGlance'⟩ := h
    · exact .inl h
    · exact .inl ⟨hGlance', hg⟩
    · exact .inr ⟨t, t', fault, hView, hView', rfl, hGlance'⟩
  cases step with
  | field name =>
    obtain ⟨t, hView, rfl⟩ := Option.map_eq_some_iff.1 hGlance
    obtain ⟨t', hView', hForm⟩ := hSame id t hId hView
    refine .inr ⟨_, t, t', decl.looksUp_glanceField name t.form, hView, hView', rfl, ?_⟩
    rw [glance, hView', Option.map_some, ← decl.glanceField_uncached name t.form, ← hForm, decl.glanceField_uncached]
  | index index =>
    simp only [glance, glanceElement, hEnv] at hGlance ⊢
    split at hGlance
    · rename_i hIndex
      cases hGlance
      exact .inl ⟨rfl, (TypeDecl.stops_of_glanceIndex hIndex).ne_inherited⟩
    · obtain ⟨t, hView, hGlance⟩ := Option.bind_eq_some_iff.1 hGlance
      obtain ⟨t', hView', hForm⟩ := hSame id t hId hView
      rw [hView', Option.bind_some, ← t'.form.elements?_uncached, hForm, t.form.elements?_uncached]
      split at hGlance
      · cases hGlance
        exact .inl ⟨rfl, by simp⟩
      · rename_i items hItems
        split at hGlance
        · cases hGlance
          exact .inl ⟨by simp only [*], by simp⟩
        · rename_i item hItem
          obtain ⟨u, hItemView, rfl⟩ := Option.map_eq_some_iff.1 hGlance
          have hMem : item ∈ t.form.children := Form.eq_of_elements? hItems ▸ List.mem_of_getElem? hItem
          obtain ⟨u', hItemView', hItemForm⟩ := hSame item u (hChild t item hView hMem) hItemView
          refine .inr ⟨_, t, t', .ofElement item _ u.form, hView, rfl, rfl, ?_⟩
          simp only [hItemView', Option.map_some]
          rw [← Glance.ofElement_uncached _ _ _ u'.form, hItemForm, Glance.ofElement_uncached]

theorem glance_congr {m' : Reading} (hEnv : m'.env = m.env) (hId : K id) (hSame : ∀ id t, K id → m.view id = some t →
      ∃ t', m'.view id = some t' ∧ t'.form.uncached = t.form.uncached ∧ t'.base = t.base)
    (hChild : ∀ t child, m.view id = some t → child ∈ t.form.children → K child)
    (hGlance : m.glance decl id step = some g) : m'.glance decl id step = some g := by
  have hForm := fun id t hId hView => (hSame id t hId hView).imp fun _ h => And.intro h.1 h.2.1
  obtain ⟨hGlance', -⟩ | ⟨t, t', fault, hView, hView', rfl, hGlance'⟩ := glance_lookUp m' hGlance hEnv hId hForm hChild
  · exact hGlance'
  · obtain ⟨_, hView'', -, hBase⟩ := hSame id t hId hView
    cases hView'.symm.trans hView''
    rw [hGlance', hBase]

structure ItemAt (m : Reading) (decl : TypeDecl) (index : Value) (id : NodeId) (element : TypeKey) (t : Template)
    (item : NodeId) (u : Template) : Prop where
  element : decl.category.element? = some element
  view : m.view id = some t
  place : ∃ number items, m.env.definitions.foldInteger? index = some number ∧
    ¬ decl.category.position number < 0 ∧ t.form = .list .positional items ∧
    items[(decl.category.position number).toNat]? = some item
  itemView : m.view item = some u

/-- What a step finds at a node: nothing, a field given by name or by position, an element, or the base that the part
is left to. -/
inductive Tells (m : Reading) (decl : TypeDecl) (id : NodeId) : PathStep → Glance → Prop where
  | stops {step : PathStep} {g : Glance} : g.Stops → Tells m decl id step g
  | entry {name : String} {t : Template} {field : FieldDecl} {entries : List NamedEntry} {entry : NamedEntry} :
      m.view id = some t → t.form = .named entries → decl.field? name = some field →
      entries.find? (·.name = name) = some entry →
      Tells m decl id (.field name) (.part (.found entry.template field.type))
  | listed {name : String} {t : Template} {field : FieldDecl} {items : List NodeId} {item : NodeId} :
      m.view id = some t → t.form = .list .positional items → decl.field? name = some field → item ∈ items →
      Tells m decl id (.field name) (.part (.found item field.type))
  | leftField {name : String} {t : Template} {field : FieldDecl} {entries : List NamedEntry} {base : NodeId} :
      m.view id = some t → t.form = .named entries → decl.field? name = some field →
      entries.find? (·.name = name) = none → t.base = some base → Tells m decl id (.field name) (.inherited base)
  | element {index : Value} {element : TypeKey} {t u : Template} {item : NodeId} :
      m.ItemAt decl index id element t item u → u.form ≠ .notUsed →
      Tells m decl id (.index index) (.part (.found item element))
  | leftElement {index : Value} {element : TypeKey} {t u : Template} {item base : NodeId} :
      m.ItemAt decl index id element t item u → u.form = .notUsed → t.base = some base →
      Tells m decl id (.index index) (.inherited base)

theorem tells_of_glance (h : m.glance decl id step = some g) : m.Tells decl id step g := by
  cases step with
  | field name =>
    obtain ⟨t, hView, rfl⟩ := Option.map_eq_some_iff.1 h
    obtain ⟨g, hStops, hGlance⟩ | hTells := decl.glanceField_cases name t.form
    · rw [hGlance]
      exact .stops hStops
    · generalize decl.glanceField name t.form = f at hTells ⊢
      generalize hForm : t.form = form at hTells
      cases hTells with
      | entry hField hFind => exact .entry hView hForm hField hFind
      | item hField hItem => exact .listed hView hForm hField hItem
      | left hField hFind hLeft =>
        rw [hLeft]
        cases hBase : t.base with
        | none => exact .stops (.lost _)
        | some base => exact .leftField hView hForm hField hFind hBase
  | index index =>
    simp only [glance, glanceElement] at h
    split at h
    · rename_i hIndex
      cases h
      exact .stops (TypeDecl.stops_of_glanceIndex hIndex)
    · rename_i element number hIndex
      obtain ⟨t, hView, h⟩ := Option.bind_eq_some_iff.1 h
      unfold TypeDecl.glanceIndex at hIndex
      repeat' split at hIndex
      all_goals cases hIndex
      split at h
      · cases h
        exact .stops .unknown
      · rename_i items hItems
        split at h
        · cases h
          exact .stops (.lost _)
        · rename_i item hItem
          obtain ⟨u, hItemView, rfl⟩ := Option.map_eq_some_iff.1 h
          have hItemAt : m.ItemAt decl index id element t item u :=
            ⟨‹_›, hView, ⟨number, items, ‹_›, ‹_›, Form.eq_of_elements? hItems, hItem⟩, hItemView⟩
          unfold Glance.ofElement
          split
          · rename_i hUsed
            cases hBase : t.base with
            | none => exact .stops (.lost _)
            | some base => exact .leftElement hItemAt hUsed hBase
          · rename_i hUsed
            exact .element hItemAt hUsed

theorem Tells.shape (h : m.Tells decl id step g) : g.Stops ∨ ∃ t, m.view id = some t ∧
      ((∃ entries, t.form = .named entries) ∨ ∃ items, t.form = .list .positional items) := by
  cases h with
  | stops hStops => exact .inl hStops
  | entry hView hForm | leftField hView hForm => exact .inr ⟨_, hView, .inl ⟨_, hForm⟩⟩
  | listed hView hForm => exact .inr ⟨_, hView, .inr ⟨_, hForm⟩⟩
  | element hItem | leftElement hItem =>
    obtain ⟨_, items, -, -, hForm, -⟩ := hItem.place
    exact .inr ⟨_, hItem.view, .inr ⟨items, hForm⟩⟩

theorem glance_ne_invalid : m.glance decl id step ≠ some (.part .invalid) := by
  intro h
  cases tells_of_glance h with
  | stops hStops => cases hStops

theorem PartAt.ne_invalid (h : m.PartAt ends decl step depth id p) : p ≠ .invalid := by
  induction h with
  | here hGlance =>
    rintro rfl
    exact glance_ne_invalid hGlance
  | inherited _ _ _ ih => exact ih

/-- A path that leads nowhere is no part. -/
theorem Narrows.ne_invalid (h : m.Narrows ends path id type p) : p ≠ .invalid := by
  induction path generalizing id type with
  | nil =>
    rw [Narrows] at h
    rw [h]
    exact nofun
  | cons step path ih =>
    obtain ⟨last, t, -, -, hRest⟩ := h
    split at hRest
    · rename_i hEntrance
      subst hRest
      obtain rfl | rfl := Env.entrance_inl hEntrance <;> simp
    · obtain ⟨q, hPart, hRest⟩ := hRest
      cases q with
      | found part type => exact ih hRest
      | unknown => simp [show p = .unknown from hRest]
      | invalid => exact absurd rfl hPart.ne_invalid

def Enters (m : Reading) (ends : NodeId → NodeId → Prop) (step : PathStep) (path : List PathStep) (last : NodeId)
    (type : TypeKey) (p : Part) : Prop :=
  ∃ t, m.view last = some t ∧
    match m.env.entrance t.form last type with
    | .inl q => p = q
    | .inr decl => ∃ q, m.PartAt ends decl step m.walk last q ∧ Onward (m.Narrows ends path) p q

theorem narrows_cons_iff :
    m.Narrows ends (step :: path) id type q ↔ ∃ last, ends id last ∧ m.Enters ends step path last type q := by
  constructor
  · rintro ⟨last, t, hEnd, hView, hRest⟩
    exact ⟨last, hEnd, t, hView, hRest⟩
  · rintro ⟨last, hEnd, t, hView, hRest⟩
    exact ⟨last, t, hEnd, hView, hRest⟩

def FoundIn (K : NodeId → Prop) (q : Part) : Prop := ∀ part type, q = .found part type → K part

theorem foundIn_found : FoundIn K (.found id type) ↔ K id := by
  constructor
  · intro h
    exact h id type rfl
  · rintro h _ _ ⟨⟩
    exact h

/-- Whatever the first reading finds at the nodes of a set, the second one finds as well, and it lies in the set. -/
structure Carries (K : NodeId → Prop) (m m' : Reading) : Prop where
  env : m'.env = m.env
  walk : m'.walk = m.walk
  form : ∀ {id t}, K id → m.view id = some t → ∃ u, m'.view id = some u ∧ u.form = t.form
  glance : ∀ {decl id step g}, K id → m.glance decl id step = some g → (∀ fault, g ≠ .lost fault) →
    m'.glance decl id step = some g
  inside : ∀ {decl id step g}, K id → m.glance decl id step = some g → g.Inside K

theorem Carries.refl (m : Reading) : Carries (fun _ => True) m m where
  env := rfl
  walk := rfl
  form _ hView := ⟨_, hView, rfl⟩
  glance _ hGlance _ := hGlance
  inside _ _ := Glance.inside_true _

section Carried

variable {m' : Reading} (hCarries : Carries K m m') (hEnds : ∀ id last, K id → ends id last → K last ∧ ends' id last)

include hCarries hEnds

theorem PartAt.carry (h : m.PartAt ends decl step depth id q) (hId : K id) :
    FoundIn K q ∧ m'.PartAt ends' decl step depth id q := by
  induction h with
  | here hGlance =>
    refine ⟨?_, .here (hCarries.glance hId hGlance nofun)⟩
    rintro part type rfl
    exact hCarries.inside hId hGlance
  | inherited hGlance hBase _ ih =>
    obtain ⟨hLast, hEnd⟩ := hEnds _ _ (hCarries.inside hId hGlance) hBase
    obtain ⟨hFound, hPart⟩ := ih hLast
    exact ⟨hFound, .inherited (hCarries.glance hId hGlance nofun) hEnd hPart⟩

theorem Enters.carry
    (hPath : ∀ id type, K id → m.Narrows ends path id type q → FoundIn K q ∧ m'.Narrows ends' path id type q)
    (h : m.Enters ends step path last type q) (hLast : K last) :
    FoundIn K q ∧ m'.Enters ends' step path last type q := by
  obtain ⟨t, hView, hRest⟩ := h
  obtain ⟨u, hView', hForm⟩ := hCarries.form hLast hView
  rcases hEntrance : m.env.entrance t.form last type with q' | decl
  · simp only [hEntrance] at hRest
    obtain rfl := hRest
    refine ⟨?_, u, hView', by simp only [hForm, hCarries.env, hEntrance]⟩
    obtain rfl | rfl := Env.entrance_inl hEntrance
    · exact foundIn_found.2 hLast
    · exact nofun
  · simp only [hEntrance] at hRest
    obtain ⟨q', hPart, hOnward⟩ := hRest
    obtain ⟨hFound, hPart'⟩ := hPart.carry hCarries hEnds hLast
    have hEnters : Onward (m'.Narrows ends' path) q q' → m'.Enters ends' step path last type q := by
      intro hOnward'
      refine ⟨u, hView', ?_⟩
      simp only [hForm, hCarries.env, hCarries.walk, hEntrance]
      exact ⟨q', hPart', hOnward'⟩
    cases q' with
    | found part partType => exact (hPath part partType (hFound part partType rfl) hOnward).imp_right hEnters
    | unknown | invalid =>
      obtain rfl := hOnward
      exact ⟨hFound, hEnters rfl⟩

theorem Narrows.carry (h : m.Narrows ends path id type q) (hId : K id) :
    FoundIn K q ∧ m'.Narrows ends' path id type q := by
  induction path generalizing id type with
  | nil =>
    obtain rfl : q = .found id type := h
    exact ⟨foundIn_found.2 hId, rfl⟩
  | cons step path ih =>
    obtain ⟨last, hLast, hEnters⟩ := narrows_cons_iff.1 h
    obtain ⟨hIn, hEnd⟩ := hEnds id last hId hLast
    obtain ⟨hFound, hEnters'⟩ := hEnters.carry hCarries hEnds (fun _ _ hId' hPath => ih hPath hId') hIn
    exact ⟨hFound, narrows_cons_iff.2 ⟨last, hEnd, hEnters'⟩⟩

end Carried

structure Follows (m : Reading) (ends : NodeId → NodeId → Prop) (id last : NodeId) (form : Form) (r : Reference)
    (template : TemplateDef) (type : TypeKey) (q : Part) : Prop where
  form : form = .referenced r none
  target : ∃ definition, m.env.definitions.target? r = some definition ∧
    definition.kind.template? = some template ∧ definition.type = some type
  args : r.args = none
  narrows : m.Narrows ends r.path template.body type q
  arrives : Arrives ends id last q

theorem Follows.leaves {r : Reference} {template : TemplateDef} (h : m.Follows ends id last form r template type q) :
    m.Leaves ends id last form := by
  obtain ⟨definition, hTarget, hTemplate, hType⟩ := h.target
  simp only [Leaves, h.form, hTarget, hTemplate, hType, h.args]
  exact ⟨q, h.narrows, h.arrives⟩

theorem Leaves.inv (h : m.Leaves ends id last form) : ((last = id ∨ form.resolved? = some last) ∧
      ∀ (m' : Reading) (ends' : NodeId → NodeId → Prop), m'.env = m.env → m'.Leaves ends' id last form) ∨
    ∃ r template type q, m.Follows ends id last form r template type q := by
  unfold Leaves at h
  split at h
  · obtain rfl := h
    exact .inl ⟨.inr rfl, fun m' ends' _ => rfl⟩
  · rename_i r
    split at h
    · rename_i hTarget
      obtain rfl := h
      exact .inl ⟨.inl rfl, fun m' ends' hEnv => by simp only [Leaves, hEnv, hTarget]⟩
    · rename_i definition hTarget
      split at h
      · rename_i template type hTemplate hType hArgs
        obtain ⟨q, hNarrows, hArrives⟩ := h
        exact .inr ⟨r, template, type, q, rfl, ⟨definition, hTarget, hTemplate, hType⟩, hArgs, hNarrows, hArrives⟩
      · rename_i hNone
        obtain rfl := h
        refine .inl ⟨.inl rfl, fun m' ends' hEnv => ?_⟩
        simp only [Leaves, hEnv, hTarget]
  · rename_i hKnown hUnknown
    obtain rfl := h
    refine .inl ⟨.inl rfl, fun m' ends' _ => ?_⟩
    unfold Leaves
    split
    · exact absurd rfl (hKnown _ _)
    · exact absurd rfl (hUnknown _)
    · rfl

section Monotone

variable (h : ∀ id last, ends id last → ends' id last)

include h

theorem PartAt.mono (hPart : m.PartAt ends decl step depth id p) : m.PartAt ends' decl step depth id p :=
  (hPart.carry (.refl m) (fun id last _ hEnd => ⟨trivial, h id last hEnd⟩) trivial).2

theorem Narrows.mono (hNarrows : m.Narrows ends path id type p) : m.Narrows ends' path id type p :=
  (hNarrows.carry (.refl m) (fun id last _ hEnd => ⟨trivial, h id last hEnd⟩) trivial).2

theorem Arrives.mono (hArrives : Arrives ends id last p) : Arrives ends' id last p := by
  cases p with
  | found part type => exact h _ _ hArrives
  | unknown | invalid => exact hArrives

theorem Leaves.mono (hLeaves : m.Leaves ends id last form) : m.Leaves ends' id last form := by
  obtain ⟨-, hAnyway⟩ | ⟨r, template, type, q, hFollows⟩ := hLeaves.inv
  · exact hAnyway m _ rfl
  · exact Follows.leaves { hFollows with narrows := hFollows.narrows.mono h, arrives := hFollows.arrives.mono h }

end Monotone

theorem EndsWithin.succ (h : m.EndsWithin length id last) : m.EndsWithin (length + 1) id last := by
  induction length generalizing id last with
  | zero => exact h.elim
  | succ length ih =>
    obtain ⟨t, hNode, hLeaves⟩ := h
    exact ⟨t, hNode, hLeaves.mono fun _ _ => ih⟩

theorem EndsWithin.mono {length' : Nat} (hLe : length ≤ length')
    (h : m.EndsWithin length id last) : m.EndsWithin length' id last := by
  induction hLe with
  | refl => exact h
  | step _ ih => exact ih.succ

section Functional

variable (hEnds : ∀ id a b, ends id a → ends id b → a = b)

include hEnds

theorem PartAt.eq (hp : m.PartAt ends decl step depth id p) (hq : m.PartAt ends decl step depth id q) : p = q := by
  induction hp with
  | here hGlance =>
    cases hq with
    | here hGlance' =>
      rw [hGlance] at hGlance'
      cases hGlance'
      rfl
    | inherited hGlance' =>
      rw [hGlance] at hGlance'
      cases hGlance'
  | inherited hGlance hBase _ ih =>
    cases hq with
    | here hGlance' =>
      rw [hGlance] at hGlance'
      cases hGlance'
    | inherited hGlance' hBase' hPart' =>
      rw [hGlance] at hGlance'
      cases hGlance'
      exact ih (hEnds _ _ _ hBase hBase' ▸ hPart')

theorem Narrows.eq (hp : m.Narrows ends path id type p) (hq : m.Narrows ends path id type q) : p = q := by
  induction path generalizing id type with
  | nil => exact Eq.trans hp (Eq.symm hq)
  | cons step path ih =>
    obtain ⟨last, t, hLast, hNode, hp⟩ := hp
    obtain ⟨last', t', hLast', hNode', hq⟩ := hq
    obtain rfl := hEnds _ _ _ hLast hLast'
    cases hNode.symm.trans hNode'
    rcases hEntrance : m.env.entrance t.form last type with stop | decl
    · simp only [hEntrance] at hp hq
      rw [hp, hq]
    · simp only [hEntrance] at hp hq
      obtain ⟨part, hPart, hp⟩ := hp
      obtain ⟨part', hPart', hq⟩ := hq
      obtain rfl := hPart.eq hEnds hPart'
      cases part with
      | found => exact ih hp hq
      | unknown | invalid => rw [hp, hq]

theorem Leaves.eq {last' : NodeId} (h : m.Leaves ends id last form)
    (h' : m.Leaves ends id last' form) : last = last' := by
  unfold Leaves at h h'
  split at h
  · rw [h, h']
  · split at h
    · simp_all
    · split at h
      · simp only [*] at h'
        obtain ⟨p, hNarrows, hArrives⟩ := h
        obtain ⟨p', hNarrows', hArrives'⟩ := h'
        obtain rfl := hNarrows.eq hEnds hNarrows'
        cases p with
        | found part type => exact hEnds _ _ _ hArrives hArrives'
        | unknown => exact Eq.trans hArrives (Eq.symm hArrives')
        | invalid => exact hArrives.elim
      · simp_all
  · simp_all

end Functional

variable {last' : NodeId}

theorem EndsWithin.eq (h : m.EndsWithin length id last) (h' : m.EndsWithin length id last') : last = last' := by
  induction length generalizing id last last' with
  | zero => exact h.elim
  | succ length ih =>
    obtain ⟨t, hNode, hLeaves⟩ := h
    obtain ⟨t', hNode', hLeaves'⟩ := h'
    cases hNode.symm.trans hNode'
    have hEnds : ∀ id a b, m.EndsWithin length id a → m.EndsWithin length id b → a = b :=
      fun _ _ _ => ih
    exact hLeaves.eq hEnds hLeaves'

theorem EndsAt.eq (h : m.EndsAt id last) (h' : m.EndsAt id last') : last = last' := by
  obtain ⟨length, h⟩ := h
  obtain ⟨length', h'⟩ := h'
  exact (h.mono (Nat.le_max_left length length')).eq (h'.mono (Nat.le_max_right length length'))

/-! A chain asks for the ends of finitely many others, so one length is enough for all of them. -/

theorem PartAt.exists_within
    (h : m.PartAt m.EndsAt decl step depth id p) : ∃ length, m.PartAt (m.EndsWithin length) decl step depth id p := by
  induction h with
  | here hGlance => exact ⟨0, .here hGlance⟩
  | inherited hGlance hBase _ ih =>
    obtain ⟨length, hBase⟩ := hBase
    obtain ⟨length', hPart⟩ := ih
    exact ⟨max length length', .inherited hGlance (hBase.mono (Nat.le_max_left ..))
      (hPart.mono fun _ _ => EndsWithin.mono (Nat.le_max_right ..))⟩

theorem Narrows.exists_within
    (h : m.Narrows m.EndsAt path id type p) : ∃ length, m.Narrows (m.EndsWithin length) path id type p := by
  induction path generalizing id type with
  | nil => exact ⟨0, h⟩
  | cons step path ih =>
    obtain ⟨last, t, ⟨length, hLast⟩, hNode, hRest⟩ := h
    rcases hEntrance : m.env.entrance t.form last type with stop | decl
    · exact ⟨length, last, t, hLast, hNode, by simpa [hEntrance] using hRest⟩
    · simp only [hEntrance] at hRest
      obtain ⟨q, hPart, hRest⟩ := hRest
      obtain ⟨length', hPart⟩ := hPart.exists_within
      have hStep : ∀ length'', max length length' ≤ length'' → Onward (m.Narrows (m.EndsWithin length'') path) p q →
            m.Narrows (m.EndsWithin length'') (step :: path) id type p := by
        intro length'' hLe hRest
        refine ⟨last, t, hLast.mono (by omega), hNode, ?_⟩
        simp only [hEntrance]
        exact ⟨q, hPart.mono fun _ _ => EndsWithin.mono (by omega), hRest⟩
      cases q with
      | found part partType =>
        obtain ⟨length'', hRest⟩ := ih hRest
        exact ⟨max (max length length') length'', hStep _ (Nat.le_max_left ..)
          (hRest.mono fun _ _ => EndsWithin.mono (Nat.le_max_right ..))⟩
      | unknown | invalid => exact ⟨_, hStep _ (Nat.le_refl _) hRest⟩

theorem Leaves.exists_within (h : m.Leaves m.EndsAt id last form) :
    ∃ length, m.Leaves (m.EndsWithin length) id last form := by
  obtain ⟨-, hAnyway⟩ | ⟨r, template, type, q, hFollows⟩ := h.inv
  · exact ⟨0, hAnyway m _ rfl⟩
  · obtain ⟨length, hNarrows⟩ := hFollows.narrows.exists_within
    obtain ⟨length', hArrives⟩ : ∃ length', Arrives (m.EndsWithin length') id last q := by
      have hArrives := hFollows.arrives
      cases q with
      | found part type => exact hArrives
      | unknown => exact ⟨0, hArrives⟩
      | invalid => exact hArrives.elim
    exact ⟨max length length', Follows.leaves { hFollows with
      narrows := hNarrows.mono fun _ _ => EndsWithin.mono (Nat.le_max_left ..)
      arrives := hArrives.mono fun _ _ => EndsWithin.mono (Nat.le_max_right ..) }⟩

/-- The end of a chain is the end of what its first reference leads to. -/
theorem endsAt_iff : m.EndsAt id last ↔ ∃ t, m.view id = some t ∧ m.Leaves m.EndsAt id last t.form := by
  constructor
  · rintro ⟨length, h⟩
    cases length with
    | zero => exact h.elim
    | succ length =>
      obtain ⟨t, hNode, hLeaves⟩ := h
      exact ⟨t, hNode, hLeaves.mono fun _ _ h => ⟨length, h⟩⟩
  · rintro ⟨t, hNode, hLeaves⟩
    obtain ⟨length, hLeaves⟩ := hLeaves.exists_within
    exact ⟨length + 1, t, hNode, hLeaves⟩

end Reading

end TemplateCheck
