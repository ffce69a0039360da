import TemplateCheck.Proofs.Chains.Following

/-!
# Base links and chains

A node builds on the end of the chain that its base starts. To give a node another base changes what chains find that
pass through it, and so the ends of chains anywhere. If nothing leads from the new base back to the node, no node
comes to build on itself by this; if the end of the new base builds on the node already, the node does.
-/

namespace TemplateCheck

open Relation (ReflTransGen TransGen)

variable {ends' : NodeId → NodeId → Prop} {length depth : Nat}

namespace Reading

variable (m : Reading)

/-- The base of the first node starts a chain that ends at the second. -/
def Builds (id last : NodeId) : Prop := ∃ t base, m.view id = some t ∧ t.base = some base ∧ m.EndsAt base last

/-- Whoever follows references may come from the first node to the second. -/
inductive Passes : NodeId → NodeId → Prop where
  | child {id other : NodeId} {t : Template} : m.view id = some t → other ∈ t.form.children → Passes id other
  | base {id other : NodeId} {t : Template} : m.view id = some t → t.base = some other → Passes id other
  | known {id other : NodeId} {t : Template} : m.view id = some t → t.form.resolved? = some other → Passes id other
  | target {id : NodeId} {t : Template} {r : Reference} {definition : Definition} {template : TemplateDef} :
      m.view id = some t → t.form = .referenced r none → m.env.definitions.target? r = some definition →
      definition.kind.template? = some template → Passes id template.body

def Encloses (K : NodeId → Prop) : Prop := ∀ id other, K id → m.Passes id other → K other

def link (b p : NodeId) : Reading :=
  { m with view := fun id => if id = b then (m.view id).map (·.linkTo p) else m.view id }

end Reading

namespace Reading

variable {m : Reading} {K : NodeId → Prop} {b p id last : NodeId} {decl : TypeDecl} {step : PathStep} {g : Glance}
  {type : TypeKey} {below : NodeId} {path : List PathStep} {q : Part} {form : Form} {m' : Reading}
  {ends : NodeId → NodeId → Prop} {t : Template}

theorem env_link : (m.link b p).env = m.env := rfl

theorem view_link_of_ne (h : id ≠ b) : (m.link b p).view id = m.view id := if_neg h

theorem view_link_self : (m.link b p).view b = (m.view b).map (·.linkTo p) := if_pos rfl

theorem view_link_form (h : (m.link b p).view id = some t) : ∃ u, m.view id = some u ∧ u.form = t.form := by
  by_cases hEq : id = b
  · subst hEq
    rw [view_link_self] at h
    obtain ⟨u, hView, rfl⟩ := Option.map_eq_some_iff.1 h
    exact ⟨u, hView, rfl⟩
  · rw [view_link_of_ne hEq] at h
    exact ⟨t, h, rfl⟩

theorem view_link_of_some (h : m.view id = some t) : ∃ u, (m.link b p).view id = some u ∧ u.form = t.form := by
  by_cases hEq : id = b
  · subst hEq
    exact ⟨t.linkTo p, by rw [view_link_self, h, Option.map_some], rfl⟩
  · exact ⟨t, (view_link_of_ne hEq).trans h, rfl⟩

theorem glance_link (h : (m.link b p).glance decl id step = some g) :
    (id = b ∧ g = .inherited p) ∨ m.glance decl id step = some g := by
  obtain ⟨hGlance, -⟩ | ⟨t, t', fault, hView, hView', rfl, hGlance⟩ := glance_lookUp (K := fun _ => True) m h
    rfl trivial (fun _ _ _ hView => (view_link_form hView).imp fun _ h => h.imp_right (congrArg Form.uncached))
    fun _ _ _ _ => trivial
  · exact .inr hGlance
  · by_cases hEq : id = b
    · subst hEq
      rw [view_link_self, hView', Option.map_some, Option.some.injEq] at hView
      subst hView
      exact .inl ⟨rfl, rfl⟩
    · rw [view_link_of_ne hEq, hView', Option.some.injEq] at hView
      subst hView
      exact .inr hGlance

theorem glance_link_of_none (hNone : ∀ t, m.view b = some t → t.base = none) (h : m.glance decl id step = some g)
    (hLost : ∀ fault, g ≠ .lost fault) : (m.link b p).glance decl id step = some g := by
  obtain ⟨hGlance, -⟩ | ⟨t, t', fault, hView, hView', rfl, hGlance⟩ := glance_lookUp (K := fun _ => True)
    (m.link b p) h rfl trivial (fun _ _ _ hView => (view_link_of_some hView).imp fun _ h => h.imp_right
      (congrArg Form.uncached)) fun _ _ _ _ => trivial
  · exact hGlance
  · have hNe : id ≠ b := by
      rintro rfl
      exact hLost fault (by rw [hNone t hView]; rfl)
    rw [view_link_of_ne hNe, hView, Option.some.injEq] at hView'
    rw [hGlance, hView']

theorem mem_children_of_glance {part : NodeId} (h : m.glance decl id step = some (.part (.found part type))) :
    ∃ t, m.view id = some t ∧ part ∈ t.form.children := by
  cases tells_of_glance h with
  | stops hStops => cases hStops
  | entry hView hForm _ hFind => exact ⟨_, hView, hForm ▸ List.mem_map_of_mem (List.mem_of_find?_eq_some hFind)⟩
  | listed hView hForm _ hItem => exact ⟨_, hView, hForm ▸ hItem⟩
  | element hItem =>
    obtain ⟨_, _, -, -, hForm, hAt⟩ := hItem.place
    exact ⟨_, hItem.view, hForm ▸ List.mem_of_getElem? hAt⟩

theorem base_of_glance (h : m.glance decl id step = some (.inherited below)) :
    ∃ t, m.view id = some t ∧ t.base = some below := by
  cases tells_of_glance h with
  | stops hStops => cases hStops
  | leftField hView _ _ _ hBase => exact ⟨_, hView, hBase⟩
  | leftElement hItem _ hBase => exact ⟨_, hItem.view, hBase⟩

def IsReference (m : Reading) (id : NodeId) : Prop := ∃ t r known, m.view id = some t ∧ t.form = .referenced r known

theorem IsReference.not_inherited (h : m.IsReference id) : m.glance decl id step ≠ some (.inherited below) := by
  obtain ⟨t, r, known, hView, hForm⟩ := h
  intro hGlance
  obtain hStops | ⟨t', hView', ⟨_, hForm'⟩ | ⟨_, hForm'⟩⟩ := (tells_of_glance hGlance).shape
  · cases hStops
  all_goals
    cases hView.symm.trans hView'
    cases hForm.symm.trans hForm'

theorem PartAt.foundIn_of_isReference
    (h : m.PartAt ends decl step depth id q) (hReference : m.IsReference id) : FoundIn K q := by
  cases h with
  | here hGlance =>
    rintro part type rfl
    obtain ⟨t, hView, hMem⟩ := mem_children_of_glance hGlance
    obtain ⟨t', r, known, hView', hForm⟩ := hReference
    cases hView.symm.trans hView'
    rw [hForm] at hMem
    cases hMem
  | inherited hGlance => exact absurd hGlance hReference.not_inherited

theorem Enters.foundIn_of_isReference (h : m.Enters ends step path last type q) (hReference : m.IsReference last) :
    FoundIn K q := by
  obtain ⟨t, hView, hRest⟩ := h
  obtain ⟨t', r, known, hView', hForm⟩ := hReference
  cases hView.symm.trans hView'
  rw [hForm] at hRest
  obtain rfl : q = .unknown := hRest
  exact nofun

theorem isReference_link : (m.link b p).IsReference id ↔ m.IsReference id := by
  constructor
  · rintro ⟨t, r, known, hView, hForm⟩
    obtain ⟨u, hView', hEq⟩ := view_link_form hView
    exact ⟨u, r, known, hView', hEq.trans hForm⟩
  · rintro ⟨t, r, known, hView, hForm⟩
    obtain ⟨u, hView', hEq⟩ := view_link_of_some hView
    exact ⟨u, r, known, hView', hEq.trans hForm⟩

structure SameOn (K : NodeId → Prop) (m m' : Reading) : Prop where
  env : m'.env = m.env
  walk : m'.walk = m.walk
  view : ∀ id, K id → m'.view id = m.view id

theorem SameOn.refl (K : NodeId → Prop) (m : Reading) : SameOn K m m := ⟨rfl, rfl, fun _ _ => rfl⟩

theorem sameOn_link (hb : ¬ K b) : SameOn K m (m.link b p) where
  env := rfl
  walk := rfl
  view id hId := by
    apply view_link_of_ne
    rintro rfl
    exact hb hId

theorem Encloses.of_sameOn (hK : m.Encloses K) (hSame : SameOn K m m') : m'.Encloses K := by
  intro id other hId hPasses
  cases hPasses with
  | child hView hMem => exact hK id other hId (.child ((hSame.view id hId).symm.trans hView) hMem)
  | base hView hBase => exact hK id other hId (.base ((hSame.view id hId).symm.trans hView) hBase)
  | known hView hKnown => exact hK id other hId (.known ((hSame.view id hId).symm.trans hView) hKnown)
  | target hView hForm hTarget hTemplate =>
    exact hK id _ hId (.target ((hSame.view id hId).symm.trans hView) hForm (hSame.env ▸ hTarget) hTemplate)

section Enclosed

variable (hK : m'.Encloses K) (hSame : SameOn K m m')

include hK hSame

theorem carries_within : Carries K m' m where
  env := hSame.env.symm
  walk := hSame.walk.symm
  form hId hView := ⟨_, (hSame.view _ hId).symm.trans hView, rfl⟩
  glance hId hGlance _ := glance_congr hSame.env.symm hId
    (fun id t hId hView => ⟨t, (hSame.view id hId).symm.trans hView, rfl, rfl⟩)
    (fun _ child hView hMem => hK _ child hId (.child hView hMem)) hGlance
  inside {_ id _ g} hId hGlance := by
    cases g with
    | part p =>
      cases p with
      | found part type =>
        obtain ⟨t, hView, hMem⟩ := mem_children_of_glance hGlance
        exact hK id part hId (.child hView hMem)
      | _ => trivial
    | lost => trivial
    | inherited below =>
      obtain ⟨t, hView, hBelow⟩ := base_of_glance hGlance
      exact hK id below hId (.base hView hBelow)

omit hSame in
theorem EndsWithin.carry (hCarries : Carries K m' m) (h : m'.EndsWithin length id last) (hId : K id) :
    K last ∧ m.EndsWithin length id last := by
  induction length generalizing id last with
  | zero => exact h.elim
  | succ length ih =>
    obtain ⟨t, hView, hLeaves⟩ := h
    obtain ⟨u, hView', hForm⟩ := hCarries.form hId hView
    obtain ⟨hLast, hAnyway⟩ | ⟨r, template, type, q, hFollows⟩ := hLeaves.inv
    · refine ⟨?_, u, hView', hForm ▸ hAnyway m _ hCarries.env⟩
      obtain rfl | hKnown := hLast
      · exact hId
      · exact hK id last hId (.known hView hKnown)
    · obtain ⟨definition, hTarget, hTemplate, hType⟩ := hFollows.target
      have hBody : K template.body := hK id _ hId (.target hView hFollows.form hTarget hTemplate)
      obtain ⟨hFound, hNarrows⟩ := hFollows.narrows.carry hCarries (fun _ _ hIn hEnd => ih hEnd hIn) hBody
      have hArrives : K last ∧ Arrives (m.EndsWithin length) id last q := by
        have hArrives := hFollows.arrives
        cases q with
        | found part partType => exact ih hArrives (hFound part partType rfl)
        | unknown =>
          obtain rfl := hArrives
          exact ⟨hId, rfl⟩
        | invalid => exact hArrives.elim
      refine ⟨hArrives.1, u, hView', hForm ▸ Follows.leaves ⟨hFollows.form, ?_, hFollows.args, hNarrows, hArrives.2⟩⟩
      exact ⟨definition, hCarries.env ▸ hTarget, hTemplate, hType⟩

theorem EndsWithin.within (h : m'.EndsWithin length id last) (hId : K id) : K last ∧ m.EndsWithin length id last :=
  h.carry hK (carries_within hK hSame) hId

theorem Builds.within (h : m'.Builds id last) (hId : K id) : K last ∧ m.Builds id last := by
  obtain ⟨t, base, hView, hBase, length, hEnd⟩ := h
  obtain ⟨hLast, hEnd'⟩ := hEnd.within hK hSame (hK id base hId (.base hView hBase))
  exact ⟨hLast, t, base, (hSame.view id hId).symm.trans hView, hBase, length, hEnd'⟩

theorem transGen_builds_within (h : TransGen m'.Builds id last) (hId : K id) : K last ∧ TransGen m.Builds id last := by
  induction h with
  | single hStep =>
    obtain ⟨hLast, hBuilds⟩ := hStep.within hK hSame hId
    exact ⟨hLast, .single hBuilds⟩
  | tail _ hStep ih =>
    obtain ⟨hMiddle, hPath⟩ := ih
    obtain ⟨hLast, hBuilds⟩ := hStep.within hK hSame hMiddle
    exact ⟨hLast, hPath.tail hBuilds⟩

end Enclosed

section Across

variable (hK : (m.link b p).Encloses K) (hb : ¬ K b) (hp : K p)

include hK hb hp

theorem PartAt.across (hIn : ∀ id last, K id → ends' id last → K last ∧ ends id last)
    (hEnds : ∀ id last, ends' id last → K last ∨ m.IsReference last ∨ ends id last)
    (h : (m.link b p).PartAt ends' decl step depth id q) : FoundIn K q ∨ m.PartAt ends decl step depth id q := by
  induction h with
  | here hGlance =>
    obtain ⟨-, hEq⟩ | hGlance := glance_link hGlance
    · cases hEq
    · exact .inr (.here hGlance)
  | @inherited depth id base last q hGlance hBase hRest ih =>
    have hStray : K last → FoundIn K q := fun hLast => (hRest.carry (carries_within hK (sameOn_link hb)) hIn hLast).1
    obtain ⟨rfl, hEq⟩ | hGlance := glance_link hGlance
    · cases hEq
      exact .inl (hStray (hIn p last hp hBase).1)
    · obtain hLast | hLast | hEnd := hEnds base last hBase
      · exact .inl (hStray hLast)
      · exact .inl (hRest.foundIn_of_isReference (isReference_link.2 hLast))
      · exact ih.imp_right (.inherited hGlance hEnd)

theorem Narrows.across (hIn : ∀ id last, K id → ends' id last → K last ∧ ends id last)
    (hEnds : ∀ id last, ends' id last → K last ∨ m.IsReference last ∨ ends id last)
    (h : (m.link b p).Narrows ends' path id type q) : FoundIn K q ∨ m.Narrows ends path id type q := by
  induction path generalizing id type with
  | nil => exact .inr h
  | cons step path ih =>
    have hWithin : ∀ id type, K id → (m.link b p).Narrows ends' path id type q →
        FoundIn K q ∧ m.Narrows ends path id type q := fun _ _ hId hPath =>
      hPath.carry (carries_within hK (sameOn_link hb)) hIn hId
    obtain ⟨last, hLast, hEnters⟩ := narrows_cons_iff.1 h
    obtain hStray | hReference | hEnd := hEnds id last hLast
    · exact .inl (hEnters.carry (carries_within hK (sameOn_link hb)) hIn hWithin hStray).1
    · exact .inl (hEnters.foundIn_of_isReference (isReference_link.2 hReference))
    · obtain ⟨t, hView, hRest⟩ := hEnters
      obtain ⟨u, hView', hForm⟩ := view_link_form hView
      rw [← hForm, env_link] at hRest
      cases hEntrance : m.env.entrance u.form last type with
      | inl q' =>
        simp only [hEntrance] at hRest
        exact .inr ⟨last, u, hEnd, hView', by simp only [hEntrance, hRest]⟩
      | inr decl =>
        simp only [hEntrance] at hRest
        obtain ⟨q', hPart, hOnward⟩ := hRest
        cases q' with
        | found part partType =>
          obtain hFound | hPart' := hPart.across hK hb hp hIn hEnds
          · exact .inl (hWithin part partType (hFound part partType rfl) hOnward).1
          · refine (ih hOnward).imp_right fun hNarrows => ⟨last, u, hEnd, hView', ?_⟩
            simp only [hEntrance]
            exact ⟨_, hPart', hNarrows⟩
        | unknown | invalid =>
          obtain rfl := hOnward
          exact .inl nofun

theorem EndsWithin.across (h : (m.link b p).EndsWithin length id last) :
    K last ∨ m.IsReference last ∨ m.EndsWithin length id last := by
  induction length generalizing id last with
  | zero => exact h.elim
  | succ length ih =>
    obtain ⟨t, hView, hLeaves⟩ := h
    obtain ⟨u, hView', hForm⟩ := view_link_form hView
    obtain ⟨-, hAnyway⟩ | ⟨r, template, type, q, hFollows⟩ := hLeaves.inv
    · exact .inr (.inr ⟨u, hView', hForm ▸ hAnyway m _ rfl⟩)
    · have hIn : ∀ id last, K id → (m.link b p).EndsWithin length id last → K last ∧ m.EndsWithin length id last :=
        fun _ _ hId hEnd => hEnd.within hK (sameOn_link hb) hId
      have hArrives := hFollows.arrives
      obtain hFound | hNarrows := hFollows.narrows.across hK hb hp hIn fun _ _ => ih
      · cases q with
        | found part partType => exact .inl (hIn part last (hFound part partType rfl) hArrives).1
        | unknown =>
          obtain rfl := hArrives
          exact .inr (.inl ⟨u, r, none, hView', hForm.trans hFollows.form⟩)
        | invalid => exact hArrives.elim
      · have hLeaves' : ∀ {last}, Arrives (m.EndsWithin length) id last q → m.EndsWithin (length + 1) id last := by
          intro last hArrives'
          have hFollows' : m.Follows (m.EndsWithin length) id last t.form r template type q :=
            ⟨hFollows.form, hFollows.target, hFollows.args, hNarrows, hArrives'⟩
          exact ⟨u, hView', hForm ▸ hFollows'.leaves⟩
        cases q with
        | found part partType => exact (ih hArrives).imp_right (·.imp_right hLeaves')
        | unknown => exact .inr (.inr (hLeaves' hArrives))
        | invalid => exact hArrives.elim

theorem Builds.mem_of_link (h : (m.link b p).Builds b last) : K last := by
  obtain ⟨t, base, hView, hBase, length, hEnd⟩ := h
  rw [view_link_self] at hView
  obtain ⟨u, -, rfl⟩ := Option.map_eq_some_iff.1 hView
  cases hBase
  exact (hEnd.within hK (sameOn_link hb) hp).1

theorem Builds.across (h : (m.link b p).Builds id last) : K last ∨ m.IsReference last ∨ m.Builds id last := by
  by_cases hEq : id = b
  · subst hEq
    exact .inl (h.mem_of_link hK hb hp)
  · obtain ⟨t, base, hView, hBase, length, hEnd⟩ := h
    refine (hEnd.across hK hb hp).imp_right (·.imp_right fun hEnd' => ?_)
    exact ⟨t, base, (view_link_of_ne hEq).symm.trans hView, hBase, length, hEnd'⟩

/-- No reference has a base, so the ends of chains outside of the set are of no use to a node that would build on
itself. -/
theorem not_builds_link (hAcyclic : ∀ id, ¬ TransGen m.Builds id id)
    (hReferences : ∀ id t base, m.IsReference id → m.view id = some t → t.base ≠ some base) (id : NodeId) :
    ¬ TransGen (m.link b p).Builds id id := by
  intro hCycle
  have hOut : ¬ K id := fun hId => hAcyclic id (transGen_builds_within hK (sameOn_link hb) hCycle hId).2
  have hAway : ∀ {other}, TransGen (m.link b p).Builds other id → ¬ K other ∧ ¬ m.IsReference other := by
    intro other hPath
    have hNot : ¬ K other := fun hOther => hOut (transGen_builds_within hK (sameOn_link hb) hPath hOther).1
    refine ⟨hNot, fun hReference => ?_⟩
    obtain ⟨next, hStep, hRest⟩ := TransGen.head'_iff.1 hPath
    by_cases hEq : other = b
    · subst hEq
      obtain rfl | hRest := Relation.reflTransGen_iff_eq_or_transGen.1 hRest
      · exact hOut (hStep.mem_of_link hK hb hp)
      · exact hOut (transGen_builds_within hK (sameOn_link hb) hRest (hStep.mem_of_link hK hb hp)).1
    · obtain ⟨t, base, hView, hBase, -⟩ := hStep
      exact hReferences other t base hReference ((view_link_of_ne hEq).symm.trans hView) hBase
  have hKept : ∀ {first second}, (m.link b p).Builds first second → TransGen (m.link b p).Builds second id →
      m.Builds first second := by
    intro first second hStep hRest
    obtain ⟨hNot, hPlain⟩ := hAway hRest
    exact ((hStep.across hK hb hp).resolve_left hNot).resolve_left hPlain
  have hOld : ∀ {other}, TransGen (m.link b p).Builds other id → TransGen m.Builds other id := by
    intro other hPath
    induction hPath using TransGen.head_induction_on with
    | single hStep => exact .single (hKept hStep hCycle)
    | head hStep hRest ih => exact .head (hKept hStep hRest) ih
  exact hAcyclic id (hOld hCycle)

end Across

section Closing

variable (hNone : ∀ t, m.view b = some t → t.base = none)

include hNone

theorem EndsWithin.link (h : m.EndsWithin length id last) : (m.link b p).EndsWithin length id last := by
  have hCarries : Carries (fun _ => True) m (m.link b p) :=
    ⟨rfl, rfl, fun _ hView => view_link_of_some hView, fun _ hGlance => glance_link_of_none hNone hGlance,
      fun _ _ => Glance.inside_true _⟩
  exact (h.carry (fun _ _ _ _ => trivial) hCarries trivial).2

theorem Builds.link (h : m.Builds id last) : (m.link b p).Builds id last := by
  obtain ⟨t, base, hView, hBase, length, hEnd⟩ := h
  have hNe : id ≠ b := by
    rintro rfl
    rw [hNone t hView] at hBase
    cases hBase
  exact ⟨t, base, (view_link_of_ne hNe).trans hView, hBase, length, hEnd.link hNone⟩

/-- If the end of its new base builds on the node already, the node builds on itself. -/
theorem builds_link_self (hView : m.view b = some t) (hEnd : m.EndsAt p last)
    (hBack : ReflTransGen m.Builds last b) : TransGen (m.link b p).Builds b b := by
  obtain ⟨length, hEnd⟩ := hEnd
  have hFirst : (m.link b p).Builds b last :=
    ⟨t.linkTo p, p, by rw [view_link_self, hView, Option.map_some], rfl, length, hEnd.link hNone⟩
  exact TransGen.head' hFirst (ReflTransGen.mono (fun _ _ => Builds.link hNone) _ _ hBack)

end Closing

end Reading

end TemplateCheck
