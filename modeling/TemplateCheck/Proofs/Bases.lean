import TemplateCheck.Proofs.Chains.Linking
import TemplateCheck.Proofs.Compatibility

/-!
# Bases of inline templates

To bind an inline template links it to the part of the definition that it modifies. Whether the part leads back to
the inline template is not looked at: a template that modifies itself, by way of other templates or not, comes to
build on itself. The link does no harm if nothing leads back.
-/

namespace TemplateCheck

open Relation (ReflTransGen TransGen)

def Part.node? : Part → Option NodeId
  | .found id _ => some id
  | _ => none

/-- The template that an inline template gets for its base, if any. -/
def Reading.LinksTo (m : Reading) (inline : InlineTemplate) (base : Option NodeId) : Prop :=
  match inline.modifies with
  | none => base = none
  | some r =>
    match m.env.definitions.target? r with
    | none => base = none
    | some definition =>
      match definition.kind.template?, definition.type with
      | some template, some declared =>
        ∃ part, m.Narrows m.EndsAt r.path template.body declared part ∧ base = part.node?
      | _, _ => base = none

def Store.linked (s : Store) (id : NodeId) : Option NodeId → Store
  | none => s
  | some base => s.update id (·.linkTo base)

section Binding

variable {m : Reading} {s : Store} {r : Reference} {template : TemplateDef} {type : TypeKey} {part : Part} {env : Env}

theorem attains_basePart (hNarrows : m.Narrows m.EndsAt r.path template.body type part) (hs : m.Agrees s) :
    Attains true m.env s (basePart r template type) fun base s' => base = part.node? ∧ m.Learns s s' := by
  have hFinds : m.Finds (m.Learns s) m.EndsAt
      (lastWithin (s.size + 1) ⟨"While searching for the base template", [], []⟩) :=
    Reading.OnChain.finds ⟨by simp, by simp⟩ (by simp) (by simp)
  apply Attains.store_then
  apply (Reading.attains_narrow (fun _ h => h.agrees) hFinds hNarrows hs.room hs.learns).bind
  rintro _ s' ⟨hPart, hLearns⟩
  rw [hPart]
  cases part with
  | found | unknown | invalid => exact .pure ⟨rfl, hLearns⟩

variable {inline : InlineTemplate} {base : Option NodeId} {t : Template}

theorem attains_linkBase (hView : m.view inline.body = some t) (hs : m.Agrees s) :
    Attains true m.env s (base.forM (linkBase inline.body)) fun _ s' => s' = s.linked inline.body base := by
  cases base with
  | none => exact .pure rfl
  | some base =>
    obtain ⟨t', hNode, -⟩ := hs.nodes inline.body t hView
    exact .modifyNode hNode

theorem attains_baseGovernor (r : Reference) (expected : Option TypeKey) (base : TypeKey) :
    Attains false env s (baseGovernor r expected base) fun _ s' => s' = s := by
  apply Attains.read_then
  split
  · exact .pure rfl
  · dsimp only
    split
    · exact .pure rfl
    · exact (Attains.tell _ _).bind fun _ _ hSame => .pure hSame

theorem attains_optionForM {α : Type} {o : Option α} {f : α → CheckM Unit}
    (h : ∀ a, Attains false env s (f a) fun _ s' => s' = s) : Attains false env s (o.forM f) fun _ s' => s' = s := by
  cases o with
  | none => exact .pure rfl
  | some a => exact h a

theorem yieldsTemplate_of_template? {kind : DefKind} (h : kind.template? = some template) :
    kind.yieldsTemplate = true := by
  cases kind <;> cases h
  rfl

theorem attains_attachBase (hLinks : m.LinksTo inline base) (hView : m.view inline.body = some t) (hs : m.Agrees s)
    (expected : Option TypeKey) : Attains false m.env s (attachBase inline expected) fun _ s' =>
      ∃ s1, m.Learns s s1 ∧ s' = s1.linked inline.body base := by
  have hNothing : base = none → ∃ s1, m.Learns s s1 ∧ s = s1.linked inline.body base := by
    rintro rfl
    exact ⟨s, hs.learns, rfl⟩
  unfold Reading.LinksTo at hLinks
  unfold attachBase
  cases hModifies : inline.modifies with
  | none =>
    rw [hModifies] at hLinks
    exact .pure (hNothing hLinks)
  | some r =>
    rw [hModifies] at hLinks
    apply Attains.read_then
    cases hTarget : m.env.definitions.target? r with
    | none =>
      simp only [hTarget] at hLinks ⊢
      exact (Attains.tell _ _).bind fun _ _ hSame => .pure (hSame ▸ hNothing hLinks)
    | some definition =>
      simp only [hTarget] at hLinks ⊢
      cases hTemplate : definition.kind.template? with
      | none =>
        simp only [hTemplate] at hLinks
        split
        · exact (Attains.tell _ _).bind fun _ _ hSame => .pure (hSame ▸ hNothing hLinks)
        · split
          · apply (attains_baseGovernor r expected _).bind
            rintro governor _ rfl
            simp only [linkToPart, hTemplate]
            exact .pure (hNothing hLinks)
          · exact .pure (hNothing hLinks)
      | some template =>
        rw [yieldsTemplate_of_template? hTemplate]
        cases hType : definition.type with
        | none =>
          simp only [hTemplate, hType] at hLinks ⊢
          exact .pure (hNothing hLinks)
        | some declared =>
          simp only [hTemplate, hType] at hLinks ⊢
          obtain ⟨part, hNarrows, rfl⟩ := hLinks
          apply (attains_baseGovernor r expected _).bind
          rintro governor _ rfl
          apply Attains.of_quiet
          unfold linkToPart
          simp only [hTemplate, bind_assoc]
          apply (attains_basePart hNarrows hs).bind
          rintro _ s1 ⟨rfl, hLearns⟩
          apply (attains_linkBase hView hLearns.agrees).bind
          rintro _ _ rfl
          exact .pure ⟨s1, hLearns, rfl⟩

theorem attains_bindGovernor (hLinks : m.LinksTo inline base) (hView : m.view inline.body = some t) (hs : m.Agrees s)
    (expected : Option TypeKey) : Attains false m.env s (bindGovernor inline expected) fun _ s' =>
      ∃ s1, m.Learns s s1 ∧ s' = s1.linked inline.body base := by
  unfold bindGovernor
  split
  · exact attains_attachBase hLinks hView hs expected
  · apply Attains.read_then
    dsimp only
    refine (attains_optionForM fun wanted => ?_).bind ?_
    · split
      · exact .tell _ _
      · exact .pure rfl
    · rintro _ _ rfl
      exact (attains_attachBase hLinks hView hs _).bind fun _ _ hLinked => .pure hLinked

end Binding

namespace Reading

variable {m : Reading} {s : Store} {id last : NodeId}

theorem Matches.endsAt_iff (h : m.Matches s) : (s.reading m.env).EndsAt id last ↔ m.EndsAt id last := by
  have hFound : ∀ {n n' : Reading}, n.env = m.env → n'.env = m.env → n.Agrees s → n'.Matches s →
      n.EndsAt id last → n'.EndsAt id last := by
    intro n n' hEnv hEnv' hAgrees hMatches hEnd
    have hFinds := attains_lastTemplate hEnd hAgrees
    have hClean : Clean n'.env s (lastTemplate id) _ := clean_lastTemplate hMatches
    rw [hEnv] at hFinds
    rw [hEnv'] at hClean
    obtain ⟨_, after, hRun, hReport, rfl, -⟩ := hFinds.run {}
    exact (hClean.post {} _ after hRun (by rw [hReport rfl, Report.SameErrors])).1
  constructor
  · exact hFound rfl rfl (matches_reading s m.env).toAgrees h
  · exact hFound rfl rfl h.toAgrees (matches_reading s m.env)

theorem Matches.builds_eq (h : m.Matches s) : (s.reading m.env).Builds = m.Builds := by
  funext id last
  apply propext
  constructor
  · rintro ⟨t', base, hNode, hBase, hEnd⟩
    obtain ⟨t, hView, hFollowed⟩ := h.of_get? hNode
    exact ⟨t, base, hView, hFollowed.uncached.2.symm.trans hBase, h.endsAt_iff.1 hEnd⟩
  · rintro ⟨t, base, hView, hBase, hEnd⟩
    obtain ⟨t', hNode, hFollowed⟩ := h.nodes id t hView
    exact ⟨t', base, hNode, hFollowed.uncached.2.trans hBase, h.endsAt_iff.2 hEnd⟩

theorem Matches.isReference (h : m.Matches s) (hReference : (s.reading m.env).IsReference id) : m.IsReference id := by
  obtain ⟨t', r, known, hNode, hForm⟩ := hReference
  obtain ⟨t, hView, hFollowed⟩ := h.of_get? hNode
  cases hFollowed with
  | same => exact ⟨t, r, known, hView, hForm⟩
  | known _ hForm' => exact ⟨t, _, none, hView, hForm'⟩

theorem Matches.encloses {K : NodeId → Prop} (h : m.Matches s) (hK : m.Encloses K) : (s.reading m.env).Encloses K := by
  intro id other hId hPasses
  cases hPasses with
  | child hNode hMem =>
    obtain ⟨t, hView, hFollowed⟩ := h.of_get? hNode
    refine hK id other hId (.child hView ?_)
    cases hFollowed with
    | same => exact hMem
    | known => cases hMem
  | base hNode hBase =>
    obtain ⟨t, hView, hFollowed⟩ := h.of_get? hNode
    exact hK id other hId (.base hView (hFollowed.uncached.2.symm.trans hBase))
  | known hNode hKnown =>
    obtain ⟨t, hView, hFollowed⟩ := h.of_get? hNode
    cases hFollowed with
    | same => exact hK id other hId (.known hView hKnown)
    | known _ _ hEnd =>
      cases hKnown
      obtain ⟨length, hEnd⟩ := hEnd
      exact (hEnd.within hK (.refl K m) hId).1
  | target hNode hForm hTarget hTemplate =>
    obtain ⟨t, hView, hFollowed⟩ := h.of_get? hNode
    cases hFollowed with
    | same => exact hK id _ hId (.target hView hForm hTarget hTemplate)
    | known => cases hForm

theorem reading_linked (s : Store) (env : Env) (b p : NodeId) :
    (s.linked b (some p)).reading env = (s.reading env).link b p := by
  have hView : (s.linked b (some p)).get? = ((s.reading env).link b p).view := by
    funext id
    by_cases hEq : id = b
    · subst hEq
      rw [view_link_self]
      exact Store.get?_update_self ..
    · rw [view_link_of_ne hEq]
      exact Store.get?_update_of_ne hEq
  have hSize : (s.linked b (some p)).size = s.size := Store.size_update ..
  simp only [Store.reading, hView, hSize]
  rfl

end Reading

namespace Session

open List Reading

/-- Where no list type contains itself, binding an inline template gives a governor. If it is linked to nothing, nodes
build on the nodes they built on before. If it is linked to a template from which nothing leads back to it, and no
reference has a base, no node comes to build on itself. If it had no base, and the end of the one it gets builds on it
already, it builds on itself. -/
theorem bindGovernor_builds (s : Session) (inline : InlineTemplate) (expected : Option TypeKey) {base : Option NodeId}
    (hBody : s.store.Has inline.body) (hLinks : (s.store.reading s.env).LinksTo inline base) :
    let m := s.store.reading s.env
    let m' := (s.bindGovernor inline expected).2.store.reading s.env
    ((∀ key, ¬ TransGen s.types.Holds key key) → ∃ governor, (s.bindGovernor inline expected).1 = .ok governor) ∧
    (base = none → ∀ id last, m'.Builds id last ↔ m.Builds id last) ∧
    ∀ p, base = some p →
      ((∀ id, ¬ TransGen m.Builds id id) → (∀ id t b, m.IsReference id → m.view id = some t → t.base ≠ some b) →
        ¬ ReflTransGen m.Passes p inline.body → ∀ id, ¬ TransGen m'.Builds id id) ∧
      ((∀ t, m.view inline.body = some t → t.base = none) → (∃ last, m.EndsAt p last ∧
        ReflTransGen m.Builds last inline.body) → TransGen m'.Builds inline.body inline.body) := by
  intro m m'
  obtain ⟨t, hView⟩ := hBody.exists_get?
  have hMatches : m.Matches s.store := matches_reading s.store s.env
  obtain ⟨governor, hOk, -, s1, hLearns, hStore⟩ :=
    Session.run_of_attains (attains_bindGovernor hLinks hView hMatches.toAgrees expected)
  have hMatches1 : m.Matches s1 := hMatches.learns hLearns
  have hStore' : (s.bindGovernor inline expected).2.store = s1.linked inline.body base := hStore
  refine ⟨fun _ => ⟨governor, hOk⟩, ?_, ?_⟩
  · rintro rfl id last
    have hm' : m' = s1.reading m.env := by simp only [m', hStore']; rfl
    rw [hm', hMatches1.builds_eq]
  · rintro p rfl
    have hm' : m' = (s1.reading m.env).link inline.body p := by simp only [m', hStore', reading_linked]; rfl
    rw [hm']
    constructor
    · intro hAcyclic hReferences hFar
      have hK : m.Encloses (ReflTransGen m.Passes p) := fun _ _ hReach hStep => hReach.tail hStep
      have hLinked : ((s1.reading m.env).link inline.body p).Encloses (ReflTransGen m.Passes p) :=
        (hMatches1.encloses hK).of_sameOn (sameOn_link hFar)
      apply not_builds_link hLinked hFar .refl
      · rwa [hMatches1.builds_eq]
      · intro id t' b hReference hNode
        obtain ⟨u, hView', hFollowed⟩ := hMatches1.of_get? hNode
        rw [hFollowed.uncached.2]
        exact hReferences id u b (hMatches1.isReference hReference) hView'
    · rintro hNone ⟨last, hEnd, hBack⟩
      obtain ⟨t1, hNode, hFollowed⟩ := hLearns.agrees.nodes inline.body t hView
      have hNone1 : ∀ t', (s1.reading m.env).view inline.body = some t' → t'.base = none := by
        intro t' hNode'
        cases hNode.symm.trans hNode'
        exact hFollowed.uncached.2.trans (hNone t hView)
      apply builds_link_self hNone1 hNode (hMatches1.endsAt_iff.2 hEnd)
      rwa [hMatches1.builds_eq]

def twoTemplates : Session where
  types := ⟨[(1, ⟨"Empty", .record []⟩)]⟩
  definitions := ⟨[.ofBody "u" 1 0, .ofBody "t" 1 1]⟩
  store := ⟨[{ form := .anyValue }, { form := .named [] }]⟩

def twoTemplates.modifying (name : String) (d : DefId) : InlineTemplate where
  modifies := some ⟨name, some d, [], none, {}⟩
  body := 1
  span := {}

theorem twoTemplates.get? {id : NodeId} {t : Template} (h : twoTemplates.store.get? id = some t) :
    t.form.children = [] ∧ t.form.reference? = none ∧ t.form.resolved? = none ∧ t.base = none := by
  have hMem : t ∈ twoTemplates.store.nodes := mem_of_getElem? h
  simp only [twoTemplates, mem_cons, not_mem_nil, or_false] at hMem
  obtain rfl | rfl := hMem
  · exact ⟨rfl, rfl, rfl, rfl⟩
  · exact ⟨rfl, rfl, rfl, rfl⟩

theorem bindGovernor_builds_twoTemplates :
    (∀ id, ¬ TransGen ((twoTemplates.bindGovernor (twoTemplates.modifying "u" 0) none).2.store.reading
      twoTemplates.env).Builds id id) ∧
    TransGen ((twoTemplates.bindGovernor (twoTemplates.modifying "t" 1) none).2.store.reading
      twoTemplates.env).Builds 1 1 := by
  have hLinks : (twoTemplates.store.reading twoTemplates.env).LinksTo (twoTemplates.modifying "u" 0) (some 0) :=
    ⟨.found 0 1, rfl, rfl⟩
  have hLinks' : (twoTemplates.store.reading twoTemplates.env).LinksTo (twoTemplates.modifying "t" 1) (some 1) :=
    ⟨.found 1 1, rfl, rfl⟩
  have hOther := (bindGovernor_builds twoTemplates (twoTemplates.modifying "u" 0) none (by decide) hLinks).2.2 _ rfl
  have hItself := (bindGovernor_builds twoTemplates (twoTemplates.modifying "t" 1) none (by decide) hLinks').2.2 _ rfl
  refine ⟨hOther.1 ?_ ?_ ?_, hItself.2 ?_ ⟨1, ⟨1, _, rfl, rfl⟩, .refl⟩⟩
  · intro id hCycle
    obtain ⟨_, ⟨t, base, hNode, hBase, -⟩, -⟩ := TransGen.head'_iff.1 hCycle
    rw [(twoTemplates.get? hNode).2.2.2] at hBase
    cases hBase
  · intro id t b _ hNode
    simp [(twoTemplates.get? hNode).2.2.2]
  · intro hReach
    obtain hEq | ⟨_, hStep, -⟩ := ReflTransGen.cases_head hReach
    · cases hEq
    · cases hStep with
      | child hNode hMem => simp [(twoTemplates.get? hNode).1] at hMem
      | base hNode hBase => simp [(twoTemplates.get? hNode).2.2.2] at hBase
      | known hNode hKnown => simp [(twoTemplates.get? hNode).2.2.1] at hKnown
      | target hNode hForm =>
        have hNone := (twoTemplates.get? hNode).2.1
        rw [hForm] at hNone
        cases hNone
  · intro t hNode
    exact (twoTemplates.get? hNode).2.2.2

/-- A template that modifies itself is linked to itself, and nothing is reported. -/
theorem modifying_itself_links :
    let after := (twoTemplates.bindGovernor (twoTemplates.modifying "t" 1) none).2
    (after.store.get? 1).bind (·.base) = some 1 ∧ after.report.diagnostics = [] := by
  decide +kernel

end Session

end TemplateCheck
