import TemplateCheck.Proofs.Findings
import TemplateCheck.Proofs.Substitution.Splicing

/-!
# Paths to the targets of slots

A slot names its target by a path, and so does a reference. Both walk along the path in their own way. A reference
looks up what a template leaves out in its base, and finds the fields of a record in value list notation by
position. A slot does neither: it reports a step whose part is not in the template it has arrived at.
-/

namespace TemplateCheck

open List Store

variable {m : Reading} {s : Store} {id last part : NodeId} {t : Template} {partType : TypeKey} {decl : TypeDecl}
  {step : PathStep} {path : List PathStep} {items : List NodeId}

/-- If the path of a slot is straight, something is given and nothing is reported; otherwise an error is. -/
def SlotVerdict (straight : Prop) (span : Span) (context : List Context) (given : Prop) (found : List Diagnostic) :
    Prop :=
  (straight ∧ found = [] ∧ given) ∨ (¬ straight ∧ ∃ p, found = [⟨.error p, span, context⟩])

variable {form : Form} {type : TypeKey} {name : String}

theorem Unfolds.single_of_slot {view : NodeId → Option Template} {below : List NodeId}
    {children : List Tree} (h : Unfolds view form.children below children) (hSlot : form.isSlot) :
    ∃ target, children = [target] := by
  cases form with
  | allFrom target =>
    cases h with
    | cons _ _ hRest =>
      cases hRest
      exact ⟨_, rfl⟩
  | _ => cases hSlot

namespace Reading

/-- Every step of the path finds its part in the template it has arrived at, and fields are found by name. -/
def Straight (m : Reading) : List PathStep → NodeId → TypeKey → Prop
  | [], _, _ => True
  | step :: path, id, type =>
    ∃ last t decl part partType, m.EndsAt id last ∧ m.view last = some t ∧ m.env.types.decl? type = some decl ∧
      m.glance decl last step = some (.part (.found part partType)) ∧
      (∀ items, t.form = .list .positional items → ∃ index, step = .index index) ∧ m.Straight path part partType

theorem EndsAt.exists_view (h : m.EndsAt id last) : ∃ t, m.view id = some t := by
  obtain ⟨t, hView, -⟩ := endsAt_iff.1 h
  exact ⟨t, hView⟩

theorem EndsAt.eq_self (h : m.EndsAt id last) (hView : m.view id = some t)
    (hForm : ∀ r known, t.form ≠ .referenced r known) : last = id := by
  obtain ⟨t', hView', hLeaves⟩ := endsAt_iff.1 h
  cases hView.symm.trans hView'
  unfold Leaves at hLeaves
  split at hLeaves
  case h_1 | h_2 => exact absurd ‹_› (hForm _ _)
  · exact hLeaves

structure LeadsTo (m : Reading) (path : List PathStep) (id : NodeId) (type : TypeKey) (part : NodeId)
    (partType : TypeKey) : Prop where
  narrows : m.Narrows m.EndsAt path id type (.found part partType)
  list : ∃ last t items, m.EndsAt part last ∧ m.view last = some t ∧ t.form = .list .positional items

theorem LeadsTo.exists_view (h : m.LeadsTo path id type part partType) : ∃ t, m.view id = some t := by
  obtain ⟨hNarrows, last, t, items, hEnd, -⟩ := h
  cases path with
  | nil =>
    cases hNarrows
    exact hEnd.exists_view
  | cons step path =>
    obtain ⟨last', -, hEnd', -⟩ := hNarrows
    exact hEnd'.exists_view

theorem LeadsTo.head (h : m.LeadsTo (step :: path) id type part partType) :
    ∃ last t decl next nextType, m.EndsAt id last ∧ m.view last = some t ∧ m.env.types.decl? type = some decl ∧
      m.PartAt m.EndsAt decl step m.walk last (.found next nextType) ∧
      m.LeadsTo path next nextType part partType := by
  obtain ⟨⟨last', t', hEnd', hView', hRest⟩, last, t, items, hEnd, hView, hForm⟩ := h
  rcases hEntrance : m.env.entrance t'.form last' type with q | decl
  · -- A path that ends early ends at an erroneous template or is not known.
    simp only [hEntrance] at hRest
    subst hRest
    unfold Env.entrance at hEntrance
    split at hEntrance
    · rename_i hErroneous
      cases hEntrance
      have hSelf := hEnd.eq_self hView' (by rintro r known hEq; rw [hEq] at hErroneous; cases hErroneous)
      cases hSelf
      cases hView.symm.trans hView'
      rw [hForm] at hErroneous
      cases hErroneous
    · repeat' split at hEntrance
      all_goals cases hEntrance
  · simp only [hEntrance] at hRest
    obtain ⟨q, hPart, hOnward⟩ := hRest
    have hDecl := Env.entrance_inr hEntrance
    cases q with
    | found next nextType =>
      exact ⟨last', t', decl, next, nextType, hEnd', hView', hDecl, hPart, hOnward, last, t, items, hEnd, hView, hForm⟩
    | unknown | invalid => cases hOnward

end Reading

variable {index : Value} {template : TemplateDef}

theorem Registry.spliceStep_field {types : Registry}
    {field : FieldDecl} (hDecl : types.decl? type = some decl) (hField : decl.field? name = some field) :
    types.spliceStep type (.field name) = .ok field.type := by
  cases hFields : decl.category.fields? with
  | none => simp [TypeDecl.field?, hFields] at hField
  | some fields => simp only [spliceStep, hDecl, hFields, hField]

namespace Reading

variable {u : Template} {span : Span} {context : List Context} {depth : Nat} {definition : Definition} {v : Template}
  {target : NodeId} {ends : NodeId → NodeId → Prop} {straight : Prop}

theorem PartAt.glance {p : Part} (h : m.PartAt ends decl step depth id p) :
    m.glance decl id step = some (.part p) ∨ ∃ base, m.glance decl id step = some (.inherited base) := by
  cases h with
  | here hGlance => exact .inl hGlance
  | inherited hGlance => exact .inr ⟨_, hGlance⟩

theorem LeadsTo.isLive (h : m.LeadsTo path id type part partType) (hView : m.view id = some t) :
    t.form ≠ .omitted ∧ t.form ≠ .notUsed := by
  have hDead : ¬ (t.form = .omitted ∨ t.form = .notUsed) := by
    intro hForm
    have hEnds {last : NodeId} (hEnd : m.EndsAt id last) : last = id :=
      hEnd.eq_self hView (by rintro r known hEq; simp [hEq] at hForm)
    cases path with
    | nil =>
      obtain ⟨hNarrows, last, t', items, hEnd, hView', hList⟩ := h
      cases hNarrows
      cases hEnds hEnd
      cases hView.symm.trans hView'
      simp [hList] at hForm
    | cons step path =>
      obtain ⟨last, t', decl, next, nextType, hEnd, -, -, hPart, -⟩ := h.head
      cases hEnds hEnd
      obtain ⟨g, hGlance, hGoes⟩ : ∃ g, m.glance decl id step = some g ∧ ¬ g.Stops := by
        obtain hGlance | ⟨base, hGlance⟩ := hPart.glance <;> exact ⟨_, hGlance, nofun⟩
      obtain hStops | ⟨t', hView', hShape⟩ := (tells_of_glance hGlance).shape
      · exact hGoes hStops
      · cases hView.symm.trans hView'
        obtain ⟨_, hShape⟩ | ⟨_, hShape⟩ := hShape <;> simp [hShape] at hForm
  exact ⟨fun h => hDead (.inl h), fun h => hDead (.inr h)⟩

theorem Followed.form_iff {t' : Template} (h : m.Followed id t t') (hDirect : form.isDirect) :
    t'.form = form ↔ t.form = form := by
  have hNot := Form.ne_referenced_of_isDirect hDirect
  cases h with
  | same => exact Iff.rfl
  | known _ hReferenced =>
    exact ⟨fun h => absurd h.symm (hNot _ _), fun h => absurd (h.symm.trans hReferenced) (hNot _ _)⟩

theorem Agrees.exists_form (hs : m.Agrees s) (hView : m.view id = some t) (hDirect : t.form.isDirect) :
    ∃ t', s.get? id = some t' ∧ t'.form = t.form := by
  obtain ⟨t', hFound, hFollowed⟩ := hs.nodes id t hView
  exact ⟨t', hFound, (hFollowed.form_iff hDirect).2 rfl⟩

def Moves (m : Reading) (s : Store) (span : Span) (context : List Context) (direct : Prop) (next : TargetWalk) :
    Option TargetWalk → Store → List Diagnostic → Prop := fun walk s' found =>
  m.Learns s s' ∧ ((direct ∧ walk = some next ∧ found = []) ∨
    (¬ direct ∧ walk = none ∧ ∃ p, found = [⟨.error p, span, context⟩]))

theorem reports_lost {direct : Prop} {next : TargetWalk} (hs : m.Agrees s) (hNot : ¬ direct) (p : Problem) :
    Reports m.env s context (do problem span p; return none) (m.Moves s span context direct next) := by
  apply (Reports.tell span (.error p)).bind
  rintro _ _ _ ⟨rfl, rfl⟩
  exact .pure ⟨hs.learns, .inr ⟨hNot, rfl, p, rfl⟩⟩

theorem reports_targetField (hs : m.Agrees s) (hView : m.view last = some t)
    (hPart : m.PartAt m.EndsAt decl (.field name) m.walk last (.found part partType))
    (hPartView : m.view part = some u) (hLive : u.form ≠ .omitted ∧ u.form ≠ .notUsed) :
    Reports m.env s context (targetField span decl name ⟨last, type, true⟩)
      (m.Moves s span context (m.glance decl last (.field name) = some (.part (.found part partType)) ∧
        ∀ items, t.form ≠ .list .positional items) ⟨part, type, true⟩) := by
  obtain hFound | ⟨base, hInherited⟩ := hPart.glance
  · cases tells_of_glance hFound with
    | stops hStops => cases hStops
    | entry hView' hForm _ hFind =>
      cases hView.symm.trans hView'
      obtain ⟨t', hNode, hSame⟩ := hs.exists_form hView (by rw [hForm]; rfl)
      obtain ⟨u', hNode', hFollowed⟩ := hs.nodes _ u hPartView
      apply Reports.formOf_then hNode
      simp only [hSame, hForm, hFind]
      apply Reports.formOf_then hNode'
      split
      · exact absurd ((hFollowed.form_iff rfl).1 ‹_›) hLive.1
      · exact absurd ((hFollowed.form_iff rfl).1 ‹_›) hLive.2
      · exact .pure ⟨hs.learns, .inl ⟨⟨hFound, by simp⟩, rfl, rfl⟩⟩
    | listed hView' hForm =>
      cases hView.symm.trans hView'
      obtain ⟨t', hNode, hSame⟩ := hs.exists_form hView (by rw [hForm]; rfl)
      apply Reports.formOf_then hNode
      simp only [hSame, hForm]
      exact reports_lost hs (fun h => h.2 _ rfl) _
  · cases tells_of_glance hInherited with
    | stops hStops => cases hStops
    | leftField hView' hForm _ hFind =>
      cases hView.symm.trans hView'
      obtain ⟨t', hNode, hSame⟩ := hs.exists_form hView (by rw [hForm]; rfl)
      apply Reports.formOf_then hNode
      simp only [hSame, hForm, hFind]
      exact reports_lost hs (fun h => by cases hInherited.symm.trans h.1) _

theorem reports_targetElement (hs : m.Agrees s) (hView : m.view last = some t)
    (hPart : m.PartAt m.EndsAt decl (.index index) m.walk last (.found part partType)) :
    Reports m.env s context (targetElement span decl index ⟨last, type, true⟩)
      (m.Moves s span context (m.glance decl last (.index index) = some (.part (.found part partType)))
        ⟨part, type, true⟩) := by
  obtain ⟨element, item, u, hItem, hUse⟩ : ∃ element item u, m.ItemAt decl index last element t item u ∧
      ((u.form ≠ .notUsed ∧ item = part ∧ m.glance decl last (.index index) = some (.part (.found part partType))) ∨
        u.form = .notUsed ∧ ∃ base, m.glance decl last (.index index) = some (.inherited base)) := by
    obtain hGlance | ⟨base, hGlance⟩ := hPart.glance
    · cases tells_of_glance hGlance with
      | stops hStops => cases hStops
      | element hItem hUsed =>
        cases hView.symm.trans hItem.view
        exact ⟨_, _, _, hItem, .inl ⟨hUsed, rfl, hGlance⟩⟩
    · cases tells_of_glance hGlance with
      | stops hStops => cases hStops
      | leftElement hItem hUsed =>
        cases hView.symm.trans hItem.view
        exact ⟨_, _, _, hItem, .inr ⟨hUsed, base, hGlance⟩⟩
  obtain ⟨number, items, hNumber, hNonneg, hForm, hAt⟩ := hItem.place
  obtain ⟨t', hNode, hSame⟩ := hs.exists_form hView (by rw [hForm]; rfl)
  obtain ⟨u', hNode', hFollowed⟩ := hs.nodes item u hItem.itemView
  apply Reports.read_then
  simp only [hNumber]
  apply Reports.formOf_then hNode
  simp only [hSame, hForm, targetItem, hNonneg, if_false, hAt]
  apply Reports.formOf_then hNode'
  obtain ⟨hUsed, rfl, hGlance⟩ | ⟨hUsed, base, hGlance⟩ := hUse
  · split
    · exact absurd ((hFollowed.form_iff rfl).1 ‹_›) hUsed
    · exact .pure ⟨hs.learns, .inl ⟨hGlance, rfl, rfl⟩⟩
  · simp only [(hFollowed.form_iff rfl).2 hUsed]
    exact reports_lost hs (fun hDirect => by cases hGlance.symm.trans hDirect) _

def Direct (m : Reading) (decl : TypeDecl) (last : NodeId) (t : Template) (step : PathStep) (part : NodeId)
    (partType : TypeKey) : Prop :=
  m.glance decl last step = some (.part (.found part partType)) ∧
    ∀ items, t.form = .list .positional items → ∃ index, step = .index index

theorem reports_moveTarget (hs : m.Agrees s) (hEnd : m.EndsAt id last) (hView : m.view last = some t)
    (hPart : m.PartAt m.EndsAt decl step m.walk last (.found part partType))
    (hPartView : m.view part = some u) (hLive : u.form ≠ .omitted ∧ u.form ≠ .notUsed) :
    Reports m.env s context (moveTarget span decl ⟨id, type, true⟩ step)
      (m.Moves s span context (m.Direct decl last t step part partType) ⟨part, type, true⟩) := by
  simp only [moveTarget, if_true]
  apply Reports.attains_then (attains_lastTemplate hEnd hs)
  rintro _ s1 ⟨rfl, hLearns⟩
  have hLater {direct direct' : Prop} (hIff : direct ↔ direct') : ∀ (walk : Option TargetWalk) s' found,
      m.Moves s1 span context direct ⟨part, type, true⟩ walk s' found →
        m.Moves s span context direct' ⟨part, type, true⟩ walk s' found := by
    rintro walk s' found ⟨hLearns', hCases⟩
    exact ⟨hLearns.trans hLearns', by rwa [hIff] at hCases⟩
  cases step with
  | index index =>
    apply (reports_targetElement hLearns.agrees hView hPart).mono
    apply hLater
    simp [Direct]
  | field name =>
    apply (reports_targetField hLearns.agrees hView hPart hPartView hLive).mono
    apply hLater
    simp [Direct]

theorem PartAt.spliceStep
    (h : m.PartAt ends decl step depth last (.found part partType)) (hDecl : m.env.types.decl? type = some decl) :
    m.env.types.spliceStep type step = .ok partType := by
  generalize hPart : Part.found part partType = p at h
  induction h with
  | here hGlance =>
    subst hPart
    cases tells_of_glance hGlance with
    | stops hStops => cases hStops
    | entry _ _ hField | listed _ _ hField => exact Registry.spliceStep_field hDecl hField
    | element hItem => simp only [Registry.spliceStep, hDecl, hItem.element]
  | inherited _ _ _ ih => exact ih hPart

theorem attains_spliceStep (hStep : m.env.types.spliceStep type step = .ok partType) :
    Attains true m.env s (TemplateCheck.spliceStep span type step) fun next s' =>
      next = some partType ∧ s' = s := by
  apply Attains.read_then
  simp only [hStep]
  exact .pure ⟨rfl, rfl⟩

theorem Straight.iff_direct (hEnd : m.EndsAt id last) (hView : m.view last = some t)
    (hDecl : m.env.types.decl? type = some decl)
    (hPart : m.PartAt m.EndsAt decl step m.walk last (.found part partType)) : m.Straight (step :: path) id type ↔
      m.Direct decl last t step part partType ∧ m.Straight path part partType := by
  constructor
  · rintro ⟨last', t', decl', part', partType', hEnd', hView', hDecl', hGlance, hForm, hStraight⟩
    cases hEnd.eq hEnd'
    cases hView.symm.trans hView'
    cases hDecl.symm.trans hDecl'
    obtain hFound | ⟨base, hInherited⟩ := hPart.glance
    · cases hFound.symm.trans hGlance
      exact ⟨⟨hGlance, hForm⟩, hStraight⟩
    · cases hInherited.symm.trans hGlance
  · rintro ⟨⟨hGlance, hForm⟩, hStraight⟩
    exact ⟨last, t, decl, part, partType, hEnd, hView, hDecl, hGlance, hForm, hStraight⟩

theorem LeadsTo.reports_walkTarget (h : m.LeadsTo path id type part partType) (hs : m.Agrees s) :
    Reports m.env s context (walkTarget span path ⟨id, type, true⟩)
      (m.Moves s span context (m.Straight path id type) ⟨part, partType, true⟩) := by
  induction path generalizing id type s with
  | nil =>
    cases h.narrows
    exact .pure ⟨hs.learns, .inl ⟨trivial, rfl, rfl⟩⟩
  | cons step path ih =>
    obtain ⟨last, t, decl, next, nextType, hEnd, hView, hDecl, hPart, hRest⟩ := h.head
    obtain ⟨u, hNextView⟩ := hRest.exists_view
    have hStraight : m.Straight (step :: path) id type ↔ _ := Straight.iff_direct hEnd hView hDecl hPart
    apply Reports.read_then
    simp only [hDecl]
    apply Reports.attains_then (attains_spliceStep (hPart.spliceStep hDecl))
    rintro _ _ ⟨rfl, rfl⟩
    apply (reports_moveTarget hs hEnd hView hPart hNextView (hRest.isLive hNextView)).bind
    rintro _ s1 _ ⟨hLearns, ⟨hDirect, rfl, rfl⟩ | ⟨hNot, rfl, p, rfl⟩⟩
    · apply (ih hRest hLearns.agrees).mono
      rintro walk s2 found ⟨hLearns', ⟨hGoes, rfl, rfl⟩ | ⟨hNot, rfl, p, rfl⟩⟩
      · exact ⟨hLearns.trans hLearns', .inl ⟨hStraight.2 ⟨hDirect, hGoes⟩, rfl, rfl⟩⟩
      · exact ⟨hLearns.trans hLearns', .inr ⟨fun h => hNot (hStraight.1 h).2, rfl, p, rfl⟩⟩
    · exact .pure ⟨hLearns, .inr ⟨fun h => hNot (hStraight.1 h).1, rfl, p, rfl⟩⟩

def Splits (m : Reading) (s : Store) (span : Span) (context : List Context) (straight : Prop) (trees : List Tree)
    (content : SlotContent) (s' : Store) (found : List Diagnostic) : Prop :=
  (straight ∧ found = [] ∧ m.Offers s trees content s') ∨
    (¬ straight ∧ content = .invalid ∧ ∃ p, found = [⟨.error p, span, context⟩])

variable {expand : Expand} {inPermutation : Bool} {active : List DefId} {slot : NodeId} {r : Reference}
  {trees trees' : List Tree} {ids : List NodeId}

theorem LeadsTo.reports_spliceFromTemplate {body : NodeId}
    (h : m.LeadsTo r.path body type part partType) (hs : m.Agrees s) (hType : definition.type = some type)
    (hArgs : r.args = none) (hEnd : m.EndsAt part last) (hView : m.view last = some t)
    (hForm : t.form = .list .positional items) (hUnfolds : Unfolds m.view items ids trees)
    (hNone : ∀ tree ∈ trees, elementObstacle false tree.form = none) (hExpand : m.Rewrites expand trees trees')
    (hAvoids : m.Avoids active trees) :
    Reports m.env s context (spliceFromTemplate expand inPermutation active slot definition body r)
      fun content s' found => m.Agrees s' ∧
        m.Splits s r.span context (m.Straight r.path body type) trees' content s' found := by
  unfold spliceFromTemplate
  simp only [hType, Reference.isParameterized, hArgs, Option.isSome_none, Bool.not_false]
  apply (h.reports_walkTarget hs).bind
  rintro _ s1 _ ⟨hLearns, ⟨hStraight, rfl, rfl⟩ | ⟨hNot, rfl, p, rfl⟩⟩
  · simp only [Bool.not_true, Bool.false_eq_true, if_false]
    apply Reports.attains_then (attains_lastTemplate hEnd hLearns.agrees)
    rintro _ s2 ⟨rfl, hLearns'⟩
    obtain ⟨t', hNode, hSame⟩ := hLearns'.agrees.exists_form hView (by rw [hForm]; rfl)
    apply Reports.formOf_then hNode
    simp only [hSame, hForm]
    apply (Reports.of_attains (attains_spliceElements hExpand hLearns'.agrees hUnfolds hNone hAvoids)).mono
    rintro content s3 _ ⟨rfl, items', rfl, hProvides⟩
    exact ⟨hProvides.agrees, .inl ⟨hStraight, rfl, items', rfl, (hLearns.trans hLearns').provides hProvides⟩⟩
  · exact .pure ⟨hLearns.agrees, .inr ⟨hNot, rfl, p, rfl⟩⟩

def AgreesBut (m : Reading) (slot : NodeId) (s : Store) : Prop :=
  ∀ id t, id ≠ slot → m.view id = some t → ∃ t', s.get? id = some t' ∧ m.Followed id t t'

theorem reports_spliceReference {d : DefId} (hTarget : r.target = some d)
    (hDefinition : m.env.definitions.get? d = some definition) (hTemplate : definition.kind = .template template)
    (hInactive : d ∉ active) (hView : m.view slot = some v) (hSlot : v.form = .allFrom target)
    (h : Reports m.env s context
      (spliceFromTemplate expand inPermutation (active ++ [d]) slot definition template.body r)
      fun content s' found => m.Agrees s' ∧ m.Splits s r.span context straight trees content s' found) :
    Reports m.env s context (spliceReference expand inPermutation active slot r) fun content s' found =>
      m.AgreesBut slot s' ∧ m.Splits s r.span context straight trees content s' found := by
  unfold spliceReference
  apply Reports.read_then
  simp only [hTarget, Definitions.target?, Option.bind_some, hDefinition, hInactive, if_false, spliceDefinition,
    hTemplate]
  apply h.bind
  rintro _ s1 _ ⟨hAgrees, ⟨hStraight, rfl, items', rfl, hProvides⟩ | ⟨hNot, rfl, p, rfl⟩⟩
  · exact .pure ⟨fun id t _ => hAgrees.nodes id t, .inl ⟨hStraight, rfl, items', rfl, hProvides⟩⟩
  · obtain ⟨v', hNode, hSame⟩ := hAgrees.exists_form hView (by rw [hSlot]; rfl)
    have hGiven : Attains true m.env s1 (do
        onlyIf (!(← isErroneous slot)) (markErroneous slot)
        return SlotContent.invalid) fun content s' => content = .invalid ∧
          s' = s1.update slot fun t => { t with form := .erroneous } := by
      apply Attains.isErroneous_then hNode
      simp only [hSame, hSlot]
      apply (Attains.replaceForm hNode (by rw [hSame, hSlot]; rfl)).bind
      rintro _ _ rfl
      exact .pure ⟨rfl, rfl⟩
    apply (Reports.of_attains hGiven).mono
    rintro _ _ _ ⟨rfl, rfl, rfl⟩
    refine ⟨fun id t hNe hView => ?_, .inr ⟨hNot, rfl, p, rfl⟩⟩
    rw [get?_update_of_ne hNe]
    exact hAgrees.nodes id t hView

theorem reports_expandItem (hs : m.Agrees s)
    (hView : m.view slot = some v) (hSlot : v.form = .allFrom target) (hTarget : m.view target = some u)
    (hReference : u.form = .specific (.ref r) ∨ ∃ known, u.form = .referenced r known)
    (h : Reports m.env s context (spliceReference expand inPermutation active slot r) fun content s' found =>
      m.AgreesBut slot s' ∧ m.Splits s r.span context straight trees content s' found) :
    Reports m.env s context (expandItem expand inPermutation active ([], true) slot) fun result s' found =>
      result.2 = true ∧ m.AgreesBut slot s' ∧
        SlotVerdict straight r.span context (m.Provides s result.1 trees s') found := by
  obtain ⟨v', hNode, hSame⟩ := hs.exists_form hView (by rw [hSlot]; rfl)
  obtain ⟨u', hNode', hReference'⟩ : ∃ u', s.get? target = some u' ∧
      (u'.form = .specific (.ref r) ∨ ∃ known, u'.form = .referenced r known) := by
    obtain ⟨u', hNode', hFollowed⟩ := hs.nodes target u hTarget
    refine ⟨u', hNode', ?_⟩
    cases hFollowed with
    | same => exact hReference
    | known _ hForm =>
      obtain hReference | ⟨known, hReference⟩ := hReference
      · cases hForm.symm.trans hReference
      · cases hForm.symm.trans hReference
        exact .inr ⟨_, rfl⟩
  have hContent : Reports m.env s context (spliceSlot expand inPermutation active slot target) fun content s' found =>
        m.AgreesBut slot s' ∧ m.Splits s r.span context straight trees content s' found := by
    apply Reports.formOf_then hNode'
    obtain hForm | ⟨known, hForm⟩ := hReference'
    · simpa only [hForm] using h
    · simpa only [hForm] using h
  apply Reports.formOf_then hNode
  simp only [hSame, hSlot]
  apply hContent.bind
  rintro _ s1 _ ⟨hBut, ⟨hStraight, rfl, items', rfl, hProvides⟩ | ⟨hNot, rfl, p, rfl⟩⟩
  · exact .pure ⟨rfl, hBut, .inl ⟨hStraight, rfl, hProvides⟩⟩
  · exact .pure ⟨rfl, hBut, .inr ⟨hNot, p, rfl⟩⟩

theorem reports_expandNode {list : NodeId} {w : Template} {shape : ListShape}
    (hs : m.Agrees s) (hNode : s.get? list = some w) (hView : m.view list = some w)
    (hForm : w.form = .list shape [slot]) (hUnfolded : w.marks.folded = false) (hNe : list ≠ slot)
    (h : ∀ s, m.Agrees s → Reports m.env s context (expand inPermutation active [slot]) fun result s' found =>
      result.2 = true ∧ m.AgreesBut slot s' ∧
        SlotVerdict straight span context (m.Provides s result.1 trees s') found) :
    Reports m.env s context (expandNode expand inPermutation active list) fun flattened s' found =>
      flattened = true ∧ SlotVerdict straight span context (∃ items' ids' marks,
        s'.get? list = some { w with form := .list shape items', marks } ∧ Unfolds s'.get? items' ids' trees ∧
          ids'.Nodup ∧ ∀ id ∈ ids', ¬ s.Has id) found := by
  have hMarked : m.Agrees (s.update list (·.mark .folded)) :=
    hs.update fun _ _ _ hFollowed => hFollowed.mark .folded
  apply Reports.node_then hNode
  simp only [hUnfolded, hForm, Bool.false_eq_true, if_false]
  apply Reports.attains_then (Attains.mark hNode .folded)
  rintro _ _ rfl
  apply (h _ hMarked).bind
  rintro ⟨items', _⟩ s1 found ⟨rfl, hBut, hCases⟩
  obtain ⟨marks, hNode1⟩ : ∃ marks, s1.get? list = some { w with marks } := by
    obtain ⟨w', hNode', hFollowed⟩ := hBut list w hNe hView
    cases hFollowed with
    | same marks => exact ⟨marks, hNode'⟩
    | known _ hReferenced =>
      rw [hForm] at hReferenced
      cases hReferenced
  apply Reports.mono (Reports.of_attains (attains_fill hNode1 hForm items' true))
  rintro _ _ _ ⟨rfl, rfl, rfl⟩
  refine ⟨rfl, ?_⟩
  rw [append_nil]
  obtain ⟨hStraight, rfl, hProvides⟩ | hLost := hCases
  · obtain ⟨ids', hUnfolds, hNodup, hNew⟩ := hProvides.unfolds
    have hKept : ∀ id ∈ ids', id ≠ list := by
      rintro id hMem rfl
      exact hNew id hMem (has_update.2 (has_of_get? hNode))
    refine .inl ⟨hStraight, rfl, items', ids', marks.settle true, get?_update_some hNode1 _, ?_, hNodup, ?_⟩
    · apply hUnfolds.congr
      intro id hMem t hFound
      exact ⟨t, (get?_update_of_ne (hKept id hMem)).trans hFound, rfl, rfl⟩
    · exact fun id hMem hHas => hNew id hMem (has_update.2 hHas)
  · exact .inr hLost

/-- Expanding trees without slots leaves them as they are. A list leads on to smaller trees, so the lists on the way
down are all different. -/
theorem rewritesAll_self {s0 : Store} (h : Unfolds s0.get? items ids trees) (hFree : ∀ target, ¬ SlotIn trees target)
    {path : List NodeId} (hNodup : path.Nodup)
    (hPath : ∀ above ∈ path, s0.Has above ∧ ∃ own tree, Unfolds s0.get? [above] own tree ∧ ids.length < own.length)
    (hDepth : s0.size ≤ path.length + depth) : m.RewritesAll (expandWithin depth) trees trees := by
  generalize hView : s0.get? = view at h
  induction h generalizing path depth with
  | nil =>
    intro s items ids inPermutation active done hs hPending _
    have hUnfolds := hPending.unfolds
    cases hUnfolds
    exact .pure ⟨[], by rw [append_nil], hPending.yields_self hs .nil⟩
  | @cons root t rest below ids children trees hFound hBelow hRest ihBelow ih =>
    subst hView
    have hOwn : Unfolds s0.get? [root] (root :: below) [.node t.bare children] := by
      simpa using Unfolds.cons hFound hBelow .nil
    have hLonger : ∀ above ∈ path, s0.Has above ∧ ∃ own tree, Unfolds s0.get? [above] own tree ∧
        below.length + ids.length + 1 < own.length := by
      simpa [Nat.add_assoc] using hPath
    have hShorter : ∀ {k : Nat}, k ≤ below.length + ids.length + 1 → ∀ above ∈ path, s0.Has above ∧
        ∃ own tree, Unfolds s0.get? [above] own tree ∧ k < own.length := by
      intro k hLe above hMem
      obtain ⟨hHas, own, tree, hTree, hLt⟩ := hLonger above hMem
      exact ⟨hHas, own, tree, hTree, by omega⟩
    have hAll := ih (fun target hSlot => hFree target (.later hSlot)) hNodup (hShorter (by omega)) hDepth
    have hItem : m.RewritesItem (expandWithin depth) (.node t.bare children) [.node t.bare children] := by
      have hSlot : t.bare.form.isSlot = false := by
        by_contra hSlot
        rw [Bool.not_eq_false] at hSlot
        obtain ⟨target, rfl⟩ := hBelow.single_of_slot (t.form.isSlot_bare.symm.trans hSlot)
        exact hFree target (.here hSlot)
      cases hExpanded : t.bare.form.isExpanded with
      | false => exact rewritesItem_kept hSlot hExpanded
      | true =>
        have hNew : root ∉ path := by
          intro hMem
          obtain ⟨-, own, tree, hTree, hLt⟩ := hLonger root hMem
          rw [(hTree.eq hOwn).1, length_cons] at hLt
          omega
        have hNodup' : (root :: path).Nodup := nodup_cons.2 ⟨hNew, hNodup⟩
        have hPath' : ∀ above ∈ root :: path, s0.Has above ∧
            ∃ own tree, Unfolds s0.get? [above] own tree ∧ below.length < own.length := by
          intro above hMem
          obtain rfl | hMem := mem_cons.1 hMem
          · exact ⟨has_of_get? hFound, _, _, hOwn, Nat.lt_succ_self _⟩
          · exact hShorter (by omega) above hMem
        have hLength := Store.length_le_size hNodup' fun above hMem => (hPath' above hMem).1
        rw [length_cons] at hLength
        obtain ⟨depth, rfl⟩ : ∃ n, depth = n + 1 := ⟨depth - 1, by omega⟩
        have hBelow' := ihBelow (fun target hSlot => hFree target (.inside hExpanded hSlot)) hNodup' hPath'
          (show s0.size ≤ (root :: path).length + depth by rw [length_cons]; omega)
        exact rewritesItem_list hExpanded (rewrites_expandWithin hBelow')
    exact RewritesAll.cons hItem hAll

end Reading

/-- A list that was not expanded yet and whose only item is a slot with the given reference. -/
structure Store.HoldsSlot (s : Store) (list : NodeId) (w : Template) (shape : ListShape) (r : Reference) : Prop where
  node : s.get? list = some w
  unfolded : w.marks.folded = false
  slot : ∃ slot target v u, w.form = .list shape [slot] ∧ s.get? slot = some v ∧ v.form = .allFrom target ∧
    s.get? target = some u ∧ (u.form = .specific (.ref r) ∨ ∃ known, u.form = .referenced r known)

theorem Reading.leadsTo_of_endsAt {r : Reference} {definition : Definition} {fresh : NodeId} {f : Template}
    (h : m.EndsAt fresh last) (hFresh : m.view fresh = some f)
    (hForm : f.form = .referenced r none) (hDefinition : m.env.definitions.target? r = some definition)
    (hTemplate : definition.kind = .template template) (hType : definition.type = some type) (hArgs : r.args = none)
    (hLast : m.view last = some t) (hList : t.form = .list .positional items) :
    ∃ part partType, m.LeadsTo r.path template.body type part partType ∧ m.EndsAt part last := by
  obtain ⟨f', hFresh', hLeaves⟩ := endsAt_iff.1 h
  cases hFresh.symm.trans hFresh'
  simp only [hForm, Leaves, hDefinition, hTemplate, DefKind.template?, hType, hArgs] at hLeaves
  obtain ⟨p, hNarrows, hArrives⟩ := hLeaves
  cases p with
  | found part partType => exact ⟨part, partType, ⟨hNarrows, last, t, items, hArrives, hLast, hList⟩, hArrives⟩
  | unknown =>
    obtain rfl : last = fresh := hArrives
    cases hFresh.symm.trans hLast
    cases hForm.symm.trans hList
  | invalid => exact hArrives.elim

namespace Session

/-- A slot follows a path as a reference does exactly if the path is straight. Then the list gets copies of the
elements where the reference ends, and nothing is reported; otherwise the slot is reported. -/
theorem slot_follows_reference_iff {s : Session} {r : Reference} {d : DefId} {definition : Definition}
    {template : TemplateDef} {type : TypeKey} {fresh list last : NodeId} {f w t : Template} {shape : ListShape}
    {items ids : List NodeId} {trees : List Tree}
    (hTarget : r.target = some d) (hDefinition : s.definitions.get? d = some definition)
    (hTemplate : definition.kind = .template template) (hType : definition.type = some type)
    (hArgs : r.args = none)
    (hFresh : s.store.get? fresh = some f) (hReferenced : f.form = .referenced r none)
    (hEnds : (s.lastTemplate fresh).1 = .ok last) (hQuiet : (s.lastTemplate fresh).2.report = s.report)
    (hLast : s.store.get? last = some t) (hForm : t.form = .list .positional items)
    (hUnfolds : Unfolds s.store.get? items ids trees)
    (hNone : ∀ tree ∈ trees, elementObstacle false tree.form = none) (hFree : ∀ target, ¬ SlotIn trees target)
    (hList : s.store.HoldsSlot list w shape r) :
    (s.flatten list).1 = .ok true ∧ ∃ found,
      (s.flatten list).2.report.diagnostics = s.report.diagnostics ++ found ∧
      SlotVerdict ((s.store.reading s.env).Straight r.path template.body type) r.span s.report.context
        (∃ items' ids' marks,
          (s.flatten list).2.store.get? list = some { w with form := .list shape items', marks } ∧
          Unfolds (s.flatten list).2.store.get? items' ids' trees ∧ ids'.Nodup ∧ ∀ id ∈ ids', ¬ s.store.Has id)
        found := by
  have hDefined : s.definitions.target? r = some definition := by
    rw [Definitions.target?, hTarget, Option.bind_some, hDefinition]
  obtain ⟨part, partType, hLeads, hEnd⟩ := Reading.leadsTo_of_endsAt (endsAt_of_lastTemplate hEnds hQuiet) hFresh
    hReferenced hDefined hTemplate hType hArgs hLast hForm
  obtain ⟨hNode, hUnfolded, slot, target, v, u, hItems, hSlotNode, hSlot, hTargetNode, hReference⟩ := hList
  obtain ⟨depth, hDepth, hLe⟩ : ∃ n, s.limit = n + 2 ∧ s.store.size ≤ n := by
    have hLimit : s.store.size + 8 ≤ s.limit := Nat.le_trans (by omega) (Nat.le_mul_self _)
    exact ⟨s.limit - 2, by omega, by omega⟩
  have hRewrites : (s.store.reading s.env).Rewrites (expandWithin (depth + 1)) trees trees :=
    Reading.rewrites_expandWithin (Reading.rewritesAll_self hUnfolds hFree .nil (by simp) (by simpa using hLe))
  have hAvoids : ∀ active, (s.store.reading s.env).Avoids active trees := by
    rintro active e ⟨inner, hReaches, -⟩
    cases hReaches with
    | direct hInner => exact absurd hInner (hFree inner)
    | through hInner => exact absurd hInner (hFree _)
  have hNe : list ≠ slot := by
    rintro rfl
    cases hNode.symm.trans hSlotNode
    cases hItems.symm.trans hSlot
  have hExpand : ∀ s', (s.store.reading s.env).Agrees s' →
      Reports s.env s' s.report.context (expandWithin (depth + 2) false [] [slot]) fun result s'' found =>
        result.2 = true ∧ (s.store.reading s.env).AgreesBut slot s'' ∧
          SlotVerdict ((s.store.reading s.env).Straight r.path template.body type) r.span s.report.context
            ((s.store.reading s.env).Provides s' result.1 trees s'') found := by
    intro s' hs
    have hSplice : Reports s.env s' s.report.context
        (spliceFromTemplate (expandWithin (depth + 1)) false ([] ++ [d]) slot definition template.body r) _ :=
      hLeads.reports_spliceFromTemplate hs hType hArgs hEnd hLast hForm hUnfolds hNone hRewrites (hAvoids [d])
    apply (Reading.reports_expandItem hs hSlotNode hSlot hTargetNode hReference
      (Reading.reports_spliceReference hTarget hDefinition hTemplate not_mem_nil hSlotNode hSlot
        hSplice)).bind
    intro result s'' found hResult
    exact .pure (by simpa using hResult)
  have hFlatten := Reading.reports_expandNode (Reading.matches_reading s.store s.env).toAgrees hNode hNode hItems
    hUnfolded hNe hExpand
  obtain ⟨_, after, found, hRun, hFound, rfl, hVerdict⟩ := hFlatten.run s.report rfl
  have hRun' : (flattenWithin s.limit list s.env).run ⟨s.store, s.report⟩ = (.ok true, after) := by
    rw [hDepth]
    exact hRun
  rw [flatten, run_of_run hRun']
  exact ⟨rfl, found, hFound, hVerdict⟩

/-- The path of the slot in the list at 11 goes to a field that another template gives, and on to an element of an array
that starts with index 1. -/
def chainedTarget : Session where
  types := ⟨Registry.numbers.entries ++ [(3, ⟨"Rows", .array 2 2 1⟩),
    (4, ⟨"Table", .record [{ name := "rows", type := 3 }]⟩)]⟩
  definitions := ⟨[.ofBody "table" 4 7,
    .ofBody "rows" 3 5]⟩
  store := .ofForms [.ofInteger 1, .ofItems [0], .ofInteger 2, .ofInteger 3,
    .ofItems [2, 3], .ofItems [1, 4], .following "rows" 1,
    .named [⟨"rows", 6, {}⟩], .following "table" 0 [.field "rows", .index (.integer 2)],
    .specific (.ref ⟨"table", some 0, [.field "rows", .index (.integer 2)], none, {}⟩), .allFrom 9,
    .ofItems [10]]

theorem slot_follows_reference_iff_chained :
    (chainedTarget.flatten 11).1 = .ok true ∧ ∃ found,
      (chainedTarget.flatten 11).2.report.diagnostics = [] ++ found ∧
      SlotVerdict ((chainedTarget.store.reading chainedTarget.env).Straight
          [.field "rows", .index (.integer 2)] 7 4) {} []
        (∃ items' ids' marks, (chainedTarget.flatten 11).2.store.get? 11 =
          some { form := .list .positional items', marks } ∧
            Unfolds (chainedTarget.flatten 11).2.store.get? items' ids'
              [.ofValue {} (.integer 2), .ofValue {} (.integer 3)] ∧
            ids'.Nodup ∧ ∀ id ∈ ids', ¬ chainedTarget.store.Has id)
        found := by
  have hSecond := Unfolds.cons (show chainedTarget.store.get? 3 = some _ from rfl) .nil .nil
  have hElements := Unfolds.cons (show chainedTarget.store.get? 2 = some _ from rfl) .nil hSecond
  have hList : chainedTarget.store.HoldsSlot 11 { form := .list .positional [10] } .positional
      ⟨"table", some 0, [.field "rows", .index (.integer 2)], none, {}⟩ :=
    ⟨rfl, rfl, 10, 9, _, _, rfl, rfl, rfl, rfl, .inl rfl⟩
  refine slot_follows_reference_iff rfl rfl rfl rfl rfl (show chainedTarget.store.get? 8 = some _ from rfl) rfl
    (show (chainedTarget.lastTemplate 8).1 = .ok 4 by rfl) (by rfl) rfl rfl hElements ?_ ?_ hList
  · intro tree hMem
    simp only [mem_cons, not_mem_nil, or_false] at hMem
    obtain rfl | rfl := hMem <;> rfl
  · intro target hSlot
    cases hSlot with
    | inside hExpanded => cases hExpanded
    | later hLater =>
      cases hLater with
      | inside hExpanded => cases hExpanded
      | later hLast => cases hLast

/-- The record that the slot goes into has its field in value list notation. -/
def listedRecord : Session where
  types := ⟨Registry.numbers.entries ++ [(3, ⟨"Table", .record [{ name := "row", type := 2 }]⟩)]⟩
  definitions := ⟨[.ofBody "table" 3 2]⟩
  store := .ofForms [.ofInteger 1, .ofItems [0], .ofItems [1],
    .following "table" 0 [.field "row"], .allFrom 3, .ofItems [4]]

/-- The record that the slot goes into leaves its field to the template it modifies. -/
def inheritedField : Session :=
  { listedRecord with
    store := ⟨[{ form := .ofInteger 1 }, { form := .ofItems [0] },
      { form := .named [], base := some 6 },
      { form := .following "table" 0 [.field "row"] },
      { form := .allFrom 3 },
      { form := .ofItems [4] },
      { form := .named [⟨"row", 1, {}⟩] }]⟩ }

/-- A reference finds the list in both cases, and a slot reports that it does not. -/
theorem slot_leaves_reference :
    ((listedRecord.lastTemplate 3).1 = .ok 1 ∧
      (listedRecord.lastTemplate 3).2.report = listedRecord.report ∧
      (listedRecord.flatten 5).2.report.errors = 1) ∧
    (inheritedField.lastTemplate 3).1 = .ok 1 ∧
      (inheritedField.lastTemplate 3).2.report = inheritedField.report ∧
      (inheritedField.flatten 5).2.report.errors = 1 := by
  refine ⟨⟨?_, ?_, ?_⟩, ?_, ?_, ?_⟩ <;> rfl

end Session

end TemplateCheck
