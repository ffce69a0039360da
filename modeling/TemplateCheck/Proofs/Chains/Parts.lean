import TemplateCheck.Proofs.Chains.Settling

/-!
# Parts of modified templates

A modified template has a lineage: the template itself, the end of its base, the end of the base of that one and so
on. Where every member of a lineage either gives a part itself or leaves it to its base, the part is given by the
nearest member that gives it. If no member does, the path leads nowhere, and the reference whose path it is gets
reported and given up.
-/

namespace TemplateCheck

open List Store

variable {m : Reading} {s : Store} {decl : TypeDecl} {step : PathStep} {last head part id other : NodeId} {depth : Nat}
  {fault : PathFault} {members : List Template} {type : TypeKey} {r : Reference} {env : Env}
  {resolve : ReferenceChain → NodeId → CheckM NodeId} {chain longer : ReferenceChain}

namespace Reading

variable {ends : NodeId → NodeId → Prop}

inductive LostAt (m : Reading) (ends : NodeId → NodeId → Prop) (decl : TypeDecl) (step : PathStep)
    (fault : PathFault) : Nat → NodeId → Prop where
  | here {depth : Nat} {id : NodeId} :
      m.glance decl id step = some (.lost fault) → LostAt m ends decl step fault (depth + 1) id
  | inherited {depth : Nat} {id base last : NodeId} : m.glance decl id step = some (.inherited base) → ends base last →
      LostAt m ends decl step fault depth last → LostAt m ends decl step fault (depth + 1) id

theorem LostAt.not_partAt (h : m.LostAt m.EndsAt decl step fault depth id) {p : Part} :
    ¬ m.PartAt m.EndsAt decl step depth id p := by
  induction h with
  | here hGlance =>
    rintro (hGlance' | ⟨hGlance', -, -⟩) <;>
    · rw [hGlance] at hGlance'
      cases hGlance'
  | inherited hGlance hBase _ ih =>
    rintro (hGlance' | ⟨hGlance', hBase', hPart⟩)
    · rw [hGlance] at hGlance'
      cases hGlance'
    · rw [hGlance] at hGlance'
      cases hGlance'
      exact ih (hBase.eq hBase' ▸ hPart)

/-- The members of a modified template: the node itself, the end of its base, and so on up to a template that modifies
none. -/
inductive Lineage (m : Reading) : NodeId → List Template → Prop where
  | root {id : NodeId} {t : Template} : m.view id = some t → t.base = none → Lineage m id [t]
  | derived {id base last : NodeId} {t : Template} {rest : List Template} : m.view id = some t →
      t.base = some base → m.EndsAt base last → Lineage m last rest → Lineage m id (t :: rest)

namespace Lineage

variable {members' : List Template}

theorem eq (h : m.Lineage id members) (h' : m.Lineage id members') : members = members' := by
  induction h generalizing members' with
  | root hView hBase =>
    cases h' with
    | root hView' _ =>
      cases hView.symm.trans hView'
      rfl
    | derived hView' hBase' _ _ =>
      cases hView.symm.trans hView'
      cases hBase.symm.trans hBase'
  | derived hView hBase hEnd _ ih =>
    cases h' with
    | root hView' hBase' =>
      cases hView.symm.trans hView'
      cases hBase.symm.trans hBase'
    | derived hView' hBase' hEnd' hRest' =>
      cases hView.symm.trans hView'
      cases hBase.symm.trans hBase'
      rw [ih (hEnd.eq hEnd' ▸ hRest')]

theorem length_le (h : (s.reading env).Lineage id members) : members.length ≤ s.size := by
  -- Each of the nodes has a lineage of its own, which is no longer than the whole.
  have hNodes : ∃ ids : List NodeId, ids.length = members.length ∧ ids.Nodup ∧ ∀ other ∈ ids, s.Has other ∧
      ∃ rest, (s.reading env).Lineage other rest ∧ rest.length ≤ members.length := by
    induction h with
    | @root id t hView hBase =>
      refine ⟨[id], rfl, by simp, ?_⟩
      simp only [mem_singleton, forall_eq]
      exact ⟨has_of_get? hView, [t], .root hView hBase, Nat.le_refl _⟩
    | @derived id base last t rest hView hBase hEnd hRest ih =>
      obtain ⟨ids, hLength, hNodup, hIds⟩ := ih
      have hWhole := Lineage.derived hView hBase hEnd hRest
      refine ⟨id :: ids, by simp [hLength], ?_, ?_⟩
      · refine List.nodup_cons.2 ⟨fun hMem => ?_, hNodup⟩
        obtain ⟨-, again, hAgain, hLe⟩ := hIds id hMem
        rw [hAgain.eq hWhole, length_cons] at hLe
        omega
      · intro other hMem
        obtain rfl | hMem := mem_cons.1 hMem
        · exact ⟨has_of_get? hView, _, hWhole, Nat.le_refl _⟩
        · obtain ⟨hHas, again, hAgain, hLe⟩ := hIds other hMem
          exact ⟨hHas, again, hAgain, Nat.le_succ_of_le hLe⟩
  obtain ⟨ids, hLength, hNodup, hIds⟩ := hNodes
  rw [← hLength]
  exact length_le_size hNodup fun other hMem => (hIds other hMem).1

end Lineage

end Reading

def Glance.ofGiven (type : TypeKey) (fault : PathFault) (base : Option NodeId) : Option NodeId → Glance
  | some id => .part (.found id type)
  | none => .leftTo fault base

namespace Reading

section Elements

variable {index : Value} {number : Int} {element : TypeKey} {t : Template} {items : List NodeId}
  (hElement : decl.category.element? = some element) (hIndex : m.env.definitions.foldInteger? index = some number)

include hElement hIndex

theorem glance_negative (id : NodeId) (hNegative : decl.category.position number < 0) :
    m.glance decl id (.index index) = some (.lost (.negativeIndex number decl.category.name decl.name)) := by
  simp [glance, glanceElement, TypeDecl.glanceIndex, hElement, hIndex, hNegative]

variable (hNonneg : 0 ≤ decl.category.position number) (hView : m.view id = some t)
  (hForm : t.form = .list .positional items)

include hNonneg hView hForm

theorem glance_overflow (hItem : items[(decl.category.position number).toNat]? = none) :
    m.glance decl id (.index index) =
      some (.lost (.indexOverflow number decl.category.name decl.name items.length)) := by
  simp only [glance, glanceElement, TypeDecl.glanceIndex, hElement, hIndex, Int.not_lt.2 hNonneg, if_false, hView,
    Option.bind_some, hForm, Form.elements?, hItem]

theorem glance_item {item : NodeId} {u : Template}
    (hItem : items[(decl.category.position number).toNat]? = some item) (hNode : m.view item = some u) :
    m.glance decl id (.index index) = some (.ofElement item element t.base u.form) := by
  simp only [glance, glanceElement, TypeDecl.glanceIndex, hElement, hIndex, Int.not_lt.2 hNonneg, if_false, hView,
    Option.bind_some, hForm, Form.elements?, hItem, hNode, Option.map_some]

end Elements

variable {given : Template → Option NodeId} {span : Span} {context : List Context}

/-- Each of the members gives the part itself, as `given` tells, or leaves it to its base. -/
def GivenBy (m : Reading) (decl : TypeDecl) (step : PathStep) (type : TypeKey) (fault : PathFault)
    (given : Template → Option NodeId) (members : List Template) : Prop :=
  ∀ id t, t ∈ members → m.view id = some t → m.glance decl id step = some (.ofGiven type fault t.base (given t))

/-- What holds where a member gives the part or none is left, and passes from a base to its heir, holds of the whole
lineage. -/
theorem GivenBy.descends {P : Nat → NodeId → Prop} (h : m.GivenBy decl step type fault given members)
    (hMembers : m.Lineage head members) (hDepth : members.length ≤ depth)
    (hHere : ∀ depth id, m.glance decl id step = some (.ofGiven type fault none (members.findSome? given)) →
      P (depth + 1) id)
    (hInherited : ∀ {depth id base last}, m.glance decl id step = some (.inherited base) → m.EndsAt base last →
      P depth last → P (depth + 1) id) : P depth head := by
  induction hMembers generalizing depth with
  | @root id t hView hBase =>
    obtain ⟨depth, rfl⟩ := Nat.exists_eq_add_of_le' hDepth
    have hGlance := h id t mem_cons_self hView
    rw [hBase] at hGlance
    exact hHere _ id (by simpa using hGlance)
  | @derived id base last t rest hView hBase hEnd _ ih =>
    obtain ⟨depth, rfl⟩ := Nat.exists_eq_add_one.2 (Nat.zero_lt_of_lt hDepth)
    have hGlance := h id t mem_cons_self hView
    cases hGiven : given t with
    | some found =>
      exact hHere _ id (by simpa [hGiven, Glance.ofGiven] using hGlance)
    | none =>
      rw [hGiven, hBase] at hGlance
      refine hInherited hGlance hEnd (ih ?_ (by simpa using hDepth) (by simpa [hGiven] using hHere))
      exact fun id' t' hMem => h id' t' (mem_cons_of_mem _ hMem)

theorem GivenBy.partAt (h : m.GivenBy decl step type fault given members) (hMembers : m.Lineage head members)
    (hGiven : members.findSome? given = some part) (hDepth : members.length ≤ depth) :
    m.PartAt m.EndsAt decl step depth head (.found part type) := by
  apply h.descends hMembers hDepth
  · intro depth id hGlance
    rw [hGiven] at hGlance
    exact .here hGlance
  · exact .inherited

theorem GivenBy.lostAt (h : m.GivenBy decl step type fault given members) (hMembers : m.Lineage head members)
    (hGiven : members.findSome? given = none) (hDepth : members.length ≤ depth) :
    m.LostAt m.EndsAt decl step fault depth head := by
  apply h.descends hMembers hDepth
  · intro depth id hGlance
    rw [hGiven] at hGlance
    exact .here hGlance
  · exact .inherited

/-- The node refers to one part of the template that the body of a definition stands for. -/
structure Selects (m : Reading) (id head : NodeId) (r : Reference) (step : PathStep) (decl : TypeDecl) : Prop where
  node : ∃ t, m.view id = some t ∧ t.form = .referenced r none
  target : ∃ definition template type, m.env.definitions.target? r = some definition ∧
    definition.kind.template? = some template ∧ definition.type = some type ∧ m.env.types.decl? type = some decl ∧
    m.EndsAt template.body head
  args : r.args = none
  path : r.path = [step]
  shown : ∃ t, m.view head = some t ∧ t.form.isErroneous = false ∧ t.form.hidesParts = false

namespace Selects

variable (h : m.Selects id head r step decl)

include h

theorem entrance : ∃ t, m.view head = some t ∧
    ∀ type, m.env.types.decl? type = some decl → m.env.entrance t.form head type = .inr decl := by
  obtain ⟨t, hView, hErroneous, hHides⟩ := h.shown
  refine ⟨t, hView, fun type hDecl => ?_⟩
  simp [Env.entrance, hErroneous, hHides, hDecl]

theorem endsAt_inv (hEnd : m.EndsAt id last) :
    ∃ p, m.PartAt m.EndsAt decl step m.walk head p ∧ Arrives m.EndsAt id last p := by
  obtain ⟨t, hView, hForm⟩ := h.node
  obtain ⟨definition, template, type, hTarget, hTemplate, hType, hDecl, hBody⟩ := h.target
  obtain ⟨u, hHead, hEntrance⟩ := h.entrance
  obtain ⟨t', hView', hLeaves⟩ := endsAt_iff.1 hEnd
  cases hView.symm.trans hView'
  simp only [Leaves, hForm, hTarget, hTemplate, hType, h.args, h.path] at hLeaves
  obtain ⟨p, ⟨last', u', hLast, hView', hRest⟩, hArrives⟩ := hLeaves
  obtain rfl := hBody.eq hLast
  cases hHead.symm.trans hView'
  simp only [hEntrance type hDecl] at hRest
  obtain ⟨q, hPart, hOnward⟩ := hRest
  refine ⟨q, hPart, ?_⟩
  cases q <;> exact (show p = _ from hOnward) ▸ hArrives

theorem narrows (hPart : m.PartAt m.EndsAt decl step m.walk head (.found part type)) {body : NodeId}
    {bodyType : TypeKey} (hDecl : m.env.types.decl? bodyType = some decl) (hBody : m.EndsAt body head) :
    m.Narrows m.EndsAt r.path body bodyType (.found part type) := by
  obtain ⟨t, hView, hEntrance⟩ := h.entrance
  rw [h.path]
  refine ⟨head, t, hBody, hView, ?_⟩
  simp only [hEntrance bodyType hDecl]
  exact ⟨_, hPart, rfl⟩

theorem endsAt_iff_of_found (hPart : m.PartAt m.EndsAt decl step m.walk head (.found part type)) :
    m.EndsAt id last ↔ m.EndsAt part last := by
  constructor
  · intro hEnd
    obtain ⟨p, hPart', hArrives⟩ := h.endsAt_inv hEnd
    obtain rfl := hPart.eq endsAt_unique hPart'
    exact hArrives
  · intro hEnd
    obtain ⟨t, hView, hForm⟩ := h.node
    obtain ⟨definition, template, type', hTarget, hTemplate, hType, hDecl, hBody⟩ := h.target
    refine endsAt_iff.2 ⟨t, hView, ?_⟩
    simp only [Leaves, hForm, hTarget, hTemplate, hType, h.args]
    exact ⟨.found part type, h.narrows hPart hDecl hBody, hEnd⟩

theorem not_endsAt (hLost : m.LostAt m.EndsAt decl step fault m.walk head) : ¬ m.EndsAt id last := by
  intro hEnd
  obtain ⟨p, hPart, -⟩ := h.endsAt_inv hEnd
  exact hLost.not_partAt hPart

end Selects

theorem reports_partAt {resolve : NodeId → CheckM NodeId}
    {Q : Part → Store → List Diagnostic → Prop} {g : Glance} (hGlance : (s.reading env).glance decl id step = some g)
    (h : Reports env s context (g.follow resolve decl span depth step) Q) :
    Reports env s context (partAt resolve decl span (depth + 1) id step) Q := by
  constructor
  intro report hContext
  rw [run_partAt hGlance]
  exact h.run report hContext

section Lost

variable {I : Store → Prop} (hI : ∀ s, I s → m.Agrees s)

include hI

theorem reports_part_lost {resolve : NodeId → CheckM NodeId} (hResolve : m.Finds I m.EndsAt resolve) {depth' : Nat}
    (hLost : m.LostAt m.EndsAt decl step fault depth id)
    (hLe : depth ≤ depth') (hs : I s) :
    Reports m.env s context (partAt resolve decl span depth' id step) fun p s' found =>
      p = .invalid ∧ found = [⟨.error (.invalidPath fault), span, context⟩] ∧ I s' := by
  induction hLost generalizing depth' s with
  | here hGlance =>
    obtain ⟨depth', rfl⟩ := Nat.exists_eq_add_one.2 (Nat.zero_lt_of_lt hLe)
    apply reports_partAt ((hI s hs).glance hGlance)
    apply (Reports.tell span _).bind
    rintro _ _ _ ⟨rfl, rfl⟩
    exact .pure ⟨rfl, rfl, hs⟩
  | inherited hGlance hBase _ ih =>
    obtain ⟨depth', rfl⟩ := Nat.exists_eq_add_one.2 (Nat.zero_lt_of_lt hLe)
    apply reports_partAt ((hI s hs).glance hGlance)
    apply Reports.attains_then (hResolve s _ _ hs hBase)
    rintro _ s' ⟨rfl, hs'⟩
    exact ih (by omega) hs'

theorem Selects.reports_chainEnd_lost {template : TemplateDef}
    (h : m.Selects id head r step decl) (hDecl : m.env.types.decl? type = some decl)
    (hBody : m.EndsAt template.body head) (hLost : m.LostAt m.EndsAt decl step fault m.walk head)
    (hLonger : chain.add? id r.text = some longer) (hResolve : m.Finds I m.EndsAt (resolve longer)) (hs : I s) :
    Reports m.env s context (chainEnd resolve chain id r template.body type) fun last s' found =>
      last = id ∧ found = [⟨.error (.invalidPath fault), r.span, context⟩] ∧
      ∃ t, s'.get? id = some t ∧ t.form = .erroneous := by
  obtain ⟨t, hView, -⟩ := h.node
  obtain ⟨u, hHead, hEntrance⟩ := h.entrance
  unfold chainEnd
  rw [hLonger, h.path]
  apply Reports.store_then
  simp only [narrow_cons, bind_assoc]
  apply Reports.attains_then (hResolve s _ _ hs hBody)
  rintro _ s1 ⟨rfl, hs1⟩
  obtain ⟨u', hNode, hFollowed⟩ := (hI s1 hs1).nodes _ u hHead
  apply Reports.formOf_then hNode
  apply Reports.read_then
  rw [← Env.entrance_uncached, hFollowed.uncached.1, Env.entrance_uncached, hEntrance type hDecl]
  simp only [bind_assoc]
  apply (reports_part_lost hI hResolve hLost (hI s hs).room hs1).bind
  rintro _ s2 _ ⟨rfl, rfl, hs2⟩
  obtain ⟨t', hNode', -⟩ := (hI s2 hs2).nodes id t hView
  apply Reports.attains_then (Attains.giveUp hNode')
  rintro _ _ rfl
  exact .pure ⟨rfl, rfl, _, get?_update_some hNode' _, rfl⟩

end Lost

theorem exists_finds (hOpen : ∀ last, ¬ m.EndsAt id last) (hHas : s.Has id) (name : String) :
    ∃ longer, ReferenceChain.add? ⟨"While searching for referenced template", [], []⟩ id name = some longer ∧
      longer.contains id ∧ m.Finds (m.Learns s) m.EndsAt (lastWithin s.size longer) := by
  have hStart : OnChain ⟨"While searching for referenced template", [], []⟩ s := ⟨by simp, by simp⟩
  obtain ⟨longer, hAdd, hEntries, hOnChain⟩ := exists_longer hStart hHas (by simp) name
  refine ⟨longer, hAdd, by simp [ReferenceChain.contains, hEntries], hOnChain.finds ?_ ?_⟩
  · simpa [hEntries] using hOpen
  · simp [hEntries]

theorem Selects.node_of_open (h : m.Selects id head r step decl) (hOpen : ∀ last, ¬ m.EndsAt id last)
    (hs : m.Agrees s) : ∃ t, s.get? id = some t ∧ t.form = .referenced r none := by
  obtain ⟨t, hView, hForm⟩ := h.node
  obtain ⟨t', hNode, hFollowed⟩ := hs.nodes id t hView
  refine ⟨t', hNode, ?_⟩
  cases hFollowed with
  | same => exact hForm
  | known _ _ hEnd => exact absurd hEnd (hOpen _)

theorem Selects.reports_lastTemplate_lost
    (h : m.Selects id head r step decl) (hLost : m.LostAt m.EndsAt decl step fault m.walk head) (hs : m.Agrees s) :
    Reports m.env s context (lastTemplate id) fun last s' found =>
      last = id ∧ found = [⟨.error (.invalidPath fault), r.span, context⟩] ∧
      ∃ t, s'.get? id = some t ∧ t.form = .erroneous := by
  obtain ⟨definition, template, type, hTarget, hTemplate, hType, hDecl, hBody⟩ := h.target
  have hOpen : ∀ last, ¬ m.EndsAt id last := fun _ => h.not_endsAt hLost
  obtain ⟨t, hNode, hForm⟩ := h.node_of_open hOpen hs
  obtain ⟨longer, hAdd, -, hFinds⟩ := exists_finds hOpen (has_of_get? hNode) r.text
  apply Reports.store_then
  rw [lastWithin]
  apply Reports.formOf_then hNode
  rw [hForm]
  apply Reports.read_then
  simp only [hTarget, hTemplate, hType, h.args]
  apply (h.reports_chainEnd_lost (fun _ hs' => hs'.agrees) hDecl hBody hLost hAdd hFinds hs.learns).bind
  rintro id s1 _ ⟨rfl, rfl, t1, hNode1, hForm1⟩
  have hRemember : (t1.remember id).form = .erroneous := by simp [Template.remember, hForm1]
  apply Reports.attains_then (Attains.modifyNode hNode1)
  rintro _ _ rfl
  apply Reports.attains_then (Attains.mark (get?_update_some hNode1 _) _)
  rintro _ _ rfl
  exact .pure ⟨rfl, rfl, _, get?_update_some (get?_update_some hNode1 _) _, hRemember⟩

end Reading

theorem ReferenceChain.contains_of_add? {name : String}
    (h : chain.add? other name = some longer) (hId : chain.contains id) : id ≠ other ∧ longer.contains id := by
  obtain ⟨hNew, rfl⟩ := add?_eq_some_iff.1 h
  rw [contains_iff] at hId ⊢
  refine ⟨fun hEq => hNew (hEq ▸ hId), ?_⟩
  rw [nodes, map_append]
  exact mem_append_left _ hId

/-! A reference whose part is there may still be given up, but only where its chain turns out to be circular. -/

def Report.circles (r : Report) : Nat := r.diagnostics.countP (·.finding.isCircular)

theorem Report.Extends.circles_le {before after : Report} (h : before.Extends after) :
    before.circles ≤ after.circles := by
  obtain ⟨found, hFound, -⟩ := h.added
  rw [circles, circles, hFound, countP_append]
  omega

def Store.Stands (s : Store) (id : NodeId) : Prop := ∀ t, s.get? id = some t → t.form ≠ .erroneous

theorem Store.Stands.update {f : Template → Template} (h : s.Stands id)
    (hf : ∀ t : Template, t.form ≠ .erroneous → (f t).form ≠ .erroneous) : (s.update other f).Stands id := by
  intro t hNode
  by_cases hEq : id = other
  · subst hEq
    cases hFound : s.get? id with
    | none => simp [hFound] at hNode
    | some t' =>
      obtain rfl : f t' = t := by simpa [hFound] using hNode
      exact hf t' (h t' hFound)
  · exact h t ((get?_update_of_ne hEq).symm.trans hNode)

def Upholds (env : Env) (id : NodeId) {α : Type} (x : CheckM α) : Prop :=
  ∀ st : CheckState, st.store.Stands id →
    ((x env).run st).2.store.Stands id ∨ st.report.circles < ((x env).run st).2.report.circles

namespace Upholds

variable {α β : Type} {x : CheckM α} {f : α → CheckM β}

theorem bind (hx : Upholds env id x) (hf : ∀ a, Upholds env id (f a)) : Upholds env id (x >>= f) := by
  intro st hStands
  have hFirst := hx st hStands
  rcases hRun : (x env).run st with ⟨fault | a, middle⟩
  · rw [run_bind_error f hRun]
    rwa [hRun] at hFirst
  · rw [run_bind_ok f hRun]
    rw [hRun] at hFirst
    obtain hMiddle | hCircle := hFirst
    · exact (hf a middle hMiddle).imp_right (Nat.lt_of_le_of_lt (evolves_of_run hRun).report.circles_le)
    · exact .inr (Nat.lt_of_lt_of_le hCircle ((f a env).along middle).report.circles_le)

theorem of_steps (hx : ∀ s : Store, s.Stands id → Steps (fun _ s' => s'.Stands id) env s x) : Upholds env id x :=
  fun st hStands => .inl (hx st.store hStands st.report _ _ rfl).1

theorem of_still (hx : Still x) : Upholds env id x :=
  fun st hStands => .inl (by rwa [hx env st])

theorem modifyNode {f : Template → Template} {h : ∀ t : Template, t.Evolves (f t)}
    (hf : ∀ t : Template, t.form ≠ .erroneous → (f t).form ≠ .erroneous) :
    Upholds env id (onStore (modifyNode other f h)) :=
  of_steps fun _ hStands => (moves_modifyNode hStands fun _ _ => hStands.update hf).steps

theorem rememberLast (other last : NodeId) : Upholds env id (rememberLast other last) := by
  apply modifyNode
  intro t hForm
  unfold Template.remember
  split
  · exact nofun
  · exact hForm

theorem mark (other : NodeId) (flag : Mark) : Upholds env id (mark other flag) := modifyNode fun _ hForm => hForm

theorem sequential (env : Env) (id : NodeId) : Sequential fun {_} (x : Unit → CheckM _) => Upholds env id (x ()) :=
  ⟨of_still, fun hx hf => hx.bind hf⟩

theorem reject_circular (other : NodeId) (names : List String) :
    Upholds env id (reject other (.circularReference names)) := by
  intro st hStands
  rw [reject, problemAt, bind_assoc]
  obtain ⟨-, hFault⟩ | ⟨t, -, hNext⟩ := run_node_then env other
    (fun t => problem t.span (.circularReference names) >>= fun _ => markErroneous other) st
  · rw [hFault]
    exact .inl hStands
  · have hAfter := ((markErroneous other env).along
      { st with report := st.report.add t.span (.error (.circularReference names)) }).report.circles_le
    rw [hNext]
    refine .inr (Nat.lt_of_lt_of_le ?_ hAfter)
    simp [Report.circles, Report.diagnostics_add, Finding.isCircular, Problem.isCircular]

/-- While the node is on the chain, it is met only where the chain closes. -/
theorem chainEnd
    (hResolve : ∀ chain : ReferenceChain, chain.contains id → ∀ other, Upholds env id (resolve chain other))
    (hChain : chain.contains id) (other : NodeId) (r : Reference) (body : NodeId)
    (type : TypeKey) : Upholds env id (chainEnd resolve chain other r body type) := by
  unfold TemplateCheck.chainEnd
  split
  · rename_i longer hLonger
    obtain ⟨hOther, hOn⟩ := ReferenceChain.contains_of_add? hLonger hChain
    have hGiveUp : Upholds env id (markErroneous other) :=
      of_steps fun s hStands => (moves_replaceForm hStands fun _ _ _ t hNode =>
        hStands t ((get?_update_of_ne hOther).symm.trans hNode)).steps
    intro st
    refine Upholds.bind ((sequential env id).stepwise.narrow (of_still (.throw _)) (hResolve longer hOn) r.span
      (st.store.size + 1) r.path body type) (fun part => ?_) st
    cases part with
    | found part _ => exact hResolve longer hOn part
    | unknown => exact of_still (.pure other)
    | invalid => exact hGiveUp.bind fun _ => of_still (.pure other)
  · exact (reject_circular other _).bind fun _ => of_still (.pure other)

theorem lastWithin (depth : Nat) (hChain : chain.contains id) (other : NodeId) :
    Upholds env id (lastWithin depth chain other) := by
  induction depth generalizing chain other with
  | zero => exact of_still (.throw _)
  | succ depth ih =>
    rw [TemplateCheck.lastWithin]
    apply bind (of_still (.formOf other))
    intro form
    split
    · exact of_still (.pure _)
    · apply bind (of_still .read)
      intro env'
      split
      · split
        · apply bind (chainEnd (fun chain hOn other => ih hOn other) hChain other _ _ _)
          intro last
          exact (rememberLast other last).bind fun _ => (mark other _).bind fun _ => of_still (.pure last)
        · exact (rememberLast other other).bind fun _ => of_still (.pure other)
      · exact of_still (.pure other)
    · exact of_still (.pure other)

end Upholds

namespace Reading

theorem Selects.stands (h : m.Selects id head r step decl) (hs : m.Agrees s) : s.Stands id := by
  obtain ⟨t, hView, hForm⟩ := h.node
  obtain ⟨t', hNode, hFollowed⟩ := hs.nodes id t hView
  intro u hNode'
  cases hNode.symm.trans hNode'
  cases hFollowed with
  | same => simp [hForm]
  | known => simp

/-- A reference whose part is there is not given up, unless a circular chain is reported. -/
theorem Selects.upheld {report : Report} (h : m.Selects id head r step decl)
    (hPart : m.PartAt m.EndsAt decl step m.walk head (.found part type)) (hs : m.Agrees s) :
    ((lastTemplate id m.env).run ⟨s, report⟩).2.store.Stands id ∨
      report.circles < ((lastTemplate id m.env).run ⟨s, report⟩).2.report.circles := by
  by_cases hEnd : ∃ last, m.EndsAt id last
  · obtain ⟨last, hEnd⟩ := hEnd
    obtain ⟨_, after, hRun, -, -, hLearns⟩ := (attains_lastTemplate hEnd hs).run report
    rw [hRun]
    exact .inl (h.stands hLearns.agrees)
  · have hOpen : ∀ last, ¬ m.EndsAt id last := fun last hLast => hEnd ⟨last, hLast⟩
    obtain ⟨definition, template, type', hTarget, hTemplate, hType, hDecl, hBody⟩ := h.target
    obtain ⟨t, hNode, hForm⟩ := h.node_of_open hOpen hs
    obtain ⟨longer, hAdd, hOn, hFinds⟩ := exists_finds hOpen (has_of_get? hNode) r.text
    obtain ⟨_, ⟨s', report'⟩, hRun, hReport, rfl, hLearns⟩ := (attains_narrow (fun _ hs' => hs'.agrees) hFinds
      (h.narrows hPart hDecl hBody) hs.room hs.learns).run report
    obtain rfl : report = report' := (hReport rfl).symm
    have hChain : (chainEnd (lastWithin s.size) ⟨"While searching for referenced template", [], []⟩ id r template.body
        type' m.env).run ⟨s, report⟩ = (lastWithin s.size longer part m.env).run ⟨s', report⟩ := by
      rw [chainEnd, hAdd]
      exact run_bind_ok _ hRun
    have hLast : (lastTemplate id m.env).run ⟨s, report⟩ = ((lastWithin s.size longer part >>= fun last =>
        rememberLast id last >>= fun _ => mark id .recursionsChecked >>= fun _ => pure last) m.env).run
          ⟨s', report⟩ := by
      rw [← run_bind_congr _ hChain]
      have hStore : (currentStore m.env).run ⟨s, report⟩ = (.ok s, ⟨s, report⟩) := rfl
      rw [lastTemplate, run_bind_ok _ hStore, lastWithin, run_bind_ok _ (run_formOf hNode), hForm]
      simp only
      rw [run_bind_ok _ (run_read ..)]
      simp only [hTarget, hTemplate, hType, h.args]
    rw [hLast]
    refine Upholds.bind (.lastWithin s.size hOn part) (fun last => ?_) _ (h.stands hLearns.agrees)
    exact (Upholds.rememberLast id last).bind fun _ => (Upholds.mark id _).bind fun _ => .of_still (.pure last)

end Reading

end TemplateCheck
