import TemplateCheck.Proofs.Copy
import TemplateCheck.Proofs.Locality.Resolution

/-!
# Changes that stay inside a set of nodes

A set is closed if it holds the children of its nodes and every node still to come. Splicing the slots of
a list in a closed set changes nodes of the set, and outside of it only follows references. The set stays
closed: what a list gains are copies. Nothing is checked on the way, and only lists that are marked as folded
get other items.
-/

namespace TemplateCheck

open List Store

variable {D : NodeId → Prop} {s : Store} {id : NodeId}

/-- What splicing makes of a node. Unless it has been folded, it keeps its children or loses them all. -/
structure Template.Reworked (t t' : Template) : Prop where
  governor : t'.governor = t.governor
  checked : t'.marks.checked = t.marks.checked
  folded : t.marks.folded → t'.marks.folded
  children : t'.marks.folded = false → t'.form.children = t.form.children ∨ t'.form.children = []

theorem Template.Reworked.refl (t : Template) : t.Reworked t := ⟨rfl, rfl, fun h => h, fun _ => .inl rfl⟩

variable {t t' : Template}

theorem Template.Reworked.trans {t'' : Template} (h : t.Reworked t') (h' : t'.Reworked t'') : t.Reworked t'' where
  governor := h'.governor.trans h.governor
  checked := h'.checked.trans h.checked
  folded hFolded := h'.folded (h.folded hFolded)
  children hOpen := by
    have hOpen' : t'.marks.folded = false := Bool.eq_false_iff.2 fun hFolded => by simp [h'.folded hFolded] at hOpen
    obtain hSame | hNone := h'.children hOpen
    · rw [hSame]
      exact h.children hOpen'
    · exact .inr hNone

/-- What may be spliced: no permutation, and `*` only into a permutation. -/
def Form.admitted (inPermutation : Bool) : Form → Bool
  | .anyOrOmit => inPermutation
  | .list .permutation _ => false
  | _ => true

namespace Store

variable {after : Store}

def Admits (inPermutation : Bool) (s : Store) (id : NodeId) : Prop :=
  ∃ t, s.get? id = some t ∧ t.form.admitted inPermutation

structure Closed (D : NodeId → Prop) (s : Store) : Prop where
  new : ∀ id, ¬ s.Has id → D id
  child : ∀ parent child, D parent → s.Child parent child → D child

/-- The set stays closed, and `R` tells what has become of the nodes outside of it. -/
structure Bounds (R : Template → Template → Prop) (D : NodeId → Prop) (before after : Store) : Prop where
  size_le : before.size ≤ after.size
  closed : before.Closed D → after.Closed D
  nodes : ∀ id t, before.get? id = some t → ∃ t', after.get? id = some t' ∧ (¬ D id → R t t')

instance {R : Template → Template → Prop} [Course R] : Course (Bounds R D) where
  refl _ := ⟨Nat.le_refl _, fun h => h, fun _ t h => ⟨t, h, fun _ => Course.refl t⟩⟩
  trans hFirst hSecond := by
    refine ⟨Nat.le_trans hFirst.size_le hSecond.size_le, fun h => hSecond.closed (hFirst.closed h), fun id t h => ?_⟩
    obtain ⟨t', h', hOld⟩ := hFirst.nodes id t h
    obtain ⟨t'', h'', hNew⟩ := hSecond.nodes id t' h'
    exact ⟨t'', h'', fun hOut => Course.trans (hOld hOut) (hNew hOut)⟩

theorem Bounds.mono {R R' : Template → Template → Prop} (h : s.Bounds R D after) (hR : ∀ t t', R t t' → R' t t') :
    s.Bounds R' D after where
  size_le := h.size_le
  closed := h.closed
  nodes id t hNode := by
    obtain ⟨t', hNode', ht⟩ := h.nodes id t hNode
    exact ⟨t', hNode', fun hOut => hR t t' (ht hOut)⟩

abbrev Confined : (NodeId → Prop) → Store → Store → Prop := Bounds Template.Pursued

/-- Outside of `D` only unresolved references change. -/
theorem Bounds.get?_eq (h : s.Confined D after) (hOut : ¬ D id) (hNode : s.get? id = some t)
    (hForm : ∀ r, t.form ≠ .referenced r none) : after.get? id = some t := by
  obtain ⟨t', hNode', hPursued⟩ := h.nodes id t hNode
  rw [hNode', (hPursued hOut).eq_of_form hForm]

structure Reworks (D : NodeId → Prop) (before after : Store) : Prop extends Bounds Template.Pursued D before after where
  evolves : before.Evolves after
  reworked : ∀ id t t', before.get? id = some t → after.get? id = some t' → t.Reworked t'
  unchecked : ∀ id t', ¬ before.Has id → after.get? id = some t' → t'.marks.checked = false

instance : Course (Reworks D) where
  refl s := by
    refine ⟨Course.refl s, Course.refl s, fun id t t' h h' => ?_, fun id t' hNew h' => ?_⟩
    · cases h.symm.trans h'
      exact .refl t
    · exact absurd (has_of_get? h') hNew
  trans := by
    intro first second third hFirst hSecond
    refine ⟨Course.trans hFirst.toBounds hSecond.toBounds, Course.trans hFirst.evolves hSecond.evolves, ?_, ?_⟩
    · intro id t t'' h h''
      obtain ⟨t', h', -⟩ := hFirst.nodes id t h
      exact (hFirst.reworked id t t' h h').trans (hSecond.reworked id t' t'' h' h'')
    · intro id t'' hNew h''
      by_cases hHas : second.Has id
      · obtain ⟨t', h'⟩ := hHas.exists_get?
        rw [(hSecond.reworked id t' t'' h' h'').checked]
        exact hFirst.unchecked id t' hNew h'
      · exact hSecond.unchecked id t'' hHas h''

theorem Alters.closed (h : s.Alters id after) (hClosed : s.Closed D) : after.Closed D where
  new other hNew := hClosed.new other fun hHas => hNew (h.has_iff.2 hHas)
  child parent child hParent := by
    rintro ⟨t', hFound', hMem⟩
    obtain ⟨t, hFound, hAltered, -⟩ := h.of_get? hFound'
    obtain hSame | hNone := hAltered.children
    · rw [hSame] at hMem
      exact hClosed.child parent child hParent ⟨t, hFound, hMem⟩
    · simp [hNone] at hMem

theorem Alters.confined (h : s.Alters id after) (hId : D id) : s.Confined D after where
  size_le := Nat.le_of_eq h.size_eq.symm
  closed := h.closed
  nodes other t hOther := by
    obtain ⟨t', h', -, hPursued⟩ := h.nodes other t hOther
    exact ⟨t', h', fun hOut => hPursued fun hEq => hOut (hEq ▸ hId)⟩

theorem Pursues.confined (h : s.Pursues after) : s.Confined D after where
  size_le := Nat.le_of_eq h.size_eq.symm
  closed := (h.alters : s.Alters 0 after).closed
  nodes other t hOther := by
    obtain ⟨t', h', hPursued⟩ := h.nodes other t hOther
    exact ⟨t', h', fun _ => hPursued⟩

theorem Alters.reworks (h : s.Alters id after) (hEvolves : s.Evolves after)
    (hConfined : s.Confined D after) : s.Reworks D after where
  toBounds := hConfined
  evolves := hEvolves
  reworked other t t' hFound hFound' := by
    obtain ⟨_, hOld, hAltered, -⟩ := h.of_get? hFound'
    cases hFound.symm.trans hOld
    obtain ⟨_, hFound'', hKept⟩ := hEvolves other t hFound
    cases hFound'.symm.trans hFound''
    exact ⟨hAltered.governor, hAltered.checked, hKept.marks .folded, fun _ => hAltered.children⟩
  unchecked other t' hNew hFound' := absurd (h.has_iff.1 (has_of_get? hFound')) hNew

theorem confined_update {f : Template → Template} (hId : D id)
    (h : ∀ t, s.get? id = some t → ∀ child ∈ (f t).form.children, D child) : s.Confined D (s.update id f) where
  size_le := Nat.le_of_eq (size_update s id f).symm
  closed hClosed := by
    refine ⟨fun other hNew => hClosed.new other (by rwa [has_update] at hNew), ?_⟩
    rintro parent child hParent ⟨found, hFound, hMem⟩
    obtain ⟨hOld, -⟩ | ⟨rfl, t, hOld, rfl⟩ := get?_update_cases hFound
    · exact hClosed.child parent child hParent ⟨found, hOld, hMem⟩
    · exact h t hOld child hMem
  nodes other t hOther := by
    by_cases hEq : other = id
    · subst hEq
      exact ⟨f t, by simp [hOther], fun hOut => absurd hId hOut⟩
    · exact ⟨t, (get?_update_of_ne hEq).trans hOther, fun _ => .same⟩

theorem confined_push (h : ∀ child ∈ t.form.children, D child) : s.Confined D (s.push t) where
  size_le := by simp
  closed hClosed := by
    refine ⟨fun other hNew => hClosed.new other fun hHas => hNew (hHas.push t), ?_⟩
    rintro parent child hParent ⟨found, hFound, hMem⟩
    obtain hOld | ⟨-, rfl⟩ := get?_push_cases hFound
    · exact hClosed.child parent child hParent ⟨found, hOld, hMem⟩
    · exact h child hMem
  nodes other found hOther :=
    ⟨found, get?_push_of_get? hOther, fun _ => .same⟩

theorem reworks_push (h : ∀ child ∈ t.form.children, D child) (hUnchecked : t.marks.checked = false) :
    s.Reworks D (s.push t) where
  toBounds := confined_push h
  evolves := evolves_push s t
  reworked other found found' hFound hFound' := by
    rw [get?_push_of_lt (lt_size_of_get? hFound)] at hFound'
    cases hFound.symm.trans hFound'
    exact .refl found
  unchecked other found hNew hFound := by
    obtain hOld | ⟨-, rfl⟩ := get?_push_cases hFound
    · exact absurd (has_of_get? hOld) hNew
    · exact hUnchecked

theorem copyWithin_reworks {origin : Store} (depth : Nat) (hClosed : origin.Closed D) (h : origin.Reworks D s) :
    StoreRuns (origin.Reworks D) True s (copyWithin depth id) fun new _ => D new := by
  induction depth generalizing s id with
  | zero =>
    intro result after hRun
    cases hRun
    exact ⟨h, trivial⟩
  | succ depth ih =>
    apply StoreRuns.get_then h
    intro t _
    apply (StoreRuns.mapChildrenM (J := fun news _ => ∀ new ∈ news, D new) _ h (by simp) ?_).bind
    · rintro _ s' - h' ⟨news, hLength, rfl, hNews⟩
      rw [← Form.children_withChildren hLength] at hNews
      exact .alloc (Course.trans h' (reworks_push hNews rfl)) ((h'.closed hClosed).new _ (not_has_nextId s'))
    · intro child _ done s' h' hDone
      apply (ih h').mono
      intro new s'' hNew
      simpa [or_imp, forall_and] using ⟨hDone, hNew⟩

end Store

section

variable {α : Type} {env : Env} {expand : Expand} {inPermutation : Bool} {active : List DefId} {slot : NodeId}
  {R : Store → Store → Prop} {x : CheckM α} {Q : α → Store → Prop}

theorem Runs.confined (h : Moves (Alters id) env s x Q) (hId : D id) : Moves (Confined D) env s x Q :=
  h.weaken fun _ hAlters => hAlters.confined hId

theorem Runs.evolving (h : Moves R env s x Q) : Moves (fun s s' => R s s' ∧ s.Evolves s') env s x Q := by
  intro report result after hRun
  exact (h report result after hRun).imp_left fun hR => ⟨hR, (evolves_of_run hRun).store⟩

theorem Runs.reworks (h : Moves (Alters id) env s x Q) (hId : D id) : Moves (Reworks D) env s x Q :=
  h.evolving.weaken fun _ hBoth => hBoth.1.reworks hBoth.2 (hBoth.1.confined hId)

theorem Runs.confined_of_reworks (h : Moves (Reworks D) env s x Q) : Moves (Confined D) env s x Q :=
  h.weaken fun _ hReworks => hReworks.toBounds

theorem steps_giveForm (form : Form) (hId : D id) (hChildren : ∀ child ∈ form.children, D child) :
    Steps (Confined D) env s (replaceForm id form) :=
  (moves_replaceForm (Course.refl s) fun _ _ _ =>
    confined_update hId fun _ _ => hChildren).steps

theorem steps_fillFolded (form : Form) (hId : D id) (hChildren : ∀ child ∈ form.children, D child)
    (hFolded : ∀ t, s.get? id = some t → t.marks.folded) : Steps (Reworks D) env s (replaceForm id form) := by
  have hFill : Steps (fun s s' => s.Evolves s' → s.Reworks D s') env s (replaceForm id form) := by
    refine (moves_replaceForm (fun _ => Course.refl s) fun _ _ _ hEvolves => ?_).steps
    refine ⟨confined_update hId fun _ _ => hChildren, hEvolves, fun other t t' hOther hOther' => ?_,
      fun other t' hNew hOther' => ?_⟩
    · obtain ⟨hSame, -⟩ | ⟨rfl, u, hSame, rfl⟩ := get?_update_cases hOther' <;> cases hOther.symm.trans hSame
      · exact .refl t
      · exact ⟨rfl, rfl, fun h => h, fun hOpen => by simp [hFolded t hOther] at hOpen⟩
    · exact absurd (by simpa using has_of_get? hOther') hNew
  exact hFill.evolving.weaken fun _ hBoth => hBoth.1 hBoth.2

theorem moves_alloc (hClosed : s.Closed D) (hR : R s (s.push t)) :
    Moves R env s (onStore (alloc t)) fun new _ => D new := by
  intro report result after hRun
  cases hRun
  exact ⟨hR, hClosed.new _ (not_has_nextId s)⟩

theorem moves_onStore {x : StoreM α} (h : StoreRuns (R s) True s x Q) : Moves R env s (onStore x) Q := by
  intro report result after hRun
  cases hRun
  exact h _ _ rfl

theorem moves_deepCopy (hClosed : s.Closed D) :
    Moves (Reworks D) env s (onStore (deepCopy id)) fun new _ => D new :=
  moves_onStore (copyWithin_reworks (s.size + 1) hClosed (Course.refl s))

def Expand.Reworks (D : NodeId → Prop) (env : Env) (expand : Expand) : Prop :=
  ∀ s inPermutation active items, s.Closed D → (∀ item ∈ items, D item) →
    Moves (Store.Reworks D) env s (expand inPermutation active items) fun result _ =>
      ∀ item ∈ result.1, D item

def SlotContent.Holds (P : Store → List NodeId → Bool → Store → Prop) (s s' : Store) : SlotContent → Prop
  | .elements items complete => P s items complete s'
  | _ => True

section Contents

variable [Course R] {P : Store → List NodeId → Bool → Store → Prop}

theorem holds_of_still {before : Store} (h : Still x) {content : SlotContent} (hHolds : content.Holds P before s) :
    Moves R env s (x >>= fun _ => pure content) fun content => content.Holds P before :=
  h.then fun _ => .pure hHolds

theorem moves_listTarget (type : TypeKey) (span : Span) (what : String) :
    Moves R env s (listTarget type span what) fun content => content.Holds P s := by
  apply Still.read.then
  intro env'
  split
  · split
    · exact .pure trivial
    · exact holds_of_still (Still.tell _ _) trivial
  · exact .pure trivial

theorem moves_spliceNamed (entries : List NamedEntry) :
    Moves R env s (spliceNamed slot entries) fun content => content.Holds P s := by
  induction entries with
  | nil => exact .pure trivial
  | cons entry entries ih =>
    apply (Still.formOf entry.template).then
    intro form
    split
    · exact holds_of_still (Still.problemAt slot _) trivial
    · exact ih

theorem moves_spliceAtRuntime (definition : Definition) (r : Reference) :
    Moves R env s (spliceAtRuntime definition r) fun content => content.Holds P s := by
  unfold spliceAtRuntime
  split
  · apply (Still.stepwise.splicePath r.span _ r.path : Still _).then
    intro type
    split
    · exact moves_listTarget _ _ _
    · exact .pure trivial
  · exact .pure trivial

theorem moves_elementsObstacle (items : List NodeId) :
    Moves R env s (elementsObstacle inPermutation items) fun obstacle s' =>
      s' = s ∧ (obstacle = none → ∀ item ∈ items, s.Admits inPermutation item) := by
  induction items with
  | nil => exact .pure ⟨rfl, fun _ _ hItem => absurd hItem not_mem_nil⟩
  | cons item items ih =>
    apply Runs.formOf_then
    intro t hNode
    split
    · exact .pure ⟨rfl, by simp⟩
    · apply ih.bind
      rintro obstacle _ - ⟨rfl, -⟩
      split <;> exact .pure ⟨rfl, by simp⟩
    · rename_i hObstacle
      have hForm : t.form.admitted inPermutation := by
        revert hObstacle
        cases t.form with
        | list shape items => cases shape <;> simp [elementObstacle, Form.admitted]
        | _ => simp [elementObstacle, Form.admitted]
      apply ih.mono
      rintro obstacle _ - ⟨rfl, hItems⟩
      exact ⟨rfl, fun hNone => forall_mem_cons.2 ⟨⟨t, hNode, hForm⟩, hItems hNone⟩⟩

/-- What is said about the elements that take the place of slots rests on the copies of the elements of a target, which
are expanded in turn, and on the nodes that are made for a constant. -/
structure Expand.Supplies (R : Store → Store → Prop) (I : Store → Prop) (P : Store → List NodeId → Bool → Store → Prop)
    (env : Env) (inPermutation : Bool) (expand : Expand) : Prop where
  pursues : ∀ {s s' : Store}, s.Pursues s' → s.Evolves s' → R s s'
  invariant : ∀ {s s' : Store}, I s → R s s' → I s'
  after : ∀ {s s1 s' : Store} {items : List NodeId} {complete : Bool}, P s1 items complete s' → s.Pursues s1 →
    P s items complete s'
  copies : ∀ (s : Store) (active : List DefId) (items : List NodeId), I s →
    (∀ item ∈ items, s.Admits inPermutation item) → Moves R env s (do
      let copies ← items.mapM fun item => onStore (deepCopy item)
      expand inPermutation active copies) fun result => P s result.1 result.2
  values : ∀ (s : Store) (values : List Value) (span : Span), I s →
    Moves R env s (values.mapM fun value => onStore (alloc { form := .specific value, span := span }))
      fun items => P s items true

namespace Expand.Supplies

variable {I : Store → Prop} (h : expand.Supplies R I P env inPermutation)

include h

omit [Course R] in
theorem followed (hx : Steps Pursues env s x) : Moves R env s x fun _ => s.Pursues :=
  (hx.mono fun _ _ hPursues _ => hPursues).evolving.weaken fun _ hBoth => h.pursues hBoth.1 hBoth.2

theorem spliceElements (hI : I s) (items : List NodeId) :
    Moves R env s (spliceElements expand inPermutation active slot items) fun content => content.Holds P s := by
  apply (moves_elementsObstacle items).bind
  rintro obstacle s - ⟨rfl, hItems⟩
  split
  · exact holds_of_still (Still.problemAt slot _) trivial
  · exact .pure trivial
  · dsimp only
    rw [← bind_assoc]
    exact (h.copies s active items hI (hItems rfl)).bind fun _ _ _ hP => .pure hP

theorem spliceFromTemplate (hI : I s) (definition : Definition) (body : NodeId) (r : Reference) :
    Moves R env s (spliceFromTemplate expand inPermutation active slot definition body r) fun content =>
      content.Holds P s := by
  have hAfter {s s1 s' : Store} {content : SlotContent} (hPursues : s.Pursues s1) (hHolds : content.Holds P s1 s') :
      content.Holds P s s' := by
    cases content with
    | elements items complete => exact h.after hHolds hPursues
    | runtime | invalid => trivial
  unfold TemplateCheck.spliceFromTemplate
  split
  · apply (h.followed (steps_walkTarget r.span r.path _)).bind
    intro walk s1 hR hWalk
    split
    · split
      · exact (moves_listTarget _ _ _).mono fun _ _ _ hHolds => hAfter hWalk hHolds
      · apply (h.followed (pursuing_lastTemplate s1 _)).bind
        intro last s2 hR2 hLast
        have hI2 := h.invariant (h.invariant hI hR) hR2
        have hPursues : s.Pursues s2 := Course.trans hWalk hLast
        apply (Still.formOf last).then
        intro form
        split
        case h_1 | h_2 => exact .pure trivial
        case h_3 | h_4 => exact (h.spliceElements hI2 _).mono fun _ _ _ hHolds => hAfter hPursues hHolds
        · exact (moves_spliceNamed _).mono fun _ _ _ hHolds => hAfter hPursues hHolds
        case h_6 | h_7 => exact holds_of_still (Still.problemAt last _) trivial
        · exact .pure trivial
        · exact Still.read.then fun _ => holds_of_still (Still.problemAt last _) trivial
    · exact .pure trivial
  · exact .pure trivial

theorem spliceFromConstant (hI : I s) (definition : Definition) (r : Reference) :
    Moves R env s (spliceFromConstant slot definition r) fun content => content.Holds P s := by
  unfold TemplateCheck.spliceFromConstant
  split
  · apply (Still.stepwise.splicePath r.span _ r.path : Still _).then
    intro type
    split
    · apply (Still.stepwise.listTarget _ r.span "constant" : Still _).then
      intro content
      split
      · exact .pure trivial
      · split
        · exact .pure trivial
        apply Still.read.then
        intro env'
        split
        · apply (Still.node slot).then
          exact fun t => (h.values s _ t.span hI).bind fun _ _ _ hP => .pure hP
        case h_2 | h_3 => exact .pure trivial
        · exact holds_of_still (Still.tell _ _) trivial
    · exact .pure trivial
  · exact .pure trivial

theorem spliceDefinition (hI : I s) (target : DefId) (definition : Definition) (r : Reference) :
    Moves R env s (spliceDefinition expand inPermutation active slot target definition r) fun content =>
      content.Holds P s := by
  unfold TemplateCheck.spliceDefinition
  split
  · exact h.spliceFromTemplate hI definition _ r
  · exact h.spliceFromConstant hI definition r
  case h_3 | h_4 => exact holds_of_still (Still.problemAt slot _) trivial
  · exact moves_spliceAtRuntime definition r

end Expand.Supplies

end Contents

theorem Expand.Reworks.supplies (h : expand.Reworks D env) : expand.Supplies (Store.Reworks D) (Store.Closed D)
    (fun _ items _ _ => ∀ item ∈ items, D item) env inPermutation where
  pursues {s s'} hPursues hEvolves := (hPursues.alters : s.Alters 0 s').reworks hEvolves hPursues.confined
  invariant hClosed hReworks := hReworks.closed hClosed
  after hItems _ := hItems
  copies s active items hClosed _ := by
    apply (Runs.mapM (fun _ _ _ _ hD => hD) fun item _ s' hReworks => moves_deepCopy (hReworks.closed hClosed)).bind
    intro copies s1 hReworks hCopies
    exact h s1 inPermutation active copies (hReworks.closed hClosed) hCopies
  values s values span hClosed := Runs.mapM (fun _ _ _ _ hD => hD) fun value _ s' hReworks =>
    moves_alloc (hReworks.closed hClosed) (reworks_push (by simp [Form.children]) rfl)

theorem steps_expandNode (hExpand : expand.Reworks D env) (hClosed : s.Closed D) (hId : D id) :
    Steps (Reworks D) env s (expandNode expand inPermutation active id) := by
  apply Runs.node_then
  intro t hFound
  split
  · exact .pure trivial
  split
  · rename_i shape items hForm
    have hItems : ∀ item ∈ items, D item := fun item hItem =>
      hClosed.child id item hId ⟨t, hFound, by rw [hForm]; exact hItem⟩
    have hMark : Moves (Alters id) env s (mark id .folded) fun _ s' => s' = s.update id (·.mark .folded) := by
      apply (moves_modifyNode (Course.refl s) fun _ _ => alters_update fun t _ => ?_).mono
      · exact fun _ _ _ hDone => hDone.2
      · exact ⟨rfl, rfl, .inl rfl⟩
    apply (hMark.reworks hId).bind
    rintro _ _ hReworks rfl
    apply (hExpand _ inPermutation active items (hReworks.closed hClosed) hItems).bind
    rintro ⟨expanded, flattened⟩ s2 hReworks2 hExpanded
    have hFolded : ∀ t2, s2.get? id = some t2 → t2.marks.folded := by
      intro t2 hFound2
      exact (hReworks2.reworked id (t.mark .folded) t2 (by simp [hFound]) hFound2).folded rfl
    apply (steps_fillFolded (.list shape expanded) hId hExpanded hFolded).bind
    intro _ s3 _ _
    exact ((steps_settle flattened).reworks hId).finish
  · exact .pure trivial

def SlotContent.Inside (D : NodeId → Prop) : SlotContent → Prop
  | .elements items _ => ∀ item ∈ items, D item
  | _ => True

theorem moves_rejectSlot (hSlot : D slot) (p : Problem) :
    Moves (Reworks D) env s (rejectSlot slot p) fun content _ => content.Inside D :=
  ((steps_reject p).reworks hSlot).bind_pure fun _ _ => trivial

theorem moves_spliceReference (hExpand : expand.Reworks D env) (hClosed : s.Closed D) (hSlot : D slot) (r : Reference) :
    Moves (Reworks D) env s (spliceReference expand inPermutation active slot r)
      fun content _ => content.Inside D := by
  apply Still.read.then
  intro env'
  dsimp only
  split
  · split
    · exact moves_rejectSlot hSlot _
    · apply (hExpand.supplies.spliceDefinition hClosed _ _ r).bind
      intro content s1 _ hInside
      split
      · apply (Still.isErroneous slot).then
        intro erroneous
        apply (Runs.onlyIf fun _ => steps_markErroneous.reworks hSlot).bind
        exact fun _ _ _ _ => .pure trivial
      · exact .pure hInside
  · exact moves_rejectSlot hSlot _

theorem moves_spliceSlot (hExpand : expand.Reworks D env) (hClosed : s.Closed D) (hSlot : D slot) (target : NodeId) :
    Moves (Reworks D) env s (spliceSlot expand inPermutation active slot target)
      fun content _ => content.Inside D := by
  apply (Still.formOf target).then
  intro form
  split
  case h_1 | h_2 => exact moves_spliceReference hExpand hClosed hSlot _
  · exact (steps_markErroneous.reworks hSlot).bind_pure fun _ _ => trivial
  · exact moves_rejectSlot hSlot _

theorem moves_expandItem (hExpand : expand.Reworks D env) (hClosed : s.Closed D)
    (done : List NodeId × Bool) {item : NodeId} (hItem : D item) :
    Moves (Reworks D) env s (expandItem expand inPermutation active done item)
      fun result _ => ∃ added, result.1 = done.1 ++ added ∧ ∀ id ∈ added, D id := by
  obtain ⟨items, flattened⟩ := done
  have hKept : ∀ flattened : Bool, ∃ added, (items ++ [item], flattened).1 = items ++ added ∧ ∀ id ∈ added, D id :=
    fun _ => ⟨[item], rfl, by simpa using hItem⟩
  apply (Still.formOf item).then
  intro form
  split
  · apply (moves_spliceSlot hExpand hClosed hItem _).bind
    intro content s1 _ hInside
    split
    · exact .pure ⟨_, rfl, hInside⟩
    · exact ((steps_mark (by simp)).reworks hItem).bind fun _ _ _ _ => .pure (hKept _)
    · exact .pure (hKept _)
  case h_2 | h_3 | h_4 => exact (steps_expandNode hExpand hClosed hItem).bind fun _ _ _ _ => .pure (hKept _)
  · exact .pure (hKept _)

theorem reworks_expandWithin (depth : Nat) : (expandWithin depth).Reworks D env := by
  induction depth with
  | zero => exact fun _ _ _ _ _ _ => .throw trivial
  | succ depth ih =>
    intro s inPermutation active items hClosed hItems
    apply Runs.foldlM (by simp)
    intro item hItem done s' hReworks hDone
    apply (moves_expandItem ih (hReworks.closed hClosed) done (hItems item hItem)).mono
    rintro ⟨_, flattened⟩ s'' - ⟨added, rfl, hAdded⟩ id hMem
    obtain hOld | hNew := mem_append.1 hMem
    · exact hDone id hOld
    · exact hAdded id hNew

theorem steps_flattenWithin (depth : Nat) (hClosed : s.Closed D) (hId : D id) :
    Steps (Reworks D) env s (flattenWithin depth id) :=
  Runs.read_then (steps_expandNode (reworks_expandWithin depth) hClosed hId)

end

end TemplateCheck
