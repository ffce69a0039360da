import TemplateCheck.Proofs.Slots.Splice

/-!
# Types that positions dictate

The position of a node below a checked one says which type the node is checked against: the governor of the whole for
alternatives, members of permutations and operands, the element type for elements, the declared type for fields and
parameters, the type that an inline template brings along for the target of a decoded match. A node is governed if it is
checked against its type and all its parts are, each against a type that its position dictates.

While the children of a node are checked one after the other, those that are done are governed and those still to come
are unchecked trees, which they stay when slots are spliced.
-/

namespace TemplateCheck

open List Store

variable {K : NodeId → Prop} {s s' : Store} {id child : NodeId} {t : Template} {form : Form} {α : Type} {v : Visit}
  {done rest : List NodeId}

namespace Store

variable {roots ids : List NodeId}

theorem steady_push : s.Steady K (s.push t) where
  size_le := by simp
  nodes _ found _ hFound := ⟨found, get?_push_of_get? hFound, .refl found⟩

theorem steady_update_ne {f : Template → Template} : s.Steady (· ≠ id) (s.update id f) where
  size_le := Nat.le_of_eq (size_update s id f).symm
  nodes _ found hNe hFound := ⟨found, (get?_update_of_ne hNe).trans hFound, .refl found⟩

theorem Steady.not_has (h : s.Steady K s') (hNew : ¬ s'.Has id) : ¬ s.Has id :=
  fun hHas => hNew (hHas.of_size_le h.size_le)

theorem Pristine.alters (h : s.Pristine roots ids) (hAlters : s.Alters id s') :
    ∃ ids', s'.Pristine roots ids' ∧ ids'.Sublist ids := by
  have hThin : ∃ ids', s'.Lists roots ids' ∧ ids'.Sublist ids := by
    apply h.lists.thin
    intro other _ t hFound
    obtain ⟨t', hFound', hAltered, -⟩ := hAlters.nodes other t hFound
    exact ⟨t', hFound', hAltered.children⟩
  obtain ⟨ids', hLists, hSub⟩ := hThin
  refine ⟨ids', ⟨hLists, h.nodup.sublist hSub, ?_⟩, hSub⟩
  intro other hMem t' hFound'
  obtain ⟨t, hFound, hAltered, -⟩ := hAlters.of_get? hFound'
  rw [hAltered.checked]
  exact h.unchecked other (hSub.subset hMem) t hFound

end Store

variable {env : Env}

/-- What is known about a node that is about to be spliced, or has been: its children are unchecked
trees. -/
structure Store.Bears (s : Store) (id : NodeId) (t : Template) (below : List NodeId) : Prop where
  node : s.get? id = some t
  children : s.Pristine t.form.children below
  fresh : id ∉ below

/-- Splicing leaves a node that bears unchecked trees with unchecked trees. A list stays a list of its shape. -/
theorem clean_flattenWithin (depth : Nat) {below : List NodeId} (h : s.Bears id t below) :
    Clean env s (flattenWithin depth id) fun _ s' =>
      ∃ t' below', s'.Bears id t' below' ∧ t'.governor = t.governor ∧
        t'.marks.checked = t.marks.checked ∧ t'.form.variant = t.form.variant ∧
        ∀ id ∈ below', id ∈ below ∨ ¬ s.Has id := by
  cases hShape : t.form.listShape? with
  | none =>
    apply Concludes.read_then
    apply Concludes.node_then
    intro found hFound
    cases h.node.symm.trans hFound
    split
    · exact .pure ⟨t, below, h, rfl, rfl, rfl, fun _ => .inl⟩
    split
    · rename_i hForm
      simp [hForm, Form.listShape?] at hShape
    · exact .pure ⟨t, below, h, rfl, rfl, rfl, fun _ => .inl⟩
  | some shape =>
    have hGrove : s.Grove False [id] (id :: below) :=
      .node h.node ⟨h.children.lists, h.children.nodup, False.elim⟩ h.fresh False.elim
    have hReworks : Steps (Reworks fun _ => True) env s (flattenWithin depth id) :=
      steps_flattenWithin depth ⟨fun _ _ => trivial, fun _ _ _ _ => trivial⟩ trivial
    apply (Returns.clean ((returns_flattenWithin depth hGrove h.node (by simp [hShape])).and_moves hReworks)).mono
    rintro flat s' ⟨⟨t', ids', hNode', hFolded, hGrove', hOwn⟩, hReworks, -⟩
    obtain ⟨_, below', hFound', hBelow', hFresh', rfl, -⟩ := hGrove'.of_single
    cases hNode'.symm.trans hFound'
    have hSame := hReworks.reworked id t t' h.node hNode'
    have hNew : ∀ other ∈ below', other ∈ below ∨ ¬ s.Has other := by
      intro other hMem
      obtain hOld | hNew := hOwn other (mem_cons_of_mem id hMem)
      · obtain rfl | hOld := mem_cons.1 hOld
        · exact absurd hMem hFresh'
        · exact .inl hOld
      · exact .inr hNew
    refine ⟨t', below', ⟨hNode', ⟨hBelow'.lists, hBelow'.nodup, ?_⟩, hFresh'⟩, hSame.governor, hSame.checked, ?_, hNew⟩
    · intro other hMem u' hOther'
      obtain hOld | hFresh := hNew other hMem
      · obtain ⟨u, hOther⟩ := (h.children.lists.has hOld).exists_get?
        rw [(hReworks.reworked other u u' hOther hOther').checked]
        exact h.children.unchecked other hOld u hOther
      · exact hReworks.unchecked other u' hFresh hOther'
    · rw [Form.listShape?_eq_some.1 hShape, Form.listShape?_eq_some.1 (hFolded.listShape?.trans hShape)]

def Category.typesOf (name : String) : Category → List TypeKey
  | .record fields | .set fields | .union fields => (fields.filter (·.name = name)).map (·.type)
  | .signature params _ _ => (params.filter (·.name = name)).map (·.type)
  | _ => []

namespace Env

def boundType? (env : Env) (inline : InlineTemplate) : Option TypeKey :=
  inline.type.or do
    let r ← inline.modifies
    let definition ← env.definitions.target? r
    let declared ← definition.type
    return ((env.types.part? declared r.path).map (·.type)).getD declared

/-- The types that a position below a node with the given governor and form dictates. There are several
only where a declaration uses a name twice. -/
def dictated (env : Env) (governor : TypeKey) (child : NodeId) : Form → List TypeKey
  | .list .valueList _ | .list .complemented _ | .list .permutation _ | .concat .. => [governor]
  | .list _ _ | .indexed _ => ((env.types.decl? governor).bind (·.category.element?)).toList
  | .named entries =>
    (entries.filter (·.template = child)).flatMap fun entry =>
      ((env.types.decl? governor).map (·.category.typesOf entry.name)).getD []
  | .decoded _ target => (env.boundType? target).toList
  | _ => []

end Env

namespace Store

variable {governor : TypeKey}

/-- A child that is checked together with its parent: not the target of a slot, nor an element that is
not used. -/
def IsPart (s : Store) (form : Form) (child : NodeId) : Prop :=
  child ∈ form.children ∧
    match form with
    | .allFrom _ => False
    | .list .positional _ => ∀ t, s.get? child = some t → t.form ≠ .notUsed
    | _ => True

/-- A node that is checked against a type, with all its parts unless the type is erroneous. -/
inductive Governed (env : Env) (s : Store) : NodeId → TypeKey → Prop where
  | skipped {id : NodeId} {governor : TypeKey} {t : Template} {decl : TypeDecl} :
      s.get? id = some t → t.marks.checked = true → t.governor = some governor →
      env.types.decl? governor = some decl → decl.category = .erroneous → Governed env s id governor
  | parts {id : NodeId} {governor : TypeKey} {t : Template} (types : NodeId → TypeKey) :
      s.get? id = some t → t.marks.checked = true → t.governor = some governor →
      (∀ child, s.IsPart t.form child → types child ∈ env.dictated governor child t.form) →
      (∀ child, s.IsPart t.form child → Governed env s child (types child)) → Governed env s id governor

theorem isPart_of_steady (hSteady : s.Steady K s') (hChild : K child) (h : s'.IsPart form child) :
    s.IsPart form child := by
  obtain ⟨hMem, hPart⟩ := h
  refine ⟨hMem, ?_⟩
  split
  · exact hPart
  · intro t hFound hNotUsed
    obtain ⟨t', hFound', ht⟩ := hSteady.nodes child t hChild hFound
    exact hPart t' hFound' (ht.notUsed_iff.2 hNotUsed)
  · trivial

theorem Governed.steady {type : TypeKey} (h : s.Governed env id type) (hSteady : s.Steady K s')
    (hClosed : ∀ parent child, K parent → s.Child parent child → K child) (hId : K id) : s'.Governed env id type := by
  induction h with
  | skipped hFound hChecked hGovernor hDecl hErroneous =>
    obtain ⟨t', hFound', ht⟩ := hSteady.nodes _ _ hId hFound
    exact .skipped hFound' (ht.checked.trans hChecked) (ht.governor.trans hGovernor) hDecl hErroneous
  | @parts id governor t types hFound hChecked hGovernor hTypes _ ih =>
    obtain ⟨t', hFound', ht⟩ := hSteady.nodes _ _ hId hFound
    have hPart : ∀ child, s'.IsPart t'.form child → t'.form = t.form ∧ s.IsPart t.form child ∧ K child := by
      intro child hPart
      obtain hSame | ⟨-, hNone, -⟩ := ht.form
      · rw [hSame] at hPart
        have hChild := hClosed id child hId ⟨t, hFound, hPart.1⟩
        exact ⟨hSame, isPart_of_steady hSteady hChild hPart, hChild⟩
      · have hMem := hPart.1
        rw [hNone] at hMem
        cases hMem
    refine .parts types hFound' (ht.checked.trans hChecked) (ht.governor.trans hGovernor) ?_ ?_
    · intro child hChild
      obtain ⟨hSame, hOld, -⟩ := hPart child hChild
      rw [hSame]
      exact hTypes child hOld
    · intro child hChild
      obtain ⟨-, hOld, hIn⟩ := hPart child hChild
      exact ih child hOld hIn

def Sound (env : Env) (s : Store) (governor : TypeKey) (form : Form) (child : NodeId) : Prop :=
  s.IsPart form child → ∃ type ∈ env.dictated governor child form, s.Governed env child type

theorem Sound.steady (h : s.Sound env governor form child) (hSteady : s.Steady K s')
    (hClosed : ∀ parent child, K parent → s.Child parent child → K child) (hChild : K child) :
    s'.Sound env governor form child := by
  intro hPart
  obtain ⟨type, hType, hGoverned⟩ := h (isPart_of_steady hSteady hChild hPart)
  exact ⟨type, hType, hGoverned.steady hSteady hClosed hChild⟩

end Store

/-- The check of a node against a type: the store that it begins with, and the nodes of the tree in it. -/
structure Visit where
  env : Env
  start : Store
  own : List NodeId
  id : NodeId
  governor : TypeKey

abbrev Visit.Stands (v : Visit) (form : Form) (s : Store) : Prop :=
  ∃ t, s.get? v.id = some t ∧ t.form = form ∧ t.governor = some v.governor ∧ t.marks.checked = true

/-- A check of which some children are done and others still to come. The nodes below are among those of the
tree that it began with, or new. -/
structure Underway (v : Visit) (form : Form) (done rest : List NodeId) (s : Store) : Prop where
  size_le : v.start.size ≤ s.size
  node : v.Stands form s
  parts : ∃ ids others, s.Lists done ids ∧ s.Pristine rest others ∧ (v.id :: (ids ++ others)).Nodup ∧
    ∀ other ∈ ids ++ others, other ∈ v.own ∨ ¬ v.start.Has other
  sound : ∀ child ∈ done, s.Sound v.env v.governor form child

abbrev Visit.Begun (v : Visit) (form : Form) (s : Store) : Prop := Underway v form [] form.children s

def Visit.Ended (v : Visit) (s : Store) : Prop := ∃ form, Underway v form form.children [] s

abbrev Visit.Ends {α : Type} (v : Visit) (s : Store) (x : CheckM α) : Prop := Clean v.env s x fun _ => v.Ended

/-- A computation that takes care of an unchecked tree: nodes outside of it are steady, and it consists of its own nodes
and new ones. -/
def Attends {α : Type} (env : Env) (s : Store) (x : CheckM α) (root : NodeId) (P : Store → Prop) : Prop :=
  ∀ ids, s.Pristine [root] ids → Clean env s x fun _ s' =>
    s.Steady (· ∉ ids) s' ∧ ∃ ids', s'.Lists [root] ids' ∧ ids'.Nodup ∧ (∀ id ∈ ids', id ∈ ids ∨ ¬ s.Has id) ∧ P s'

abbrev Visit.Serves {α : Type} (v : Visit) (form : Form) (s : Store) (x : CheckM α) (child : NodeId) : Prop :=
  Attends v.env s x child (·.Sound v.env v.governor form child)

section

namespace Underway

theorem steady_node (h : Underway v form done rest s)
    (hForm : ∀ r, form ≠ .referenced r none) (hSteady : s.Steady K s') (hId : K v.id) :
    v.Stands form s' := by
  obtain ⟨t, hFound, rfl, hGovernor, hChecked⟩ := h.node
  obtain ⟨t', hFound', ht⟩ := hSteady.nodes v.id t hId hFound
  exact ⟨t', hFound', ht.form_eq hForm, ht.governor.trans hGovernor, ht.checked.trans hChecked⟩

/-- A change of the node itself keeps its parts. -/
theorem carry {form' : Form} (h : Underway v form done rest s) (hSteady : s.Steady (· ≠ v.id) s')
    (hNode : v.Stands form' s') (hSound : ∀ child ∈ done, s.Sound v.env v.governor form' child) :
    Underway v form' done rest s' := by
  obtain ⟨ids, others, hDone, hRest, hNodup, hOwn⟩ := h.parts
  have hOut : ∀ other ∈ ids ++ others, other ≠ v.id :=
    fun other hMem hEq => (nodup_cons.1 hNodup).1 (hEq ▸ hMem)
  have hKept : s.Steady (· ∈ ids) s' := hSteady.mono fun other hMem => hOut other (mem_append_left _ hMem)
  refine ⟨Nat.le_trans h.size_le hSteady.size_le, hNode, ⟨ids, others, hKept.lists hDone fun _ hMem => hMem,
    hRest.steady hSteady fun other hMem => hOut other (mem_append_right _ hMem), hNodup, hOwn⟩, ?_⟩
  exact fun child hChild => (hSound child hChild).steady hKept (fun _ _ => hDone.child) (hDone.mem_of_root hChild)

theorem step {x : CheckM α} (h : Underway v form done (child :: rest) s)
    (hForm : ∀ r, form ≠ .referenced r none) (hx : v.Serves form s x child) :
    Clean v.env s x fun _ => Underway v form (done ++ [child]) rest := by
  obtain ⟨t, hFound, -⟩ := h.node
  obtain ⟨ids, _, hDone, hRest, hNodup, hOwn⟩ := h.parts
  obtain ⟨mine, others, hMine, hOthers, rfl⟩ := hRest.lists.of_cons
  obtain ⟨hMineNodup, hOthersNodup, hApart⟩ := nodup_append.1 hRest.nodup
  obtain ⟨hId, hAll⟩ := nodup_cons.1 hNodup
  have hChild : s.Pristine [child] mine :=
    ⟨hMine, hMineNodup, fun other hMem => hRest.unchecked other (mem_append_left _ hMem)⟩
  have hLater : s.Pristine rest others :=
    ⟨hOthers, hOthersNodup, fun other hMem => hRest.unchecked other (mem_append_right _ hMem)⟩
  have hDoneOut : ∀ other ∈ ids, other ∉ mine := fun other hMem hIn =>
    (nodup_append.1 hAll).2.2 other hMem other (mem_append_left _ hIn) rfl
  have hLaterOut : ∀ other ∈ others, other ∉ mine := fun other hMem hIn =>
    hApart other hIn other hMem rfl
  have hIdOut : v.id ∉ mine := fun hIn => hId (mem_append_right _ (mem_append_left _ hIn))
  apply (hx mine hChild).mono
  rintro _ s' ⟨hSteady, mine', hMine', hMineNodup', hNew, hSound⟩
  refine ⟨Nat.le_trans h.size_le hSteady.size_le, h.steady_node hForm hSteady hIdOut,
    ⟨ids ++ mine', others, (hSteady.lists hDone hDoneOut).append hMine', hLater.steady hSteady hLaterOut, ?_, ?_⟩, ?_⟩
  · rw [append_assoc, ← cons_append]
    rw [← cons_append] at hNodup
    apply nodup_replace hNodup ?_ (fun other => hLater.lists.has) hMineNodup' hNew
    intro other hMem
    obtain rfl | hMem := mem_cons.1 hMem
    · exact has_of_get? hFound
    · exact hDone.has hMem
  · intro other hMem
    simp only [mem_append] at hMem hOwn
    obtain (hMem | hMem) | hMem := hMem
    · exact hOwn other (.inl hMem)
    · obtain hOld | hFresh := hNew other hMem
      · exact hOwn other (.inr (.inl hOld))
      · exact .inr fun hHas => hFresh (hHas.of_size_le h.size_le)
    · exact hOwn other (.inr (.inr hMem))
  · intro other hMem
    obtain hMem | hMem := mem_append.1 hMem
    · exact (h.sound other hMem).steady (hSteady.mono hDoneOut) (fun _ _ => hDone.child) (hDone.mem_of_root hMem)
    · rw [mem_singleton.1 hMem]
      exact hSound

theorem skip (h : Underway v form done (child :: rest) s) (hPart : ¬ s.IsPart form child) :
    Underway v form (done ++ [child]) rest s := by
  obtain ⟨ids, _, hDone, hRest, hNodup, hOwn⟩ := h.parts
  obtain ⟨mine, others, hMine, hOthers, rfl⟩ := hRest.lists.of_cons
  refine ⟨h.size_le, h.node, ⟨ids ++ mine, others, hDone.append hMine, ⟨hOthers, ?_, ?_⟩, ?_, ?_⟩, ?_⟩
  · exact (nodup_append.1 hRest.nodup).2.1
  · exact fun other hMem => hRest.unchecked other (mem_append_right _ hMem)
  · rwa [append_assoc]
  · rwa [append_assoc]
  · intro other hMem
    obtain hMem | hMem := mem_append.1 hMem
    · exact h.sound other hMem
    · rw [mem_singleton.1 hMem]
      exact fun hIs => absurd hIs hPart

theorem steady (h : Underway v form done rest s)
    (hForm : ∀ r, form ≠ .referenced r none) (hSteady : s.Steady (fun _ => True) s') :
    Underway v form done rest s' :=
  h.carry (hSteady.mono fun _ _ => trivial) (h.steady_node hForm hSteady trivial) h.sound

/-- A change of the node itself leaves its parts alone or drops them all. -/
theorem alters (h : Underway v form done rest s) (hAlters : s.Alters v.id s') : Underway v form done rest s' ∨
      ∃ form', form'.children = [] ∧ Underway v form' [] [] s' := by
  obtain ⟨t, hFound, rfl, hGovernor, hChecked⟩ := h.node
  obtain ⟨t', hFound', ht, -⟩ := hAlters.nodes v.id t hFound
  obtain hSame | hNone := ht.form
  · refine .inl (h.carry (hAlters.steady fun hNe => hNe rfl) ?_ h.sound)
    exact ⟨t', hFound', hSame, ht.governor.trans hGovernor, ht.checked.trans hChecked⟩
  · exact .inr ⟨t'.form, hNone, hAlters.size_eq ▸ h.size_le,
      ⟨t', hFound', rfl, ht.governor.trans hGovernor, ht.checked.trans hChecked⟩,
      ⟨[], [], .nil, s'.pristine_nil, by simp, nofun⟩, nofun⟩

theorem begun_alters (h : v.Begun form s) (hAlters : s.Alters v.id s') : ∃ form', v.Begun form' s' := by
  obtain h' | ⟨form', hNone, h'⟩ := h.alters hAlters
  · exact ⟨form, h'⟩
  · exact ⟨form', by rwa [Visit.Begun, hNone]⟩

theorem formOf_then {f : Form → CheckM α} {Q : α → Store → Prop} (h : Underway v form done rest s)
    (hf : Clean v.env s (f form) Q) : Clean v.env s (formOf v.id >>= f) Q := by
  obtain ⟨t, hFound, rfl, -⟩ := h.node
  apply Concludes.formIs_then hFound
  exact hf

theorem ended (h : v.Begun form s) (hNone : form.children = []) : v.Ended s := by
  rw [Visit.Begun, hNone] at h
  exact ⟨form, by rwa [hNone]⟩

end Underway

theorem Visit.Ended.alters (h : v.Ended s) (hAlters : s.Alters v.id s') : v.Ended s' := by
  obtain ⟨form, h⟩ := h
  obtain h' | ⟨form', hNone, h'⟩ := h.alters hAlters
  · exact ⟨form, h'⟩
  · exact ⟨form', by rwa [hNone]⟩

theorem Visit.Ended.governed (h : v.Ended s) : s.Governed v.env v.id v.governor := by
  obtain ⟨form, h⟩ := h
  obtain ⟨t, hFound, rfl, hGovernor, hChecked⟩ := h.node
  have hTypes : ∀ child, ∃ type, s.IsPart t.form child →
      type ∈ v.env.dictated v.governor child t.form ∧ s.Governed v.env child type := by
    intro child
    by_cases hPart : s.IsPart t.form child
    · obtain ⟨type, hType, hGoverned⟩ := h.sound child hPart.1 hPart
      exact ⟨type, fun _ => ⟨hType, hGoverned⟩⟩
    · exact ⟨v.governor, fun hIs => absurd hIs hPart⟩
  choose types hTypes using hTypes
  exact .parts types hFound hChecked hGovernor (fun child hPart => (hTypes child hPart).1)
    fun child hPart => (hTypes child hPart).2

theorem Underway.lists (h : Underway v form done rest s) (hAll : done ++ rest = form.children) (hId : v.id ∈ v.own) :
    ∃ ids, s.Lists [v.id] ids ∧ ids.Nodup ∧ ∀ other ∈ ids, other ∈ v.own ∨ ¬ v.start.Has other := by
  obtain ⟨t, hFound, rfl, -⟩ := h.node
  obtain ⟨ids, others, hDone, hRest, hNodup, hOwn⟩ := h.parts
  have hChildren := hDone.append hRest.lists
  rw [hAll] at hChildren
  refine ⟨_, .single hFound hChildren, hNodup, fun other hMem => ?_⟩
  obtain rfl | hMem := mem_cons.1 hMem
  · exact .inl hId
  · exact hOwn other hMem

end

section

variable {β : Type} {own : List NodeId} {xs : List α} {template : α → NodeId}

namespace Attends

variable {x : CheckM α} {f : α → CheckM β} {root : NodeId} {P P' : Store → Prop}

theorem mono (h : Attends env s x root P) (hP : ∀ s', P s' → P' s') : Attends env s x root P' := by
  intro ids hPristine
  apply (h ids hPristine).mono
  rintro _ s' ⟨hSteady, ids', hLists, hNodup, hNew, hPost⟩
  exact ⟨hSteady, ids', hLists, hNodup, hNew, hP s' hPost⟩

theorem of_still (h : Still x) (hP : P s) : Attends env s x root P := by
  intro ids hPristine
  apply Concludes.of_still h
  exact fun _ => ⟨Course.refl s, ids, hPristine.lists, hPristine.nodup, fun _ => .inl, hP⟩

theorem after_error {x : CheckM Unit} {f : Unit → CheckM β} (h : Clean env s x fun _ _ => False) :
    Attends env s (x >>= f) root P :=
  fun _ _ => Clean.after_error h

theorem inside (c : Context) (h : Attends env s x root P) : Attends env s (inside c x) root P :=
  fun ids hPristine => (h ids hPristine).inside c

theorem then_still (h : Attends env s x root P) (hf : ∀ a, Still (f a)) : Attends env s (x >>= f) root P :=
  fun ids hPristine => (h ids hPristine).bind fun a _ hPost => .of_still (hf a) fun _ => hPost

theorem bind_steady (h : Attends env s x root P) (hP : ∀ s' s'', s'.Steady (fun _ => True) s'' → P s' → P s'')
    (hf : ∀ a s', Clean env s' (f a) fun _ s'' => s'.Steady (fun _ => True) s'') : Attends env s (x >>= f) root P := by
  intro ids hPristine
  apply (h ids hPristine).bind
  rintro a s' ⟨hSteady, ids', hLists, hNodup, hNew, hPost⟩
  apply (hf a s').mono
  intro _ s'' hSteady'
  refine ⟨Course.trans hSteady (hSteady'.mono fun _ _ => trivial), ids',
    hSteady'.lists hLists fun _ _ => trivial, hNodup, hNew, hP s' s'' hSteady' hPost⟩

theorem still_then (hx : Still x) (h : ∀ a, Attends env s (f a) root P) : Attends env s (x >>= f) root P :=
  fun ids hPristine => .still_then hx fun a => h a ids hPristine

theorem after_steady (hx : Steps (Store.Steady fun _ => True) env s x)
    (h : ∀ a s', s.Steady (fun _ => True) s' → Attends env s' (f a) root P) : Attends env s (x >>= f) root P := by
  intro ids hPristine
  apply (Concludes.of_moves hx).bind
  rintro a s' ⟨hSteady, -⟩
  apply (h a s' hSteady ids (hPristine.steady hSteady fun _ _ => trivial)).mono
  rintro _ s'' ⟨hSteady', ids', hLists, hNodup, hNew, hPost⟩
  have hFirst : s.Steady (· ∉ ids) s' := hSteady.mono fun _ _ => trivial
  exact ⟨Course.trans hFirst hSteady', ids', hLists, hNodup,
    fun other hMem => (hNew other hMem).imp_right hSteady.not_has, hPost⟩

theorem after_alters {Q : α → Store → Prop} (hx : Clean env s x fun a s' => s.Alters root s' ∧ Q a s')
    (h : ∀ a s', Q a s' → Attends env s' (f a) root P) : Attends env s (x >>= f) root P := by
  intro ids hPristine
  apply hx.bind
  rintro a s' ⟨hAlters, hQ⟩
  obtain ⟨kept, hKept, hSub⟩ := hPristine.alters hAlters
  apply (h a s' hQ kept hKept).mono
  rintro _ s'' ⟨hSteady, ids', hLists, hNodup, hNew, hPost⟩
  have hRoot : root ∈ ids := hPristine.lists.mem_of_root mem_cons_self
  have hFirst : s.Steady (· ∉ ids) s' := hAlters.steady fun hOut => hOut hRoot
  have hSecond : s'.Steady (· ∉ ids) s'' := hSteady.mono fun other hOut hIn => hOut (hSub.subset hIn)
  refine ⟨Course.trans hFirst hSecond, ids', hLists, hNodup, fun other hMem => ?_, hPost⟩
  obtain hOld | hFresh := hNew other hMem
  · exact .inl (hSub.subset hOld)
  · exact .inr (hFirst.not_has hFresh)

end Attends

structure Visit.Settled (v : Visit) (s : Store) : Prop where
  lists : ∃ ids, s.Lists [v.id] ids ∧ ids.Nodup ∧ ∀ other ∈ ids, other ∈ v.own ∨ ¬ v.start.Has other
  governed : s.Governed v.env v.id v.governor

theorem Visit.Ended.settled (h : v.Ended s) (hId : v.id ∈ v.own) : v.Settled s := by
  have hGoverned := h.governed
  obtain ⟨form, h⟩ := h
  exact ⟨h.lists (append_nil _) hId, hGoverned⟩

theorem Underway.skipped (h : v.Begun form s) (hId : v.id ∈ v.own) {decl : TypeDecl}
    (hDecl : v.env.types.decl? v.governor = some decl) (hErroneous : decl.category = .erroneous) : v.Settled s := by
  obtain ⟨t, hFound, -, hGovernor, hChecked⟩ := h.node
  exact ⟨h.lists rfl hId, .skipped hFound hChecked hGovernor hDecl hErroneous⟩

theorem clean_govern (h : s.Pristine [id] own) (hFound : s.get? id = some t) (governor : TypeKey) :
    Clean env s (govern id governor) fun _ => Visit.Begun ⟨env, s, own, id, governor⟩ t.form := by
  obtain ⟨found, below, hFound', hBelow, rfl⟩ := h.lists.of_single
  cases hFound.symm.trans hFound'
  obtain ⟨hFresh, hNodup⟩ := nodup_cons.1 h.nodup
  apply Concludes.modifyNode.mono
  rintro _ _ ⟨-, rfl⟩
  have hChildren : s.Pristine t.form.children below :=
    ⟨hBelow, hNodup, fun other hMem => h.unchecked other (mem_cons_of_mem _ hMem)⟩
  refine ⟨by simp, ⟨t.govern governor, by simp [hFound], rfl, rfl, rfl⟩,
    ⟨[], below, .nil, hChildren.steady steady_update_ne ?_, h.nodup, ?_⟩, nofun⟩
  · exact fun other hMem hEq => hFresh (hEq ▸ hMem)
  · exact fun other hMem => .inl (mem_cons_of_mem _ hMem)

theorem Underway.foldlM {f : β → α → CheckM β} {b : β}
    (h : Underway v form done (xs.map template) s) (hForm : ∀ r, form ≠ .referenced r none)
    (hf : ∀ b, ∀ a ∈ xs, ∀ s', v.Serves form s' (f b a) (template a)) :
    Clean v.env s (xs.foldlM f b) fun _ s' => Underway v form (done ++ xs.map template) [] s' := by
  induction xs generalizing s b done with
  | nil => exact .pure (by simpa using h)
  | cons a xs ih =>
    rw [foldlM_cons]
    apply (Underway.step h hForm (hf b a mem_cons_self s)).bind
    intro b' s' h'
    apply (ih h' fun b a ha => hf b a (mem_cons_of_mem _ ha)).mono
    intro _ s'' h''
    simpa using h''

theorem Underway.checkAny {f : α → CheckM Bool} (h : v.Begun form s) (hAll : xs.map template = form.children)
    (hForm : ∀ r, form ≠ .referenced r none) (hf : ∀ a ∈ xs, ∀ s', v.Serves form s' (f a) (template a)) :
    Clean v.env s (checkAny f xs) fun _ => Underway v form form.children [] := by
  rw [← hAll]
  rw [Visit.Begun, ← hAll] at h
  apply Underway.foldlM h hForm
  intro b a ha s'
  exact (hf a ha s').then_still fun _ => .pure _

theorem Underway.reform (h : Underway v form done rest s) {form' : Form}
    (hSound : ∀ child ∈ done, s.Sound v.env v.governor form' child) :
    Clean v.env s (replaceForm v.id form') fun _ => Underway v form' done rest := by
  obtain ⟨t, hFound, -, hGovernor, hChecked⟩ := h.node
  apply Concludes.replaceForm.mono
  rintro _ _ ⟨-, rfl⟩
  exact h.carry steady_update_ne ⟨{ t with form := form' }, by simp [hFound], rfl, hGovernor, hChecked⟩ hSound

theorem Underway.push (h : Underway v form done [] s)
    (hDone : ∀ child ∈ form.children, child ∈ done) (hForm : ∀ r, form ≠ .referenced r none)
    (hNone : t.form.children = []) : Underway v form (done ++ [s.nextId]) [] (s.push t) := by
  obtain ⟨ids, others, hLists, hRest, hNodup, hOwn⟩ := h.parts
  obtain ⟨found, hFound, -⟩ := h.node
  cases hRest.lists
  have hKept := h.steady hForm (steady_push (t := t))
  have hNew : ¬ s.Has s.nextId := not_has_nextId s
  have hLeaf : (s.push t).Lists [s.nextId] [s.nextId] :=
    .single (get?_push_nextId s t) (by rw [hNone]; exact .nil)
  rw [append_nil] at hNodup hOwn
  refine ⟨hKept.size_le, hKept.node, ⟨ids ++ [s.nextId], [],
    (steady_push.lists hLists fun _ _ => trivial).append hLeaf, (s.push t).pristine_nil, ?_, ?_⟩, ?_⟩
  · rw [append_nil, ← cons_append]
    apply nodup_append.2
    refine ⟨hNodup, by simp, fun other hMem last hLast hEq => ?_⟩
    rw [mem_singleton.1 hLast] at hEq
    subst hEq
    obtain hSelf | hMem := mem_cons.1 hMem
    · exact hNew (hSelf ▸ has_of_get? hFound)
    · exact hNew (hLists.has hMem)
  · intro other hMem
    rw [append_nil] at hMem
    obtain hMem | hMem := mem_append.1 hMem
    · exact hOwn other hMem
    · rw [mem_singleton.1 hMem]
      exact .inr fun hHas => hNew (hHas.of_size_le h.size_le)
  · intro child hChild
    obtain hChild | hChild := mem_append.1 hChild
    · exact hKept.sound child hChild
    · intro hPart
      rw [mem_singleton.1 hChild] at hPart
      exact absurd (hLists.has (hLists.mem_of_root (hDone _ hPart.1))) hNew

end

end TemplateCheck
