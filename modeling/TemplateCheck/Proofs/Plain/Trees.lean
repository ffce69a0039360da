import TemplateCheck.Proofs.Depth
import TemplateCheck.Proofs.Locality.Check
import TemplateCheck.Proofs.Plain
import TemplateCheck.Proofs.Safety.Node
import TemplateCheck.Proofs.Trees

/-!
# Trees without references

The nodes of a tree can be ranked above their children. Checks keep such a ranking, and in a tree without slots a
check of a node descends no deeper than its rank: one that may descend deeper does the same. A store that holds
nothing but a tree of plain nodes needs no definitions, so the check of that tree comes to an end with a result.
-/

namespace TemplateCheck

open List Store

variable {rank : NodeId → Nat} {D : NodeId → Prop} {s : Store} {id : NodeId} {form : Form} {f : Template → Template}
  {depth : Nat}

theorem Form.isDirect_of_isPlain (h : form.isPlain) : form.isDirect := by
  unfold isDirect
  split
  · cases h
  · cases h
  · rfl

def Form.isVacant : Form → Bool
  | .omitted | .erroneous => true
  | _ => false

def Form.fits (rank : Nat) (form : Form) : Prop := form.isSlot = false ∧ (rank = 0 → form.isVacant)

theorem Form.Becomes.fits {rank : Nat} {form' : Form} (h : form.Becomes form') (hFits : form.fits rank) :
    form'.fits rank := by
  induction h with
  | refl => exact hFits
  | @step second third _ hMay ih =>
    refine ⟨?_, fun hZero => ?_⟩
    · have hSlot := ih.1
      cases third <;> cases second <;> simp_all [mayBecome, variant, isErroneous, isSlot]
    · have hVacant := ih.2 hZero
      cases third <;> cases second <;> simp_all [mayBecome, variant, isErroneous, isVacant]

namespace Store

variable {s' : Store} {t : Template}

/-- The nodes of a set have lower children in the set, and no slots. Nodes still to come are lowest. -/
structure Tiered (rank : NodeId → Nat) (D : NodeId → Prop) (s : Store) : Prop where
  new : ∀ id, ¬ s.Has id → D id ∧ rank id = 0
  fits : ∀ id t, D id → s.get? id = some t → t.form.fits (rank id)
  child : ∀ id t, D id → s.get? id = some t → ∀ child ∈ t.form.children, D child ∧ rank child < rank id

theorem Tiered.update (h : s.Tiered rank D) (hf : ∀ t, s.get? id = some t → t.form.Becomes (f t).form ∧
      (D id → ∀ child ∈ (f t).form.children, D child ∧ rank child < rank id)) : (s.update id f).Tiered rank D where
  new other hNew := h.new other (by simpa using hNew)
  fits other found hOther hFound := by
    obtain ⟨hOld, -⟩ | ⟨rfl, t, hOld, rfl⟩ := get?_update_cases hFound
    · exact h.fits other found hOther hOld
    · exact (hf t hOld).1.fits (h.fits other t hOther hOld)
  child other found hOther hFound := by
    obtain ⟨hOld, -⟩ | ⟨rfl, t, hOld, rfl⟩ := get?_update_cases hFound
    · exact h.child other found hOther hOld
    · exact (hf t hOld).2 hOther

theorem Tiered.push (h : s.Tiered rank D) (hVacant : t.form.isVacant) : (s.push t).Tiered rank D where
  new other hNew := h.new other fun hHas => hNew (hHas.push t)
  fits other found hOther hFound := by
    obtain hOld | ⟨-, rfl⟩ := get?_push_cases hFound
    · exact h.fits other found hOther hOld
    · exact ⟨by cases hForm : found.form <;> simp_all [Form.isVacant, Form.isSlot], fun _ => hVacant⟩
  child other found hOther hFound := by
    obtain hOld | ⟨-, rfl⟩ := get?_push_cases hFound
    · exact h.child other found hOther hOld
    · cases hForm : found.form <;> simp_all [Form.isVacant, Form.children]

theorem Alters.tiered (h : s.Alters id s') (hEvolves : s.Evolves s') (hTiered : s.Tiered rank D) :
    s'.Tiered rank D := by
  have hOld : ∀ other t', s'.get? other = some t' →
      ∃ t, s.get? other = some t ∧ t.Altered t' ∧ t.form.Becomes t'.form := by
    intro other t' hFound'
    obtain ⟨t, hFound, hAltered, -⟩ := h.of_get? hFound'
    obtain ⟨_, hEvolved', hEvolved⟩ := hEvolves other t hFound
    cases hFound'.symm.trans hEvolved'
    exact ⟨t, hFound, hAltered, hEvolved.form⟩
  refine ⟨fun other hNew => hTiered.new other (hNew ∘ h.has_iff.2), fun other t' hOther hFound' => ?_,
    fun other t' hOther hFound' => ?_⟩
  · obtain ⟨t, hFound, -, hBecomes⟩ := hOld other t' hFound'
    exact hBecomes.fits (hTiered.fits other t hOther hFound)
  · obtain ⟨t, hFound, hAltered, -⟩ := hOld other t' hFound'
    obtain hSame | hNone := hAltered.children
    · rw [hSame]
      exact hTiered.child other t hOther hFound
    · simp [hNone]

def Keeps (I : Store → Prop) (before after : Store) : Prop := I before → I after

instance {I : Store → Prop} : Course (Keeps I) where
  refl _ h := h
  trans hFirst hSecond h := hSecond (hFirst h)

end Store

section Even

variable {α : Type} {I : Store → Prop} {x : CheckM α} {Q : α → Prop}

theorem Runs.even (h : ∀ env s, I s → Moves (Keeps I) env s x fun a _ => Q a) : Even False I x x Q := by
  intro env st hI
  obtain ⟨hKeeps, hResult⟩ := h env st.store hI st.report _ _ rfl
  refine ⟨.inl rfl, hKeeps hI, fun a hOk => ?_⟩
  rwa [hOk] at hResult

theorem Still.even (h : Still x) : Even False I x x fun _ => True := Runs.even fun _ _ _ => h.steps

end Even

section Ranks

variable {env : Env}

theorem Runs.tiered {α : Type} {x : CheckM α} (id : NodeId) (h : Steps (Alters id) env s x) :
    Steps (Keeps (Tiered rank D)) env s x :=
  h.evolving.weaken fun _ hBoth => hBoth.1.tiered hBoth.2

theorem tiered_modifyNode {h : ∀ t : Template, t.Evolves (f t)} (hForm : ∀ t, (f t).form = t.form) :
    Steps (Keeps (Tiered rank D)) env s (onStore (modifyNode id f h)) := by
  refine (moves_modifyNode (Course.refl s) fun _ _ hTiered => hTiered.update fun t hFound => ?_).steps
  rw [hForm]
  exact ⟨.refl _, fun hId => hTiered.child id t hId hFound⟩

theorem even_modifyNode {h : ∀ t : Template, t.Evolves (f t)} (hForm : ∀ t, (f t).form = t.form) :
    Even False (Tiered rank D) (onStore (modifyNode id f h)) (onStore (modifyNode id f h)) fun _ => True :=
  Runs.even fun _ _ _ => tiered_modifyNode hForm

theorem tiered_giveForm (form : Form) (hChildren : ∀ t, s.get? id = some t → t.form.mayBecome form → D id →
      ∀ child ∈ form.children, D child ∧ rank child < rank id) :
    Steps (Keeps (Tiered rank D)) env s (replaceForm id form) := by
  refine (moves_replaceForm (Course.refl s) fun t hFound hMay hTiered => hTiered.update fun t' hFound' => ?_).steps
  cases hFound.symm.trans hFound'
  exact ⟨(Form.Becomes.refl _).step hMay, hChildren t hFound hMay⟩

theorem tiered_fillOmitted {entries : List NamedEntry} (hTiered : s.Tiered rank D)
    (hEntries : ∀ e ∈ entries, D e.template ∧ rank e.template < rank id) (fields : List FieldDecl) :
    Steps (Keeps (Tiered rank D)) env s (fillOmitted id entries fields) := by
  apply moves_fillOmitted (P := fun new => D new ∧ rank new = 0)
  · intro type span s' hKeeps report result after hRun
    cases hRun
    exact ⟨fun hTiered' => hTiered'.push rfl, (hKeeps hTiered).new _ (not_has_nextId s')⟩
  intro filled s' hKeeps hFilled
  apply tiered_giveForm
  intro t' hFound' hMay hId child hChild
  obtain ⟨e, he, rfl⟩ := mem_map.1 hChild
  obtain hOld | hNew := mem_append.1 he
  · exact hEntries e hOld
  · refine ⟨(hFilled e hNew).1, (hFilled e hNew).2 ▸ Nat.pos_of_ne_zero fun hZero => ?_⟩
    have hVacant := (((Form.Becomes.refl _).step hMay).fits ((hKeeps hTiered).fits id t' hId hFound')).2 hZero
    cases hVacant

theorem even_node (hId : D id) : Even False (Tiered rank D) (node id) (node id) fun t =>
    t.form.fits (rank id) ∧ ∀ child ∈ t.form.children, D child ∧ rank child < rank id := by
  refine Runs.even fun env s hTiered => ?_
  have hNode : Moves (Keeps (Tiered rank D)) env s (node id >>= pure) fun t _ => s.get? id = some t :=
    .node_then fun t hFound => .pure hFound
  rw [bind_pure] at hNode
  exact hNode.mono fun t _ _ hFound => ⟨hTiered.fits id t hId hFound, hTiered.child id t hId hFound⟩

theorem even_formOf (hId : D id) : Even False (Tiered rank D) (formOf id) (formOf id) fun form =>
    form.fits (rank id) ∧ ∀ child ∈ form.children, D child ∧ rank child < rank id :=
  (even_node hId).bind fun _ ht => .pure ht

/-- The check of a node of a given rank descends to nodes of lower rank. -/
theorem checking_even (level : Nat) : Checking (fun id => D id ∧ rank id = level) (fun id => D id ∧ rank id < level)
    fun {_} (x : Bool → CheckM _) => Even False (Tiered rank D) (x false) (x true) fun _ => True where
  still hx := hx.even
  bind hx hf := hx.bind fun a _ => hf a
  inside c hx := Even.inside c hx
  formOf_then hId hf := by
    refine (even_formOf (hId.elim And.left And.left)).bind fun form hForm => hf form fun child hChild => ?_
    have hLe := hId.elim (fun h => Nat.le_of_eq h.2) fun h => Nat.le_of_lt h.2
    exact ⟨(hForm.2 child hChild).1, Nat.lt_of_lt_of_le (hForm.2 child hChild).2 hLe⟩
  lastTemplate id := Runs.even fun _ s _ => (pursuing_lastTemplate s id).alters.tiered id
  basePart r template type := Runs.even fun _ _ _ => (steps_basePart r template type).alters.tiered 0
  own h _ := Runs.even fun _ _ _ => h.alters.tiered _
  govern _ _ := even_modifyNode fun _ => rfl
  name hId hEntries := Runs.even fun _ _ _ => tiered_giveForm _ fun _ _ _ _ =>
    forall_mem_map.2 fun e he => hId.2 ▸ hEntries e he
  fillOmitted fields hId hEntries := Runs.even fun _ _ hTiered =>
    tiered_fillOmitted hTiered (fun e he => hId.2 ▸ hEntries e he) fields

section Expand

def Expand.Evens (rank : NodeId → Nat) (D : NodeId → Prop) (depth : Nat) : Prop :=
  ∀ inPermutation active items, (∀ item ∈ items, D item ∧ rank item < depth) → 0 < depth →
    Even False (Tiered rank D) (expandWithin depth inPermutation active items)
      (expandWithin (depth + 1) inPermutation active items) fun result => ∀ item ∈ result.1, item ∈ items

theorem even_expandNode (hExpand : Expand.Evens rank D depth) (hId : D id) (hRank : rank id ≤ depth)
    (inPermutation : Bool) (active : List DefId) :
    Even False (Tiered rank D) (expandNode (expandWithin depth) inPermutation active id)
      (expandNode (expandWithin (depth + 1)) inPermutation active id) fun _ => True := by
  apply (even_node hId).bind
  intro t ⟨hFits, hChildren⟩
  split
  · exact .pure trivial
  split
  · rename_i shape items hForm
    rw [hForm] at hFits hChildren
    have hPositive : 0 < rank id := Nat.pos_of_ne_zero fun hZero => by cases hFits.2 hZero
    have hItems : ∀ item ∈ items, D item ∧ rank item < rank id := hChildren
    apply (even_modifyNode (f := (·.mark .folded)) fun _ => rfl).bind
    intro _ _
    apply (hExpand inPermutation active items
      (fun item hItem => ⟨(hItems item hItem).1, Nat.lt_of_lt_of_le (hItems item hItem).2 hRank⟩) (by omega)).bind
    intro result hResult
    apply (Runs.even fun _ _ _ => tiered_giveForm (.list shape result.1) fun _ _ _ _ item hItem =>
      hItems item (hResult item hItem)).bind
    intro _ _
    apply (even_modifyNode (f := (·.settle result.2)) fun _ => rfl).bind
    exact fun _ _ => .pure trivial
  · exact .pure trivial

theorem evens_expandWithin (depth : Nat) : Expand.Evens rank D depth := by
  induction depth with
  | zero => exact fun _ _ _ _ hPositive => absurd hPositive (Nat.lt_irrefl 0)
  | succ depth ih =>
    intro inPermutation active items hItems _
    refine Even.foldlM (by simp) fun item hItem done hDone => ?_
    have hKeep : ∀ other ∈ done.1 ++ [item], other ∈ items := by
      simpa [or_imp, forall_and] using And.intro hDone hItem
    apply (even_formOf (hItems item hItem).1).bind
    rintro form ⟨hFits, -⟩
    have hNode : ∀ inside, Even False (Tiered rank D) (expandNode (expandWithin depth) inside active item)
        (expandNode (expandWithin (depth + 1)) inside active item) fun _ => True := fun inside =>
      even_expandNode ih (hItems item hItem).1 (Nat.le_of_lt_succ (hItems item hItem).2) inside active
    split
    · cases hFits.1
    · exact (hNode true).bind fun _ _ => .pure hKeep
    case h_3 | h_4 => exact (hNode false).bind fun _ _ => .pure hKeep
    · exact .pure hKeep

end Expand

theorem even_checkWithin (depth : Nat) (hId : D id) (hRank : rank id < depth) (governor : TypeKey) (site : Site) :
    Even False (Tiered rank D) (checkWithin depth id governor site) (checkWithin (depth + 1) id governor site)
      fun _ => True := by
  induction depth generalizing id governor site with
  | zero => cases hRank
  | succ depth ih =>
    exact (checking_even (rank id)).checkStep
      (c := fun deeper => cond deeper (checkWithin (depth + 1)) (checkWithin depth))
      (l := fun deeper => cond deeper (flattenWithin (depth + 1)) (flattenWithin depth))
      (fun child type site hChild => ih hChild.1 (by omega) type site)
      (fun list hList => Still.even (x := read) .read |>.bind fun env _ =>
        even_expandNode (evens_expandWithin depth) hList.1 (by omega) false env.current.toList)
      ⟨hId, rfl⟩ governor site

theorem run_checkWithin_deeper (hTiered : s.Tiered rank D) (hId : D id)
    (hRank : rank id < depth) (governor : TypeKey) (site : Site) (report : Report) (more : Nat) :
    (checkWithin (depth + more) id governor site env).run ⟨s, report⟩ =
      (checkWithin depth id governor site env).run ⟨s, report⟩ := by
  induction more with
  | zero => rfl
  | succ more ih =>
    have hDeeper := even_checkWithin (depth + more) hId (Nat.lt_add_right more hRank) governor site
    exact ((hDeeper env ⟨s, report⟩ hTiered).1.resolve_right And.left).trans ih

end Ranks

namespace Store

variable {root : NodeId} {roots own : List NodeId}

def treeSize (s : Store) (depth : Nat) (id : NodeId) : Nat := ((s.preorderWithin depth id).toOption.getD []).length

theorem Lists.treeSize (h : s.Lists [root] own) (hDepth : own.length ≤ depth) : s.treeSize depth root = own.length := by
  rw [Store.treeSize, h.preorderWithin hDepth]
  rfl

theorem treeSize_of_not_has (h : ¬ s.Has id) : s.treeSize depth id = 0 := by
  have hNone : s.get? id = none := Option.eq_none_iff_forall_ne_some.2 fun t hFound => h (has_of_get? hFound)
  cases depth with
  | zero => rfl
  | succ depth => simp [treeSize, preorderWithin, hNone, Except.toOption]

theorem Lists.treeSize_lt (h : s.Lists roots own) (hMem : id ∈ own) {child : NodeId} (hChild : s.Child id child) :
    s.treeSize own.length child < s.treeSize own.length id := by
  obtain ⟨t, below, hFound, hBelow, hSub⟩ := h.below_mem hMem
  obtain ⟨_, hFound', hChild⟩ := hChild
  cases hFound.symm.trans hFound'
  obtain ⟨lower, hLower, hLowerSub⟩ := hBelow.of_mem hChild
  have hShort := hLowerSub.length_le
  have hLength := hSub.length_le
  rw [length_cons] at hLength
  rw [hLower.treeSize (by omega), (Lists.single hFound hBelow).treeSize (by simpa using hLength), length_cons]
  omega

theorem Lists.not_cyclic (h : s.Lists roots own) (hMem : id ∈ own) : ¬ Relation.TransGen s.Child id id := by
  have hDown : ∀ last, Relation.TransGen s.Child id last →
      last ∈ own ∧ s.treeSize own.length last < s.treeSize own.length id := by
    intro last hPath
    induction hPath with
    | single hChild => exact ⟨h.child hMem hChild, h.treeSize_lt hMem hChild⟩
    | tail _ hChild ih => exact ⟨h.child ih.1 hChild, Nat.lt_trans (h.treeSize_lt ih.1 hChild) ih.2⟩
  exact fun hCycle => Nat.lt_irrefl _ (hDown id hCycle).2

theorem Lists.tiered (h : s.Lists roots own) (hPlain : ∀ id ∈ own, ∀ t, s.get? id = some t → t.isPlain) :
    s.Tiered (s.treeSize own.length) fun id => id ∈ own ∨ ¬ s.Has id where
  new id hNew := ⟨.inr hNew, treeSize_of_not_has hNew⟩
  fits id t hId hFound := by
    have hMem := hId.resolve_right fun hNew => hNew (has_of_get? hFound)
    have hForm := (Template.isPlain_iff.1 (hPlain id hMem t hFound)).2
    refine ⟨by cases hSlot : t.form <;> simp_all [Form.isPlain, Form.isSlot], fun hZero => ?_⟩
    obtain ⟨_, below, hFound', hBelow, hSub⟩ := h.below_mem hMem
    cases hFound.symm.trans hFound'
    rw [(Lists.single hFound hBelow).treeSize hSub.length_le] at hZero
    cases hZero
  child id t hId hFound child hChild := by
    have hMem := hId.resolve_right fun hNew => hNew (has_of_get? hFound)
    exact ⟨.inl (h.child hMem ⟨t, hFound, hChild⟩), h.treeSize_lt hMem ⟨t, hFound, hChild⟩⟩

def only (s : Store) (own : List NodeId) : Store :=
  ⟨s.nodes.mapIdx fun index t => if ⟨index⟩ ∈ own then t else { form := .omitted }⟩

@[simp]
theorem size_only : (s.only own).size = s.size := by simp [only, size]

theorem get?_only : (s.only own).get? id = (s.get? id).map fun t => if id ∈ own then t else { form := .omitted } := by
  simp [only, get?, getElem?_mapIdx]

theorem Lists.only (h : s.Lists roots own) : (s.only own).Lists roots own :=
  h.congr fun id hMem t hFound => ⟨t, by simp [get?_only, hFound, hMem], rfl⟩

theorem Lists.backed_only (h : s.Lists roots own) (hPlain : ∀ id ∈ own, ∀ t, s.get? id = some t → t.isPlain)
    (defs : Definitions) : (s.only own).Backed ⟨defs, False⟩ := by
  have hCases : ∀ id t, (s.only own).get? id = some t → t.isPlain ∧ (id ∈ own ∨ t.form.children = []) := by
    intro id t hFound
    rw [get?_only, Option.map_eq_some_iff] at hFound
    obtain ⟨t, hFound, rfl⟩ := hFound
    split
    · rename_i hMem
      exact ⟨hPlain id hMem t hFound, .inl hMem⟩
    · exact ⟨rfl, .inr rfl⟩
  have hMem : ∀ id child, (s.only own).Child id child → id ∈ own := by
    rintro id child ⟨t, hFound, hChild⟩
    obtain ⟨-, hMem | hNone⟩ := hCases id t hFound
    · exact hMem
    · rw [hNone] at hChild
      cases hChild
  refine ⟨fun id t hFound link hLink => ?_, fun id t r hFound hRef => ?_, False.elim, fun id hCycle => ?_,
    fun id t hFound => .inr (hCases id t hFound).1⟩
  · obtain ⟨hBase, hForm⟩ := Template.isPlain_iff.1 (hCases id t hFound).1
    have hResolved : t.form.resolved? = none := by cases hForm' : t.form <;> simp_all [Form.isPlain, Form.resolved?]
    have hChild : (s.only own).Child id link := ⟨t, hFound, by simpa [Template.links, hBase, hResolved] using hLink⟩
    exact h.only.has (h.only.child (hMem id link hChild) hChild)
  · obtain ⟨-, hForm⟩ := Template.isPlain_iff.1 (hCases id t hFound).1
    unfold Form.reference? at hRef
    split at hRef <;> simp_all [Form.isPlain]
  · obtain ⟨child, hChild, -⟩ := Relation.TransGen.head'_iff.1 hCycle
    exact h.only.not_cyclic (hMem id child hChild) hCycle

end Store

/-- The check of a plain tree that is alone in its store comes to an end within as many levels as it has nodes. -/
theorem exists_run_only {env : Env} {root : NodeId} {own : List NodeId}
    (hLists : s.Lists [root] own) (hPlain : ∀ id ∈ own, ∀ t, s.get? id = some t → t.isPlain)
    (hDepth : own.length < depth) (governor : TypeKey) (site : Site) (report : Report) :
    ∃ outcome after, (checkWithin depth root governor site env).run ⟨s.only own, report⟩ = (.ok outcome, after) := by
  have hMem : root ∈ own := hLists.mem_of_root mem_cons_self
  have hTiered := hLists.only.tiered fun id hMem t hFound => by
    rw [get?_only, Option.map_eq_some_iff] at hFound
    obtain ⟨t, hFound, rfl⟩ := hFound
    exact if_pos hMem ▸ hPlain id hMem t hFound
  rcases hRun : (checkWithin depth root governor site env).run ⟨s.only own, report⟩ with ⟨result, after⟩
  -- A check that may descend further than any descent can go does the same.
  have hDeeper := (run_checkWithin_deeper hTiered (.inl hMem)
    (by rwa [hLists.only.treeSize (Nat.le_refl _)]) governor site report
    (after.store.spent + env.definitions.size + 2)).trans hRun
  have hReady : Ready 0 (fun _ => False) ⟨env.definitions, False⟩ [root] (s.only own) :=
    ⟨hLists.backed_only hPlain _, fun _ => False.elim, by simpa using hLists.only.has hMem, fun _ _ _ => False.elim,
      Nat.zero_le _⟩
  obtain ⟨-, hEnd⟩ := checksSafely_checkWithin _ (Nat.le_refl _) _ _ root governor site hReady report result after
    hDeeper
  cases result with
  | ok outcome => exact ⟨outcome, after, rfl⟩
  | error fault =>
    obtain ⟨-, hWalks⟩ | ⟨-, hDeep⟩ := hEnd
    · exact hWalks.elim
    · unfold Exhausted at hDeep
      omega

end TemplateCheck
