import TemplateCheck.Proofs.Safety.Resolution

/-!
# Checking structures and lists safely

A list that stands for fields becomes an assignment of the same children. While the entries of a structure are checked
the structure itself is guarded, so that omitted fields are added to the entries that were checked. The items of a list
are read after splicing; nothing but marks is set on it afterwards.
-/

namespace TemplateCheck

open List

variable {n : Nat} {K : NodeId → Prop} {F : Allowance} {env : Env} {ids items : List NodeId} {s : Store} {id : NodeId}
  {t : Template} {check : ChildCheck} {entries : List NamedEntry}

theorem quiet_nameItems (names : List String) (h : ∀ item ∈ items, s.Has item) :
    Quiet env s (nameItems names items) fun entries => ∀ entry ∈ entries, entry.template ∈ items := by
  refine Quiet.mapM fun (name, item) hPair => ?_
  have hItem : item ∈ items := (of_mem_zip hPair).2
  exact (quiet_node (h item hItem)).bind fun t _ => .pure hItem

abbrev templates (entries : List NamedEntry) : List NodeId := entries.map (·.template)

theorem checks_fillOmitted (fields : List FieldDecl) (h : Ready n K (F.backing env) ids s)
    (hMem : id ∈ ids) (hFound : s.get? id = some t) (hForm : t.form = .named entries) :
    Safe K F env s (fillOmitted id entries fields) := by
  unfold fillOmitted
  split
  · exact .pure trivial
  refine (quiet_node (h.has id hMem)).bind_runs fun own _ => ?_
  have hFill : Checks (fun k => K k ∨ k = id) F env s (fields.mapM fun field => do
        let template ← onStore (Store.alloc (implicitOmit field.type own.span))
        return { name := field.name, template, span := own.span : NamedEntry })
      fun filled s' => ∀ entry ∈ filled, ¬ s.Has entry.template ∧ s'.Has entry.template := by
    refine Runs.mapM (fun entry _ _ hReaches hEntry => ⟨hEntry.1, hReaches.has hEntry.2⟩) ?_
    intro field _ s' hReaches
    refine (checks_alloc (hReaches.backed h.backed) rfl rfl (.inr rfl)).bind fun new s'' _ hNew => ?_
    exact .pure ⟨hReaches.grows.not_has hNew.1, hNew.2⟩
  refine (hFill.with_relation.weaken fun _ hReaches => hReaches.narrow fun _ hk => .inl hk).bind_from ?_
  intro filled s1 hReaches ⟨hKept, hFilled⟩
  have hFound1 := hKept.kept id t (.inr rfl) hFound (by simp [hForm, Form.reference?])
  have hMay : t.form.mayBecome (.named (entries ++ filled)) := by
    simp [hForm, Form.mayBecome, Form.variant]
  have hReplace := hReaches.update_form (h.has id hMem) hFound1 (h.not_kept hMem) hMay
    (fun child hChild => ?_) rfl (by simp [Form.reference?]) (.inr rfl)
  · exact (runs_replaceForm hFound1 hMay hReplace).mono fun _ _ _ _ => trivial
  · obtain ⟨entry, hEntry, rfl⟩ := mem_map.1 hChild
    obtain hOld | hNew := mem_append.1 hEntry
    · exact .inl (by rw [hForm]; exact mem_map_of_mem hOld)
    · exact .inr (hFilled entry hNew)

theorem checks_becomesNamed (h : Ready n K (F.backing env) [id] s)
    (hFound : s.get? id = some t) (hForm : t.form = .list .positional items)
    (hEntries : ∀ entry ∈ entries, entry.template ∈ items) :
    Checks K F env s (replaceForm id (.named entries)) fun _ s' =>
      s'.get? id = some { t with form := .named entries } := by
  refine h.replaceForm (by simp) hFound ?_ ?_ rfl (by simp [Form.reference?]) (.inr rfl)
  · simp [hForm, Form.mayBecome, Form.variant]
  · intro child hChild
    obtain ⟨entry, hEntry, rfl⟩ := mem_map.1 hChild
    rw [hForm]
    exact hEntries entry hEntry

theorem checks_named (names : List String) {use : List NamedEntry → CheckM Bool}
    (h : Ready n K (F.backing env) [id] s) (hFound : s.get? id = some t) (hForm : t.form = .list .positional items)
    (hUse : ∀ entries s' t', Ready n K (F.backing env) [id] s' → s'.get? id = some t' →
      t'.form = .named entries → Safe K F env s' (use entries)) : Safe K F env s (do
      let entries ← nameItems names items
      replaceForm id (.named entries)
      use entries) := by
  have hItems : ∀ item ∈ items, s.Has item := fun item hItem =>
    h.backed.has_child hFound (by rw [hForm]; exact hItem)
  refine (quiet_nameItems names hItems).bind_runs fun entries hEntries => ?_
  refine h.bind (checks_becomesNamed h hFound hForm hEntries) fun _ s1 _ h1 hFound1 => ?_
  exact hUse entries s1 _ h1 hFound1 rfl

def Completeness.In (F : Allowance) (s : Store) : Completeness → Prop
  | .asBase items => F.walks ∧ ∀ item ∈ items, s.Has item
  | _ => True

theorem Completeness.In.step {permitted : Completeness} {b : Backing} {s' : Store}
    (h : permitted.In F s) (hReaches : s.Reaches b K s') : permitted.In F s' := by
  cases permitted with
  | asBase items => exact ⟨h.1, fun item hItem => hReaches.has (h.2 item hItem)⟩
  | complete | incomplete => trivial

theorem checks_completeness (incomplete : Bool) {given : Form → Completeness}
    (hGiven : ∀ form items, given form = .asBase items → ∀ item ∈ items, item ∈ form.children)
    (h : Ready n K (F.backing env) ids s) (hMem : id ∈ ids) :
    Checks K F env s (completeness id incomplete given) fun permitted => permitted.In F := by
  have hBase : Checks K F env s (baseForm? id) fun form? s' =>
      ∀ form, form? = some form → F.walks ∧ ∃ base t, s'.get? base = some t ∧ t.form = form := by
    refine (quiet_node (h.has id hMem)).bind_runs fun t hFound => ?_
    split
    · rename_i base hLink
      refine h.bind (checks_lastTemplate h.backed (h.backed.has_base hFound hLink)) ?_
      intro last s1 _ _ hLast
      refine (quiet_formOf hLast).bind_runs ?_
      rintro _ ⟨t', hFound', rfl⟩
      refine .pure ?_
      rintro _ ⟨⟩
      exact ⟨h.backed.refers hFound (by simp [Template.isPlain, hLink]), last, t', hFound', rfl⟩
    · exact .pure (by simp)
  unfold completeness
  split
  · exact .pure trivial
  refine h.bind hBase fun form? s1 _ h1 hForm? => ?_
  split
  · rename_i form
    obtain ⟨hWalks, base, t, hFound, rfl⟩ := hForm? form rfl
    refine .pure ?_
    unfold Completeness.In
    split
    · rename_i items hItems
      exact ⟨hWalks, fun item hItem => h1.backed.has_child hFound (hGiven _ _ hItems item hItem)⟩
    · trivial
  · exact .pure trivial

theorem completenessOfAlternative_ne (form : Form) (name : String) (items : List NodeId) :
    form.completenessOfAlternative name ≠ .asBase items := by
  unfold Form.completenessOfAlternative
  split <;> split <;> nofun

section

variable (hCheck : ChecksSafely n F env check)

include hCheck

theorem checks_checkField (decl : TypeDecl) (incomplete : Bool)
    {item : NamedEntry × EntryStatus FieldDecl} (h : Ready n K (F.backing env) (templates entries) s)
    (hMem : item.1 ∈ entries) : Safe K F env s (checkField check decl incomplete item) := by
  have hTemplate : item.1.template ∈ templates entries := mem_map_of_mem hMem
  have hHas := h.has _ hTemplate
  unfold checkField
  split
  case h_1 | h_2 => exact ((quiet_problem _ _).bind fun _ _ => quiet_note _ _).finish
  · refine (quiet_formOf hHas).bind_runs fun form _ => ?_
    split
    · exact (quiet_problemAt hHas _).finish
    · exact h.checkChild hCheck hTemplate _ _ _

theorem checks_checkAssigned (decl : TypeDecl)
    (fields : List FieldDecl) (incomplete : Bool) (h : Ready n K (F.backing env) [id] s)
    (hFound : s.get? id = some t) (hForm : t.form = .named entries) :
    Safe K F env s (checkAssigned check id decl fields entries incomplete) := by
  have hEntries := h.guarded (by simp) hFound
  have hChildren : t.form.children = templates entries := by simp [hForm, Form.children]
  rw [hChildren] at hEntries
  unfold checkAssigned
  refine h.bind_guarded hFound (by simp [hForm, Form.reference?]) (.checkAny ?_) ?_
  · intro item hItem s' hReaches
    exact checks_checkField hCheck decl incomplete (hEntries.step hReaches) (mem_of_mem_classifyEntries hItem)
  intro selfReference s1 h1 hFound1 _
  have hHas := h1.head
  refine (quiet_node hHas).bind_runs fun _ _ => ?_
  refine Quiet.bind_runs (.onlyIf fun _ => .forM fun field _ => quiet_problemAt hHas _) fun _ _ => ?_
  refine Runs.finish (.onlyIf fun _ => ?_)
  exact checks_fillOmitted _ h1 (by simp) hFound1 hForm

theorem checks_checkParameters (decl : TypeDecl)
    (incomplete : Bool) (order : EntryOrder) {items : List (NamedEntry × EntryStatus (ParamDecl × Nat))}
    (h : Ready n K (F.backing env) (templates entries) s) (hMem : ∀ item ∈ items, item.1 ∈ entries) :
    Safe K F env s (checkParameters check decl incomplete order items) := by
  induction items generalizing s order with
  | nil => exact .pure trivial
  | cons item items ih =>
    have hParameter : Safe K F env s (checkParameter check decl incomplete order item) := by
      have hTemplate : item.1.template ∈ templates entries := mem_map_of_mem (hMem item (by simp))
      unfold checkParameter
      split
      · exact (quiet_problem _ _).finish
      · exact (quiet_problem _ _).bind_runs fun _ _ => (quiet_note _ _).finish
      · refine Quiet.bind_runs (.onlyIf fun _ => quiet_problem _ _) fun _ _ => ?_
        exact h.checkChild hCheck hTemplate _ _ _
    refine h.bind hParameter fun _ s1 _ h1 _ => ?_
    exact (ih _ h1 fun item hItem => hMem item (by simp [hItem])).finish

theorem checks_checkGivenParameters (decl : TypeDecl)
    (params : List ParamDecl) (incomplete : Bool) (h : Ready n K (F.backing env) [id] s)
    (hFound : s.get? id = some t) (hForm : t.form = .named entries) :
    Safe K F env s (checkGivenParameters check id decl params entries incomplete) := by
  have hEntries := h.children (by simp) hFound
  have hChildren : t.form.children = templates entries := by simp [hForm, Form.children]
  rw [hChildren] at hEntries
  have hParameters := checks_checkParameters hCheck decl incomplete (some 0) hEntries
    fun item (hItem : item ∈ classifyEntries (parameter? params) [] entries) =>
      mem_of_mem_classifyEntries hItem
  unfold checkGivenParameters
  refine hParameters.bind fun selfReference s1 hReaches _ => ?_
  refine Quiet.finish (.onlyIf fun _ => ?_)
  have hGiven := (hReaches.backed h.backed).quietly.checkCompleteSignature (hReaches.has h.head) params
    fun entry hEntry => hReaches.has (hEntries.has _ (mem_map_of_mem hEntry))
  simpa using hGiven.quiet

variable (h : Ready n K (F.backing env) [id] s)

include h

theorem checks_checkRecord (decl : TypeDecl) (fields : List FieldDecl) (site : Site) :
    Safe K F env s (checkRecord check id decl fields site) := by
  have hHas := h.head
  unfold checkRecord
  refine h.formOf_then fun t hFound => ?_
  split
  · rename_i items hForm
    refine Quiet.bind_runs (.onlyIf fun _ => quiet_problemAt hHas _) fun _ _ => ?_
    exact checks_named _ h hFound hForm fun entries s1 t1 h1 hFound1 hForm1 =>
      checks_checkAssigned hCheck decl fields site.incomplete h1 hFound1 hForm1
  · rename_i hForm
    exact checks_checkAssigned hCheck decl fields site.incomplete h hFound hForm
  · exact (quiet_illegalForm hHas decl).finish

theorem checks_checkSet (decl : TypeDecl) (fields : List FieldDecl) (site : Site) :
    Safe K F env s (checkSet check id decl fields site) := by
  have hHas := h.head
  unfold checkSet
  refine h.formOf_then fun t hFound => ?_
  split
  · rename_i items hForm
    split
    · exact (quiet_problemAt hHas _).finish
    split
    · exact (quiet_problemAt hHas _).finish
    refine h.bind (checks_becomesNamed h hFound hForm (by simp)) fun _ s1 _ h1 hFound1 => ?_
    exact checks_checkAssigned hCheck decl fields site.incomplete h1 hFound1 rfl
  · rename_i hForm
    exact checks_checkAssigned hCheck decl fields site.incomplete h hFound hForm
  · exact (quiet_illegalForm hHas decl).finish

theorem checks_checkUnion (decl : TypeDecl) (site : Site) : Safe K F env s (checkUnion check id decl site) := by
  have hHas := h.head
  unfold checkUnion
  refine h.formOf_then fun t hFound => ?_
  split
  · rename_i entries hForm
    refine Quiet.bind_runs (.onlyIf fun _ => quiet_problemAt hHas _) fun _ _ => ?_
    refine .checkAny fun item hItem s' hReaches => ?_
    have hId := h.step hReaches
    have hEntries := (h.children (by simp) hFound).step hReaches
    have hTemplate : item.1.template ∈ t.form.children := by
      rw [hForm]
      exact mem_map_of_mem (mem_of_mem_classifyEntries hItem)
    unfold checkAlternative
    split
    case h_1 | h_2 => exact ((quiet_problem _ _).bind fun _ _ => quiet_note _ _).finish
    · refine hEntries.bind (checks_completeness site.incomplete ?_ hId (by simp)) ?_
      · exact fun form items hItems => absurd hItems (completenessOfAlternative_ne form _ items)
      · exact fun permitted s'' _ h'' _ => h''.checkChild hCheck hTemplate _ _ _
  · exact (quiet_illegalForm hHas decl).finish

theorem checks_checkSignature (decl : TypeDecl) (params : List ParamDecl) (site : Site) :
    Safe K F env s (checkSignature check id decl params site) := by
  have hHas := h.head
  unfold checkSignature
  refine h.formOf_then fun t hFound => ?_
  split
  · rename_i items hForm
    refine ((remarks_checkParameterCount decl params items).quiet hHas).bind_runs fun _ _ => ?_
    exact checks_named _ h hFound hForm fun entries s1 t1 h1 hFound1 hForm1 =>
      checks_checkGivenParameters hCheck decl params site.incomplete h1 hFound1 hForm1
  · rename_i hForm
    exact checks_checkGivenParameters hCheck decl params site.incomplete h hFound hForm
  · exact (quiet_illegalForm hHas decl).finish

end

variable {flatten : Flattening} {members : List NodeId} {item : NodeId} {permitted : Completeness}

def FlattensSafely (n : Nat) (F : Allowance) (env : Env) (flatten : Flattening) : Prop :=
  ∀ K s id, Ready n K (F.backing env) [id] s → Safe K F env s (flatten id)

theorem checks_flattenedItems (hFlatten : FlattensSafely n F env flatten) (h : Ready n K (F.backing env) [id] s) :
    Checks K F env s (flattenedItems flatten id) fun items => Ready n K (F.backing env) (id :: items) := by
  unfold flattenedItems
  refine h.bind (hFlatten K s id h) fun _ s1 _ h1 _ => ?_
  refine h1.formOf_then fun t hFound => ?_
  split
  · rename_i hForm
    have hItems := h1.children (by simp) hFound
    rw [hForm] at hItems
    exact .pure (hItems.cons h1)
  · exact .pure h1

theorem Ready.inheritBase {base : NodeId} (h : Ready n K (F.backing env) ids s) (hMem : id ∈ ids)
    (hWalks : F.walks) (hBase : s.Has base) : Safe K F env s (inheritBase id base) := by
  refine h.modifyNode hMem (fun _ => rfl) fun t => .inr ⟨hWalks, fun link hLink => ?_⟩
  simp only [Template.inheritFrom, Option.or_eq_some_iff] at hLink
  obtain hOwn | ⟨-, hNew⟩ := hLink
  · exact .inl hOwn
  · cases hNew
    exact .inr hBase

theorem mem_children_of_completenessOfList {form : Form} {isArray : Bool}
    (h : form.completenessOfList isArray = .asBase items) : ∀ item ∈ items, item ∈ form.children := by
  unfold Form.completenessOfList at h
  split at h
  · split at h
    · cases h
    · cases h
      exact fun item hItem => hItem
  · cases h
  · cases h
  · split at h <;> cases h

section

variable (hCheck : ChecksSafely n F env check)

include hCheck

theorem checks_checkMembers (type : TypeKey) (list : String) (h : Ready n K (F.backing env) members s) :
    Safe K F env s (checkMembers check type list members) :=
  .checkAny fun _ hMember _ hReaches =>
    (h.step hReaches).checkChild hCheck (fst_mem_of_mem_zipIdx hMember) _ _ _

theorem checks_checkPermutation (g : ListType) (hId : Ready n K (F.backing env) [id] s)
    (hItem : Ready n K (F.backing env) [item] s) (hMembers : Ready n K (F.backing env) members s) :
    Safe K F env s (checkPermutation check g id item members) := by
  have hHas := hItem.head
  unfold checkPermutation
  split
  · exact (quiet_illegalForm hHas _).finish
  split
  · exact (quiet_problemAt hHas _).finish
  refine Runs.bind (hId.mark (by simp) .hasPermutation) fun _ s1 hReaches1 _ => ?_
  refine Runs.bind ((hItem.step hReaches1).govern (by simp) g.element) fun _ s2 hReaches2 _ => ?_
  exact checks_checkMembers hCheck _ _ ((hMembers.step hReaches1).step hReaches2)

theorem checks_checkElement (g : ListType) (position : Nat) (h : Ready n K (F.backing env) [id] s)
    (hPermitted : permitted.In F s) : Safe K F env s (checkElement check g permitted id position) := by
  unfold checkElement
  dsimp only
  refine h.bind (.optionForM fun base hBase => ?_) fun _ s1 _ h1 _ => h1.checkChild hCheck (by simp) _ _ _
  split at hBase
  · exact h.inheritBase (by simp) hPermitted.1 (hPermitted.2 base (mem_of_getElem? hBase))
  · cases hBase

theorem checks_checkItem (g : ListType) (position : Nat) (hId : Ready n K (F.backing env) [id] s)
    (hItem : Ready n K (F.backing env) [item] s) (hPermitted : permitted.In F s) :
    Safe K F env s (checkItem check g id permitted item position) := by
  have hHas := hItem.head
  unfold checkItem
  refine hItem.formOf_then fun t hFound => ?_
  split
  · rename_i members hForm
    have hMembers := hItem.children (by simp) hFound
    rw [hForm] at hMembers
    exact (checks_checkPermutation hCheck g hId hItem hMembers).finish
  · exact ((remarks_checkNotUsed position permitted).quiet hHas).finish
  · exact (checks_checkElement hCheck g position hItem hPermitted).finish

theorem checks_checkThenWarn (h : Ready n K (F.backing env) ids s)
    (hMem : id ∈ ids) (c : Context) (type : TypeKey) (site : Site) (warned : Form → Bool) (w : Warning) :
    Safe K F env s (do
      let one ← checkChild check c id type site
      let form ← formOf id
      onlyIf (warned form) (warnAt id w)
      return one) := by
  refine h.bind (h.checkChild hCheck hMem c type site) fun _ s1 _ h1 _ => ?_
  have hHas := h1.has id hMem
  refine (quiet_formOf hHas).bind_runs fun form _ => ?_
  exact Quiet.finish (.onlyIf fun _ => quiet_warnAt hHas w)

theorem checks_checkIndexed (g : ListType)
    {entries : List IndexedEntry} (h : Ready n K (F.backing env) (entries.map (·.template)) s) :
    Safe K F env s (checkIndexed check g entries) := by
  unfold checkIndexed
  apply Runs.read_then
  refine .checkAny fun (entry, position) hEntry s' hReaches => ?_
  refine Quiet.bind_runs (.forM fun p _ => quiet_problem entry.span p) fun _ _ => ?_
  exact (h.step hReaches).checkChild hCheck (mem_map_of_mem (fst_mem_of_mem_zipIdx hEntry)) _ _ _

variable (hFlatten : FlattensSafely n F env flatten) (h : Ready n K (F.backing env) [id] s)

include hFlatten h

theorem checks_checkPositional (g : ListType) (site : Site) :
    Safe K F env s (checkPositional check flatten g id site) := by
  unfold checkPositional
  refine (checks_flattenedItems hFlatten h).bind fun items s1 _ h1 => ?_
  refine h1.bind (checks_completeness site.incomplete (fun _ _ => mem_children_of_completenessOfList) h1
    (by simp)) fun permitted s2 _ h2 hPermitted => ?_
  have hLoop : Safe K F env s2 (items.zipIdx.foldlM (fun done entry => do
      let result ← checkItem check g id permitted entry.1 entry.2
      return (done.1 + result.1, done.2 || result.2)) (0, false)) := by
    refine Runs.foldlM trivial fun entry hEntry done s' hReaches _ => ?_
    have hMem : entry.1 ∈ items := fst_mem_of_mem_zipIdx hEntry
    have h' := h2.step hReaches
    have hItemCheck := checks_checkItem hCheck g entry.2 (h'.only (by simp : id ∈ _))
      (h'.only (by simp [hMem] : entry.1 ∈ _)) (hPermitted.step hReaches)
    exact hItemCheck.finish
  refine h2.bind hLoop fun _ s3 _ h3 _ => ?_
  have hSize := fun bounds count => (h3.backed.quietly.checkArraySize h3.head bounds count).quiet
  exact Quiet.finish (.optionForM fun bounds _ => hSize bounds _)

theorem checks_checkInclusion (g : ListType) (list : String) (ineffective : Warning) :
    Safe K F env s (checkInclusion check flatten g id list ineffective) := by
  unfold checkInclusion
  refine (checks_flattenedItems hFlatten h).bind fun items s1 _ h1 => ?_
  refine .checkAny fun (item, position) hItem s' hReaches => ?_
  have hMem : item ∈ id :: items := mem_cons_of_mem _ (fst_mem_of_mem_zipIdx hItem)
  exact checks_checkThenWarn hCheck (h1.step hReaches) hMem _ _ _ _ _

theorem checks_checkList (g : ListType) (site : Site) : Safe K F env s (checkList check flatten id g site) := by
  have hHas := h.head
  have hIllegal : Safe K F env s (checkList.illegal id g) := (quiet_illegalForm hHas g.decl).finish
  unfold checkList
  refine h.formOf_then fun t hFound => ?_
  split
  · exact checks_checkPositional hCheck hFlatten h g site
  case h_2 | h_3 =>
    split
    · exact checks_checkInclusion hCheck hFlatten h g _ _
    · exact hIllegal
  · rename_i hForm
    split
    · have hEntries := h.children (by simp) hFound
      rw [hForm] at hEntries
      exact checks_checkIndexed hCheck g hEntries
    · exact (quiet_problemAt hHas _).finish
  · exact hIllegal

end

end TemplateCheck
