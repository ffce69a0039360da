import TemplateCheck.Proofs.Locality.Check
import TemplateCheck.Proofs.Positions

/-!
# Checked lists and structures are governed

A list, record, set, union or signature is governed once its children are, given that checks of unchecked
trees leave them governed. Children that are left out of account have been reported, items that are spliced
in are unchecked trees, and fields that are filled in are governed at once.
-/

namespace TemplateCheck

open List Store

variable {α : Type} {v : Visit} {env : Env} {s s' : Store} {done items : List NodeId} {id : NodeId}
  {governor type : TypeKey} {form : Form} {check : ChildCheck} {flatten : Flattening}

structure ChildCheck.Governs (env : Env) (check : ChildCheck) : Prop where
  confined : ∀ D, check.Confined D env
  governs : ∀ s id type site, Attends env s (check id type site) id (·.Governed env id type)

structure Flattening.Orderly (env : Env) (flatten : Flattening) : Prop where
  confined : ∀ D, flatten.Confined D env
  bears : ∀ s id t below, s.Bears id t below → Clean env s (flatten id) fun _ s' =>
    ∃ t' below', s'.Bears id t' below' ∧ t'.governor = t.governor ∧
      t'.marks.checked = t.marks.checked ∧ t'.form.variant = t.form.variant ∧
      ∀ id ∈ below', id ∈ below ∨ ¬ s.Has id

theorem steady_governed (hSteady : s.Steady (fun _ => True) s')
    (h : s.Governed env id type) : s'.Governed env id type :=
  h.steady hSteady (fun _ _ _ _ => trivial) trivial

theorem attends_checkChild (hCheck : check.Governs env) (c : Context) (id : NodeId) (type : TypeKey) (site : Site) :
    Attends env s (checkChild check c id type site) id (·.Governed env id type) :=
  ((hCheck.governs s id type site).inside c).then_still fun _ => .pure _

theorem serves_checkChild (hCheck : check.Governs v.env) (c : Context) (site : Site)
    (hType : type ∈ v.env.dictated v.governor id form) : v.Serves form s (checkChild check c id type site) id :=
  (attends_checkChild hCheck c id type site).mono fun _ hDone _ => ⟨type, hType, hDone⟩

theorem attends_checkThenWarn (hCheck : check.Governs env) {c : Context} {site : Site} {warned : Form → Bool}
    {w : Warning} : Attends env s (do
      let one ← checkChild check c id type site
      let form ← formOf id
      onlyIf (warned form) (warnAt id w)
      return one) id (·.Governed env id type) := by
  apply (attends_checkChild hCheck c id type site).then_still
  exact fun _ => (Still.formOf id).bind fun _ => (Still.onlyIf (.warnAt id _)).bind fun _ => .pure _

theorem attends_of_settled {x : CheckM α} (hConfined : ∀ D, s.Closed D → D id → Steps (Confined D) env s x)
    (h : ∀ ids, s.Pristine [id] ids → Clean env s x fun _ => Visit.Settled ⟨env, s, ids, id, governor⟩) :
    Attends env s x id (·.Governed env id governor) := by
  intro ids hPristine
  have hMoves := hConfined _ hPristine.lists.closed (.inl (hPristine.lists.mem_of_root mem_cons_self))
  apply ((h ids hPristine).and_moves hMoves).mono
  rintro _ s' ⟨⟨⟨ids', hLists, hNodup, hOwn⟩, hGoverned⟩, hInside, -⟩
  refine ⟨?_, ids', hLists, hNodup, hOwn, hGoverned⟩
  exact hInside.steady fun other hOut hHas hIn => hIn.elim hOut fun hNot => hNot hHas

theorem clean_flattenedItems (hFlatten : flatten.Orderly v.env) {shape : ListShape}
    (h : v.Begun (.list shape items) s) :
    Clean v.env s (flattenedItems flatten v.id) fun items' => v.Begun (.list shape items') := by
  obtain ⟨t, hFound, hForm, hGovernor, hChecked⟩ := h.node
  obtain ⟨ids, others, hDone, hRest, hNodup, hOwn⟩ := h.parts
  cases hDone
  have hBears : s.Bears v.id t others :=
    ⟨hFound, by rw [hForm]; exact hRest, (nodup_cons.1 hNodup).1⟩
  have hConfined := hFlatten.confined (fun _ => True) s v.id ⟨fun _ _ => trivial, fun _ _ _ _ => trivial⟩ trivial
  apply ((hFlatten.bears s v.id t others hBears).and_moves hConfined).bind
  rintro _ s1 ⟨⟨t', below', h', hGovernor', hChecked', hVariant, hNew⟩, hSize, -⟩
  apply Concludes.formOf_then
  intro found hFound'
  cases h'.node.symm.trans hFound'
  rw [hForm] at hVariant
  split
  · rename_i shape' items' hForm'
    rw [hForm'] at hVariant
    cases hVariant
    apply Concludes.pure
    have hChildren := h'.children
    rw [hForm'] at hChildren
    refine ⟨Nat.le_trans h.size_le hSize.size_le,
      ⟨t', h'.node, hForm', hGovernor'.trans hGovernor, hChecked'.trans hChecked⟩,
      ⟨[], below', .nil, hChildren, nodup_cons.2 ⟨h'.fresh, hChildren.nodup⟩, ?_⟩, nofun⟩
    intro other hMem
    obtain hOld | hFresh := hNew other hMem
    · exact hOwn other hOld
    · exact .inr fun hHas => hFresh (hHas.of_size_le h.size_le)
  · rename_i hNot
    cases hForm' : t'.form with
    | list shape' items' => exact absurd hForm' (hNot shape' items')
    | _ =>
      rw [hForm'] at hVariant
      cases hVariant

section Lists

variable {shape : ListShape}

theorem clean_checkItems {f : NodeId × Nat → CheckM Bool} (h : v.Begun (.list shape items) s)
    (hType : ∀ item, type ∈ v.env.dictated v.governor item (.list shape items))
    (hf : ∀ item position s', Attends v.env s' (f (item, position)) item (·.Governed v.env item type)) :
    v.Ends s (checkAny f items.zipIdx) := by
  apply (h.checkAny (zipIdx_map_fst 0 items) nofun ?_).mono
  · exact fun _ s' hEnd => ⟨_, hEnd⟩
  · rintro ⟨item, position⟩ _ s'
    exact (hf item position s').mono fun s'' hDone _ => ⟨type, hType item, hDone⟩

section

variable (hCheck : check.Governs v.env)

include hCheck

theorem clean_checkAlternatives (hFlatten : flatten.Orderly v.env)
    (hShape : shape = .valueList ∨ shape = .complemented) (site : Site) (h : v.Begun (.list shape items) s) :
    v.Ends s (checkAlternatives check flatten v.id shape v.governor site) := by
  apply (clean_flattenedItems hFlatten h).bind
  intro items' s1 h1
  apply Concludes.still_then Still.read
  intro env'
  have hType : ∀ item, v.governor ∈ v.env.dictated v.governor item (.list shape items') := by
    intro item
    obtain rfl | rfl := hShape <;> exact mem_singleton.2 rfl
  apply clean_checkItems h1 hType
  exact fun item position s' => attends_checkThenWarn hCheck

theorem attends_checkPermutation (g : ListType) {item : NodeId} {t : Template}
    (hFound : s.get? item = some t) (hForm : t.form = .list .permutation items) :
    Attends v.env s (checkPermutation check g v.id item items) item (·.Governed v.env item g.element) := by
  unfold checkPermutation
  split
  · exact .after_error (.illegalForm item _)
  split
  · exact .after_error (.problemAt item _)
  have hUpdate : s.Steady (fun _ => True) (s.update v.id (·.mark .hasPermutation)) :=
    steady_update fun _ => ⟨rfl, rfl, .inl rfl⟩
  apply Attends.after_steady (moves_modifyNode (Course.refl s) fun _ _ => hUpdate).steps
  intro _ s1 hSteady
  obtain ⟨t1, hFound1, ht⟩ := hSteady.nodes item t trivial hFound
  have hForm1 : t1.form = .list .permutation items := (ht.form_eq (by simp [hForm])).trans hForm
  apply attends_of_settled
  · intro D hClosed hItem
    apply (steps_govern hClosed hItem g.element).bind
    intro _ s2 hConfined _
    apply steps_checkMembers (hCheck.confined D) (hConfined.closed hClosed)
    have hMembers := children_closed hClosed hItem hFound1
    rwa [hForm1] at hMembers
  · intro ids hPristine
    apply (clean_govern hPristine hFound1 g.element).bind
    intro _ s2 h2
    rw [hForm1] at h2
    apply (clean_checkItems h2 (fun _ => mem_singleton.2 rfl) ?_).mono
    · exact fun _ s' hEnd => hEnd.settled (hPristine.lists.mem_of_root mem_cons_self)
    · exact fun member position s' => attends_checkChild hCheck _ _ _ _

theorem serves_checkItem (g : ListType) (permitted : Completeness) (item : NodeId) (position : Nat)
    (items : List NodeId) (hType : g.element ∈ v.env.dictated v.governor item (.list .positional items)) :
    v.Serves (.list .positional items) s (checkItem check g v.id permitted item position) item := by
  have hSound : ∀ s' : Store, s'.Governed v.env item g.element →
      s'.Sound v.env v.governor (.list .positional items) item :=
    fun s' hGoverned _ => ⟨g.element, hType, hGoverned⟩
  intro ids hPristine
  apply Concludes.formOf_then
  intro t hFound
  revert ids
  split
  · rename_i members hForm
    apply Attends.mono ?_ hSound
    exact (attends_checkPermutation hCheck g hFound hForm).then_still fun _ => .pure _
  · rename_i hForm
    apply Attends.of_still (((remarks_checkNotUsed position permitted).still item).bind fun _ => .pure _)
    exact fun hPart => absurd hForm (hPart.2 t hFound)
  · apply Attends.mono ?_ hSound
    have hElement : Attends v.env s (checkElement check g permitted item position) item
        (·.Governed v.env item g.element) := by
      apply Attends.after_steady (Runs.optionForM fun base _ => ?_)
      · exact fun _ s' _ => attends_checkChild hCheck _ _ _ _
      · have hUpdate : s.Steady (fun _ => True) (s.update item (·.inheritFrom base)) :=
          steady_update fun _ => ⟨rfl, rfl, .inl rfl⟩
        exact (moves_modifyNode (Course.refl s) fun _ _ => hUpdate).steps
    exact hElement.then_still fun _ => .pure _

theorem clean_checkPositional (hFlatten : flatten.Orderly v.env) (g : ListType)
    (site : Site) (h : v.Begun (.list .positional items) s)
    (hType : ∀ item items, g.element ∈ v.env.dictated v.governor item (.list .positional items)) :
    v.Ends s (checkPositional check flatten g v.id site) := by
  apply (clean_flattenedItems hFlatten h).bind
  intro items' s1 h1
  apply (Concludes.of_moves (steps_completeness site.incomplete _)).bind
  rintro permitted s2 ⟨hPursues, -⟩
  have h2 := h1.steady nofun hPursues.steady
  have hStart : Underway v (.list .positional items') [] (items'.zipIdx.map (·.1)) s2 := by
    rwa [zipIdx_map_fst]
  apply (hStart.foldlM nofun ?_).bind
  · rintro ⟨count, selfReference⟩ s3 h3
    rw [nil_append, zipIdx_map_fst] at h3
    apply Concludes.still_then (Still.optionForM fun bounds => still_checkArraySize _ bounds count)
    exact fun _ => .pure ⟨_, h3⟩
  · rintro ⟨count, found⟩ ⟨item, position⟩ _ s3
    exact (serves_checkItem hCheck g permitted item position items' (hType item items')).then_still fun _ => .pure _

theorem clean_checkInclusion (hFlatten : flatten.Orderly v.env) (g : ListType)
    (list : String) (ineffective : Warning) (h : v.Begun (.list shape items) s)
    (hType : ∀ item items, g.element ∈ v.env.dictated v.governor item (.list shape items)) :
    v.Ends s (checkInclusion check flatten g v.id list ineffective) := by
  apply (clean_flattenedItems hFlatten h).bind
  intro items' s1 h1
  apply clean_checkItems h1 fun item => hType item items'
  exact fun item position s' => attends_checkThenWarn hCheck

theorem clean_checkIndexed (g : ListType) {entries : List IndexedEntry} (h : v.Begun (.indexed entries) s)
    (hType : ∀ item, g.element ∈ v.env.dictated v.governor item (.indexed entries)) :
    v.Ends s (checkIndexed check g entries) := by
  have hMap : entries.zipIdx.map (fun e => e.1.template) = entries.map (·.template) := by
    nth_rewrite 2 [← zipIdx_map_fst 0 entries]
    rw [map_map]
    rfl
  apply Concludes.still_then Still.read
  intro env'
  apply (h.checkAny hMap nofun ?_).mono
  · exact fun _ s' hEnd => ⟨_, hEnd⟩
  · rintro ⟨entry, position⟩ _ s'
    apply Attends.still_then (Still.forM fun _ => Still.tell _ _)
    intro _
    exact serves_checkChild hCheck _ _ (hType _)

theorem clean_checkList (hFlatten : flatten.Orderly v.env) {g : ListType}
    {decl : TypeDecl} {slicing : Bool} (hDecl : v.env.types.decl? v.governor = some decl)
    (hList : decl.listType? slicing = some g) (site : Site)
    (h : v.Begun form s) :
    v.Ends s (checkList check flatten v.id g site) := by
  have hElement : decl.category.element? = some g.element := by
    unfold TypeDecl.listType? at hList
    split at hList <;> cases hList <;> simp_all [Category.element?]
  have hIllegal : v.Ends s (checkList.illegal v.id g) :=
    .after_error (.illegalForm v.id _)
  apply h.formOf_then
  split
  · rename_i items
    apply clean_checkPositional hCheck hFlatten g site h
    simp [Env.dictated, hDecl, hElement]
  case h_2 | h_3 =>
    split
    · apply clean_checkInclusion hCheck hFlatten g _ _ h
      simp [Env.dictated, hDecl, hElement]
    · exact hIllegal
  · rename_i entries
    split
    · apply clean_checkIndexed hCheck g h
      simp [Env.dictated, hDecl, hElement]
    · exact Clean.after_error (.problemAt v.id _)
  · exact hIllegal

end

end Lists

section Fields

variable {entries : List NamedEntry} {decl : TypeDecl} {entry : NamedEntry} {fields : List FieldDecl}
  {field : FieldDecl} {names : List String} {params : List ParamDecl}

theorem map_classifyEntries (lookup? : String → Option α) (before entries : List NamedEntry) :
    (classifyEntries lookup? before entries).map (fun item => item.1.template) = entries.map (·.template) := by
  induction entries generalizing before with
  | nil => rfl
  | cons entry entries ih =>
    rw [classifyEntries, map_cons, map_cons, ih]

theorem lookup_of_first {lookup? : String → Option α} {before : List NamedEntry}
    {declared : α} (h : (entry, .first declared) ∈ classifyEntries lookup? before entries) :
    lookup? entry.name = some declared := by
  induction entries generalizing before with
  | nil => cases h
  | cons other entries ih =>
    obtain hHead | hRest := mem_cons.1 h
    · obtain ⟨rfl, hStatus⟩ := Prod.mk.inj hHead
      unfold NamedEntry.status at hStatus
      split at hStatus
      · cases hStatus
      · cases hStatus
      · cases hStatus
        assumption
    · exact ih hRest

theorem mem_dictated_named (hEntry : entry ∈ entries)
    (hDecl : env.types.decl? governor = some decl) (hType : type ∈ decl.category.typesOf entry.name) :
    type ∈ env.dictated governor entry.template (.named entries) := by
  simp only [Env.dictated, mem_flatMap, mem_filter, decide_eq_true_eq, hDecl, Option.map_some, Option.getD_some]
  exact ⟨entry, ⟨hEntry, rfl⟩, hType⟩

theorem mem_typesOf_field {category : Category} (hFields : category.fields? = some fields) (hField : field ∈ fields) :
    field.type ∈ category.typesOf field.name := by
  cases category <;> cases hFields <;> exact mem_map_of_mem (mem_filter.2 ⟨hField, decide_eq_true rfl⟩)

theorem mem_typesOf_field? {name : String} (h : decl.field? name = some field) :
    field.type ∈ decl.category.typesOf name := by
  unfold TypeDecl.field? at h
  have hName : field.name = name := by simpa using find?_some h
  cases hFields : decl.category.fields? with
  | none => simp [hFields] at h
  | some fields =>
    rw [hFields] at h
    rw [← hName]
    exact mem_typesOf_field hFields (mem_of_find?_eq_some h)

theorem serves_checkField (hCheck : check.Governs v.env) (hDecl : v.env.types.decl? v.governor = some decl)
    (incomplete : Bool) {item : NamedEntry × EntryStatus FieldDecl}
    (hItem : item ∈ classifyEntries decl.field? [] entries) :
    v.Serves (.named entries) s (checkField check decl incomplete item) item.1.template := by
  obtain ⟨entry, status⟩ := item
  cases status with
  | undeclared | repeated => exact .after_error (.after_error (.problem _ _))
  | first field =>
    have hType := mem_dictated_named (mem_of_mem_classifyEntries hItem) hDecl
      (mem_typesOf_field? (lookup_of_first hItem))
    apply Attends.still_then (Still.formOf entry.template)
    intro form
    split
    · exact .after_error (.problemAt _ _)
    · exact serves_checkChild hCheck _ _ hType

theorem clean_fillOmitted (hDecl : v.env.types.decl? v.governor = some decl)
    (hFields : ∀ field ∈ fields, field.type ∈ decl.category.typesOf field.name)
    (h : Underway v (.named entries) (entries.map (·.template)) [] s) :
    v.Ends s (fillOmitted v.id entries fields) := by
  unfold fillOmitted
  split
  · exact .pure ⟨_, h⟩
  apply Concludes.node_then
  intro t _
  let Filled (filled : List NamedEntry) (s' : Store) : Prop :=
    Underway v (.named entries) (entries.map (·.template) ++ filled.map (·.template)) [] s' ∧
    ∀ e ∈ filled, ∃ type ∈ decl.category.typesOf e.name, s'.Governed v.env e.template type
  have hStart : Filled [] s := ⟨by simpa using h, nofun⟩
  apply (Concludes.mapM hStart ?_).bind
  · rintro filled s' ⟨h', hFilled⟩
    rw [nil_append] at h' hFilled
    rw [← map_append] at h'
    apply (h'.reform ?_).mono
    · exact fun _ s'' hEnd => ⟨_, hEnd⟩
    · intro child hChild _
      obtain ⟨e, he, rfl⟩ := mem_map.1 hChild
      obtain hOld | hNew := mem_append.1 he
      · have hPart : s'.IsPart (.named entries) e.template := ⟨mem_map_of_mem hOld, trivial⟩
        obtain ⟨type, hType, hGoverned⟩ := h'.sound _ hChild hPart
        refine ⟨type, ?_, hGoverned⟩
        simp only [Env.dictated, filter_append, flatMap_append, mem_append] at hType ⊢
        exact .inl hType
      · obtain ⟨type, hType, hGoverned⟩ := hFilled e hNew
        exact ⟨type, mem_dictated_named he hDecl hType, hGoverned⟩
  · intro field hField filled s' hDone
    have hAlloc : Clean v.env s' (onStore (alloc (implicitOmit field.type t.span))) fun new s'' =>
        new = s'.nextId ∧ s'' = s'.push (implicitOmit field.type t.span) := by
      constructor
      intro report new after hRun _
      cases hRun
      exact ⟨rfl, rfl⟩
    apply hAlloc.bind
    rintro _ _ ⟨rfl, rfl⟩
    apply Concludes.pure
    obtain ⟨h', hFilled⟩ := hDone
    refine ⟨?_, fun e he => ?_⟩
    · have hPush := h'.push (t := implicitOmit field.type t.span)
        (fun child hChild => mem_append_left _ hChild) nofun rfl
      simpa using hPush
    · obtain hOld | hNew := mem_append.1 he
      · obtain ⟨type, hType, hGoverned⟩ := hFilled e hOld
        exact ⟨type, hType, steady_governed steady_push hGoverned⟩
      · rw [mem_singleton.1 hNew]
        refine ⟨field.type, hFields field hField, ?_⟩
        exact .parts (fun _ => v.governor) (get?_push_nextId _ _) rfl rfl
          (fun child hPart => by cases hPart.1) fun child hPart => by cases hPart.1

theorem clean_checkAssigned (hCheck : check.Governs v.env) (hDecl : v.env.types.decl? v.governor = some decl)
    (hFields : decl.category.fields? = some fields) (incomplete : Bool) (h : v.Begun (.named entries) s) :
    v.Ends s (checkAssigned check v.id decl fields entries incomplete) := by
  apply (h.checkAny (map_classifyEntries decl.field? [] entries) nofun fun item hItem s' =>
    serves_checkField hCheck hDecl incomplete hItem).bind
  intro selfReference s1 h1
  apply Concludes.node_then
  intro t _
  apply Concludes.still_then (Still.onlyIf (Still.forM fun _ => Still.problemAt v.id _))
  intro _
  apply Clean.onlyIf_then
  · intro _
    apply (clean_fillOmitted hDecl ?_ h1).mono
    · exact fun _ _ hEnd => .pure hEnd
    · intro field hField
      exact mem_typesOf_field hFields (mem_filter.1 (mem_filter.1 hField).1).1
  · exact fun _ => .pure ⟨_, h1⟩

theorem clean_nameItems (hLength : items.length ≤ names.length) : Clean env s (nameItems names items) fun entries s' =>
      s' = s ∧ entries.map (·.template) = items := by
  have hPairs : ∀ pairs : List (String × NodeId), Clean env s (pairs.mapM fun pair => do
      return ({ name := pair.1, template := pair.2, span := (← node pair.2).span } : NamedEntry)) fun entries s' =>
        s' = s ∧ entries.map (·.template) = pairs.map (·.2) := by
    intro pairs
    induction pairs with
    | nil => exact .pure ⟨rfl, rfl⟩
    | cons pair pairs ih =>
      rw [mapM_cons]
      apply (Concludes.still_then (P := fun e s' => s' = s ∧ e.template = pair.2) (Still.node pair.2)
        fun _ => .pure ⟨rfl, rfl⟩).bind
      rintro e _ ⟨rfl, he⟩
      apply ih.bind
      rintro entries _ ⟨rfl, hEntries⟩
      exact .pure ⟨rfl, by rw [map_cons, map_cons, he, hEntries]⟩
  have hSecond : (names.zip items).map (·.2) = items := map_snd_zip hLength
  have hNamed := hPairs (names.zip items)
  rwa [hSecond] at hNamed

theorem clean_nameItems_then (hLength : items.length ≤ names.length) {f : List NamedEntry → CheckM Bool}
    (h : v.Begun (.list .positional items) s)
    (hf : ∀ entries s', v.Begun (.named entries) s' → v.Ends s' (f entries)) : v.Ends s (do
      let entries ← nameItems names items
      replaceForm v.id (.named entries)
      f entries) := by
  apply (clean_nameItems hLength).bind
  rintro entries _ ⟨rfl, rfl⟩
  apply (h.reform nofun).bind
  exact fun _ s' h' => hf entries s' h'

section

variable (hCheck : check.Governs v.env)

include hCheck

section

variable (hDecl : v.env.types.decl? v.governor = some decl)

include hDecl

theorem clean_checkParameters
    (hParams : ∀ param ∈ params, param.type ∈ decl.category.typesOf param.name) (incomplete : Bool)
    {items : List (NamedEntry × EntryStatus (ParamDecl × Nat))}
    (hItems : ∀ item ∈ items, item ∈ classifyEntries (parameter? params) [] entries) (order : EntryOrder)
    (h : Underway v (.named entries) done (items.map fun item => item.1.template) s) :
    Clean v.env s (checkParameters check decl incomplete order items) fun _ s' =>
      Underway v (.named entries) (done ++ items.map fun item => item.1.template) [] s' := by
  induction items generalizing s done order with
  | nil => exact .pure (by simpa using h)
  | cons item items ih =>
    have hItem := hItems item mem_cons_self
    have hOne : v.Serves (.named entries) s (checkParameter check decl incomplete order item) item.1.template := by
      obtain ⟨entry, status⟩ := item
      cases status with
      | undeclared | repeated => exact .after_error (.problem _ _)
      | first param =>
        have hLookup : params.zipIdx.find? (·.1.name = entry.name) = some param := lookup_of_first hItem
        have hName : param.1.name = entry.name := by simpa using find?_some hLookup
        have hMem := fst_mem_of_mem_zipIdx (mem_of_find?_eq_some hLookup)
        have hParam := hParams param.1 hMem
        rw [hName] at hParam
        have hType := mem_dictated_named (mem_of_mem_classifyEntries hItem) hDecl hParam
        apply Attends.still_then (Still.onlyIf (Still.tell _ _))
        intro _
        exact serves_checkChild hCheck _ _ hType
    apply (Underway.step h nofun hOne).bind
    intro one s1 h1
    apply (ih (fun item hItem => hItems item (mem_cons_of_mem _ hItem)) _ h1).bind
    intro others s2 h2
    exact .pure (by simpa using h2)

theorem clean_checkGivenParameters
    (hParams : ∀ param ∈ params, param.type ∈ decl.category.typesOf param.name) (incomplete : Bool)
    (h : Underway v (.named entries) [] (entries.map (·.template)) s) :
    v.Ends s (checkGivenParameters check v.id decl params entries incomplete) := by
  rw [← map_classifyEntries (parameter? params) []] at h
  apply (clean_checkParameters hCheck hDecl hParams incomplete (fun _ hItem => hItem) _ h).bind
  intro selfReference s1 h1
  rw [nil_append, map_classifyEntries] at h1
  apply Concludes.still_then (Still.onlyIf (still_checkCompleteSignature _ params _))
  exact fun _ => .pure ⟨_, h1⟩

variable (h : v.Begun form s)

include h

theorem clean_checkRecord (hFields : decl.category.fields? = some fields) (site : Site) :
    v.Ends s (checkRecord check v.id decl fields site) := by
  apply h.formOf_then
  split
  · rename_i items
    apply Clean.onlyIf_then
    · exact fun _ => .problemAt v.id _
    · intro hFew
      apply clean_nameItems_then ?_ h
      · exact fun entries s' h' => clean_checkAssigned hCheck hDecl hFields site.incomplete h'
      · simpa using hFew
  · rename_i entries
    exact clean_checkAssigned hCheck hDecl hFields site.incomplete h
  · exact Clean.after_error (.illegalForm v.id _)

theorem clean_checkSet (hFields : decl.category.fields? = some fields) (site : Site) :
    v.Ends s (checkSet check v.id decl fields site) := by
  apply h.formOf_then
  split
  · rename_i items
    split
    · exact Clean.after_error (.problemAt v.id _)
    · rename_i hEmpty
      obtain rfl : items = [] := by simpa using hEmpty
      split
      · exact Clean.after_error (.problemAt v.id _)
      · apply (h.reform nofun).bind
        exact fun _ s' h' => clean_checkAssigned hCheck hDecl hFields site.incomplete h'
  · rename_i entries
    exact clean_checkAssigned hCheck hDecl hFields site.incomplete h
  · exact Clean.after_error (.illegalForm v.id _)

theorem clean_checkUnion (site : Site) : v.Ends s (checkUnion check v.id decl site) := by
  apply h.formOf_then
  split
  · rename_i entries
    apply Concludes.still_then (Still.onlyIf (Still.problemAt v.id _))
    intro _
    apply (h.checkAny (map_classifyEntries decl.field? [] entries) nofun ?_).mono
    · exact fun _ s' h' => ⟨_, h'⟩
    · rintro ⟨entry, status⟩ hItem s'
      cases status with
      | undeclared | repeated => exact .after_error (.after_error (.problem _ _))
      | first field =>
        have hType := mem_dictated_named (mem_of_mem_classifyEntries hItem) hDecl
          (mem_typesOf_field? (lookup_of_first hItem))
        apply Attends.after_steady ((steps_completeness site.incomplete _).weaken fun _ h => h.steady)
        intro permitted s'' _
        exact serves_checkChild hCheck _ _ hType
  · exact Clean.after_error (.illegalForm v.id _)

theorem clean_checkSignature {returns : Option TypeKey} {exceptions : List TypeKey}
    (hCategory : decl.category = .signature params returns exceptions) (site : Site) :
    v.Ends s (checkSignature check v.id decl params site) := by
  have hParams : ∀ param ∈ params, param.type ∈ decl.category.typesOf param.name := by
    intro param hParam
    rw [hCategory]
    exact mem_map_of_mem (mem_filter.2 ⟨hParam, decide_eq_true rfl⟩)
  apply h.formOf_then
  split
  · rename_i items
    have hCount : Clean v.env s (checkParameterCount v.id decl params items) fun _ s' =>
        s' = s ∧ items.length ≤ params.length := by
      unfold checkParameterCount
      split
      · exact .problemAt v.id _
      split
      · exact .problemAt v.id _
      · exact .pure ⟨rfl, by omega⟩
    apply hCount.bind
    rintro _ _ ⟨rfl, hLength⟩
    apply clean_nameItems_then ?_ h
    · exact fun entries s' h' => clean_checkGivenParameters hCheck hDecl hParams site.incomplete h'
    · simpa using hLength
  · rename_i entries
    exact clean_checkGivenParameters hCheck hDecl hParams site.incomplete h
  · exact Clean.after_error (.illegalForm v.id _)

end

end

end Fields

end TemplateCheck
