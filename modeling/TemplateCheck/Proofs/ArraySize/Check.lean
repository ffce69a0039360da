import TemplateCheck.Proofs.ArraySize.Count
import TemplateCheck.Proofs.ArraySize.Findings
import TemplateCheck.Proofs.Safety.Session

/-!
# The size of an array

A list for an array is spliced before its elements are checked, and after that their number is compared with the size
of the array. Whether it is compared at all depends on the mark that splicing leaves, so it takes a list in which no
slot is left at any level: then the number is the one that counting the list afterwards gives. A slot inside an element
keeps the number from being compared, although it does not matter to it.
-/

namespace TemplateCheck

open Finding List Store

variable {env : Env} {st : CheckState} {id : NodeId} {t : Template} {governor : TypeKey} {decl : TypeDecl}

section Sizes

variable {α β : Type} {about : Finding → Bool}

/-- Whenever the computation ends with a result, `Q` holds of it, of the state after it, and of what was found about
something in the contexts that are open. -/
structure Says (about : Finding → Bool) (env : Env) (st : CheckState) (x : CheckM α)
    (Q : α → CheckState → List Diagnostic → Prop) : Prop where
  post : ∀ a after, (x env).run st = (.ok a, after) → ∃ found,
    after.report.diagnostics = st.report.diagnostics ++ found ∧ Q a after (levelFindings about st.report.context found)

abbrev Sizes (env : Env) (st : CheckState) (x : CheckM α) (Q : α → CheckState → List Diagnostic → Prop) : Prop :=
  Says Finding.comparesSize env st x Q

namespace Says

variable {x : CheckM α} {f : α → CheckM β} {Q Q' : α → CheckState → List Diagnostic → Prop}
  {P : β → CheckState → List Diagnostic → Prop} {R : α → Store → Prop} {a : α}

theorem pure (hQ : Q a st []) : Says about env st (pure a) Q := by
  constructor
  intro b after hRun
  cases hRun
  exact ⟨[], (append_nil _).symm, hQ⟩

theorem bind (hx : Says about env st x Q) (hf : ∀ a st' own, st'.report.context = st.report.context → Q a st' own →
    Says about env st' (f a) fun b after more => P b after (own ++ more)) : Says about env st (x >>= f) P := by
  constructor
  intro b after hRun
  obtain ⟨a, st', hFirst, hNext⟩ := of_run_bind_ok hRun
  have hContext := (evolves_of_run hFirst).report.context
  obtain ⟨found, hFound, hResult⟩ := hx.post a st' hFirst
  obtain ⟨more, hMore, hResult'⟩ := (hf a st' _ hContext hResult).post b after hNext
  refine ⟨found ++ more, by rw [hMore, hFound, append_assoc], ?_⟩
  rw [levelFindings_append, ← hContext]
  rwa [hContext] at hResult' ⊢

theorem of_mute (hx : Silent about x) (h : Returns false env st.store x R) :
    Says about env st x fun a after own => own = [] ∧ (x env).run st = (.ok a, after) ∧ R a after.store := by
  constructor
  intro a after hRun
  obtain ⟨found, hFound, hNone⟩ := hx env st
  rw [hRun] at hFound
  exact ⟨found, hFound, hNone, hRun, h.post st.report a after hRun (Report.calm_false _ _)⟩

theorem mute_then (hx : Silent about x) (h : Returns false env st.store x R)
    (hf : ∀ a st', (x env).run st = (.ok a, st') → R a st'.store → Says about env st' (f a) P) :
    Says about env st (x >>= f) P := by
  apply (of_mute hx h).bind
  rintro a st' _ - ⟨rfl, hRun, hResult⟩
  exact hf a st' hRun hResult

theorem run_then {st' : CheckState} (hFirst : (x env).run st = (.ok a, st')) (hReport : st'.report = st.report)
    (h : Says about env st' (f a) P) : Says about env st (x >>= f) P := by
  constructor
  intro b after hRun
  rw [run_bind_ok f hFirst] at hRun
  rw [← hReport]
  exact h.post b after hRun

theorem attains_then (hx : Attains true env st.store x R)
    (hf : ∀ a s', R a s' → Says about env ⟨s', st.report⟩ (f a) P) : Says about env st (x >>= f) P := by
  obtain ⟨a, ⟨s', _⟩, hFirst, hReport, hResult⟩ := hx.run st.report
  obtain rfl := hReport rfl
  exact run_then hFirst rfl (hf a s' hResult)

theorem read_then {f : Env → CheckM β} (h : Says about env st (f env) P) : Says about env st (read >>= f) P := ⟨h.post⟩

theorem node_then {f : Template → CheckM β} (hNode : st.store.get? id = some t) (h : Says about env st (f t) P) :
    Says about env st (node id >>= f) P :=
  run_then (run_node hNode) rfl h

theorem formOf_then {f : Form → CheckM β} (hNode : st.store.get? id = some t) (h : Says about env st (f t.form) P) :
    Says about env st (formOf id >>= f) P :=
  run_then (run_formOf hNode) rfl h

theorem mono (h : Says about env st x Q) (hQ : ∀ a after own, Q a after own → Q' a after own) :
    Says about env st x Q' := by
  constructor
  intro a after hRun
  obtain ⟨found, hFound, hOwn⟩ := h.post a after hRun
  exact ⟨found, hFound, hQ _ _ _ hOwn⟩

/-- The check of a node that names or lists its parts: the modifiers are checked after the form. -/
theorem checkWithin (depth : Nat) {site : Site}
    {Q P : Store → List Diagnostic → Prop} (hNode : st.store.get? id = some t) (hForm : t.form.isStructured)
    (hUnchecked : t.marks.checked = false) (hDecl : env.types.decl? governor = some decl)
    (hErroneous : decl.category ≠ .erroneous) (hPort : decl.category ≠ .port)
    (h : Says about env ⟨st.store.update id (·.govern governor), st.report⟩
      (checkForm (checkWithin depth) (flattenWithin depth) id governor decl site) fun _ after own => Q after.store own)
    (hModifiers : ∀ st' own, st'.report.context = st.report.context → Q st'.store own →
      Says about env st' (checkModifiers id governor site) fun _ after more => P after.store (own ++ more)) :
    Says about env st (checkWithin (depth + 1) id governor site) fun _ after own => P after.store own := by
  rw [TemplateCheck.checkWithin]
  apply node_then hNode
  simp only [hUnchecked, Bool.false_eq_true, if_false]
  apply run_then (run_govern hNode governor) rfl
  apply read_then
  simp only [hDecl]
  rw [checkGoverned_eq]
  apply attains_then (Attains.beforeForm_structured (get?_update_some hNode _) site hForm)
  rintro _ _ rfl
  apply h.bind
  intro selfReference st1 own hContext hOwn
  apply (hModifiers st1 own hContext hOwn).bind
  intro _ st2 more _ hOwn2
  apply mute_then (Silent.isErroneous id) returns_isErroneous
  rintro erroneous st3 - ⟨hSame, -⟩
  refine .pure ?_
  rwa [append_nil, hSame]

end Says

end Sizes

section

variable {items ids : List NodeId} {size : Nat} {span : Span} {s : Store} {context : List Context} {d : Diagnostic}

def sizeVerdict (span : Span) (context : List Context) (size count : Nat) : Bool → List Diagnostic
  | true => if count = size then [] else [⟨.error (.arraySize size count), span, context⟩]
  | false => [⟨.warning .unknownArraySize, span, context⟩]

theorem sizes_tell (span : Span) {finding : Finding} (h : finding.comparesSize) :
    Sizes env st (tell span finding) fun _ after own =>
      after.store = st.store ∧ own = [⟨finding, span, st.report.context⟩] := by
  constructor
  intro _ after hRun
  cases hRun
  exact ⟨[⟨finding, span, st.report.context⟩], rfl, rfl, by simp [levelFindings, h]⟩

theorem sizes_checkArraySize (hNode : st.store.get? id = some t) (bounds : ArrayBounds) (count : Nat) :
    Sizes env st (checkArraySize id bounds count) fun _ after own =>
      after.store = st.store ∧ own = sizeVerdict t.span st.report.context bounds.size count t.marks.flattened := by
  apply Says.node_then hNode
  cases hFlattened : t.marks.flattened with
  | true =>
    by_cases hCount : count = bounds.size
    · simp only [hCount, ne_eq, not_true_eq_false, if_true, if_false, sizeVerdict]
      exact .pure ⟨rfl, rfl⟩
    · simp only [hCount, ne_eq, not_false_eq_true, if_true, if_false, sizeVerdict]
      exact .node_then hNode (sizes_tell t.span rfl)
  | false => exact .node_then hNode (sizes_tell t.span rfl)

/-- A positional list after splicing: the flag tells whether a slot is left, and the elements can be counted if none
is. -/
structure Store.SplicedList (s : Store) (id : NodeId) (span : Span) (items ids : List NodeId) (flat : Bool) : Prop where
  node : ∃ t, s.get? id = some t ∧ t.form = .list .positional items ∧ t.span = span ∧ t.marks.flattened = flat
  tells : s.Tells items flat
  trees : s.Lists items ids
  nodup : (id :: ids).Nodup
  amounts : ∃ n, s.Amounts (!flat) items n

theorem sizes_flattenedItems (depth : Nat) (h : st.store.Truthful [id] ids) (hNode : st.store.get? id = some t)
    (hForm : t.form = .list .positional items) (hShallow : ∀ item ∈ items, st.store.Shallow item) :
    Sizes env st (flattenedItems (flattenWithin depth) id) fun items' after own => own = [] ∧ ∃ flat ids',
      (flattenWithin depth id env).run st = (.ok flat, after) ∧ after.store.SplicedList id t.span items' ids' flat := by
  apply Says.mute_then (.flattenWithin special_comparesSize depth id)
    ((returns_flattenWithin depth h hNode (by rw [hForm]; rfl)).and (returns_flattenWithin_filtered depth hNode))
  rintro flat st1 hRun ⟨⟨t', _, hNode', hFolded, hGrove, -⟩, hStays, hFiltered⟩
  obtain ⟨_, items', hFound, hForm', -, hItems⟩ := hFiltered _ _ hForm
  cases hNode'.symm.trans hFound
  obtain ⟨_, below, hFound, hBelow, hNew, rfl, -⟩ := hGrove.of_single
  cases hNode'.symm.trans hFound
  have hTells := hFolded.tells trivial
  rw [hForm'] at hBelow hTells
  obtain ⟨_, _, hFound, hBefore, -⟩ := h.of_single
  cases hNode.symm.trans hFound
  rw [hForm] at hBefore
  have hShallow' : ∀ item ∈ items', st1.store.Shallow item := by
    intro item hItem
    obtain hOld | hAdmits := hItems item hItem
    · exact hStays.shallow item (hBefore.lists.has (hBefore.lists.mem_of_root hOld)) (hShallow item hOld)
    · exact hAdmits.noPermutation.shallow
  apply Says.formOf_then hNode'
  rw [hForm']
  refine .pure ⟨rfl, flat, below, hRun, ⟨t', hNode', hForm', ?_, hFolded.flattened⟩, hTells, hBelow.lists,
    nodup_cons.2 ⟨hNew, hBelow.nodup⟩, ?_⟩
  · obtain ⟨u, hNode'', hSpan⟩ := hStays.evolves id t hNode
    cases hNode'.symm.trans hNode''
    exact hSpan.span
  · apply amounts_of_shallow (fun _ hItem => hBelow.lists.has (hBelow.lists.mem_of_root hItem)) hShallow'
    cases flat with
    | true => exact .inr (hTells.flat_iff.1 rfl)
    | false => exact .inl rfl

def Compared (env : Env) (depth : Nat) (st : CheckState) (id : NodeId) (span : Span) (size : Nat) (after : Store)
    (own : List Diagnostic) : Prop :=
  ∃ flat spliced items count, (flattenWithin depth id env).run st = (.ok flat, spliced) ∧
    (∃ t, spliced.store.get? id = some t ∧ t.form = .list .positional items) ∧ spliced.store.Tells items flat ∧
    (∃ t, after.get? id = some t ∧ t.form = .list .positional items) ∧
    own = sizeVerdict span st.report.context size count flat ∧ (flat = true → after.Amounts false items count)

theorem Compared.after {depth : Nat} {s' : Store} {own : List Diagnostic}
    (h : Compared env depth st id span size s own) (hOnly : s.OnlyAt (fun _ => False) s') (hEvolves : s.Evolves s') :
    Compared env depth st id span size s' own := by
  obtain ⟨flat, spliced, items, count, hRun, hSpliced, hTells, ⟨t, hNode, hForm⟩, hOwn, hAmounts⟩ := h
  obtain ⟨t', hNode', hForm', -⟩ := hOnly.list hNode not_false hForm
  exact ⟨flat, spliced, items, count, hRun, hSpliced, hTells, ⟨t', hNode', hForm'⟩, hOwn,
    fun hFlat => (hAmounts hFlat).after hEvolves hOnly fun _ _ => .inr not_false⟩

theorem sizes_checkPositional (depth : Nat) {g : ListType} {bounds : ArrayBounds} (site : Site)
    (hArray : g.array = some bounds) (h : st.store.Truthful [id] ids) (hNode : st.store.get? id = some t)
    (hForm : t.form = .list .positional items) (hShallow : ∀ item ∈ items, st.store.Shallow item) :
    Sizes env st (checkPositional (checkWithin depth) (flattenWithin depth) g id site) fun _ after own =>
      Compared env depth st id t.span bounds.size after.store own := by
  apply (sizes_flattenedItems depth h hNode hForm hShallow).bind
  rintro items' st1 _ - ⟨rfl, flat, ids', hSpliced, hList⟩
  obtain ⟨t1, hNode1, hForm1, hSpan1, hFlat1⟩ := hList.node
  obtain ⟨hNew, hNodup⟩ := nodup_cons.1 hList.nodup
  apply Says.mute_then (.completeness special_comparesSize _ _)
    (Concludes.of_moves (steps_completeness _ _)).and_evolves
  rintro permitted st2 hRun2 ⟨⟨hPursues, -⟩, hEvolves2⟩
  have hOnly2 : st1.store.OnlyAt (fun _ => False) st2.store := hPursues.confined.onlyAt
  have hTrees2 : st2.store.Lists items' ids' := (hOnly2.sameSlots fun _ _ => not_false).lists hList.trees
  have hHas : ∀ item ∈ items', st2.store.Has item := fun item hItem => hTrees2.has (hTrees2.mem_of_root hItem)
  obtain ⟨n, hAmounts1⟩ := hList.amounts
  have hAmounts2 := hAmounts1.after hEvolves2 hOnly2 fun _ _ => .inr not_false
  apply Says.mute_then (x := checkItems (checkWithin depth) g id permitted items'.zipIdx (0, false))
    (.foldlM fun _ _ => (Silent.checkItem special_comparesSize _ _).bind fun _ => .pure _)
    (returns_checkItems (fun _ => confined_checkWithin depth) g permitted hAmounts2 hHas
      (pairwise_of_forall_mem_list fun _ hOne _ hOther => .inr (hTrees2.not_below_root hNodup hOther hOne))).and_evolves
  rintro ⟨count, selfReference⟩ st3 hRun3 ⟨⟨hCount, E, hOnly3, hE⟩, hEvolves3⟩
  obtain rfl : count = n := hCount
  obtain ⟨t2, hNode2, hForm2, hFlat2⟩ := hOnly2.list hNode1 not_false hForm1
  have hOutside : ¬ E id := by
    intro hIn
    obtain hNot | ⟨item, hItem, hWithin⟩ := hE id hIn
    · exact hNot (has_of_get? hNode2)
    · exact hNew (hTrees2.mem_of_within hItem hWithin)
  have hApart : ∀ item ∈ items', st2.store.NoPermutation item ∨ ¬ E item := by
    intro item hItem
    refine or_iff_not_imp_left.2 fun hIs hIn => ?_
    obtain hNot | ⟨other, hOther, hBelow | ⟨rfl, hNo⟩⟩ := hE item hIn
    · exact hNot (hHas item hItem)
    · exact hTrees2.not_below_root hNodup hItem hOther hBelow
    · exact hIs hNo
  obtain ⟨t3, hNode3, hForm3, hFlat3⟩ := hOnly3.list hNode2 hOutside hForm2
  have hSpan3 : t3.span = t.span := by
    obtain ⟨u, hFound, hSpan⟩ := (Course.trans hEvolves2 hEvolves3 : st1.store.Evolves st3.store) id t1 hNode1
    cases hNode3.symm.trans hFound
    rw [hSpan.span, hSpan1]
  rw [hArray]
  apply (sizes_checkArraySize hNode3 bounds count).bind
  rintro _ st4 _ - ⟨hStore, rfl⟩
  refine .pure ⟨flat, st1, items', count, hSpliced, ⟨t1, hNode1, hForm1⟩, hList.tells, ?_, ?_, ?_⟩
  · rw [hStore]
    exact ⟨t3, hNode3, hForm3⟩
  · rw [hSpan3, hFlat3, hFlat2, hFlat1, (evolves_of_run hRun3).report.context, (evolves_of_run hRun2).report.context,
      (evolves_of_run hSpliced).report.context,
      append_nil, nil_append]
  · rw [hStore]
    rintro rfl
    exact hAmounts2.after hEvolves3 hOnly3 hApart

theorem steps_checkModifiers_onlyAt (governor : TypeKey) (site : Site) :
    Steps (OnlyAt (fun _ => False)) env s (checkModifiers id governor site) := by
  have hSequential := sequential_steps (OnlyAt (fun _ => False)) env
  have hMark : ∀ s, Steps (OnlyAt (fun _ => False)) env s (mark id .lengthChecked) :=
    fun _ => (moves_unseen (f := (·.mark .lengthChecked)) fun _ => ⟨rfl, rfl, rfl, rfl, rfl, rfl⟩).steps
  exact (hSequential.stepwise.run ((hSequential.follows fun id s => (pursuing_lastTemplate s id).weaken fun _ h =>
    h.confined.onlyAt).checkModifiers trivial (hSequential.stepwise.agreed hMark) governor site)) s

theorem sizes_checkWithin (depth : Nat) {element : TypeKey}
    {offset : Int} (site : Site) (h : st.store.Truthful [id] ids) (hNode : st.store.get? id = some t)
    (hForm : t.form = .list .positional items) (hShallow : ∀ item ∈ items, st.store.Shallow item)
    (hUnchecked : t.marks.checked = false) (hDecl : env.types.decl? governor = some decl)
    (hArray : decl.category = .array element size offset) :
    Sizes env st (checkWithin (depth + 1) id governor site) fun _ after own =>
      Compared env depth ⟨st.store.update id (·.govern governor), st.report⟩ id t.span size after.store own := by
  have hOnly : st.store.OnlyAt (fun _ => False) (st.store.update id (·.govern governor)) :=
    onlyAt_update fun _ => ⟨rfl, rfl, rfl, rfl, rfl, rfl⟩
  have hEvolves : st.store.Evolves (st.store.update id (·.govern governor)) :=
    (evolves_of_run (run_govern hNode governor : (govern id governor env).run st = _)).store
  have hTree : Truthful (st.store.update id (·.govern governor)) [id] ids :=
    h.congr (hOnly.sameSlots fun _ _ => not_false)
  have hGoverned := get?_update_some hNode (·.govern governor)
  have hList : (t.govern governor).form = .list .positional items := hForm
  have hItems : ∀ item ∈ items, Shallow (st.store.update id (·.govern governor)) item := by
    obtain ⟨_, below, hFound, hBelow, -⟩ := h.of_single
    cases hNode.symm.trans hFound
    rw [hForm] at hBelow
    intro item hItem
    exact (hShallow item hItem).congr (hBelow.lists.has (hBelow.lists.mem_of_root hItem))
      (hOnly.sameSlots fun _ _ => not_false) hEvolves
  refine Says.checkWithin depth hNode (by rw [hForm]; rfl) hUnchecked hDecl (by simp [hArray]) (by simp [hArray]) ?_ ?_
    (Q := Compared env depth ⟨st.store.update id (·.govern governor), st.report⟩ id t.span size)
    (P := Compared env depth ⟨st.store.update id (·.govern governor), st.report⟩ id t.span size)
  · apply Says.formOf_then hGoverned
    rw [hList]
    simp only [checkByCategory, hArray, TypeDecl.listType?]
    apply Says.formOf_then hGoverned
    rw [hList]
    exact @sizes_checkPositional env ⟨_, st.report⟩ id (t.govern governor) items ids depth _ ⟨size, offset⟩ site rfl
      hTree hGoverned hList hItems
  · intro st1 own _ hCompared
    apply (Says.of_mute (.checkModifiers special_comparesSize governor site)
      (Concludes.of_moves (steps_checkModifiers_onlyAt governor site)).and_evolves).mono
    rintro _ _ _ ⟨rfl, -, ⟨hOnly, -⟩, hEvolves⟩
    rw [append_nil]
    exact hCompared.after hOnly hEvolves

theorem mem_sizeFindings {found : List Diagnostic} :
    d ∈ sizeFindings context found ↔ d ∈ found ∧ d.context = context ∧ d.finding.comparesSize := by
  simp [levelFindings]

theorem mem_sizeVerdict {count : Nat} {flat : Bool} : d ∈ sizeVerdict span context size count flat ↔
      flat = true ∧ count ≠ size ∧ d = ⟨.error (.arraySize size count), span, context⟩ ∨
        flat = false ∧ d = ⟨.warning .unknownArraySize, span, context⟩ := by
  cases flat with
  | false => simp [sizeVerdict]
  | true => by_cases hCount : count = size <;> simp [sizeVerdict, hCount]

end

namespace Session

/-- The wrong number of elements of an array is reported if and only if splicing has left no slot at any level. The
number is then the one that counting the list afterwards gives. If a slot is left, be it inside an element, there is
only a warning. -/
theorem arraySize_reported_iff (s : Session) (depth : Nat) (id : NodeId) (governor : TypeKey) (site : Site)
    {t : Template} {items ids : List NodeId} {decl : TypeDecl} {element : TypeKey} {size : Nat} {offset : Int}
    {outcome : Outcome} (hNode : s.store.get? id = some t) (hForm : t.form = .list .positional items)
    (hUnchecked : t.marks.checked = false) (hTree : s.store.Truthful [id] ids)
    (hShallow : ∀ item ∈ items, s.store.Shallow item) (hDecl : s.types.decl? governor = some decl)
    (hArray : decl.category = .array element size offset)
    (hEnds : (s.run (checkWithin (depth + 1) id governor site)).1 = .ok outcome) :
    let spliced := s.run (do govern id governor; flattenWithin depth id)
    let after := (s.run (checkWithin (depth + 1) id governor site)).2
    ∃ flat items' found, spliced.1 = .ok flat ∧
      (∃ t', spliced.2.store.get? id = some t' ∧ t'.form = .list .positional items') ∧
      (flat = true ↔ ∀ slot, ¬ spliced.2.store.SlotAmong items' slot) ∧
      (flat = true → ∃ n, after.cardinality id = .ok ⟨n, []⟩) ∧
      after.report.diagnostics = s.report.diagnostics ++ found ∧
      ((∃ d ∈ found, d.context = s.report.context ∧ ∃ n k, d.finding = .error (.arraySize n k)) ↔
        flat = true ∧ ∃ n, after.cardinality id = .ok ⟨n, []⟩ ∧ n ≠ size) ∧
      (∀ d ∈ found, d.context = s.report.context → ∀ n k, d.finding = .error (.arraySize n k) →
        d.span = t.span ∧ n = size ∧ after.cardinality id = .ok ⟨k, []⟩) ∧
      (flat = false ↔ ∃ d ∈ found, d.context = s.report.context ∧ d.finding = .warning .unknownArraySize) := by
  intro spliced after
  rcases hRun : (checkWithin (depth + 1) id governor site s.env).run ⟨s.store, s.report⟩ with ⟨result, last⟩
  have hCheck : s.run (checkWithin (depth + 1) id governor site) = _ := run_of_run hRun
  obtain rfl : result = .ok outcome := by rwa [hCheck] at hEnds
  have hAfter : after = { s with store := last.store, report := last.report } := congrArg Prod.snd hCheck
  obtain ⟨found, hFound, flat, middle, items', count, hFlatten, hList, hTells, ⟨t', hNode', hForm'⟩, hOwn, hAmounts⟩ :=
    (@sizes_checkWithin s.env ⟨s.store, s.report⟩ id t governor decl items ids size depth element offset site hTree
      hNode hForm hShallow hUnchecked hDecl hArray).post outcome last hRun
  have hSpliced : spliced = (.ok flat, { s with store := middle.store, report := middle.report }) :=
    run_of_run ((run_bind_ok _ (run_govern hNode governor)).trans hFlatten)
  have hCounted : flat = true → after.cardinality id = .ok ⟨count, []⟩ := by
    intro hFlat
    rw [hAfter]
    obtain ⟨⟨fixed, slots⟩, hCardinality, hCount, hNone⟩ := (hAmounts hFlat).cardinality hNode' hForm'
    obtain rfl := hNone rfl
    exact hCount ▸ hCardinality
  have hSaid : ∀ d, d ∈ found ∧ d.context = s.report.context ∧ d.finding.comparesSize ↔
      flat = true ∧ count ≠ size ∧ d = ⟨.error (.arraySize size count), t.span, s.report.context⟩ ∨
        flat = false ∧ d = ⟨.warning .unknownArraySize, t.span, s.report.context⟩ := by
    intro d
    rw [← mem_sizeVerdict, ← mem_sizeFindings]
    exact Eq.to_iff (congrArg (d ∈ ·) hOwn)
  have hError : ∀ d ∈ found, d.context = s.report.context → ∀ n k, d.finding = .error (.arraySize n k) →
      flat = true ∧ count ≠ size ∧ d = ⟨.error (.arraySize size count), t.span, s.report.context⟩ := by
    intro d hd hContext n k hFinding
    obtain hSize | ⟨-, rfl⟩ := (hSaid d).1 ⟨hd, hContext, by rw [hFinding]; rfl⟩
    · exact hSize
    · cases hFinding
  refine ⟨flat, items', found, by rw [hSpliced], by rw [hSpliced]; exact hList, by rw [hSpliced]; exact hTells.flat_iff,
    fun hFlat => ⟨count, hCounted hFlat⟩, by rw [hAfter]; exact hFound, ⟨?_, ?_⟩, ?_, ⟨?_, ?_⟩⟩
  · rintro ⟨d, hd, hContext, n, k, hFinding⟩
    obtain ⟨hFlat, hCount, -⟩ := hError d hd hContext n k hFinding
    exact ⟨hFlat, count, hCounted hFlat, hCount⟩
  · rintro ⟨hFlat, n, hCardinality, hCount⟩
    cases (hCounted hFlat).symm.trans hCardinality
    obtain ⟨hd, hContext, -⟩ := (hSaid _).2 (.inl ⟨hFlat, hCount, rfl⟩)
    exact ⟨_, hd, hContext, size, count, rfl⟩
  · intro d hd hContext n k hFinding
    obtain ⟨hFlat, -, rfl⟩ := hError d hd hContext n k hFinding
    cases hFinding
    exact ⟨rfl, rfl, hCounted hFlat⟩
  · intro hFlat
    obtain ⟨hd, hContext, -⟩ := (hSaid _).2 (.inr ⟨hFlat, rfl⟩)
    exact ⟨_, hd, hContext, rfl⟩
  · rintro ⟨d, hd, hContext, hFinding⟩
    obtain ⟨-, -, rfl⟩ | ⟨hFlat, -⟩ := (hSaid d).1 ⟨hd, hContext, by rw [hFinding]; rfl⟩
    · cases hFinding
    · exact hFlat

/-- The list at 4 has one element and a permutation with a slot for two numbers, and in the list at 8 a slot is left. -/
def arraysOfTwo : Session where
  types := ⟨Registry.numbers.entries ++ [(3, ⟨"Pair", .array 1 2 0⟩),
    (4, ⟨"Rows", .array 2 2 0⟩)]⟩
  definitions := ⟨[⟨"numbers", some 2, .const (.list [.integer 1, .integer 2]), {}⟩, ⟨"v", some 2, .var, {}⟩]⟩
  store := .ofForms [.ofName "numbers" 0, .allFrom 0, .list .permutation [1],
    .ofInteger 3, .ofItems [3, 2], .ofName "v" 1, .allFrom 5,
    .ofItems [6], .ofItems [7]]

namespace arraysOfTwo

theorem truthful_pair : arraysOfTwo.store.Truthful [4] [4, 3, 2, 1, 0] := by
  refine ⟨lists_of_preorderWithin (show arraysOfTwo.store.preorderWithin 6 4 = .ok _ from rfl), by decide, ?_⟩
  have hAll : ∀ t ∈ arraysOfTwo.store.nodes, t.marks.folded = false := by decide
  intro _ id _ t hNode hFolded
  rw [hAll t (mem_of_getElem? hNode)] at hFolded
  cases hFolded

theorem shallow_pair : ∀ item ∈ [3, 2], arraysOfTwo.store.Shallow item := by
  have hMember : arraysOfTwo.store.NoPermutation 1 := ⟨_, rfl, by decide⟩
  intro item hItem t hNode hShape member hIn
  simp only [mem_cons, not_mem_nil, or_false] at hItem
  obtain rfl | rfl := hItem
  · cases hNode
    cases hShape
  · cases hNode
    rw [mem_singleton.1 hIn]
    exact hMember

end arraysOfTwo

theorem arraySize_reported_iff_arraysOfTwo :
    (arraysOfTwo.run (checkWithin 5 4 3 {})).2.cardinality 4 = .ok ⟨3, []⟩ ∧
    ∃ d ∈ (arraysOfTwo.run (checkWithin 5 4 3 {})).2.report.diagnostics,
      d.context = [] ∧ ∃ n k, d.finding = .error (.arraySize n k) := by
  have hCardinality : (arraysOfTwo.run (checkWithin 5 4 3 {})).2.cardinality 4 = .ok ⟨3, []⟩ := by rfl
  obtain ⟨flat, items, found, hSpliced, -, -, -, hFound, hReported, -⟩ :=
    arraySize_reported_iff arraysOfTwo 4 4 3 {} rfl rfl rfl arraysOfTwo.truthful_pair arraysOfTwo.shallow_pair rfl rfl
      (by rfl)
  have hFlat : flat = true := by
    cases hSpliced
    rfl
  obtain ⟨d, hd, hOwn⟩ := hReported.2 ⟨hFlat, 3, hCardinality, by decide⟩
  refine ⟨hCardinality, d, ?_, hOwn⟩
  rw [hFound]
  exact mem_append_right _ hd

/-- The elements have a type that is not known, and the only item is a slot for the content of a variable. -/
def untypedElements : Session where
  types := ⟨Registry.numbers.entries ++ [(3, ⟨"Pair", .array 9 2 0⟩)]⟩
  definitions := ⟨[⟨"v", some 2, .var, {}⟩]⟩
  store := .ofForms [.ofName "v" 0, .allFrom 0, .ofItems [1]]

/-- A list with one element for an array of two passes without an error if a slot is left inside the element. It also
happens that a slot is left and given up after that. -/
theorem leftSlot_hides_size :
    (arraysOfTwo.WellFormed ∧ (∀ t ∈ arraysOfTwo.store.nodes, t.marks.checked = false ∧ t.marks.folded = false) ∧
      (∃ ids, arraysOfTwo.store.Lists [8] ids ∧ ids.Nodup) ∧
      (arraysOfTwo.check 8 4 {}).1 = .ok {} ∧
      (arraysOfTwo.check 8 4 {}).2.cardinality 8 = .ok ⟨1, []⟩ ∧
      (arraysOfTwo.check 8 4 {}).2.report.errors = 0) ∧
    (untypedElements.check 2 3 {}).1 = .ok {} ∧
      (untypedElements.check 2 3 {}).2.cardinality 2 = .ok ⟨1, []⟩ ∧
      (untypedElements.check 2 3 {}).2.report.diagnostics.map (·.finding) =
        [.error .unknownGovernor, .warning .unknownArraySize] := by
  have hWell : arraysOfTwo.WellFormed := Ordered.wellFormed (by decide)
  have hLists : arraysOfTwo.store.Lists [8] [8, 7, 6, 5] :=
    lists_of_preorderWithin (show arraysOfTwo.store.preorderWithin 6 8 = .ok _ from rfl)
  exact ⟨⟨hWell, by decide, ⟨_, hLists, by decide⟩, by rfl, by rfl, by rfl⟩, by rfl, by rfl, by rfl⟩

end Session

end TemplateCheck
