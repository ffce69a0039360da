import TemplateCheck.Proofs.ArraySize.Check
import TemplateCheck.Proofs.Siblings

/-!
# Fields that are given and fields that are left out

An entry of a record or set is undeclared, or it repeats an earlier one, and a mandatory field may be given by no entry.
The check says so once for each of them in the contexts of the record; what it finds in a field lies further inside.
Optional fields that are left out are filled in, so that after a check without errors every field is given once.
-/

namespace TemplateCheck

open List Store

variable {about : Finding → Bool} {governor : TypeKey} {site : Site}

section

variable {env : Env} {st : CheckState} {decl : TypeDecl} {fields missing : List FieldDecl} {entries : List NamedEntry}
  {context : List Context} {span : Span} {id : NodeId} {t : Template}

namespace Says

variable {α : Type} {x : CheckM α} {Q : α → CheckState → List Diagnostic → Prop} {R : α → Store → Prop}

theorem of_silent (h : Silent about x) : Says about env st x fun _ _ own => own = [] := by
  constructor
  intro a after hRun
  obtain ⟨found, hFound, hNone⟩ := h env st
  rw [hRun] at hFound
  exact ⟨found, hFound, hNone⟩

theorem of_reports {Q : α → Store → List Diagnostic → Prop} (h : Reports env st.store st.report.context x Q) :
    Says about env st x fun a after own =>
      ∃ found, own = levelFindings about st.report.context found ∧ Q a after.store found := by
  constructor
  intro a after hRun
  obtain ⟨_, _, found, hRun', hFound, hResult⟩ := h.run st.report rfl
  cases hRun.symm.trans hRun'
  exact ⟨found, hFound, found, rfl, hResult⟩

theorem and_returns (h : Says about env st x Q)
    (hx : Returns false env st.store x R) : Says about env st x fun a after own => Q a after own ∧ R a after.store := by
  constructor
  intro a after hRun
  obtain ⟨found, hFound, hResult⟩ := h.post a after hRun
  exact ⟨found, hFound, hResult, hx.post st.report a after hRun (Report.calm_false _ _)⟩

theorem and_evolves (h : Says about env st x Q) :
    Says about env st x fun a after own => Q a after own ∧ st.store.Evolves after.store := by
  constructor
  intro a after hRun
  obtain ⟨found, hFound, hResult⟩ := h.post a after hRun
  exact ⟨found, hFound, hResult, (evolves_of_run hRun).store⟩

/-- What each member says is said in turn, and what it has brought about lasts. -/
theorem checkAny {xs : List α} {check : α → CheckM Bool} {g : α → List Diagnostic}
    (hLasts : ∀ a s s', s.Evolves s' → R a s → R a s') (h : ∀ a ∈ xs, ∀ st', st'.report.context = st.report.context →
      Says about env st' (check a) fun _ after own => own = g a ∧ R a after.store) :
    Says about env st (checkAny check xs) fun _ after own => own = xs.flatMap g ∧ ∀ a ∈ xs, R a after.store := by
  unfold TemplateCheck.checkAny
  generalize false = soFar
  induction xs generalizing st soFar with
  | nil => exact pure ⟨rfl, by simp⟩
  | cons a xs ih =>
    rw [foldlM_cons, flatMap_cons, bind_assoc]
    apply (h a mem_cons_self st rfl).bind
    rintro one st' _ hContext ⟨rfl, hHead⟩
    rw [pure_bind]
    apply (ih (fun a ha st'' hEq => h a (by simp [ha]) st'' (hEq.trans hContext)) (soFar || one)).and_evolves.mono
    rintro _ after _ ⟨⟨rfl, hTail⟩, hEvolves⟩
    exact ⟨rfl, forall_mem_cons.2 ⟨hLasts a _ _ hEvolves hHead, hTail⟩⟩

end Says

/-- The check of a node that gives parts by name: what it says about the parts is said with regard to its category. -/
theorem says_checkNamed (depth : Nat)
    {Q : Store → List Diagnostic → Prop} (hAbout : ∀ finding : Finding, finding.isOrdinary → about finding = false)
    (hDecl : env.types.decl? governor = some decl) (hCategory : decl.category.isNamed)
    (hNode : st.store.get? id = some t) (hForm : t.form = .named entries) (hUnchecked : t.marks.checked = false)
    (hMark : ∀ s own, Q s own → s.Has id ∧ Q (s.update id (·.mark .lengthChecked)) own)
    (h : Says about env ⟨st.store.update id (·.govern governor), st.report⟩
      (checkByCategory (checkWithin depth) (flattenWithin depth) id decl site) fun _ after own => Q after.store own) :
    Says about env st (checkWithin (depth + 1) id governor site) fun _ after own => Q after.store own := by
  have hKind : decl.category ≠ .erroneous ∧ decl.category ≠ .port := by
    constructor <;> (intro hEq; simp [hEq, Category.isNamed] at hCategory)
  refine .checkWithin depth (Q := Q) hNode (by rw [hForm]; rfl) hUnchecked hDecl hKind.1 hKind.2 ?_ ?_
  · apply Says.formOf_then (get?_update_some hNode (·.govern governor))
    rw [show (t.govern governor).form = .named entries from hForm]
    exact h
  · intro st1 own _ hOwn
    apply (Says.of_reports (reportsHere_checkModifiers (hMark _ _ hOwn).1 hDecl hCategory)).mono
    rintro _ st2 _ ⟨found, rfl, hHere, hSame⟩
    have hNone : levelFindings about st1.report.context found = [] :=
      filter_eq_nil_iff.2 fun d hd => by simp [hAbout _ (hHere d hd).2]
    rw [hNone, append_nil]
    obtain hSame | hSame := hSame
    · exact hSame ▸ hOwn
    · exact hSame ▸ (hMark _ _ hOwn).2

section Entries

def fieldFindings (decl : TypeDecl) (context : List Context) : NamedEntry × EntryStatus FieldDecl → List Diagnostic
  | (entry, .undeclared) => [⟨.error (.unknownField entry.name decl.category.name decl.name), entry.span, context⟩]
  | (entry, .repeated _) => [⟨.error (.duplicateField entry.name), entry.span, context⟩]
  | (_, .first _) => []

theorem says_problem_note (span : Span) {p : Problem} (h : about (.error p)) (span' : Span)
    {n : Note} (hNote : about (.note n) = false) :
    Says about env st (do problem span p; note span' n; return false) fun _ _ own =>
      own = [⟨.error p, span, st.report.context⟩] := by
  constructor
  intro _ after hRun
  cases hRun
  refine ⟨[⟨.error p, span, st.report.context⟩, ⟨.note n, span', st.report.context⟩], ?_, ?_⟩
  · simp [Report.diagnostics_add]
  · simp [levelFindings, h, hNote]

theorem says_checkField (check : ChildCheck) (item : NamedEntry × EntryStatus FieldDecl) :
    Says Finding.namesField env st (checkField check decl false item) fun _ _ own =>
      own = fieldFindings decl st.report.context item := by
  obtain ⟨entry, status⟩ := item
  cases status with
  | undeclared | repeated => exact says_problem_note entry.span rfl _ rfl
  | first field =>
    have hSilent : Silent Finding.namesField (checkField check decl false (entry, .first field)) := by
      apply (Silent.formOf entry.template).bind
      intro form
      split
      · exact (Silent.problemAt rfl).bind fun _ => .pure _
      · exact (Silent.inside _ _).bind fun _ => .pure _
    exact .of_silent hSilent

/-- What is wrong with the names of the entries, and after that the mandatory fields that are left out. -/
def fieldFaults (decl : TypeDecl) (fields : List FieldDecl) (entries : List NamedEntry) (span : Span)
    (context : List Context) : List Diagnostic :=
  (classifyEntries decl.field? [] entries).flatMap (fieldFindings decl context) ++
    omissions decl fields entries false span context

/-- The node gives its entries, and after them the optional fields that are left out, by nodes that come after `size`
others. -/
def Store.Completes (s : Store) (size : Nat) (id : NodeId) (span : Span) (fields : List FieldDecl)
    (entries : List NamedEntry) : Prop :=
  ∃ u filled, s.get? id = some u ∧ u.form = .named (entries ++ filled) ∧ (filled.map (·.template)).Nodup ∧
    List.Forall₂ (fun field entry => entry.name = field.name ∧ size ≤ entry.template.index ∧
      s.get? entry.template = some (implicitOmit field.type span))
      ((missingFields fields entries).filter (·.optional)) filled

variable {size : Nat} {s : Store} {D : NodeId → Prop}

theorem forall₂_filledEntries {R : FieldDecl → NamedEntry → Prop}
    (h : ∀ i field, missing[i]? = some field → R field { name := field.name, template := ⟨size + i⟩, span }) :
    List.Forall₂ R missing (filledEntries size span missing) := by
  induction missing generalizing size with
  | nil => exact .nil
  | cons field missing ih =>
    refine .cons (h 0 field rfl) (ih fun i next hNext => ?_)
    rw [Nat.add_assoc, Nat.add_comm 1]
    exact h (i + 1) next hNext

theorem nodup_filledEntries (size : Nat) (missing : List FieldDecl) :
    ((filledEntries size span missing).map (·.template)).Nodup := by
  have hIndices : (filledEntries size span missing).map (·.template) =
      (range' size missing.length).map NodeId.mk := by
    rw [← zipIdx_map_snd size missing, filledEntries, map_map, map_map]
    rfl
  rw [hIndices]
  exact List.Nodup.map (fun _ _ hEq => NodeId.mk.inj hEq) nodup_range'

theorem levelFindings_omissions : levelFindings Finding.namesField context
    (omissions decl fields entries false span context) = omissions decl fields entries false span context := by
  refine filter_eq_self.2 fun d hd => ?_
  obtain ⟨field, -, rfl⟩ := mem_map.1 hd
  simp [Finding.namesField]

theorem Store.Completes.mark (h : s.Completes size id span fields entries)
    (hId : id.index < size) : (s.update id (·.mark .lengthChecked)).Completes size id span fields entries := by
  obtain ⟨u, filled, hNode, hForm, hNodup, hFilled⟩ := h
  refine ⟨_, filled, get?_update_some hNode _, hForm, hNodup, hFilled.imp fun field entry hEntry => ?_⟩
  obtain ⟨hName, hNew, hFound⟩ := hEntry
  have hNe : entry.template ≠ id := fun hEq => Nat.not_le_of_lt hId (hEq ▸ hNew)
  exact ⟨hName, hNew, (get?_update_of_ne hNe).trans hFound⟩

theorem says_checkAssigned {check : ChildCheck} (hCheck : check.Confined D env)
    (hClosed : st.store.Closed D) (hOut : ¬ D id) (hEntries : ∀ entry ∈ entries, D entry.template)
    (hNode : st.store.get? id = some t) (hForm : t.form = .named entries) (hBase : t.base = none) :
    Says Finding.namesField env st (checkAssigned check id decl fields entries false)
    fun _ after own => own = fieldFaults decl fields entries t.span st.report.context ∧
      after.store.Completes st.store.size id t.span fields entries := by
  have hSteps : Steps (Confined D) env st.store
      (checkAny (checkField check decl false) (classifyEntries decl.field? [] entries)) :=
    (checking_confined D env).stepwise.checkAny (f := fun _ => checkField check decl false) (fun item hItem =>
      (checking_confined D env).checkField (c := fun _ => check) (fun id type site hId s hClosed =>
        hCheck s id type site hClosed hId) decl false (hEntries _ (mem_of_mem_classifyEntries hItem))) st.store hClosed
  apply ((Says.checkAny (g := fieldFindings decl st.report.context) (R := fun _ _ => True) (fun _ _ _ _ _ => trivial)
    fun item _ st' hContext => hContext ▸ (says_checkField check item).mono fun _ _ _ hOwn =>
      ⟨hOwn, trivial⟩).and_returns
    (Concludes.of_moves hSteps)).bind
  rintro selfReference st1 _ hContext ⟨⟨rfl, -⟩, hConfined, -⟩
  -- The record itself does not lie below its fields, so it is as it was.
  have hNode1 : st1.store.get? id = some t := hConfined.get?_eq hOut hNode (by simp [hForm])
  apply Says.node_then hNode1
  apply (Says.of_reports (Reports.forM_problemAt hNode1 _)).bind
  rintro _ st2 _ - ⟨found, rfl, hStore, hFound⟩
  have hNode2 : st2.store.get? id = some t := hStore ▸ hNode1
  simp only [hBase, Option.isSome_none, Bool.or_false]
  apply Says.attains_then (attains_fillOmitted hNode2 hForm _)
  rintro _ s3 ⟨hNode3, hOthers⟩
  refine .pure ⟨?_, _, _, hNode3, rfl, nodup_filledEntries _ _,
    forall₂_filledEntries fun i field hField => ⟨rfl, ?_, ?_⟩⟩
  · rw [append_nil, hFound, hContext, fieldFaults]
    exact congrArg _ levelFindings_omissions
  · have hSize := hConfined.size_le
    rw [← hStore] at hSize
    exact Nat.le_add_right_of_le hSize
  · have hNew : (⟨st2.store.size + i⟩ : NodeId) ≠ id := by
      intro hEq
      have hIndex : st2.store.size + i = id.index := congrArg NodeId.index hEq
      have hLess := lt_size_of_get? hNode2
      omega
    have hIndex : (⟨st2.store.size + i⟩ : NodeId).index - st2.store.nodes.length = i := Nat.add_sub_cancel_left ..
    rw [hOthers _ hNew, getElem?_append_right (Nat.le_add_right st2.store.size i), hIndex, getElem?_map, hField]
    rfl

theorem Store.closed_not_below (s : Store) (hId : s.Has id) (f : Template → Template) :
    (s.update id f).Closed fun n => ¬ s.Below n id where
  new n hNew hBelow := by
    rw [has_update] at hNew
    obtain rfl | ⟨child, ⟨t, hFound, -⟩, -⟩ := Relation.ReflTransGen.cases_head hBelow
    · exact hNew hId
    · exact hNew (has_of_get? hFound)
  child parent child hParent hChild hBelow := by
    obtain ⟨t, hFound, hMem⟩ := hChild
    have hNe : parent ≠ id := fun hEq => hParent (hEq ▸ .refl)
    rw [get?_update_of_ne hNe] at hFound
    exact hParent (.head ⟨t, hFound, hMem⟩ hBelow)

theorem Store.not_below_of_leaves (h : ∀ entry ∈ entries, entry.template ≠ id ∧
      (s.get? entry.template).map (·.form.children) = some []) : ∀ entry ∈ entries, ¬ s.Below entry.template id := by
  intro entry hMem hBelow
  obtain ⟨hNe, hNone⟩ := h entry hMem
  obtain hEq | ⟨child, ⟨t, hFound, hChild⟩, -⟩ := Relation.ReflTransGen.cases_head hBelow
  · exact hNe hEq
  · simp_all

theorem says_checkWithin (depth : Nat) (hDecl : env.types.decl? governor = some decl)
    (hCategory : decl.category = .record fields ∨ decl.category = .set fields) (hNode : st.store.get? id = some t)
    (hForm : t.form = .named entries) (hUnchecked : t.marks.checked = false) (hBase : t.base = none)
    (hAcyclic : ∀ entry ∈ entries, ¬ st.store.Below entry.template id) (hComplete : site.incomplete = false) :
    Says Finding.namesField env st (checkWithin (depth + 1) id governor site) fun _ after own =>
      own = fieldFaults decl fields entries t.span st.report.context ∧
        after.store.Completes st.store.size id t.span fields entries := by
  refine says_checkNamed depth (Q := fun s own => own = fieldFaults decl fields entries t.span st.report.context ∧
    s.Completes st.store.size id t.span fields entries) (fun _ => Finding.namesField_of_isOrdinary) hDecl
    (Category.isNamed_of_fields hCategory) hNode hForm hUnchecked ?_ ?_
  · rintro s own ⟨hOwn, hCompletes⟩
    have ⟨u, _, hFound, _⟩ := hCompletes
    exact ⟨has_of_get? hFound, hOwn, hCompletes.mark (lt_size_of_get? hNode)⟩
  have hClosed := st.store.closed_not_below (has_of_get? hNode) (·.govern governor)
  have hAssigned := @says_checkAssigned env ⟨st.store.update id (·.govern governor), st.report⟩ decl fields entries id
    (t.govern governor) _ (checkWithin depth) (confined_checkWithin depth) hClosed (not_not.2 .refl) hAcyclic
    (get?_update_some hNode _) hForm hBase
  rw [size_update] at hAssigned
  unfold checkByCategory
  obtain hCategory | hCategory := hCategory <;>
  · rw [hCategory]
    apply Says.formOf_then (get?_update_some hNode _)
    simpa only [Template.govern, hForm, hComplete] using hAssigned

end Entries

section Names

variable {before : List NamedEntry} {α : Type}

/-- An entry that comes after others is undeclared, or gives a declared field again that one of them has given. -/
def entryFault? (decl : TypeDecl) (fields : List FieldDecl) (before : List NamedEntry) (entry : NamedEntry) :
    Option Problem :=
  if entry.name ∈ fields.map (·.name) then
    if entry.name ∈ before.map (·.name) then some (.duplicateField entry.name) else none
  else some (.unknownField entry.name decl.category.name decl.name)

/-- The faults of the entries in their order. -/
def entryFaults (decl : TypeDecl) (fields : List FieldDecl) (entries : List NamedEntry) (context : List Context) :
    List Diagnostic :=
  entries.zipIdx.filterMap fun item =>
    (entryFault? decl fields (entries.take item.2) item.1).map (⟨.error ·, item.1.span, context⟩)

theorem NamedEntry.status_of_declared {lookup? : String → Option α} {declared : α} {entry : NamedEntry}
    (h : lookup? entry.name = some declared) (before : List NamedEntry) :
    (entry.name ∈ before.map (·.name) ∧ ∃ previous, entry.status lookup? before = .repeated previous) ∨
      entry.name ∉ before.map (·.name) ∧ entry.status lookup? before = .first declared := by
  unfold status
  rw [h]
  cases hPrevious : before.find? (·.name = entry.name) with
  | none => exact .inr ⟨by simpa using hPrevious, rfl⟩
  | some previous =>
    exact .inl ⟨mem_map.2 ⟨previous, mem_of_find?_eq_some hPrevious, by simpa using find?_some hPrevious⟩,
      previous.span, rfl⟩

theorem fieldFindings_status (hFields : decl.category.fields? = some fields) (entry : NamedEntry) :
    fieldFindings decl context (entry, entry.status decl.field? before) =
      ((entryFault? decl fields before entry).map (⟨.error ·, entry.span, context⟩)).toList := by
  cases hField : decl.field? entry.name with
  | none =>
    have hNew : entry.name ∉ fields.map (·.name) := by simpa [TypeDecl.field?, hFields] using hField
    rw [NamedEntry.status, hField, entryFault?, if_neg hNew]
    rfl
  | some field =>
    have hDeclared : entry.name ∈ fields.map (·.name) := by
      rw [TypeDecl.field?, hFields] at hField
      exact mem_map.2 ⟨field, mem_of_find?_eq_some hField, by simpa using find?_some hField⟩
    rw [entryFault?, if_pos hDeclared]
    obtain ⟨hGiven, previous, hStatus⟩ | ⟨hNew, hStatus⟩ := NamedEntry.status_of_declared hField before
    · rw [hStatus, if_pos hGiven]
      rfl
    · rw [hStatus, if_neg hNew]
      rfl

theorem entryFault?_reverse (entry : NamedEntry) :
    entryFault? decl fields before.reverse entry = entryFault? decl fields before entry := by
  simp only [entryFault?, map_reverse, mem_reverse]

theorem flatMap_classifyEntries {β : Type} {lookup? : String → Option α} {g : NamedEntry × EntryStatus α → List β}
    (fault? : List NamedEntry → NamedEntry → Option β) (h : ∀ before, ∀ entry ∈ entries,
      g (entry, entry.status lookup? before) = (fault? before.reverse entry).toList) :
    (classifyEntries lookup? before entries).flatMap g =
      (entries.zipIdx before.length).filterMap fun item => fault? ((before.reverse ++ entries).take item.2) item.1 := by
  induction entries generalizing before with
  | nil => rfl
  | cons entry entries ih =>
    have hWhole : (entry :: before).reverse ++ entries = before.reverse ++ entry :: entries := by simp
    rw [classifyEntries, flatMap_cons, ih fun before other hOther => h before other (mem_cons_of_mem _ hOther),
      h before entry mem_cons_self, hWhole, zipIdx_cons, length_cons, filterMap_cons,
      take_left' (length_reverse ..)]
    cases fault? before.reverse entry <;> rfl

theorem flatMap_fieldFindings (hFields : decl.category.fields? = some fields) :
    (classifyEntries decl.field? [] entries).flatMap (fieldFindings decl context) =
      entryFaults decl fields entries context :=
  flatMap_classifyEntries
    (fun before entry => (entryFault? decl fields before entry).map (⟨.error ·, entry.span, context⟩))
    fun _ entry _ => (fieldFindings_status hFields entry).trans (by rw [entryFault?_reverse])

theorem nodup_names (hFields : decl.category.fields? = some fields)
    (hNone : (classifyEntries decl.field? before entries).flatMap (fieldFindings decl context) = []) :
    (entries.map (·.name)).Nodup ∧
      ∀ name ∈ entries.map (·.name), name ∈ fields.map (·.name) ∧ name ∉ before.map (·.name) := by
  induction entries generalizing before with
  | nil => exact ⟨nodup_nil, by simp⟩
  | cons entry entries ih =>
    rw [classifyEntries, flatMap_cons, append_eq_nil_iff, fieldFindings_status hFields] at hNone
    obtain ⟨hHead, hTail⟩ := hNone
    obtain ⟨hNodup, hNames⟩ := ih hTail
    have hDeclared : entry.name ∈ fields.map (·.name) ∧ entry.name ∉ before.map (·.name) := by
      by_cases hDeclared : entry.name ∈ fields.map (·.name) <;> by_cases hGiven : entry.name ∈ before.map (·.name) <;>
        simp_all [entryFault?]
    rw [map_cons]
    refine ⟨nodup_cons.2 ⟨fun hMem => (hNames _ hMem).2 (by simp), hNodup⟩, fun name hMem => ?_⟩
    obtain rfl | hMem := mem_cons.1 hMem
    · exact hDeclared
    · exact ⟨(hNames name hMem).1, fun hBefore => (hNames name hMem).2 (by simp [hBefore])⟩

theorem mem_missingFields {field : FieldDecl} :
    field ∈ missingFields fields entries ↔ field ∈ fields ∧ field.name ∉ entries.map (·.name) := by
  simp [missingFields]

theorem missingFields_perm {order : List NamedEntry} (h : order.Perm entries) :
    missingFields fields order = missingFields fields entries := by
  simp only [missingFields, any_eq, h.mem_iff]

theorem perm_names (hNames : (fields.map (·.name)).Nodup) (hNodup : (entries.map (·.name)).Nodup)
    (hDeclared : ∀ name ∈ entries.map (·.name), name ∈ fields.map (·.name))
    (hMandatory : (missingFields fields entries).filter (!·.optional) = []) :
    (entries.map (·.name) ++ ((missingFields fields entries).filter (·.optional)).map (·.name)).Perm
      (fields.map (·.name)) := by
  have hSub : (((missingFields fields entries).filter (·.optional)).map (·.name)).Sublist (fields.map (·.name)) :=
    (filter_sublist.trans filter_sublist).map _
  have hNew : ∀ name ∈ ((missingFields fields entries).filter (·.optional)).map (·.name),
      name ∉ entries.map (·.name) := by
    intro name hMem
    obtain ⟨field, hField, rfl⟩ := mem_map.1 hMem
    exact (mem_missingFields.1 (mem_filter.1 hField).1).2
  have hApart := nodup_append.2 ⟨hNodup, hNames.sublist hSub, fun name hMem other hOther hEq =>
    hNew other hOther (hEq ▸ hMem)⟩
  refine (perm_ext_iff_of_nodup hApart hNames).2 fun name => ⟨fun hMem => ?_, fun hMem => ?_⟩
  · obtain hMem | hMem := mem_append.1 hMem
    · exact hDeclared name hMem
    · exact hSub.mem hMem
  · by_cases hGiven : name ∈ entries.map (·.name)
    · exact mem_append_left _ hGiven
    obtain ⟨field, hField, rfl⟩ := mem_map.1 hMem
    have hMissing := mem_missingFields.2 ⟨hField, hGiven⟩
    have hOptional : field.optional := by
      have hKept := filter_eq_nil_iff.1 hMandatory field hMissing
      simpa using hKept
    exact mem_append_right _ (mem_map.2 ⟨field, mem_filter.2 ⟨hMissing, hOptional⟩, rfl⟩)

theorem names_of_forall₂ {filled : List NamedEntry}
    (h : List.Forall₂ (fun field entry => entry.name = field.name) missing filled) :
    filled.map (·.name) = missing.map (·.name) := by
  induction h with
  | nil => rfl
  | cons hName _ ih => rw [map_cons, map_cons, ih, hName]

theorem Finding.isError_of_namesField {finding : Finding} (h : finding.namesField) : finding.isError := by
  cases finding with
  | error => rfl
  | warning | note => cases h

end Names

end

namespace Session

theorem post_check {s after : Session} {depth : Nat} {id : NodeId} {outcome : Outcome}
    {Q : Outcome → CheckState → List Diagnostic → Prop}
    (h : ∀ depth, Says about s.env ⟨s.store, s.report⟩ (checkWithin (depth + 1) id governor site) Q)
    (hEnds : s.run (checkWithin depth id governor site) = (.ok outcome, after)) :
    Q outcome ⟨after.store, after.report⟩ (levelFindings about s.report.context (s.added after)) := by
  cases depth with
  | zero => cases hEnds
  | succ depth =>
    rcases hRun : (checkWithin (depth + 1) id governor site s.env).run ⟨s.store, s.report⟩ with ⟨result, last⟩
    rw [run_of_run hRun] at hEnds
    cases hEnds
    obtain ⟨found, hFound, hOwn⟩ := (h depth).post outcome last hRun
    rwa [added, hFound, drop_left]

/-- The check of a record or set says of each undeclared entry, of each that gives a field again and of each mandatory
field without an entry that it is so, and of no others; the order of the entries does not matter to the last of these.
Optional fields without an entry are appended, so every field is given once if there is no error. -/
theorem fields_given_once {s after : Session} {depth : Nat} {id : NodeId} {t : Template} {governor : TypeKey}
    {decl : TypeDecl} {fields : List FieldDecl} {entries : List NamedEntry} {site : Site} {outcome : Outcome}
    (hDecl : s.types.decl? governor = some decl)
    (hCategory : decl.category = .record fields ∨ decl.category = .set fields) (hNames : (fields.map (·.name)).Nodup)
    (hNode : s.store.get? id = some t) (hForm : t.form = .named entries) (hUnchecked : t.marks.checked = false)
    (hBase : t.base = none) (hAcyclic : ∀ entry ∈ entries, ¬ s.store.Below entry.template id)
    (hComplete : site.incomplete = false)
    (hEnds : s.run (checkWithin depth id governor site) = (.ok outcome, after)) :
    (∀ order, order.Perm entries → levelFindings Finding.namesField s.report.context (s.added after) =
      entryFaults decl fields entries s.report.context ++
        ((missingFields fields order).filter (!·.optional)).map fun field =>
          ⟨.error (.missingField field.name decl.category.name decl.name), t.span, s.report.context⟩) ∧
    ∃ u filled, after.store.get? id = some u ∧ u.form = .named (entries ++ filled) ∧
      (filled.map (·.template)).Nodup ∧
      List.Forall₂ (fun field entry => entry.name = field.name ∧ ¬ s.store.Has entry.template ∧
        after.store.get? entry.template = some (implicitOmit field.type t.span))
        ((missingFields fields entries).filter (·.optional)) filled ∧
      ((∀ d ∈ s.added after, d.finding.isError = false) →
        ((entries ++ filled).map (·.name)).Perm (fields.map (·.name))) := by
  have hFields : decl.category.fields? = some fields := by
    obtain hRecord | hSet := hCategory
    · rw [hRecord]; rfl
    · rw [hSet]; rfl
  obtain ⟨hOwn, u, filled, hNode', hForm', hNodup, hFilled⟩ := post_check (fun depth => says_checkWithin depth hDecl
    hCategory hNode hForm hUnchecked hBase hAcyclic hComplete) hEnds
  refine ⟨fun order hOrder => ?_, u, filled, hNode', hForm', hNodup, hFilled.imp fun field entry hEntry =>
    ⟨hEntry.1, Nat.not_lt_of_le hEntry.2.1, hEntry.2.2⟩, fun hClean => ?_⟩
  · rw [missingFields_perm hOrder, ← flatMap_fieldFindings hFields]
    exact hOwn
  · have hNone : fieldFaults decl fields entries t.span s.report.context = [] := by
      rw [← hOwn]
      refine filter_eq_nil_iff.2 fun d hd hNamed => ?_
      have hError := Finding.isError_of_namesField (Bool.and_eq_true_iff.1 hNamed).2
      rw [hClean d hd] at hError
      cases hError
    obtain ⟨hEntries, hMissing⟩ := append_eq_nil_iff.1 hNone
    obtain ⟨hOnce, hDeclared⟩ := nodup_names hFields hEntries
    rw [map_append, names_of_forall₂ (hFilled.imp fun _ _ hEntry => hEntry.1)]
    exact perm_names hNames hOnce (fun name hMem => (hDeclared name hMem).1) (map_eq_nil_iff.1 hMissing)

def givenTwice.fields : List FieldDecl :=
  [⟨"first", 1, false, false⟩, ⟨"second", 1, true, false⟩, ⟨"third", 1, false, false⟩]

def givenTwice.entries : List NamedEntry := [⟨"other", 0, {}⟩, ⟨"first", 1, {}⟩, ⟨"first", 2, {}⟩]

/-- The record at 3 has an undeclared entry, gives a field twice and leaves out two, one of them mandatory. -/
def givenTwice : Session where
  types := ⟨[(1, ⟨"integer", .integer⟩), (2, ⟨"Places", .record givenTwice.fields⟩)]⟩
  store := .ofForms [.ofInteger 1, .ofInteger 2, .ofInteger 3, .named givenTwice.entries]

theorem fields_given_once_givenTwice :
    levelFindings Finding.namesField [] (givenTwice.added (givenTwice.check 3 2 {}).2) =
      [⟨.error (.unknownField "other" "record" "Places"), {}, []⟩, ⟨.error (.duplicateField "first"), {}, []⟩,
        ⟨.error (.missingField "third" "record" "Places"), {}, []⟩] ∧
    ∃ u, (givenTwice.check 3 2 {}).2.store.get? 3 = some u ∧
      ∃ entry : NamedEntry, u.form = .named (givenTwice.entries ++ [entry]) ∧ entry.name = "second" := by
  have hEnds : givenTwice.check 3 2 {} = (.ok {}, (givenTwice.check 3 2 {}).2) :=
    Prod.ext (by decide +kernel) rfl
  obtain ⟨hSaid, u, filled, hNode, hForm, -, hFilled, -⟩ := fields_given_once rfl (.inl rfl) (by decide) rfl rfl rfl rfl
    (not_below_of_leaves (by decide)) rfl hEnds
  refine ⟨(hSaid _ (.refl _)).trans (by decide +kernel), u, hNode, ?_⟩
  obtain ⟨entry, rest, ⟨hName, -⟩, hRest, rfl⟩ := forall₂_cons_left_iff.1 hFilled
  cases hRest
  exact ⟨entry, hForm, hName⟩

end Session

end TemplateCheck
