import TemplateCheck.Proofs.Depth
import TemplateCheck.Proofs.Findings
import TemplateCheck.Proofs.Plain.Trees
import TemplateCheck.Proofs.Scope

/-!
# Fields are checked apart

The fields of a record or set are checked one after the other in the same store. If their templates are plain trees that
share no nodes, none of these checks notices the others: a check changes nothing but the tree that it is given, and it
finds the same in a larger store that holds the same tree. So the record reports field by field what each check would
report alone, and after that what is wrong with the record itself.
-/

namespace TemplateCheck

open Renaming
open List Store

variable {depth : Nat} {report : Report} {decl : TypeDecl} {env : Env} {s s' : Store} {context : List Context}
  {id root : NodeId} {t : Template} {roots ids own : List NodeId} {outcome : Outcome} {after : CheckState}

section Trees

def Store.Shares (s : Store) (ids : List NodeId) (s' : Store) : Prop :=
  ∀ id ∈ ids, ∃ t, s.get? id = some t ∧ t.isPlain ∧ s'.get? id = some t

theorem Store.Shares.lists (h : s.Shares ids s') (hLists : s.Lists roots ids) : s'.Lists roots ids := by
  apply hLists.congr
  intro id hMem t hFound
  obtain ⟨_, hFound', -, hShared⟩ := h id hMem
  cases hFound.symm.trans hFound'
  exact ⟨t, hShared, rfl⟩

theorem Store.Shares.plain (h : s.Shares ids s') : ∀ id ∈ ids, ∀ t, s.get? id = some t → t.isPlain := by
  intro id hMem t hFound
  obtain ⟨_, hFound', hPlain, -⟩ := h id hMem
  cases hFound.symm.trans hFound'
  exact hPlain

theorem Store.Shares.symm (h : s.Shares ids s') : s'.Shares ids s := by
  intro id hMem
  obtain ⟨t, hFound, hPlain, hShared⟩ := h id hMem
  exact ⟨t, hShared, hPlain, hFound⟩

theorem Store.Shares.refl (h : s.Shares ids s') : s.Shares ids s := by
  intro id hMem
  obtain ⟨t, hFound, hPlain, -⟩ := h id hMem
  exact ⟨t, hFound, hPlain, hFound⟩

theorem Store.Shares.left {others : List NodeId} (h : s.Shares (own ++ others) s') : s.Shares own s' :=
  fun id hMem => h id (mem_append_left _ hMem)

theorem Store.Shares.only (h : s.Shares ids s') : (s.only ids).Shares ids s' := by
  intro id hMem
  obtain ⟨t, hFound, hPlain, hShared⟩ := h id hMem
  exact ⟨t, by simp [get?_only, hFound, hMem], hPlain, hShared⟩

theorem Store.Shares.agree (h : s.Shares ids s') (hLists : s.Lists roots ids) (hSize : s.size ≤ s'.size) :
    s.Agree (.shift env.definitions s (s'.size - s.size) (· ∈ ids)) NonePending s' where
  nodes n t hn hFound := by
    have hHas := has_of_get? hFound
    have hMem : n ∈ ids := hn.resolve_right fun hNot => hNot hHas
    obtain ⟨_, hFound', hPlain, hShared⟩ := h n hMem
    cases hFound.symm.trans hFound'
    obtain ⟨hBase, hForm⟩ := Template.isPlain_iff.1 hPlain
    have hChild : ∀ child ∈ t.form.children, child ∈ ids := fun child hChild =>
      hLists.child hMem ⟨t, hFound, hChild⟩
    have hResolved : t.form.resolved? = none := by
      cases hForm' : t.form with
      | referenced => rw [hForm'] at hForm; cases hForm
      | _ => rfl
    refine ⟨t, by rwa [shift_of_has hHas], ?_, ⟨?_, ?_, ?_⟩, ?_, ?_⟩
    · have hSame : t.Kept t := .of_eq rfl
      apply hSame.join hSame
      intro link hLink
      have hLink : link ∈ t.form.children := by simpa [Template.links, hBase, hResolved] using hLink
      exact shift_of_has (hLists.has (hChild link hLink))
    · exact fun child hMem => .inl (hChild child hMem)
    · simp [hResolved]
    · have hMentions : t.form.mentions = [] := by
        unfold Form.mentions
        split <;> simp_all [Form.isPlain]
      simp [hMentions]
    · simp [hBase]
    · intro r hr
      rw [hr] at hForm
      cases hForm
  fresh n hn := .inr hn
  shift := shift_size (by omega)
  size_le := hSize

end Trees

section Alone

variable {type : TypeKey} {site : Site}

def Store.KeepsBeside (id : NodeId) (before after : Store) : Prop :=
  ∀ other t, before.get? other = some t → ¬ before.Below id other → t.form.isDirect → after.get? other = some t

theorem keepsBeside_of_run {result : Except Fault Outcome}
    (hRun : (checkWithin depth id type site env).run ⟨s, report⟩ = (result, after)) : s.KeepsBeside id after.store := by
  have hSteps : Steps (Confined (s.Own id)) env s (checkWithin depth id type site) :=
    confined_checkWithin depth s id type site (s.closed_own id) (.inl .refl)
  intro other t hFound hBeside hDirect
  have hOut : ¬ s.Own id other := by
    rintro (hBelow | hNew)
    · exact hBeside hBelow
    · exact hNew (has_of_get? hFound)
  exact (hSteps report result after hRun).1.get?_eq hOut hFound fun r => Form.ne_referenced_of_isDirect hDirect r none

theorem reports_of_alone (hShares : s.Shares own s') (hLists : s.Lists [root] own) (hSize : s.size ≤ s'.size)
    (hRun : (checkWithin depth root type site env).run ⟨s, report⟩ = (.ok outcome, after)) :
    Reports env s' report.context (checkWithin depth root type site) fun _ s'' found =>
      after.report.diagnostics = report.diagnostics ++ found ∧ s'.KeepsBeside root s'' ∧ s'.size ≤ s''.size := by
  -- Nodes that the check adds come after those of the larger store, so they get other names there.
  have hMem : root ∈ own := hLists.mem_of_root mem_cons_self
  have hRoot : Renaming.shift env.definitions s (s'.size - s.size) (· ∈ own) root = root :=
    shift_of_has (hLists.has hMem)
  have hMirrors := (mirrors_checkWithin (ρ := .shift env.definitions s (s'.size - s.size) (· ∈ own)) depth root type
    site (.inl hMem)).same
  rw [naming_true, hRoot] at hMirrors
  constructor
  intro report' hContext
  have hTwin : Twin (.shift env.definitions s (s'.size - s.size) (· ∈ own)) NonePending report.diagnostics
      report'.diagnostics ⟨s, report⟩ ⟨s', report'⟩ :=
    ⟨hShares.agree hLists hSize, hContext, [], by simp, by simp⟩
  obtain ⟨outcome', after', hRun', -, hTwin'⟩ := hMirrors.run _ _ _ _ outcome after hTwin hRun
  obtain ⟨found, hFound, hFound'⟩ := hTwin'.found
  refine ⟨outcome', after', found, hRun', hFound', hFound, keepsBeside_of_run hRun', ?_⟩
  exact Evolves.size_le (evolves_of_run hRun').store

end Alone

section Entries

variable {fields : List FieldDecl} {entries rest : List NamedEntry} {entry : NamedEntry}
  {field : NamedEntry → FieldDecl} {incomplete : Bool}

def FieldDecl.site (field : FieldDecl) (incomplete : Bool) : Site :=
  { incomplete, allowOmit := field.optional, allowAnyOrOmit := field.optional }

/-- A record or set in assignment notation that gives declared fields, each of them once, by plain trees that
share no nodes. -/
structure Store.Assigns (s : Store) (id : NodeId) (t : Template) (decl : TypeDecl) (fields : List FieldDecl)
    (entries : List NamedEntry) (field : NamedEntry → FieldDecl) : Prop where
  node : s.get? id = some t
  form : t.form = .named entries
  category : decl.category = .record fields ∨ decl.category = .set fields
  names : (entries.map (·.name)).Nodup
  declared : ∀ entry ∈ entries, decl.field? entry.name = some (field entry)
  trees : ∃ ids, s.Lists (entries.map (·.template)) ids ∧ ids.Nodup ∧ ∀ id ∈ ids, ∀ t, s.get? id = some t → t.isPlain

namespace Store.Assigns

theorem not_mem (h : s.Assigns id t decl fields entries field) (hLists : s.Lists (entries.map (·.template)) ids) :
    id ∉ ids := by
  intro hMem
  -- A field would lead down to the record, and the record leads back to the field.
  obtain ⟨root, hRoot, hBelow⟩ := hLists.below_root hMem
  have hChild : s.Child id root := ⟨t, h.node, by rwa [h.form]⟩
  exact hLists.not_cyclic (hLists.mem_of_root hRoot) (.tail' hBelow hChild)

theorem shares (h : s.Assigns id t decl fields entries field) (hEntry : entry ∈ entries)
    (hSame : ∀ n, s.Below entry.template n → s'.get? n = s.get? n) :
    ∃ own, s.Lists [entry.template] own ∧ own.Nodup ∧ s.Shares own s' := by
  obtain ⟨ids, hLists, hNodup, hPlain⟩ := h.trees
  obtain ⟨own, hOwn, hSub⟩ := hLists.of_mem (mem_map_of_mem hEntry)
  refine ⟨own, hOwn, hNodup.sublist hSub, fun n hMem => ?_⟩
  obtain ⟨t', hFound⟩ := (hOwn.has hMem).exists_get?
  obtain ⟨root, hRoot, hBelow⟩ := hOwn.below_root hMem
  cases mem_singleton.1 hRoot
  exact ⟨t', hFound, hPlain n (hSub.mem hMem) t' hFound, (hSame n hBelow).trans hFound⟩

end Store.Assigns

variable {first : Store}

theorem classifyEntries_eq_map {before : List NamedEntry}
    (hDeclared : ∀ entry ∈ entries, decl.field? entry.name = some (field entry))
    (hNames : (entries.map (·.name)).Nodup) (hNew : ∀ entry ∈ entries, ∀ other ∈ before, other.name ≠ entry.name) :
    classifyEntries decl.field? before entries = entries.map fun entry => (entry, .first (field entry)) := by
  induction entries generalizing before with
  | nil => rfl
  | cons entry entries ih =>
    obtain ⟨hHead, hTail⟩ := nodup_cons.1 hNames
    have hFirst : entry.status decl.field? before = .first (field entry) := by
      have hNone : before.find? (·.name = entry.name) = none := by
        simpa using hNew entry mem_cons_self
      simp only [NamedEntry.status, hDeclared entry mem_cons_self, hNone]
    rw [classifyEntries, hFirst, map_cons, ih (fun other hMem => hDeclared other (by simp [hMem])) hTail]
    intro other hMem earlier hEarlier
    obtain rfl | hEarlier := mem_cons.1 hEarlier
    · exact fun hEq => hHead (mem_map.2 ⟨other, hMem, hEq.symm⟩)
    · exact hNew other (mem_cons_of_mem _ hMem) earlier hEarlier

/-- While entries are checked, the trees of those to come are as they were at first. -/
structure Store.Awaits (first : Store) (id : NodeId) (t : Template) (rest : List NamedEntry) (s : Store) : Prop where
  size_le : first.size ≤ s.size
  node : s.get? id = some t
  trees : ∃ ids, first.Lists (rest.map (·.template)) ids ∧ ids.Nodup ∧ id ∉ ids ∧ first.Shares ids s

theorem Store.Assigns.awaits (h : s.Assigns id t decl fields entries field) (governor : TypeKey) :
    s.Awaits id (t.govern governor) entries (s.update id (·.govern governor)) := by
  obtain ⟨ids, hLists, hNodup, hPlain⟩ := h.trees
  have hOut := h.not_mem hLists
  refine ⟨Nat.le_of_eq (size_update ..).symm, by simp [h.node], ids, hLists, hNodup, hOut, fun n hMem => ?_⟩
  obtain ⟨t', hFound⟩ := (hLists.has hMem).exists_get?
  have hNe : n ≠ id := fun hEq => hOut (hEq ▸ hMem)
  exact ⟨t', hFound, hPlain n hMem t' hFound, (get?_update_of_ne hNe).trans hFound⟩

theorem Store.Awaits.next (h : first.Awaits id t (entry :: rest) s) (hDirect : t.form.isDirect)
    (hKept : s.KeepsBeside entry.template s') (hSize : s.size ≤ s'.size) : first.Awaits id t rest s' := by
  obtain ⟨ids, hLists, hNodup, hOut, hShares⟩ := h.trees
  obtain ⟨own, others, hOwn, hOthers, rfl⟩ := hLists.of_cons
  -- What lies below the entry now is what was listed at first.
  have hBelow : ∀ n, s.Below entry.template n → n ∈ own := fun n =>
    (hShares.left.lists hOwn).mem_of_below (hOwn.mem_of_root mem_cons_self)
  refine ⟨Nat.le_trans h.size_le hSize, ?_, others, hOthers, (nodup_append.1 hNodup).2.1, ?_, ?_⟩
  · exact hKept id t h.node (fun hPath => hOut (mem_append_left _ (hBelow id hPath))) hDirect
  · exact fun hMem => hOut (mem_append_right _ hMem)
  · intro n hMem
    obtain ⟨t', hFound, hPlain, hShared⟩ := hShares n (mem_append_right _ hMem)
    refine ⟨t', hFound, hPlain, hKept n t' hShared (fun hPath => ?_) ?_⟩
    · exact (nodup_append.1 hNodup).2.2 n (hBelow n hPath) n hMem rfl
    · exact Form.isDirect_of_isPlain (Template.isPlain_iff.1 hPlain).2

theorem reports_checkField {declared : FieldDecl} (h : first.Awaits id t (entry :: rest) s) (hDirect : t.form.isDirect)
    (hGiven : incomplete = false → ∀ t, first.get? entry.template = some t → t.form ≠ .notUsed)
    (hRun : (checkWithin depth entry.template declared.type (declared.site incomplete) env).run
      ⟨first, report.enter (.field decl.category.name entry.name)⟩ = (.ok outcome, after)) :
    Reports env s report.context (checkField (checkWithin depth) decl incomplete (entry, .first declared))
      fun _ s' found => after.report.diagnostics = report.diagnostics ++ found ∧ first.Awaits id t rest s' := by
  obtain ⟨ids, hLists, -, -, hShares⟩ := h.trees
  obtain ⟨own, others, hOwn, -, rfl⟩ := hLists.of_cons
  obtain ⟨t', hFound, -, hShared⟩ := hShares.left _ (hOwn.mem_of_root mem_cons_self)
  have hChild : Reports env s report.context
      (checkChild (checkWithin depth) (.field decl.category.name entry.name) entry.template declared.type
        (declared.site incomplete))
      fun _ s' found => after.report.diagnostics = report.diagnostics ++ found ∧ first.Awaits id t rest s' := by
    apply (Reports.inside _ (reports_of_alone hShares.left hOwn h.size_le hRun)).bind
    rintro _ s' found ⟨hSame, hKept, hSize⟩
    exact .pure ⟨by rwa [append_nil], h.next hDirect hKept hSize⟩
  apply Reports.formOf_then hShared
  split
  · rename_i hNotUsed
    exact absurd hNotUsed (hGiven rfl t' hFound)
  · exact hChild

/-- The entries that are appended for fields that are left out, whose nodes come after `size` others. -/
def filledEntries (size : Nat) (span : Span) (missing : List FieldDecl) : List NamedEntry :=
  (missing.zipIdx size).map fun (field, index) => { name := field.name, template := ⟨index⟩, span }

theorem attains_alloc_omitted (span : Span) (missing : List FieldDecl) :
    Attains true env s (missing.mapM fun field => do
      let template ← onStore (alloc (implicitOmit field.type span))
      return { name := field.name, template, span := span : NamedEntry }) fun filled s' =>
    filled = filledEntries s.size span missing ∧ s' = ⟨s.nodes ++ missing.map (implicitOmit ·.type span)⟩ := by
  induction missing generalizing s with
  | nil => exact .pure ⟨rfl, by simp⟩
  | cons field missing ih =>
    rw [mapM_cons, bind_assoc]
    have hAlloc : Attains true env s (onStore (alloc (implicitOmit field.type span))) fun new s' =>
        new = s.nextId ∧ s' = s.push (implicitOmit field.type span) := ⟨fun _ => ⟨_, _, rfl, fun _ => rfl, rfl, rfl⟩⟩
    apply hAlloc.bind
    rintro _ _ ⟨rfl, rfl⟩
    rw [pure_bind]
    apply ih.bind
    rintro _ _ ⟨rfl, rfl⟩
    refine .pure ⟨?_, by simp [push]⟩
    rw [size_push]
    rfl

theorem attains_fillOmitted (hNode : s.get? id = some t) (hForm : t.form = .named entries) (missing : List FieldDecl) :
    Attains true env s (fillOmitted id entries missing) fun _ s' =>
      s'.get? id = some { t with form := .named (entries ++ filledEntries s.size t.span missing) } ∧
      ∀ other, other ≠ id → s'.get? other = (s.nodes ++ missing.map (implicitOmit ·.type t.span))[other.index]? := by
  unfold fillOmitted
  split
  · rename_i hEmpty
    obtain rfl := isEmpty_iff.1 hEmpty
    refine .pure ⟨?_, fun other _ => by simp [get?]⟩
    rw [hNode, filledEntries, zipIdx_nil, map_nil, append_nil, ← hForm]
  apply Attains.node_then hNode
  apply (attains_alloc_omitted t.span missing).bind
  rintro _ _ ⟨rfl, rfl⟩
  have hNode' : (mk (s.nodes ++ missing.map (implicitOmit ·.type t.span))).get? id = some t :=
    (getElem?_append_left (lt_size_of_get? hNode)).trans hNode
  have hMay : t.form.mayBecome (.named (entries ++ filledEntries s.size t.span missing)) := by
    simp [hForm, Form.mayBecome, Form.variant]
  apply (Attains.replaceForm hNode' hMay).mono
  rintro _ _ rfl
  exact ⟨get?_update_some hNode' _, fun other hNe => get?_update_of_ne hNe⟩

/-- The fields that a complete record or set leaves out, as they are reported. -/
def omissions (decl : TypeDecl) (fields : List FieldDecl) (entries : List NamedEntry) (incomplete : Bool)
    (span : Span) (context : List Context) : List Diagnostic :=
  if incomplete then []
  else ((missingFields fields entries).filter (!·.optional)).map fun field =>
    ⟨.error (.missingField field.name decl.category.name decl.name), span, context⟩

theorem context_of_mem_omissions {span : Span} {d : Diagnostic}
    (hd : d ∈ omissions decl fields entries incomplete span context) : d.context = context := by
  cases incomplete with
  | true => cases hd
  | false =>
    obtain ⟨field, -, rfl⟩ := mem_map.1 hd
    rfl

theorem reports_checkAssigned {alone : NamedEntry → List Diagnostic}
    (h : first.Awaits id t entries s) (hForm : t.form = .named entries) (hNames : (entries.map (·.name)).Nodup)
    (hDeclared : ∀ entry ∈ entries, decl.field? entry.name = some (field entry))
    (hGiven : incomplete = false → ∀ entry ∈ entries, ∀ t, first.get? entry.template = some t → t.form ≠ .notUsed)
    (hAlone : ∀ entry ∈ entries, ∃ outcome after,
      (checkWithin depth entry.template (field entry).type ((field entry).site incomplete) env).run
          ⟨first, report.enter (.field decl.category.name entry.name)⟩ = (.ok outcome, after) ∧
        after.report.diagnostics = report.diagnostics ++ alone entry) :
    Reports env s report.context (checkAssigned (checkWithin depth) id decl fields entries incomplete)
      fun _ s' found => found = entries.flatMap alone ++
        omissions decl fields entries incomplete t.span report.context ∧ s'.Has id := by
  have hDirect : t.form.isDirect := by rw [hForm]; rfl
  have hEntries : Reports env s report.context
      (checkAny (checkField (checkWithin depth) decl incomplete) (classifyEntries decl.field? [] entries))
      fun _ s' found => found = entries.flatMap alone ∧ first.Awaits id t [] s' := by
    rw [classifyEntries_eq_map hDeclared hNames (by simp), checkAny, foldlM_map]
    apply Reports.checkAny (J := fun rest => first.Awaits id t rest) h
    intro entry hMem rest s' hNext
    obtain ⟨outcome, after, hRun, hFound⟩ := hAlone entry hMem
    apply (reports_checkField hNext hDirect (fun hComplete => hGiven hComplete entry hMem) hRun).mono
    rintro _ s'' found ⟨hSame, hLast⟩
    exact ⟨append_cancel_left (hSame.symm.trans hFound), hLast⟩
  apply hEntries.bind
  rintro selfReference s1 _ ⟨rfl, hDone⟩
  have hMissing : Reports env s1 report.context
      (onlyIf (!incomplete) (((missingFields fields entries).filter (!·.optional)).forM fun field =>
        problemAt id (.missingField field.name decl.category.name decl.name)))
      fun _ s' found => s' = s1 ∧ found = omissions decl fields entries incomplete t.span report.context := by
    cases incomplete with
    | true => exact .pure ⟨rfl, rfl⟩
    | false => exact Reports.forM_problemAt hDone.node _
  apply Reports.node_then hDone.node
  apply hMissing.bind
  rintro _ s1 _ ⟨rfl, rfl⟩
  have hFilled : Attains true env s1 (onlyIf (!(incomplete || t.base.isSome))
      (fillOmitted id entries ((missingFields fields entries).filter (·.optional)))) fun _ s' => s'.Has id := by
    cases incomplete || t.base.isSome with
    | true => exact .pure (has_of_get? hDone.node)
    | false => exact (attains_fillOmitted hDone.node hForm _).mono fun _ _ hFilled => has_of_get? hFilled.1
  apply Reports.attains_then hFilled
  intro _ s2 hHas
  exact .pure ⟨by rw [append_nil], hHas⟩

end Entries

section Node

variable {fields : List FieldDecl} {entries : List NamedEntry} {governor : TypeKey} {site : Site}

/-- The category of a type whose templates give parts by name and have no length. -/
def Category.isNamed : Category → Bool
  | .record _ | .set _ | .signature .. => true
  | _ => false

theorem Category.isNamed_of_fields {category : Category} (h : category = .record fields ∨ category = .set fields) :
    category.isNamed := by
  obtain rfl | rfl := h <;> rfl

theorem reportsHere_checkLengthRestriction (hId : s.Has id) (hDecl : env.types.decl? governor = some decl)
    (hCategory : decl.category.isNamed) :
    ReportsHere env s context (checkLengthRestriction id governor) fun _ s' =>
      s' = s ∨ s' = s.update id (·.mark .lengthChecked) := by
  obtain ⟨t, hNode⟩ := hId.exists_get?
  unfold checkLengthRestriction
  apply Reports.node_then hNode
  split
  · exact ReportsHere.pure (.inl rfl)
  apply ReportsHere.attains_then (Attains.mark hNode .lengthChecked)
  rintro _ _ rfl
  have hId1 : (s.update id (·.mark .lengthChecked)).Has id := has_update.2 hId
  split
  · apply ((remarks_foldBounds _).reportsHere hId1).bind
    rintro bounds _ rfl
    apply Reports.read_then
    simp only [hDecl]
    cases hKind : decl.category with
    | record | set | signature => exact (ReportsHere.problemAt hId1 rfl).mono fun _ _ hSame => .inr hSame
    | _ => simp [hKind, Category.isNamed] at hCategory
  · exact ReportsHere.pure (.inr rfl)

theorem reportsHere_checkModifiers (hId : s.Has id) (hDecl : env.types.decl? governor = some decl)
    (hCategory : decl.category.isNamed) :
    ReportsHere env s context (checkModifiers id governor site) fun _ s' =>
      s' = s ∨ s' = s.update id (·.mark .lengthChecked) := by
  obtain ⟨t, hNode⟩ := hId.exists_get?
  apply Reports.node_then hNode
  apply (ReportsHere.onlyIf (reportsHere_checkLengthRestriction hId hDecl hCategory) (.inl rfl)).bind
  intro _ s1 hSame
  have hId1 : s1.Has id := by
    obtain rfl | rfl := hSame
    · exact hId
    · exact has_update.2 hId
  exact .onlyIf ((ReportsHere.problemAt hId1 rfl).mono fun _ _ hEq => hEq ▸ hSame) hSame

theorem reports_checkGoverned {check : ChildCheck} {flatten : Flattening} {reported : List Diagnostic}
    (hNode : s.get? id = some t) (hForm : t.form = .named entries) (hDecl : env.types.decl? governor = some decl)
    (hCategory : decl.category = .record fields ∨ decl.category = .set fields)
    (h : Reports env s context (checkAssigned check id decl fields entries site.incomplete)
      fun _ s' found => found = reported ∧ s'.Has id) :
    Reports env s context (checkGoverned check flatten id governor decl site)
      fun _ _ found => ∃ rest, found = reported ++ rest ∧ ∀ d ∈ rest, d.context = context := by
  have hFields : Reports env s context (checkForm check flatten id governor decl site)
      fun _ s' found => found = reported ∧ s'.Has id := by
    apply Reports.formOf_then hNode
    rw [hForm]
    unfold checkByCategory
    obtain hCategory | hCategory := hCategory <;>
    · rw [hCategory]
      apply Reports.formOf_then hNode
      rw [hForm]
      exact h
  rw [checkGoverned_eq]
  apply Reports.attains_then (Attains.beforeForm_structured hNode site (by rw [hForm]; rfl))
  rintro _ _ rfl
  apply hFields.bind
  rintro selfReference s1 _ ⟨rfl, hId⟩
  apply Reports.bind (reportsHere_checkModifiers hId hDecl (Category.isNamed_of_fields hCategory))
  rintro _ s2 rest ⟨hRest, hSame⟩
  have hId2 : s2.Has id := by
    obtain rfl | rfl := hSame
    · exact hId
    · exact has_update.2 hId
  obtain ⟨t2, hNode2⟩ := hId2.exists_get?
  have hEnd : Attains true env s2 (do return { selfReference, erroneous := ← isErroneous id : Outcome })
      fun _ _ => True := .isErroneous_then hNode2 (.pure trivial)
  apply (Reports.of_attains hEnd).mono
  rintro _ _ _ ⟨rfl, -⟩
  exact ⟨rest, by rw [append_nil], fun d hd => (hRest d hd).1⟩

end Node

section Contexts

variable {category : String} {entries : List NamedEntry} {entry : NamedEntry} {alone : NamedEntry → List Diagnostic}
  {rest : List Diagnostic}

theorem eq_of_append_singleton_prefix {α : Type} {first whole : List α} {a b : α} (ha : first ++ [a] <+: whole)
    (hb : first ++ [b] <+: whole) : a = b := by
  obtain ⟨x, rfl⟩ := ha
  obtain ⟨y, hEq⟩ := hb
  simp only [append_assoc, append_cancel_left_eq, singleton_append, cons.injEq] at hEq
  exact hEq.1.symm

theorem flatMap_eq_of_names {f : NamedEntry → List Diagnostic} (hNames : (entries.map (·.name)).Nodup)
    (hEntry : entry ∈ entries) (hOther : ∀ other ∈ entries, other.name ≠ entry.name → f other = []) :
    entries.flatMap f = f entry := by
  induction entries with
  | nil => cases hEntry
  | cons head tail ih =>
    obtain ⟨hHead, hTail⟩ := nodup_cons.1 hNames
    have hApart : ∀ other ∈ tail, other.name ≠ head.name := fun other hMem hEq =>
      hHead (mem_map.2 ⟨other, hMem, hEq⟩)
    rw [flatMap_cons]
    obtain rfl | hEntry := mem_cons.1 hEntry
    · rw [flatMap_eq_nil_iff.2 fun other hMem => hOther other (by simp [hMem]) (hApart other hMem), append_nil]
    · rw [hOther head (by simp) (hApart entry hEntry).symm, nil_append]
      exact ih hTail hEntry fun other hMem => hOther other (by simp [hMem])

theorem filter_entry (hNames : (entries.map (·.name)).Nodup)
    (hAlone : ∀ entry ∈ entries, ∀ d ∈ alone entry, context ++ [.field category entry.name] <+: d.context)
    (hRest : ∀ d ∈ rest, d.context = context) (hEntry : entry ∈ entries) :
    (entries.flatMap alone ++ rest).filter (fun d => context ++ [.field category entry.name] <+: d.context) =
      alone entry := by
  have hOwn : (alone entry).filter (fun d => context ++ [.field category entry.name] <+: d.context) = alone entry :=
    filter_eq_self.2 fun d hd => decide_eq_true (hAlone entry hEntry d hd)
  have hNone : rest.filter (fun d => context ++ [.field category entry.name] <+: d.context) = [] := by
    refine filter_eq_nil_iff.2 fun d hd hUnder => ?_
    have hLength := (of_decide_eq_true hUnder).length_le
    rw [hRest d hd, length_append, length_singleton] at hLength
    omega
  rw [filter_append, filter_flatMap, hNone, append_nil, flatMap_eq_of_names hNames hEntry, hOwn]
  intro other hMem hNe
  refine filter_eq_nil_iff.2 fun d hd hUnder => hNe ?_
  have hEq := eq_of_append_singleton_prefix (hAlone other hMem d hd) (of_decide_eq_true hUnder)
  simpa using hEq

end Contexts

namespace Session

variable {s : Session} {entry : NamedEntry}

def added (s after : Session) : List Diagnostic := after.report.diagnostics.drop s.report.diagnostics.length

/-- Check the template of a field, and nothing else, in the context of that field. -/
def checkEntry (s : Session) (decl : TypeDecl) (incomplete : Bool) (entry : NamedEntry) (field : FieldDecl) :
    Except Fault Outcome × Session :=
  (s.enter (.field decl.category.name entry.name)).check entry.template field.type (field.site incomplete)

theorem check_of_run (s : Session) {type : TypeKey} {site : Site} (hLimit : depth ≤ s.limit)
    (hRun : (checkWithin depth root type site s.env).run ⟨s.store, s.report⟩ = (.ok outcome, after)) :
    s.check root type site = (.ok outcome, { s with store := after.store, report := after.report }) :=
  run_of_run (run_checkWithin_of_le hLimit hRun)

/-- The check of a plain field alone ends with a result and reports in the context of the field. It needs no more
levels than the tree has. -/
theorem exists_checkEntry
    (hLists : s.store.Lists [entry.template] own) (hShares : s.store.Shares own s.store) (hDepth : own.length < depth)
    (hLimit : depth ≤ s.limit) (decl : TypeDecl) (incomplete : Bool) (field : FieldDecl) :
    ∃ outcome after, (checkWithin depth entry.template field.type (field.site incomplete) s.env).run
        ⟨s.store, s.report.enter (.field decl.category.name entry.name)⟩ = (.ok outcome, after) ∧
      (s.checkEntry decl incomplete entry field).1 = .ok outcome ∧
      after.report.diagnostics = s.report.diagnostics ++ s.added (s.checkEntry decl incomplete entry field).2 ∧
      ∀ d ∈ s.added (s.checkEntry decl incomplete entry field).2,
        s.report.context ++ [.field decl.category.name entry.name] <+: d.context := by
  obtain ⟨_, _, hAlone⟩ := exists_run_only hLists hShares.plain hDepth field.type (field.site incomplete)
    (s.report.enter (.field decl.category.name entry.name))
  obtain ⟨outcome, after, -, hRun, -⟩ := (reports_of_alone hShares.only hLists.only (Nat.le_of_eq size_only)
    hAlone).run (s.report.enter (.field decl.category.name entry.name)) rfl
  have hExtends := (evolves_of_run hRun).report
  have hCheck : s.checkEntry decl incomplete entry field =
      (.ok outcome, { s with store := after.store, report := after.report }) :=
    (s.enter (.field decl.category.name entry.name)).check_of_run hLimit hRun
  rw [hCheck]
  refine ⟨outcome, after, hRun, rfl, (prefix_iff_eq_append.1 hExtends.keeps).symm, fun d hd => ?_⟩
  exact hExtends.context_le hd

theorem added_checkEntry_eq {u : Session} (hEnv : u.env = s.env)
    (hContext : u.report.context = s.report.context) (hLists : s.store.Lists [entry.template] own)
    (hNodup : own.Nodup) (hShares : s.store.Shares own u.store) (hSize : s.store.size ≤ u.store.size)
    (decl : TypeDecl) (incomplete : Bool) (field : FieldDecl) : u.added (u.checkEntry decl incomplete entry field).2 =
      s.added (s.checkEntry decl incomplete entry field).2 := by
  have hHeight := hLists.length_le hNodup
  have hLimit := s.size_lt_limit
  have hLimit' := u.size_lt_limit
  have hDepth := Nat.lt_succ_self own.length
  obtain ⟨outcome, after, hRun, -, hFound, -⟩ := exists_checkEntry hLists hShares.refl hDepth (by omega) decl
    incomplete field
  obtain ⟨outcome', after', hRun', -, hFound', -⟩ := exists_checkEntry (hShares.lists hLists) hShares.symm.refl
    hDepth (by omega) decl incomplete field
  rw [hEnv] at hRun'
  obtain ⟨_, _, found, hSame, hAppended, hAlone, -⟩ := (reports_of_alone hShares hLists hSize hRun).run
    (u.report.enter (.field decl.category.name entry.name)) (by simp only [Report.enter, hContext])
  cases hRun'.symm.trans hSame
  have hOwn := append_cancel_left (hFound.symm.trans hAlone)
  have hOther := append_cancel_left (hFound'.symm.trans hAppended)
  rw [hOwn, hOther]

/-- The check of a record or set whose fields are plain trees that share no nodes: it reports for each field what
the check of that field alone reports, in the order of the fields, then the missing fields, then what is wrong with
the template as a whole. -/
theorem fields_checked_apart {s : Session} {id : NodeId} {t : Template} {governor : TypeKey} {decl : TypeDecl}
    {fields : List FieldDecl} {entries : List NamedEntry} {field : NamedEntry → FieldDecl} {site : Site}
    (h : s.store.Assigns id t decl fields entries field) (hUnchecked : t.marks.checked = false)
    (hDecl : s.types.decl? governor = some decl)
    (hGiven : site.incomplete = false → ∀ entry ∈ entries, ∀ t, s.store.get? entry.template = some t →
      t.form ≠ .notUsed) :
    let after := (s.check id governor site).2
    let alone := fun entry => s.added (s.checkEntry decl site.incomplete entry (field entry)).2
    ∃ outcome rest, (s.check id governor site).1 = .ok outcome ∧
      (∀ entry ∈ entries, ∃ outcome, (s.checkEntry decl site.incomplete entry (field entry)).1 = .ok outcome) ∧
      s.added after = entries.flatMap alone ++
        (omissions decl fields entries site.incomplete t.span s.report.context ++ rest) ∧
      (∀ d ∈ rest, d.context = s.report.context) ∧
      ∀ entry ∈ entries, (s.added after).filter
        (fun d => s.report.context ++ [.field decl.category.name entry.name] <+: d.context) = alone entry ∧
        ∀ u : Session, u.env = s.env → u.report.context = s.report.context →
          (∀ n, s.store.Below entry.template n → u.store.get? n = s.store.get? n) →
          u.added (u.checkEntry decl site.incomplete entry (field entry)).2 = alone entry := by
  intro _ alone
  have hSize := s.size_lt_limit
  -- The record takes a level of its own, so a field has one level less than alone.
  obtain ⟨depth, hDepth⟩ : ∃ n, s.limit = n + 1 := ⟨s.limit - 1, by omega⟩
  have hLess : depth ≤ s.limit := by omega
  have hAlone : ∀ entry ∈ entries, _ := fun entry hMem =>
    have ⟨_, hOwn, hNodup, hShares⟩ := h.shares hMem fun _ _ => rfl
    have hHeight := hOwn.length_le hNodup
    exists_checkEntry hOwn hShares (by omega) hLess decl site.incomplete (field entry)
  have hCategory : decl.category ≠ .erroneous ∧ decl.category ≠ .port := by
    obtain hRecord | hSet := h.category
    · simp [hRecord]
    · simp [hSet]
  have hReports : Reports s.env s.store s.report.context (checkWithin s.limit id governor site) fun _ _ found =>
      ∃ rest, found = entries.flatMap alone ++
        omissions decl fields entries site.incomplete t.span s.report.context ++ rest ∧
        ∀ d ∈ rest, d.context = s.report.context := by
    rw [hDepth, checkWithin]
    apply Reports.checkStep h.node hUnchecked hDecl hCategory.1 hCategory.2
    have hAwaits := h.awaits governor
    apply reports_checkGoverned hAwaits.node h.form hDecl h.category
    apply reports_checkAssigned hAwaits h.form h.names h.declared hGiven
    intro entry hMem
    obtain ⟨outcome, after, hRun, -, hFound, -⟩ := hAlone entry hMem
    exact ⟨outcome, after, hRun, hFound⟩
  obtain ⟨outcome, after, found, hRun, hAppended, rest, rfl, hRest⟩ := hReports.run s.report rfl
  have hCheck := s.check_of_run (Nat.le_refl _) hRun
  have hAdded : s.added (s.check id governor site).2 = entries.flatMap alone ++
      (omissions decl fields entries site.incomplete t.span s.report.context ++ rest) := by
    rw [hCheck, added, hAppended, drop_left, append_assoc]
  refine ⟨outcome, rest, congrArg Prod.fst hCheck, fun entry hMem => ?_, hAdded, hRest, fun entry hMem => ⟨?_, ?_⟩⟩
  · obtain ⟨outcome, -, -, hEnds, -⟩ := hAlone entry hMem
    exact ⟨outcome, hEnds⟩
  · refine (congrArg _ hAdded).trans (filter_entry h.names (fun entry hMem => ?_) (fun d hd => ?_) hMem)
    · obtain ⟨-, -, -, -, -, hUnder⟩ := hAlone entry hMem
      exact hUnder
    · exact (mem_append.1 hd).elim context_of_mem_omissions (hRest d)
  · intro u hEnv hContext hSame
    obtain ⟨own, hOwn, hNodup, hShares⟩ := h.shares hMem hSame
    obtain hSize | hSize := Nat.le_total s.store.size u.store.size
    · exact added_checkEntry_eq hEnv hContext hOwn hNodup hShares hSize ..
    · exact (added_checkEntry_eq hEnv.symm hContext.symm (hShares.lists hOwn) hNodup hShares.symm hSize ..).symm

def wrongTwice.fields : List FieldDecl :=
  [⟨"total", 1, false, false⟩, ⟨"parts", 2, false, false⟩, ⟨"unit", 1, false, false⟩]

def wrongTwice.entries : List NamedEntry := [⟨"total", 0, {}⟩, ⟨"parts", 3, {}⟩]

/-- The sum at 4 gives a truth value for a number and a list that is too long, and leaves out a field. -/
def wrongTwice : Session where
  types := ⟨Registry.numbers.entries ++ [(3, ⟨"Sum", .record wrongTwice.fields⟩)]⟩
  store := ⟨[{ form := .specific (.boolean true) }, { form := .ofInteger 1 },
    { form := .ofInteger 2 },
    { form := .ofItems [1, 2], length := some (.single (.integer 1)) },
    { form := .named wrongTwice.entries }]⟩
  report := { context := [.component 1] }

def wrongTwice.field (entry : NamedEntry) : FieldDecl :=
  ⟨entry.name, if entry.name = "total" then 1 else 2, false, false⟩

theorem wrongTwice.assigns : wrongTwice.store.Assigns 4 { form := .named entries } ⟨"Sum", .record fields⟩ fields
    entries field where
  node := rfl
  form := rfl
  category := .inl rfl
  names := by decide
  declared := by decide +kernel
  trees := by
    have hLists : wrongTwice.store.Lists [0, 3] [0, 3, 1, 2] :=
      lists_of_mapM (fun _ _ => lists_of_preorderWithin)
        (rfl : [0, 3].mapM (wrongTwice.store.preorderWithin 2) = .ok [[0], [3, 1, 2]])
    refine ⟨[0, 3, 1, 2], hLists, by decide, fun id hMem t hFound => ?_⟩
    simp only [mem_cons, not_mem_nil, or_false] at hMem
    obtain rfl | rfl | rfl | rfl := hMem <;>
    · cases hFound
      rfl

theorem wrongTwice.given : ∀ entry ∈ entries, ∀ t, wrongTwice.store.get? entry.template = some t →
    t.form ≠ .notUsed := by
  intro entry hMem t hFound
  simp only [entries, mem_cons, not_mem_nil, or_false] at hMem
  obtain rfl | rfl := hMem <;>
  · cases hFound
    nofun

/-- Three errors are reported; those of the list are the ones that its check alone reports. -/
theorem fields_checked_apart_wrongTwice :
    let after := (wrongTwice.check 4 3 {}).2
    (wrongTwice.added after).length = 3 ∧
    (wrongTwice.added after).filter (fun d => [.component 1, .field "record" "parts"] <+: d.context) =
      wrongTwice.added (wrongTwice.checkEntry ⟨"Sum", .record wrongTwice.fields⟩ false ⟨"parts", 3, {}⟩
        ⟨"parts", 2, false, false⟩).2 := by
  obtain ⟨outcome, rest, -, -, -, -, hEntries⟩ := @fields_checked_apart wrongTwice 4 _ 3 _ _ _ _ {}
    wrongTwice.assigns rfl rfl fun _ => wrongTwice.given
  exact ⟨by decide +kernel, (hEntries ⟨"parts", 3, {}⟩ (by simp [wrongTwice.entries])).1⟩

end Session

end TemplateCheck
