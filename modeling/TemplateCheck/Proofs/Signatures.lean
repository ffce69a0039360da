import TemplateCheck.Proofs.Completeness

/-!
# Parameters in order, and parameters that are not given

The parameters of a signature are given in the order of their declarations. One pass keeps the least position that the
next entry may have. It is lost at the first entry out of place, so this is said once, and it is said if and only if the
positions do not increase from each name to the next new one. Whether all parameters are given is judged afterwards, by
what the entries have become.
-/

namespace TemplateCheck

open List Store

variable {env : Env} {st : CheckState} {decl : TypeDecl} {params missing : List ParamDecl}
  {entries before : List NamedEntry} {context : List Context} {span : Span} {id : NodeId} {t : Template}
  {incomplete : Bool} {order : EntryOrder} {items : List (NamedEntry × EntryStatus (ParamDecl × Nat))} {name : String}
  {s : Store}

section Entries

def duplicateFindings (decl : TypeDecl) (context : List Context) :
    NamedEntry × EntryStatus (ParamDecl × Nat) → List Diagnostic
  | (entry, .repeated _) => [⟨.error (.duplicateParameter entry.name decl.name), entry.span, context⟩]
  | _ => []

def unexpectedFindings (context : List Context) (order : EntryOrder)
    (item : NamedEntry × EntryStatus (ParamDecl × Nat)) : List Diagnostic :=
  if order.isBrokenBy item.2 then [⟨.error (.unexpectedParameter item.1.name), item.1.span, context⟩] else []

def orderFindings (context : List Context) :
    EntryOrder → List (NamedEntry × EntryStatus (ParamDecl × Nat)) → List Diagnostic
  | _, [] => []
  | order, item :: items => unexpectedFindings context order item ++ orderFindings context (order.next item.2) items

/-- What is said about parameters, told apart: entries that give one again, an entry out of order, and what makes the
signature incomplete. -/
structure Told (again early faults own : List Diagnostic) : Prop where
  again : own.filter (·.finding.isDuplicateParameter) = again
  early : own.filter (·.finding.isUnexpectedParameter) = early
  faults : own.filter (·.finding.isIncompleteSignature) = faults

theorem Told.append {again early faults own again' early' faults' own' : List Diagnostic}
    (h : Told again early faults own) (h' : Told again' early' faults' own') :
    Told (again ++ again') (early ++ early') (faults ++ faults') (own ++ own') where
  again := by rw [filter_append, h.again, h'.again]
  early := by rw [filter_append, h.early, h'.early]
  faults := by rw [filter_append, h.faults, h'.faults]

theorem says_checkParameter (check : ChildCheck) (item : NamedEntry × EntryStatus (ParamDecl × Nat)) :
    Says Finding.namesParameter env st (checkParameter check decl incomplete order item) fun _ _ own =>
      Told (duplicateFindings decl st.report.context item) (unexpectedFindings st.report.context order item) []
        own := by
  have hNone {own : List Diagnostic} (h : own = []) : Told [] [] [] own := by
    subst h
    exact ⟨rfl, rfl, rfl⟩
  obtain ⟨entry, status⟩ := item
  cases status with
  | undeclared => exact (Says.of_silent ((Silent.tell rfl).bind fun _ => .pure _)).mono fun _ _ _ => hNone
  | repeated previous =>
    apply (says_problem_note entry.span rfl _ rfl).mono
    rintro _ _ _ rfl
    exact ⟨rfl, rfl, rfl⟩
  | first param =>
    have hChild : Silent Finding.namesParameter (checkChild check (.parameter param.1.name) entry.template param.1.type
        { incomplete, allowOmit := false, allowAnyOrOmit := false }) := (Silent.inside _ _).bind fun _ => .pure _
    rw [checkParameter]
    cases hBroken : order.isBrokenBy (.first param) with
    | false =>
      simp only [unexpectedFindings, hBroken, onlyIf, Bool.false_eq_true, if_false, pure_bind]
      exact (Says.of_silent hChild).mono fun _ _ _ => hNone
    | true =>
      simp only [unexpectedFindings, hBroken, onlyIf, if_true]
      apply (Says.of_reports (Reports.tell entry.span (.error (.unexpectedParameter entry.name)))).bind
      rintro _ st' _ - ⟨_, rfl, -, rfl⟩
      apply (Says.of_silent hChild).mono
      rintro _ _ _ rfl
      rw [append_nil]
      constructor <;> simp [levelFindings, duplicateFindings, Finding.namesParameter, Finding.isUnexpectedParameter,
          Finding.isDuplicateParameter, Finding.isIncompleteSignature]

theorem says_checkParameters (check : ChildCheck) : Says Finding.namesParameter env st
    (checkParameters check decl incomplete order items) fun _ _ own =>
      Told (items.flatMap (duplicateFindings decl st.report.context)) (orderFindings st.report.context order items) []
        own := by
  induction items generalizing st order with
  | nil => exact .pure ⟨rfl, rfl, rfl⟩
  | cons item items ih =>
    apply (says_checkParameter check item).bind
    intro one st' own hContext hItem
    apply ih.bind
    intro others st'' more _ hItems
    rw [hContext] at hItems
    exact .pure (by simpa [orderFindings] using hItem.append hItems)

end Entries

section Given

/-- The first entry of that name is not left open. -/
def Store.GivesParameter (s : Store) (entries : List NamedEntry) (name : String) : Prop :=
  ∃ entry t, entries.find? (·.name = name) = some entry ∧ s.get? entry.template = some t ∧ t.form ≠ .notUsed

variable {about : Finding → Bool}

theorem says_givesParameter : Says about env st (givesParameter entries name)
    fun given after own => own = [] ∧ after.store = st.store ∧ (given ↔ st.store.GivesParameter entries name) := by
  unfold givesParameter
  split
  · rename_i hNone
    exact .pure ⟨rfl, rfl, by simp [GivesParameter, hNone]⟩
  · rename_i entry hEntry
    have hForm : Returns false env st.store (formOf entry.template) fun form s' =>
        s' = st.store ∧ ∃ t, st.store.get? entry.template = some t ∧ t.form = form :=
      Concludes.node_then fun t hNode => .pure ⟨rfl, t, hNode, rfl⟩
    apply Says.mute_then (Silent.formOf entry.template) hForm
    rintro form st' - ⟨hStore, t, hNode, rfl⟩
    split
    · rename_i hForm
      exact .pure ⟨rfl, hStore, by simp [GivesParameter, hEntry, hNode, hForm]⟩
    · rename_i hForm
      exact .pure ⟨rfl, hStore, by simpa [GivesParameter, hEntry, hNode] using hForm⟩

theorem says_filterM {α : Type} {xs : List α} {f : α → CheckM Bool} {keep : α → Prop}
    (h : ∀ a st', st'.store = st.store → Says about env st' (f a) fun kept after own =>
      own = [] ∧ after.store = st.store ∧ (kept ↔ keep a)) :
    Says about env st (xs.filterM f) fun kept after own =>
      own = [] ∧ after.store = st.store ∧ ∀ a, a ∈ kept ↔ a ∈ xs ∧ keep a := by
  have hAux : ∀ st' done, st'.store = st.store → Says about env st' (xs.filterAuxM f done) fun kept after own =>
      own = [] ∧ after.store = st.store ∧ ∀ a, a ∈ kept ↔ a ∈ done ∨ a ∈ xs ∧ keep a := by
    induction xs with
    | nil => exact fun st' done hStore => .pure ⟨rfl, hStore, by simp⟩
    | cons x xs ih =>
      intro st' done hStore
      apply (h x st' hStore).bind
      rintro b st1 _ - ⟨rfl, hStore1, hKeep⟩
      apply (ih st1 _ hStore1).mono
      rintro kept st2 own ⟨rfl, hStore2, hKept⟩
      refine ⟨rfl, hStore2, fun a => (hKept a).trans ?_⟩
      cases b <;> grind
  apply (hAux st [] rfl).bind
  rintro kept st' _ - ⟨rfl, hStore, hKept⟩
  exact .pure ⟨rfl, hStore, by simpa using hKept⟩

theorem isIncompleteSignature_of_mem {p : Problem} (h : p ∈ incompleteSignature missing) :
    (Finding.error p).isIncompleteSignature := by
  obtain hInout | hBoth := mem_append.1 h
  · obtain ⟨param, -, rfl⟩ := mem_map.1 hInout
    rfl
  · split at hBoth
    · cases mem_singleton.1 hBoth
      rfl
    · cases hBoth

/-- What is said of a signature, and of the parameters that are not given in the end. -/
def Store.JudgesSignature (s : Store) (decl : TypeDecl) (params : List ParamDecl) (entries : List NamedEntry)
    (incomplete : Bool) (span : Span) (context : List Context) (own : List Diagnostic) : Prop :=
  ∃ faults, Told ((classifyEntries (parameter? params) [] entries).flatMap (duplicateFindings decl context))
      (orderFindings context (some 0) (classifyEntries (parameter? params) [] entries)) faults own ∧
    if incomplete then faults = []
    else ∃ missing, (∀ param, param ∈ missing ↔ param ∈ params ∧ ¬ s.GivesParameter entries param.name) ∧
      faults = (incompleteSignature missing).map (⟨.error ·, span, context⟩)

theorem told_incompleteSignature (missing : List ParamDecl) :
    Told [] [] ((incompleteSignature missing).map (⟨.error ·, span, context⟩))
      (levelFindings Finding.namesParameter context
        ((incompleteSignature missing).map (⟨.error ·, span, context⟩))) := by
  have hEach : ∀ d ∈ (incompleteSignature missing).map (⟨.error ·, span, context⟩ : Problem → Diagnostic),
      d.context = context ∧ d.finding.isIncompleteSignature :=
    forall_mem_map.2 fun p hp => ⟨rfl, isIncompleteSignature_of_mem hp⟩
  have hOnly {finding : Finding} (h : finding.isIncompleteSignature) :
      finding.isUnexpectedParameter = false ∧ finding.isDuplicateParameter = false := by
    revert h
    unfold Finding.isIncompleteSignature
    split <;> simp [Finding.isUnexpectedParameter, Finding.isDuplicateParameter]
  have hSelf : levelFindings Finding.namesParameter context
      ((incompleteSignature missing).map (⟨.error ·, span, context⟩)) =
        (incompleteSignature missing).map (⟨.error ·, span, context⟩) :=
    filter_eq_self.2 fun d hd => by simp [Finding.namesParameter, hEach d hd]
  rw [hSelf]
  refine ⟨filter_eq_nil_iff.2 fun d hd => ?_, filter_eq_nil_iff.2 fun d hd => ?_,
    filter_eq_self.2 fun d hd => (hEach d hd).2⟩
  · simp [(hOnly (hEach d hd).2).2]
  · simp [(hOnly (hEach d hd).2).1]

theorem says_checkCompleteSignature (hNode : st.store.get? id = some t) : Says Finding.namesParameter env st
    (checkCompleteSignature id params entries) fun _ after own => after.store = st.store ∧
      ∃ missing, (∀ param, param ∈ missing ↔ param ∈ params ∧ ¬ st.store.GivesParameter entries param.name) ∧
        Told [] [] ((incompleteSignature missing).map (⟨.error ·, t.span, st.report.context⟩)) own := by
  have hGives (param : ParamDecl) (st' : CheckState) (hStore : st'.store = st.store) :
    Says Finding.namesParameter env st'
      (do return !(← givesParameter entries param.name)) fun missing after own =>
        own = [] ∧ after.store = st.store ∧ (missing ↔ ¬ st.store.GivesParameter entries param.name) := by
    apply says_givesParameter.bind
    rintro given st1 _ - ⟨rfl, hStore1, hGiven⟩
    rw [hStore] at hStore1 hGiven
    exact .pure ⟨rfl, hStore1, by simp [← hGiven]⟩
  apply (says_filterM hGives).bind
  rintro missing st1 _ hContext ⟨rfl, hStore, hMissing⟩
  apply (Says.of_reports (Reports.forM_problemAt (hStore ▸ hNode) fun p => p)).mono
  rintro _ after _ ⟨_, rfl, hSame, rfl⟩
  rw [hContext]
  exact ⟨hSame.trans hStore, missing, hMissing, told_incompleteSignature missing⟩

/-- A signature is judged by the entries as they are after each of them has been checked. -/
theorem says_checkGivenParameters {check : ChildCheck} {D : NodeId → Prop} (hCheck : check.Confined D env)
    (hClosed : st.store.Closed D) (hOut : ¬ D id) (hEntries : ∀ entry ∈ entries, D entry.template)
    (hNode : st.store.get? id = some t) (hForm : t.form = .named entries) :
    Says Finding.namesParameter env st (checkGivenParameters check id decl params entries incomplete) fun _ after own =>
      after.store.Has id ∧ after.store.JudgesSignature decl params entries incomplete t.span st.report.context own := by
  have hSteps : Steps (Confined D) env st.store
      (checkParameters check decl incomplete (some 0) (classifyEntries (parameter? params) [] entries)) :=
    (checking_confined D env).checkParameters (c := fun _ => check) (fun id type site hId s hClosed =>
      hCheck s id type site hClosed hId) (fun _ hItem => hEntries _ (mem_of_mem_classifyEntries hItem)) decl incomplete
      (some 0) st.store hClosed
  apply ((says_checkParameters check).and_returns (Concludes.of_moves hSteps)).bind
  rintro selfReference st1 own hContext ⟨hTold, hConfined, -⟩
  -- The signature itself does not lie below its parameters, so it is as it was.
  have hNode1 : st1.store.get? id = some t := hConfined.get?_eq hOut hNode (by simp [hForm])
  cases incomplete with
  | true => exact .pure ⟨has_of_get? hNode1, [], by rwa [append_nil], rfl⟩
  | false =>
    apply (says_checkCompleteSignature hNode1).bind
    rintro _ st2 more - ⟨hStore, missing, hMissing, hFaults⟩
    rw [← hStore] at hMissing hNode1
    rw [hContext] at hFaults
    exact .pure ⟨has_of_get? hNode1, _, by simpa using hTold.append hFaults, missing, hMissing, rfl⟩

theorem Store.gives_mark : (s.update id (·.mark .lengthChecked)).GivesParameter entries name ↔
    s.GivesParameter entries name := by
  constructor
  · rintro ⟨entry, u, hEntry, hFound, hForm⟩
    obtain ⟨hSame, -⟩ | ⟨hEq, v, hOld, rfl⟩ := get?_update_cases hFound
    · exact ⟨entry, u, hEntry, hSame, hForm⟩
    · exact ⟨entry, v, hEntry, hEq ▸ hOld, hForm⟩
  · rintro ⟨entry, u, hEntry, hFound, hForm⟩
    by_cases hEq : entry.template = id
    · subst hEq
      exact ⟨entry, _, hEntry, get?_update_some hFound _, hForm⟩
    · exact ⟨entry, u, hEntry, (get?_update_of_ne hEq).trans hFound, hForm⟩

theorem says_checkWithin_signature (depth : Nat) {governor : TypeKey} {site : Site} {returns : Option TypeKey}
    {exceptions : List TypeKey} (hDecl : env.types.decl? governor = some decl)
    (hCategory : decl.category = .signature params returns exceptions) (hNode : st.store.get? id = some t)
    (hForm : t.form = .named entries) (hUnchecked : t.marks.checked = false)
    (hAcyclic : ∀ entry ∈ entries, ¬ st.store.Below entry.template id) :
    Says Finding.namesParameter env st (checkWithin (depth + 1) id governor site) fun _ after own =>
      after.store.Has id ∧
        after.store.JudgesSignature decl params entries site.incomplete t.span st.report.context own := by
  refine says_checkNamed depth (Q := fun s own => s.Has id ∧
    s.JudgesSignature decl params entries site.incomplete t.span
    st.report.context own) (fun _ => Finding.namesParameter_of_isOrdinary) hDecl (by rw [hCategory]; rfl) hNode hForm
    hUnchecked ?_ ?_
  · rintro s own ⟨hHas, hOwn⟩
    refine ⟨hHas, has_update.2 hHas, ?_⟩
    simpa only [JudgesSignature, gives_mark] using hOwn
  have hClosed := st.store.closed_not_below (has_of_get? hNode) (·.govern governor)
  have hGiven := @says_checkGivenParameters env ⟨st.store.update id (·.govern governor), st.report⟩ decl params entries
    id (t.govern governor) site.incomplete (checkWithin depth) _ (confined_checkWithin depth) hClosed
    (not_not.2 .refl) hAcyclic (get?_update_some hNode _) hForm
  unfold checkByCategory
  rw [hCategory]
  apply Says.formOf_then (get?_update_some hNode _)
  simpa only [Template.govern, hForm] using hGiven

end Given

section Order

def firstPositions (items : List (NamedEntry × EntryStatus (ParamDecl × Nat))) : List Nat :=
  items.filterMap fun
    | (_, .first (_, position)) => some position
    | _ => none

theorem orderFindings_lost : orderFindings context none items = [] := by
  induction items with
  | nil => rfl
  | cons item items ih => obtain ⟨entry, _ | _ | _⟩ := item <;> exact ih

/-- Positions are in order as long as each is beyond those before it; the first that is not is the only one that is
told of. -/
theorem orderFindings_eq_nil (hDeclared : ∀ item ∈ items, item.2 ≠ .undeclared) (least : Nat) :
    (orderFindings context (some least) items).length ≤ 1 ∧ (orderFindings context (some least) items = [] ↔
      (∀ position ∈ firstPositions items, least ≤ position) ∧ (firstPositions items).Pairwise (· < ·)) := by
  induction items generalizing least with
  | nil => exact ⟨Nat.zero_le 1, by simp [firstPositions, orderFindings]⟩
  | cons item items ih =>
    obtain ⟨hItem, hItems⟩ := forall_mem_cons.1 hDeclared
    rw [orderFindings]
    obtain ⟨entry, _ | _ | ⟨param, position⟩⟩ := item
    · exact absurd rfl hItem
    · exact ih hItems least
    · have hPositions : firstPositions ((entry, .first (param, position)) :: items) =
          position :: firstPositions items := rfl
      rw [hPositions, pairwise_cons, forall_mem_cons]
      by_cases hLeast : least ≤ position
      · have hNext : EntryOrder.next (some least) (.first (param, position)) = some (position + 1) := if_pos hLeast
        have hNone : unexpectedFindings context (some least) (entry, .first (param, position)) = [] :=
          if_neg (by simpa [EntryOrder.isBrokenBy] using hLeast)
        obtain ⟨hOnce, hIff⟩ := ih hItems (position + 1)
        rw [hNext, hNone, nil_append, hIff]
        refine ⟨hOnce, fun h => ⟨⟨hLeast, fun other hOther => ?_⟩, h⟩, And.right⟩
        exact Nat.le_trans hLeast (Nat.le_of_succ_le (h.1 other hOther))
      · have hNext : EntryOrder.next (some least) (.first (param, position)) = none := if_neg hLeast
        have hOne : unexpectedFindings context (some least) (entry, .first (param, position)) =
            [⟨.error (.unexpectedParameter entry.name), entry.span, context⟩] :=
          if_pos (by simpa [EntryOrder.isBrokenBy] using hLeast)
        rw [hNext, hOne, orderFindings_lost]
        exact ⟨Nat.le_refl 1, by simp [hLeast]⟩

theorem parameter?_eq (h : name ∈ params.map (·.name)) :
    ∃ param, parameter? params name = some (param, (params.map (·.name)).idxOf name) := by
  have hFrom : ∀ first, ∃ param, (params.zipIdx first).find? (·.1.name = name) =
      some (param, (params.map (·.name)).idxOf name + first) := by
    induction params with
    | nil => cases h
    | cons param params ih =>
      intro first
      by_cases hName : param.name = name
      · exact ⟨param, by simp [hName]⟩
      · obtain ⟨found, hFound⟩ := ih (by simpa [Ne.symm hName] using h) (first + 1)
        refine ⟨found, ?_⟩
        rw [zipIdx_cons, find?_cons_of_neg (by simpa using hName), hFound, map_cons, idxOf_cons_ne _ hName]
        simp only [Nat.succ_eq_add_one, Nat.add_assoc, Nat.add_comm 1]
  exact hFrom 0

theorem firstPositions_classifyEntries (h : ∀ entry ∈ entries, entry.name ∈ params.map (·.name)) :
    firstPositions (classifyEntries (parameter? params) before entries) =
      ((entries.map (·.name)).filter (· ∉ before.map (·.name))).eraseDups.map (params.map (·.name)).idxOf := by
  induction entries generalizing before with
  | nil => rfl
  | cons entry entries ih =>
    obtain ⟨hEntry, hEntries⟩ := forall_mem_cons.1 h
    obtain ⟨param, hParam⟩ := parameter?_eq hEntry
    rw [classifyEntries, firstPositions, filterMap_cons, map_cons]
    obtain ⟨hGiven, previous, hStatus⟩ | ⟨hNew, hStatus⟩ := NamedEntry.status_of_declared hParam before
    · have hSame : (entries.map (·.name)).filter (· ∉ (entry :: before).map (·.name)) =
          (entries.map (·.name)).filter (· ∉ before.map (·.name)) := filter_congr fun name _ => by grind
      rw [hStatus, filter_cons_of_neg (by simpa using hGiven), ← hSame]
      exact ih hEntries
    · have hSame : ((entries.map (·.name)).filter (· ∉ before.map (·.name))).filter (fun name => !name == entry.name) =
          (entries.map (·.name)).filter (· ∉ (entry :: before).map (·.name)) := by
        rw [filter_filter]
        exact filter_congr fun name _ => by grind
      rw [hStatus, filter_cons_of_pos (by simpa using hNew), eraseDups_cons, hSame, map_cons]
      exact congrArg _ (ih hEntries)

theorem classifyEntries_declared (h : ∀ entry ∈ entries, entry.name ∈ params.map (·.name)) :
    ∀ item ∈ classifyEntries (parameter? params) before entries, item.2 ≠ .undeclared := by
  induction entries generalizing before with
  | nil => nofun
  | cons entry entries ih =>
    obtain ⟨hEntry, hEntries⟩ := forall_mem_cons.1 h
    obtain ⟨param, hParam⟩ := parameter?_eq hEntry
    refine forall_mem_cons.2 ⟨?_, ih hEntries⟩
    obtain ⟨-, previous, hStatus⟩ | ⟨-, hStatus⟩ := NamedEntry.status_of_declared hParam before <;> simp [hStatus]

/-- An entry that comes after others and gives a parameter again that one of them has given. -/
def repeatedParameter? (decl : TypeDecl) (context : List Context) (before : List NamedEntry) (entry : NamedEntry) :
    Option Diagnostic :=
  if entry.name ∈ before.map (·.name) then
    some ⟨.error (.duplicateParameter entry.name decl.name), entry.span, context⟩
  else none

theorem flatMap_duplicateFindings (h : ∀ entry ∈ entries, entry.name ∈ params.map (·.name)) :
    (classifyEntries (parameter? params) [] entries).flatMap (duplicateFindings decl context) =
      entries.zipIdx.filterMap fun item => repeatedParameter? decl context (entries.take item.2) item.1 := by
  refine flatMap_classifyEntries (repeatedParameter? decl context) fun before entry hMem => ?_
  obtain ⟨param, hParam⟩ := parameter?_eq (h entry hMem)
  obtain ⟨hGiven, previous, hStatus⟩ | ⟨hNew, hStatus⟩ := NamedEntry.status_of_declared hParam before
  · rw [hStatus, repeatedParameter?, if_pos (by simpa using hGiven)]
    rfl
  · rw [hStatus, repeatedParameter?, if_neg (by simpa using hNew)]
    rfl

theorem incompleteSignature_eq_nil : incompleteSignature missing = [] ↔ (∀ param ∈ missing, param.direction ≠ .inout) ∧
      ((∀ param ∈ missing, param.direction ≠ .input) ∨ ∀ param ∈ missing, param.direction ≠ .output) := by
  have hNone (direction : Direction) : (∀ param ∈ missing, param.direction ≠ direction) ↔
      missing.find? (·.direction = direction) = none := by simp
  unfold incompleteSignature
  rw [append_eq_nil_iff, map_eq_nil_iff, filter_eq_nil_iff, hNone .input, hNone .output]
  refine and_congr (by simp) ?_
  cases missing.find? (·.direction = .input) <;> cases missing.find? (·.direction = .output) <;> simp

end Order

theorem levelFindings_parameter (about : Finding → Bool) (h : ∀ finding, about finding → finding.namesParameter)
    (found : List Diagnostic) : levelFindings about context found =
      (levelFindings Finding.namesParameter context found).filter (about ·.finding) := by
  unfold levelFindings
  rw [filter_filter]
  refine filter_congr fun d _ => ?_
  cases hAbout : about d.finding with
  | false => simp
  | true => simp [h _ hAbout]

namespace Session

/-- The check of a signature says at most once that an entry is out of order, and it says so if and only if the
positions of the declarations do not increase along the names as they first occur. It says of every entry that gives a
parameter again that it does. It says that the signature is not complete, at the node itself, if and only if a complete
one was asked for and an `inout` parameter is not given, or both an `in` and an `out` parameter are not. -/
theorem parameters_in_order_and_complete {s after : Session} {depth : Nat} {id : NodeId} {t : Template}
    {governor : TypeKey} {decl : TypeDecl} {params : List ParamDecl} {returns : Option TypeKey}
    {exceptions : List TypeKey} {entries : List NamedEntry} {site : Site} {outcome : Outcome}
    (hDecl : s.types.decl? governor = some decl) (hCategory : decl.category = .signature params returns exceptions)
    (hNode : s.store.get? id = some t) (hForm : t.form = .named entries) (hUnchecked : t.marks.checked = false)
    (hAcyclic : ∀ entry ∈ entries, ¬ s.store.Below entry.template id)
    (hDeclared : ∀ entry ∈ entries, entry.name ∈ params.map (·.name))
    (hEnds : s.run (checkWithin depth id governor site) = (.ok outcome, after)) :
    (levelFindings Finding.isUnexpectedParameter s.report.context (s.added after)).length ≤ 1 ∧
    (levelFindings Finding.isUnexpectedParameter s.report.context (s.added after) = [] ↔
      ((entries.map (·.name)).eraseDups.map (params.map (·.name)).idxOf).Pairwise (· < ·)) ∧
    levelFindings Finding.isDuplicateParameter s.report.context (s.added after) =
      entries.zipIdx.filterMap (fun item =>
        repeatedParameter? decl s.report.context (entries.take item.2) item.1) ∧
    (∀ d ∈ levelFindings Finding.isIncompleteSignature s.report.context (s.added after), d.span = t.span) ∧
    (levelFindings Finding.isIncompleteSignature s.report.context (s.added after) ≠ [] ↔ site.incomplete = false ∧
      ((∃ param ∈ params, param.direction = .inout ∧ ¬ after.store.GivesParameter entries param.name) ∨
        (∃ param ∈ params, param.direction = .input ∧ ¬ after.store.GivesParameter entries param.name) ∧
          ∃ param ∈ params, param.direction = .output ∧ ¬ after.store.GivesParameter entries param.name)) := by
  obtain ⟨-, faults, hTold, hFaults⟩ := post_check (fun depth => says_checkWithin_signature depth hDecl hCategory hNode
    hForm hUnchecked hAcyclic) hEnds
  have hSpans : ∀ d ∈ faults, d.span = t.span := by
    split at hFaults
    · simp [hFaults]
    · obtain ⟨missing, -, rfl⟩ := hFaults
      exact forall_mem_map.2 fun _ _ => rfl
  have hPositions : firstPositions (classifyEntries (parameter? params) [] entries) =
      (entries.map (·.name)).eraseDups.map (params.map (·.name)).idxOf := by
    rw [firstPositions_classifyEntries hDeclared]
    simp
  obtain ⟨hOnce, hOrder⟩ := @orderFindings_eq_nil s.report.context _ (classifyEntries_declared hDeclared) 0
  rw [levelFindings_parameter Finding.isUnexpectedParameter fun _ h => by simp [Finding.namesParameter, h],
    levelFindings_parameter Finding.isDuplicateParameter fun _ h => by simp [Finding.namesParameter, h],
    levelFindings_parameter Finding.isIncompleteSignature fun _ h => by simp [Finding.namesParameter, h],
    hTold.again, hTold.early, hTold.faults]
  refine ⟨hOnce, ?_, flatMap_duplicateFindings hDeclared, hSpans, ?_⟩
  · rw [hOrder, hPositions]
    exact ⟨And.right, fun h => ⟨fun _ _ => Nat.zero_le _, h⟩⟩
  · cases hSite : site.incomplete with
    | true =>
      rw [hSite, if_pos rfl] at hFaults
      simp [hFaults]
    | false =>
      rw [hSite, if_neg Bool.false_ne_true] at hFaults
      obtain ⟨missing, hMissing, rfl⟩ := hFaults
      rw [Ne, map_eq_nil_iff, incompleteSignature_eq_nil]
      simp only [hMissing]
      grind

def swappedParams : List ParamDecl :=
  [⟨"first", 1, .input⟩, ⟨"second", 1, .inout⟩, ⟨"third", 1, .output⟩]

def swappedEntries : List NamedEntry := [⟨"third", 0, {}⟩, ⟨"first", 1, {}⟩, ⟨"third", 2, {}⟩,
      ⟨"second", 3, {}⟩]

/-- The signature at 4 gives a parameter too early and once more, and leaves another open. -/
def swapped : Session where
  types := ⟨[(1, ⟨"integer", .integer⟩), (2, ⟨"Call", .signature swappedParams none []⟩)]⟩
  store := .ofForms [.ofInteger 1, .ofInteger 2, .ofInteger 3, .notUsed,
    .named swappedEntries]

theorem parameters_in_order_and_complete_swapped :
    (levelFindings Finding.isUnexpectedParameter [] (swapped.added (swapped.check 4 2 {}).2)).length = 1 ∧
    levelFindings Finding.isDuplicateParameter [] (swapped.added (swapped.check 4 2 {}).2) =
      [⟨.error (.duplicateParameter "third" "Call"), {}, []⟩] ∧
    levelFindings Finding.isIncompleteSignature [] (swapped.added (swapped.check 4 2 {}).2) ≠ [] := by
  have hEnds : swapped.check 4 2 {} = (.ok {}, (swapped.check 4 2 {}).2) := Prod.ext (by decide +kernel) rfl
  obtain ⟨hOnce, hOrder, hAgain, -, hIncomplete⟩ := parameters_in_order_and_complete rfl rfl rfl rfl rfl
    (not_below_of_leaves (by decide)) (by decide) hEnds
  refine ⟨Nat.le_antisymm hOnce (length_pos_iff.2 fun hNone => ?_), hAgain.trans (by decide +kernel),
    hIncomplete.2 ⟨rfl, .inl ⟨⟨"second", 1, .inout⟩, by decide, rfl, ?_⟩⟩⟩
  · exact absurd (hOrder.1 hNone) (by decide +kernel)
  · rintro ⟨entry, t, hEntry, hFound, hForm⟩
    cases hEntry
    have hOpen : (swapped.check 4 2 {}).2.store.get? 3 =
        some { form := .notUsed, governor := some 1, marks := { checked := true } } := by rfl
    cases hOpen.symm.trans hFound
    exact hForm rfl

end Session

end TemplateCheck
