import TemplateCheck.Proofs.Positions.Structures

/-!
# Checked templates are governed

A check of an unchecked tree that ends without an error leaves the tree governed, whatever its form. So
every node of the tree that is left in the end is checked against the type that its position dictates,
starting from the governor of the root, apart from targets of slots and elements that are not used.
-/

namespace TemplateCheck

open List Store

variable {α : Type} {v : Visit} {env : Env} {s : Store} {id child : NodeId} {governor : TypeKey} {form : Form}
  {check : ChildCheck} {flatten : Flattening} {decl : TypeDecl}

theorem attends_checkOperand (hCheck : check.Governs env) (operand : NodeId) (type : TypeKey)
    (text : Option CharFamily) :
    Attends env s (checkOperand check operand type text) operand (·.Governed env operand type) := by
  apply (hCheck.governs s operand type _).bind_steady fun _ _ => steady_governed
  intro outcome s1
  apply (Concludes.of_moves (pursuing_lastTemplate s1 operand)).bind
  rintro last s2 ⟨hPursues, -⟩
  have hSteady : s1.Steady (fun _ => True) s2 := hPursues.steady
  apply Concludes.still_then (Still.isErroneous operand)
  intro first
  apply Concludes.still_then (Still.isErroneous last)
  intro second
  split
  · exact .pure hSteady
  apply Concludes.still_then (Still.node last)
  intro t
  apply Concludes.still_then Still.read
  intro env'
  cases env'.definitions.operandFault? text t with
  | none => exact .pure hSteady
  | some fault => exact Clean.after_error (.after_error (.problemAt operand _))

theorem clean_checkConcatenation (hCheck : check.Governs v.env) {left right : NodeId} (decl : TypeDecl)
    (h : v.Begun (.concat left right) s) :
    v.Ends s (checkConcatenation check v.id left right v.governor decl) := by
  have hSound : ∀ operand (s' : Store), s'.Governed v.env operand v.governor →
      s'.Sound v.env v.governor (.concat left right) operand :=
    fun operand s' hGoverned _ => ⟨v.governor, mem_singleton.2 rfl, hGoverned⟩
  unfold checkConcatenation
  split
  · rename_i family _
    have hOperands : v.Ends s (inside .concatenation do
        let first ← inside .firstOperand (checkOperand check left v.governor (family.bind StringFamily.charFamily?))
        let second ← inside .secondOperand (checkOperand check right v.governor (family.bind StringFamily.charFamily?))
        return first || second) := by
      apply Clean.inside
      have hLeft := (attends_checkOperand (s := s) hCheck left v.governor
        (family.bind StringFamily.charFamily?)).mono (hSound left)
      apply (Underway.step h nofun (hLeft.inside _)).bind
      intro first s1 h1
      have hRight := (attends_checkOperand (s := s1) hCheck right v.governor
        (family.bind StringFamily.charFamily?)).mono (hSound right)
      apply (Underway.step h1 nofun (hRight.inside _)).bind
      intro second s2 h2
      exact .pure ⟨_, h2⟩
    apply hOperands.bind
    intro selfReference s1 h1
    apply (Concludes.of_moves
      ((altering v.id v.env).reshapes.settleConcatenation rfl trivial trivial v.governor family).steps).bind
    rintro _ s2 ⟨hAlters, -⟩
    exact .pure (h1.alters hAlters)
  · exact Clean.after_error (.reject v.id _)

theorem clean_attachBase {inline : InlineTemplate} (hType : inline.type = none) :
    Clean env s (attachBase inline none) fun type _ => type = env.boundType? inline := by
  unfold attachBase
  split
  · rename_i r hModifies
    apply Concludes.read_then
    split
    · rename_i definition hTarget
      split
      · exact Clean.after_error (.problem _ _)
      split
      · rename_i declared hDeclared
        apply Concludes.still_then Still.read
        intro _
        apply Concludes.trivial.bind
        intro _ _ _
        apply Concludes.pure
        simp [Env.boundType?, hType, hModifies, hTarget, hDeclared]
      · rename_i hDeclared
        have hNone : definition.type = none := Option.eq_none_iff_forall_ne_some.2 hDeclared
        apply Concludes.pure
        simp [Env.boundType?, hType, hModifies, hTarget, hNone]
    · exact Clean.after_error (.problem _ _)
  · rename_i hModifies
    have hNone : inline.modifies = none := Option.eq_none_iff_forall_ne_some.2 hModifies
    apply Concludes.pure
    simp [Env.boundType?, hType, hNone]

theorem clean_bindGovernor (inline : InlineTemplate) : Clean env s (bindGovernor inline none) fun type s' =>
      s.Alters inline.body s' ∧ type = env.boundType? inline := by
  have hBound : Clean env s (bindGovernor inline none) fun type _ => type = env.boundType? inline := by
    unfold bindGovernor
    split
    · rename_i hType
      exact clean_attachBase hType
    · rename_i type hType
      apply Concludes.still_then Still.read
      intro _
      apply Concludes.still_then (Still.pure ())
      intro _
      apply Concludes.trivial.bind
      intro _ _ _
      apply Concludes.pure
      simp [Env.boundType?, hType]
  exact (hBound.and_moves (steps_bindGovernor inline none)).mono fun _ _ h => ⟨h.2.1, h.1⟩

theorem clean_checkDecoded (hCheck : check.Governs v.env) {encoding : Option Value} {target : InlineTemplate}
    (h : v.Begun (.decoded encoding target) s) :
    v.Ends s (checkDecoded check target) := by
  have hBody : v.Serves (.decoded encoding target) s (checkDecoded check target) target.body := by
    apply Attends.inside
    apply Attends.after_alters (clean_bindGovernor target)
    intro type s' hType
    split
    · rename_i bound
      have hDictated : bound ∈ v.env.dictated v.governor target.body (.decoded encoding target) := by
        simp [Env.dictated, ← hType]
      apply Attends.still_then Still.read
      intro env'
      dsimp only
      split
      · apply Attends.then_still (x := check target.body bound target.site) ?_ fun _ => .pure _
        exact (hCheck.governs s' target.body bound target.site).mono fun _ hDone _ => ⟨bound, hDictated, hDone⟩
      · exact .after_error (.problem _ _)
    · exact .after_error (.problem _ _)
  apply (Underway.step h (fun _ => Form.noConfusion) hBody).mono
  exact fun _ s' h' => ⟨_, h'⟩

section

variable (h : v.Begun form s)

include h

theorem Underway.childless {x : CheckM α} (hNone : form.children = []) (hx : Steps (Alters v.id) v.env s x) :
    v.Ends s x := by
  apply (Concludes.of_moves hx).mono
  rintro _ s' ⟨hAlters, -⟩
  exact (h.ended hNone).alters hAlters

theorem clean_checkString (hCheck : check.Governs v.env) (decl : TypeDecl) (family : StringFamily) :
    v.Ends s (checkString check v.id decl family) := by
  apply h.formOf_then
  split
  · rename_i encoding target
    apply Concludes.still_then (Still.onlyIf (Still.problemAt v.id _))
    intro _
    exact clean_checkDecoded hCheck h
  · have hString : v.Ends s (checkStringForm v.id decl family form) := by
      have hSteps : Steps (Alters v.id) v.env s (checkStringForm v.id decl family form) := by
        simpa using ((altering v.id v.env).reshapes.checkStringForm rfl decl family form).steps
      revert hSteps
      unfold checkStringForm
      split
      case h_1 | h_2 | h_3 => exact h.childless rfl
      · exact fun _ => .illegalForm v.id _
    apply hString.bind
    exact fun _ _ hEnd => .pure hEnd

theorem clean_checkNumber {range : ValueRange → CheckM Unit} (decl : TypeDecl) (hRange : ∀ r, Still (range r)) :
    v.Ends s (checkNumber v.id decl range) := by
  apply h.formOf_then
  split
  · rename_i bounds
    exact h.childless rfl (hRange bounds).steps
  · exact Clean.illegalForm v.id _

variable (hCheck : check.Governs v.env) (hFlatten : flatten.Orderly v.env)
  (hDecl : v.env.types.decl? v.governor = some decl)

include hCheck hFlatten hDecl

theorem clean_checkByCategory (site : Site) : v.Ends s (checkByCategory check flatten v.id decl site) := by
  unfold checkByCategory
  split
  · apply (clean_checkNumber h decl fun r => (remarks_checkIntegerRange r).still v.id).bind
    exact fun _ _ hEnd => .pure hEnd
  · apply (clean_checkNumber h decl fun r => (remarks_checkFloatRange r).still v.id).bind
    exact fun _ _ hEnd => .pure hEnd
  · exact clean_checkString h hCheck decl _
  · rename_i fields hCategory
    exact clean_checkRecord hCheck hDecl h (by rw [hCategory]; rfl) site
  · rename_i fields hCategory
    exact clean_checkSet hCheck hDecl h (by rw [hCategory]; rfl) site
  · exact clean_checkUnion hCheck hDecl h site
  · rename_i params returns exceptions hCategory
    exact clean_checkSignature hCheck hDecl h hCategory site
  · split
    · rename_i g hList
      exact clean_checkList hCheck hFlatten hDecl hList site h
    · exact Clean.after_error (.illegalForm v.id _)

theorem clean_checkForm (site : Site) : v.Ends s (checkForm check flatten v.id v.governor decl site) := by
  have hSymbol : ∀ symbol, form.children = [] → v.Ends s (checkSymbol v.id symbol decl >>= fun _ => pure false) :=
    fun symbol hNone => h.childless hNone ((still_checkSymbol symbol decl).bind fun _ => .pure _).steps
  apply h.formOf_then
  split
  · exact .pure (h.ended rfl)
  · exact hSymbol "-" rfl
  · exact hSymbol "omit" rfl
  · exact hSymbol "?" rfl
  · exact hSymbol "*" rfl
  · rename_i target
    have hEnd : v.Ended s := ⟨_, h.skip fun hPart => hPart.2⟩
    apply (Concludes.of_moves ((altering v.id v.env).reshapes.checkSlot rfl trivial).steps).mono
    exact fun _ s' hSlot => hEnd.alters hSlot.1
  · rename_i items
    exact clean_checkAlternatives hCheck hFlatten (.inl rfl) site h
  · rename_i items
    exact clean_checkAlternatives hCheck hFlatten (.inr rfl) site h
  · rename_i value
    apply h.childless rfl
    exact ((altering v.id v.env).reshapes.checkConformance rfl v.governor site.allowOmit).steps.finish
  · rename_i r last
    exact h.childless rfl ((altering v.id v.env).reshapes.checkReference rfl
      (Naming.holds_plain (.referenced r none)) v.governor).steps
  · rename_i callee arguments
    apply h.childless rfl
    exact ((altering v.id v.env).reshapes.checkApplication rfl callee v.governor).steps.finish
  · rename_i left right
    exact clean_checkConcatenation hCheck decl h
  · exact clean_checkByCategory h hCheck hFlatten hDecl site

theorem clean_checkGoverned (site : Site) : v.Ends s (checkGoverned check flatten v.id v.governor decl site) := by
  apply (Concludes.of_moves steps_recognizeReference).bind
  rintro _ s1 ⟨hAlters1, -⟩
  obtain ⟨form1, h1⟩ := h.begun_alters hAlters1
  apply (Concludes.of_moves ((altering v.id v.env).reshapes.checkSupported rfl).steps).bind
  rintro _ s2 ⟨hAlters2, -⟩
  obtain ⟨form2, h2⟩ := h1.begun_alters hAlters2
  apply (Concludes.of_moves (steps_checkPlacement site)).bind
  rintro _ s3 ⟨hPursues, -⟩
  obtain ⟨form3, h3⟩ := h2.begun_alters hPursues.alters
  apply (clean_checkForm h3 hCheck hFlatten hDecl site).bind
  intro selfReference s4 h4
  apply (Concludes.of_moves ((altering v.id v.env).reshapes.checkModifiers rfl v.governor site).steps).bind
  rintro _ s5 ⟨hAlters5, -⟩
  apply Concludes.of_still ((Still.isErroneous v.id).bind fun _ => .pure _)
  exact fun _ => h4.alters hAlters5

end

theorem governs_checkStep (hCheck : check.Governs env) (hFlatten : flatten.Orderly env) :
    (checkStep check flatten).Governs env := by
  refine ⟨fun D => confined_checkStep (hCheck.confined D) (hFlatten.confined D), ?_⟩
  intro s id governor site
  apply attends_of_settled
  · intro D hClosed hId
    exact confined_checkStep (hCheck.confined D) (hFlatten.confined D) s id governor site hClosed hId
  intro ids hPristine
  have hId : id ∈ ids := hPristine.lists.mem_of_root mem_cons_self
  apply Concludes.node_then
  intro t hFound
  have hUnchecked : t.marks.checked = false := hPristine.unchecked id hId t hFound
  rw [if_neg (by simp [hUnchecked])]
  apply (clean_govern hPristine hFound governor).bind
  intro _ s1 h1
  apply Concludes.read_then
  split
  · exact Clean.after_error (.reject id _)
  · rename_i decl hDecl
    split
    · rename_i hErroneous
      exact .pure (h1.skipped hId hDecl hErroneous)
    · exact Clean.after_error (.reject id _)
    · apply (clean_checkGoverned h1 hCheck hFlatten hDecl site).mono
      exact fun _ s' hEnd => hEnd.settled hId

theorem governs_checkWithin (depth : Nat) : (checkWithin depth).Governs env := by
  induction depth with
  | zero => exact ⟨fun D => confined_checkWithin 0, fun _ _ _ _ _ _ => .throw _⟩
  | succ depth ih =>
    apply governs_checkStep ih
    exact ⟨fun D s id hClosed hId => (steps_flattenWithin depth hClosed hId).confined_of_reworks,
      fun s id t below h => clean_flattenWithin depth h⟩

namespace Store

variable {root n : NodeId} {type : TypeKey}

def CheckedAs (s : Store) (id : NodeId) (type : TypeKey) : Prop :=
  ∃ t, s.get? id = some t ∧ t.marks.checked = true ∧ t.governor = some type

/-- The types that the positions below a node dictate, if it has the given governor itself. -/
inductive Dictated (env : Env) (s : Store) (root : NodeId) (governor : TypeKey) : NodeId → TypeKey → Prop where
  | root : Dictated env s root governor root governor
  | part {parent child : NodeId} {t : Template} {type type' : TypeKey} :
      Dictated env s root governor parent type → s.get? parent = some t → child ∈ t.form.children →
      type' ∈ env.dictated type child t.form → Dictated env s root governor child type'

theorem Dictated.of_current {current : Option DefId}
    (h : s.Dictated { env with current } root governor n type) : s.Dictated env root governor n type := by
  induction h with
  | root => exact .root
  | part _ hFound hChild hType ih => exact .part ih hFound hChild hType

/-- The nodes below a node that have no governor: all that a slot holds, and elements that are not used. -/
inductive Exempt (s : Store) (root : NodeId) : NodeId → Prop where
  | slot {parent target id : NodeId} {t : Template} :
      s.Below root parent → s.get? parent = some t → t.form = .allFrom target → s.Below target id →
      Exempt s root id
  | notUsed {parent id : NodeId} {t u : Template} {items : List NodeId} :
      s.Below root parent → s.get? parent = some t → t.form = .list .positional items → id ∈ items →
      s.get? id = some u → u.form = .notUsed → Exempt s root id

theorem exempt_of_not_isPart {parent : NodeId} {t : Template} (hParent : s.Below root parent)
    (hFound : s.get? parent = some t) (hChild : child ∈ t.form.children) (hPart : ¬ s.IsPart t.form child)
    (hBelow : s.Below child n) : s.Exempt root n := by
  have hNot := fun hIs => hPart ⟨hChild, hIs⟩
  split at hNot
  · rename_i target hForm
    rw [hForm] at hChild
    rw [mem_singleton.1 hChild] at hBelow
    exact .slot hParent hFound hForm hBelow
  · rename_i items hForm
    rw [hForm] at hChild
    obtain ⟨u, hFoundChild, hNotUsed⟩ : ∃ u, s.get? child = some u ∧ u.form = .notUsed := by
      by_contra hNone
      exact hNot fun u hFoundChild hNotUsed => hNone ⟨u, hFoundChild, hNotUsed⟩
    obtain rfl | ⟨next, ⟨u', hFoundChild', hNext⟩, -⟩ := hBelow.cases_head
    · exact .notUsed hParent hFound hForm hChild hFoundChild hNotUsed
    · cases hFoundChild.symm.trans hFoundChild'
      rw [hNotUsed] at hNext
      cases hNext
  · exact absurd trivial hNot

theorem Governed.checkedAs (h : s.Governed env id type)
    (hTypes : ∀ n type decl, s.Below root n → s.CheckedAs n type → env.types.decl? type = some decl →
      decl.category ≠ .erroneous)
    (hId : s.Below root id) (hType : s.Dictated env root governor id type) (hBelow : s.Below id n) :
    s.Exempt root n ∨ ∃ type, s.Dictated env root governor n type ∧ s.CheckedAs n type := by
  induction h with
  | skipped hFound hChecked hGovernor hDecl hErroneous =>
    exact absurd hErroneous (hTypes _ _ _ hId ⟨_, hFound, hChecked, hGovernor⟩ hDecl)
  | @parts id type t types hFound hChecked hGovernor hDictated _ ih =>
    obtain rfl | ⟨child, ⟨t', hFound', hChild⟩, hRest⟩ := hBelow.cases_head
    · exact .inr ⟨type, hType, t, hFound, hChecked, hGovernor⟩
    cases hFound.symm.trans hFound'
    by_cases hPart : s.IsPart t.form child
    · exact ih child hPart (hId.tail ⟨t, hFound, hChild⟩) (.part hType hFound hChild (hDictated child hPart)) hRest
    · exact .inl (exempt_of_not_isPart hId hFound hChild hPart hRest)

end Store

theorem Report.Extends.errors_eq {before after : Report} (h : before.Extends after)
    (hNone : ∀ d ∈ after.diagnostics.drop before.diagnostics.length, d.finding.isError = false) :
    after.errors = before.errors := by
  obtain ⟨found, hDiagnostics, -, hErrors, -⟩ := h.added
  rw [hDiagnostics, drop_left] at hNone
  have hCount : found.countP (·.finding.isError) = 0 :=
    countP_eq_zero.2 fun d hd => by simp [hNone d hd]
  omega

/-- If the check of an unchecked tree ends with a result and appends no error, and no node of the tree is
checked against an erroneous type, then the outcome is a tree again whose nodes are all checked against the
types that their positions dictate, but for what slots hold and elements that are not used. -/
theorem Session.check_governs (s after : Session) (current : Option DefId) (depth : Nat) (id : NodeId)
    (governor : TypeKey) (site : Site) (ids : List NodeId) (outcome : Outcome)
    (hTree : s.subtree id = .ok ids) (hNodup : ids.Nodup) (hUnchecked : s.store.Unchecked ids)
    (hRun : s.run (withReader ({ · with current }) (checkWithin depth id governor site)) =
      (.ok outcome, after))
    (hErrors : ∀ d ∈ after.report.diagnostics.drop s.report.diagnostics.length,
      d.finding.isError = false)
    (hTypes : ∀ n type decl, after.store.Below id n → after.store.CheckedAs n type →
      s.types.decl? type = some decl → decl.category ≠ .erroneous) :
    ∃ ids', after.subtree id = .ok ids' ∧ ids'.Nodup ∧ ∀ n ∈ ids',
      after.store.Exempt id n ∨
        ∃ type, after.store.Dictated s.env id governor n type ∧ after.store.CheckedAs n type := by
  have hPristine : s.store.Pristine [id] ids :=
    ⟨lists_of_subtree hTree, hNodup, hUnchecked⟩
  have hGoverns : (checkWithin depth).Governs { s.env with current } := governs_checkWithin depth
  rcases hCheck : (checkWithin depth id governor site { s.env with current }).run ⟨s.store, s.report⟩ with
    ⟨result, middle⟩
  have hEq : s.run (withReader ({ · with current }) (checkWithin depth id governor site)) = _ :=
    Session.run_of_run hCheck
  cases hEq.symm.trans hRun
  obtain ⟨-, ids', hLists, hNodup', -, hGoverned⟩ := (hGoverns.governs s.store id governor site ids hPristine).post
    s.report outcome middle hCheck ((evolves_of_run hCheck).report.errors_eq hErrors)
  refine ⟨ids', subtree_of_preorder (hLists.preorder hNodup'), hNodup', fun n hMem => ?_⟩
  obtain ⟨root, hRoot, hBelow⟩ := hLists.below_root hMem
  rw [mem_singleton.1 hRoot] at hBelow
  obtain hExempt | ⟨type, hType, hChecked⟩ := hGoverned.checkedAs hTypes .refl .root hBelow
  · exact .inl hExempt
  · exact .inr ⟨type, hType.of_current, hChecked⟩

/-- A pair whose first field takes in all numbers of a list, and whose second field is left out. -/
def Session.gathered : Session where
  types := ⟨Registry.numbers.entries ++ [(3, ⟨"Pair", .record [⟨"all", 2, false, false⟩, ⟨"last", 1, true, false⟩]⟩)]⟩
  definitions := ⟨[.ofBody "few" 2 2]⟩
  store := .ofForms [.ofInteger 1, .ofInteger 2, .ofItems [0, 1],
    .ofName "few" 0, .allFrom 3, .ofItems [4], .ofItems [5]]

theorem Session.gathered_types_sound : gathered.types.Sound := by
  intro key decl h
  obtain ⟨entry, hEntry, rfl⟩ := Option.map_eq_some_iff.mp h
  have hMem := mem_of_find?_eq_some hEntry
  simp only [gathered, Registry.numbers, cons_append, nil_append, mem_cons, not_mem_nil, or_false] at hMem
  rcases hMem with rfl | rfl | rfl <;> simp

/-- Its two numbers are copied and its last field is omitted; every node is checked against its type. -/
theorem Session.check_governs_gathered :
    let after := (gathered.run (withReader ({ · with current := none }) (checkWithin 4 6 3 {}))).2
    gathered.subtree 6 = .ok [6, 5, 4, 3] ∧
    after.subtree 6 = .ok [6, 5, 7, 8, 9] ∧
    ∀ n ∈ [(6 : NodeId), 5, 7, 8, 9], after.store.Exempt 6 n ∨
      ∃ type, after.store.Dictated gathered.env 6 3 n type ∧ after.store.CheckedAs n type := by
  have hTree : gathered.subtree 6 = .ok [6, 5, 4, 3] := by decide +kernel
  have hUnchecked : gathered.store.Unchecked [6, 5, 4, 3] := by
    intro n hMem t hFound
    simp only [mem_cons, not_mem_nil, or_false] at hMem
    rcases hMem with rfl | rfl | rfl | rfl <;> cases hFound <;> rfl
  have hResult : (gathered.run (withReader ({ · with current := none })
      (checkWithin 4 6 3 {}))).1 = .ok {} := by decide +kernel
  have hTree' : (gathered.run (withReader ({ · with current := none })
      (checkWithin 4 6 3 {}))).2.subtree 6 = .ok [6, 5, 7, 8, 9] := by decide +kernel
  have hErrors : ∀ d ∈ (gathered.run (withReader ({ · with current := none })
      (checkWithin 4 6 3 {}))).2.report.diagnostics.drop gathered.report.diagnostics.length,
      d.finding.isError = false := by decide +kernel
  rcases hRun : gathered.run (withReader ({ · with current := none }) (checkWithin 4 6 3 {})) with
    ⟨result, after⟩
  rw [hRun] at hResult hTree' hErrors ⊢
  obtain rfl : result = .ok {} := hResult
  obtain ⟨ids, hIds, -, hAll⟩ := check_governs gathered after none 4 6 3 {} _ {} hTree (by decide)
    hUnchecked hRun hErrors fun _ _ _ _ _ hDecl => gathered_types_sound.category_ne hDecl
  cases hTree'.symm.trans hIds
  exact ⟨hTree, hTree', hAll⟩

end TemplateCheck
