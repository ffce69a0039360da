import TemplateCheck.Proofs.Safety.Splice
import TemplateCheck.Proofs.Safety.Structures
import TemplateCheck.Proofs.Safety.Values

/-!
# Checking templates safely

Each form is checked safely if its children are, and a check at most `depth` levels deep is safe for
every `depth`. A level marks the node that it checks, so a check that goes too deep has spent as many
marks as it had levels.
-/

namespace TemplateCheck

variable {n : Nat} {K : NodeId → Prop} {F : Allowance} {env : Env} {ids : List NodeId} {s : Store} {id : NodeId}
  {t : Template} {check : ChildCheck} {flatten : Flattening}

section Governors

variable {inline : InlineTemplate}

theorem Ready.linkBase {base : NodeId} (h : Ready n K (F.backing env) ids s) (hMem : id ∈ ids)
    (hWalks : F.walks) (hBase : s.Has base) : Safe K F env s (linkBase id base) :=
  h.modifyNode hMem (fun _ => rfl) fun _ => .inr ⟨hWalks, fun _ hLink => .inr (Option.some.inj hLink ▸ hBase)⟩

section

variable (hWalks : F.walks)

include hWalks

theorem checks_basePart (r : Reference) {template : TemplateDef} (type : TypeKey)
    (h : s.Backed (F.backing env)) (hBody : s.Has template.body) :
    Checks K F env s (basePart r template type) fun base? s' => ∀ base, base? = some base → s'.Has base := by
  have hRuns : Runs (Store.Endures (F.backing env)) F env s (basePart r template type) fun base? s' =>
      ∀ base, base? = some base → s'.Has base := by
    apply Runs.store_then
    refine (runs_narrow hWalks (follows_lastWithin hWalks _ _) r.span _ r.path type h hBody).bind
      fun part s1 _ hPart => ?_
    split
    · refine .pure ?_
      rintro _ ⟨⟩
      exact hPart _ _ rfl
    · exact .pure nofun
    · exact .pure nofun
  exact (hRuns.reaches (steps_basePart r template type)).mono fun _ _ _ hPart => hPart.1

theorem binds_secured (size : Nat) :
    (Naming.below env size).Binds (fun other => other = id ∧ other.index < size) (Secured n K F env id size) where
  toAlters := alters_secured size
  basePart r template type hBody _ s h hs := by
    subst hs
    refine ((checks_basePart hWalks r type h.backed hBody).stays id (steps_basePart r template type).alters).mono ?_
    exact fun base? s' hStays hBase => ⟨base?, fun base hSome => hStays.2 ▸ hBase base hSome, by simp⟩
  linkBase hId hBase s h hs := by
    obtain ⟨rfl, -⟩ := hId
    subst hs
    exact (h.linkBase (by simp) hWalks hBase).secured (Own.linkBase _).alters
  inheritBase hId hBase s h hs := by
    obtain ⟨rfl, -⟩ := hId
    subst hs
    exact (h.inheritBase (by simp) hWalks hBase).secured (Own.inheritBase _).alters

theorem checks_bindGovernor (expected : Option TypeKey) (h : Ready n K (F.backing env) [inline.body] s) :
    Safe K F env s (bindGovernor inline expected) :=
  Agreed.safe h fun hId => (binds_secured hWalks s.size).bindGovernor ⟨rfl, hId⟩
    (fun r _ => h.backed.covers hWalks r) expected

theorem checks_checkDecoded (hCheck : ChecksSafely n F env check) {target : InlineTemplate}
    (h : Ready n K (F.backing env) [target.body] s) : Safe K F env s (checkDecoded check target) := by
  refine Runs.inside _ (h.bind (checks_bindGovernor hWalks none h) fun type s1 _ h1 _ => ?_)
  split
  · apply Runs.read_then
    dsimp only
    split
    · exact (hCheck K s1 target.body _ _ h1).finish
    · exact (quiet_problem _ _).finish
  · refine (quiet_problem _ _).bind_runs fun _ _ => ?_
    exact (h1.markErroneous (by simp)).finish

theorem checks_checkInline (hCheck : ChecksSafely n F env check)
    (expected : Option TypeKey) (h : Ready n K (F.backing env) [inline.body] s) :
    Safe K F env s (checkInline check inline expected) := by
  refine h.bind (checks_bindGovernor hWalks expected h) fun governor s1 _ h1 _ => ?_
  split
  · exact hCheck K s1 inline.body _ _ h1
  · refine (quiet_problem _ _).bind_runs fun _ _ => ?_
    exact (h1.markErroneous (by simp)).finish

end

end Governors

section References

variable {r : Reference} {resolved : Option NodeId}

theorem Template.Pursued.reference_or_erroneous {t' : Template} (h : t.Pursued t')
    (hForm : t.form = .referenced r resolved) :
    (∃ resolved', t'.form = .referenced r resolved') ∨ t'.form.isErroneous := by
  cases h with
  | same => exact .inl ⟨resolved, hForm⟩
  | followed hOld =>
    cases hForm.symm.trans hOld
    exact .inl ⟨_, rfl⟩
  | givenUp => exact .inr rfl

section

variable (h : Ready n K (F.backing env) [id] s)

include h

theorem checks_recognizeReference : Safe K F env s (recognizeReference id) := by
  unfold recognizeReference
  refine h.formOf_then fun t hFound => ?_
  split
  · rename_i r hForm
    apply Runs.read_then
    split
    · exact h.reject (by simp) _
    · rename_i definition hTarget
      split
      · have hWalks := h.backed.refers hFound (by simp [Template.isPlain, hForm, Form.isPlain])
        refine (h.replaceForm (by simp) hFound ?_ (by simp [Form.children]) rfl ?_ (.inl hWalks)).mono
          fun _ _ _ _ => trivial
        · simp [hForm, Form.mayBecome]
        · rintro _ ⟨⟩
          simp [hTarget]
      · exact .pure trivial
  · exact .pure trivial

theorem checks_collapseReference {last : NodeId} (governor : TypeKey) (hFound : s.get? id = some t)
    (hForm : t.form = .referenced r resolved) (hLast : s.Has last) :
    Safe K F env s (collapseReference id last governor) := by
  unfold collapseReference
  refine (quiet_node hLast).bind_runs fun _ _ => ?_
  split
  · apply Runs.read_then
    split
    · have hWalks := h.backed.refers hFound (by simp [Template.isPlain, hForm, Form.isPlain])
      refine h.bind (h.replaceForm (by simp) hFound ?_ (by simp [Form.children]) rfl
        (by simp [Form.reference?]) (.inl hWalks)) fun _ s1 _ h1 _ => ?_
      · simp [hForm, Form.mayBecome]
      · exact checks_checkConformance governor false h1
    · exact .pure trivial
  · exact .pure trivial

theorem checks_checkTarget (definition : Definition) (governor : TypeKey) (hFound : s.get? id = some t)
    (hForm : t.form = .referenced r resolved) : Safe K F env s (checkTarget id r definition governor) := by
  have hHas := h.head
  unfold checkTarget
  apply Runs.read_then
  split
  · exact h.reject (by simp) _
  · refine h.bind ((follows_lastTemplate s id h.backed hHas).reaches (pursuing_lastTemplate s id)) ?_
    intro last s1 _ h1 ⟨hLast, hPursues⟩
    obtain ⟨t1, hFound1, hNode⟩ := hPursues.nodes id t hFound
    refine (quiet_isErroneous h1.head).bind_runs ?_
    rintro _ ⟨t', hFound', rfl⟩
    cases hFound1.symm.trans hFound'
    split
    · rename_i hKeep
      obtain ⟨resolved', hForm1⟩ | hErroneous := hNode.reference_or_erroneous hForm
      · exact checks_collapseReference h1 governor hFound1 hForm1 hLast
      · simp [hErroneous] at hKeep
    · exact .pure trivial

theorem checks_checkReference (governor : TypeKey) (hFound : s.get? id = some t)
    (hForm : t.form = .referenced r resolved) : Safe K F env s (checkReference id r governor) := by
  unfold checkReference
  apply Runs.read_then
  split
  · exact (checks_checkTarget h _ governor hFound hForm).finish
  · rename_i hNone
    have hTarget := h.backed.references id t r hFound (by simp [hForm, Form.reference?])
    obtain ⟨definition, hSome⟩ := Option.isSome_iff_exists.1 hTarget
    exact absurd hSome (hNone definition)

theorem checks_checkStringForm (decl : TypeDecl) (family : StringFamily) (hFound : s.get? id = some t) :
    Safe K F env s (checkStringForm id decl family t.form) := by
  have hHas := h.head
  unfold checkStringForm
  split
  · exact ((remarks_checkCharacterRange _ _).quiet hHas).safe
  · split
    · exact ((remarks_checkBinaryPattern _ _).quiet hHas).safe
    · exact (quiet_illegalForm hHas decl).safe
  · rename_i hForm
    split
    · exact (quiet_illegalForm hHas decl).safe
    · rename_i hFamily
      exact checks_checkCharPattern h (by simp) hFound hForm (by simpa using hFamily)
  · exact (quiet_illegalForm hHas decl).safe

section Forms

variable (hCheck : ChecksSafely n F env check)

include hCheck

theorem checks_checkString (decl : TypeDecl) (family : StringFamily) :
    Safe K F env s (checkString check id decl family) := by
  have hHas := h.head
  unfold checkString
  refine h.formOf_then fun t hFound => ?_
  split
  · rename_i hForm
    have hBody := h.children (by simp) hFound
    rw [hForm] at hBody
    refine Quiet.bind_runs (.onlyIf fun _ => quiet_problemAt hHas _) fun _ _ => ?_
    exact checks_checkDecoded (h.backed.refers hFound (by simp [Template.isPlain, hForm, Form.isPlain])) hCheck hBody
  · exact (checks_checkStringForm h decl family hFound).finish

variable (hFlatten : FlattensSafely n F env flatten)

include hFlatten

theorem checks_checkAlternatives (shape : ListShape) (governor : TypeKey) (site : Site) :
    Safe K F env s (checkAlternatives check flatten id shape governor site) := by
  unfold checkAlternatives
  refine (checks_flattenedItems hFlatten h).bind fun items s1 _ h1 => ?_
  apply Runs.read_then
  refine .checkAny fun (item, position) hItem s' hReaches => ?_
  have hMem : item ∈ id :: items := List.mem_cons_of_mem _ (List.fst_mem_of_mem_zipIdx hItem)
  exact checks_checkThenWarn hCheck (h1.step hReaches) hMem _ _ _ _ _

theorem checks_checkByCategory (decl : TypeDecl) (site : Site) :
    Safe K F env s (checkByCategory check flatten id decl site) := by
  have hHas := h.head
  have hNumber {range : NodeId → ValueRange → CheckM Unit} (hRange : ∀ bounds, Remarks (range · bounds)) :
      Quiet env s (checkNumber id decl (range id)) fun _ => True :=
        (h.backed.quietly.checkNumber hHas decl hRange).quiet
  unfold checkByCategory
  split
  · exact (hNumber remarks_checkIntegerRange).finish
  · exact (hNumber remarks_checkFloatRange).finish
  · exact checks_checkString h hCheck decl _
  · exact checks_checkRecord hCheck h decl _ site
  · exact checks_checkSet hCheck h decl _ site
  · exact checks_checkUnion hCheck h decl site
  · exact checks_checkSignature hCheck h decl _ site
  · split
    · exact checks_checkList hCheck hFlatten h _ site
    · exact (quiet_illegalForm hHas decl).finish

theorem checks_checkForm (governor : TypeKey) (decl : TypeDecl) (site : Site) :
    Safe K F env s (checkForm check flatten id governor decl site) := by
  have hHas := h.head
  have hSymbol : ∀ symbol, Safe K F env s (checkSymbol id symbol decl >>= fun _ => pure false) :=
    fun symbol => (h.backed.quietly.checkSymbol hHas symbol decl).quiet.finish
  unfold checkForm
  refine h.formOf_then fun t hFound => ?_
  split
  · exact .pure trivial
  case h_2 | h_3 | h_4 | h_5 => exact hSymbol _
  · rename_i target hForm
    have hTarget : s.Has target := h.backed.has_child hFound (by simp [hForm, Form.children])
    exact Agreed.safe h fun hId => (alters_secured s.size).checkSlot ⟨rfl, hId⟩ hTarget
  case h_7 | h_8 => exact checks_checkAlternatives h hCheck hFlatten _ governor site
  · exact (checks_checkConformance governor site.allowOmit h).finish
  · rename_i hForm
    exact checks_checkReference h governor hFound hForm
  · rename_i callee args _
    have hApplication := Agreed.safe h fun hId => (alters_secured s.size).checkApplication ⟨rfl, hId⟩ callee governor
    exact hApplication.finish
  · rename_i hForm
    exact checks_checkConcatenation hCheck governor decl h hFound hForm
  · exact checks_checkByCategory h hCheck hFlatten decl site

theorem checks_checkGoverned (governor : TypeKey) (decl : TypeDecl) (site : Site) :
    Safe K F env s (checkGoverned check flatten id governor decl site) := by
  unfold checkGoverned
  refine h.bind (checks_recognizeReference h) fun _ s1 _ h1 _ => ?_
  refine h1.bind (Agreed.safe h1 fun hId => (alters_secured s1.size).checkSupported ⟨rfl, hId⟩) fun _ s2 _ h2 _ => ?_
  refine h2.bind (Agreed.safe h2 fun hId => (alters_secured s2.size).checkPlacement hId site) fun _ s3 _ h3 _ => ?_
  refine h3.bind (checks_checkForm h3 hCheck hFlatten governor decl site) fun _ s4 _ h4 _ => ?_
  refine h4.bind (Agreed.safe h4 fun hId => (alters_secured s4.size).checkModifiers ⟨rfl, hId⟩ governor site) ?_
  intro _ s5 _ h5 _
  exact (quiet_isErroneous h5.head).finish

end Forms

end

end References

theorem checksSafely_checkStep (hCheck : ChecksSafely (n + 1) F env check)
    (hFlatten : FlattensSafely (n + 1) F env flatten) : ChecksSafely n F env (checkStep check flatten) := by
  intro K s id governor site h
  unfold checkStep
  refine (quiet_node h.head).bind_runs fun t hFound => ?_
  split
  · exact .pure trivial
  rename_i hChecked
  have hGovern : s.Reaches (F.backing env) K (s.update id (·.govern governor)) :=
    Store.reaches_update_same_form hFound (h.not_kept (by simp)) (t.evolves_govern governor) rfl (.inl rfl)
  refine (runs_modifyNode hFound hGovern).bind ?_
  rintro _ _ - rfl
  have hFound1 : (s.update id (·.govern governor)).get? id = some (t.govern governor) := by simp [hFound]
  have hSpent := hGovern.evolves.spent_lt (.inl rfl) hFound hFound1 hChecked (by simp [Template.govern])
  have h1 : Ready (n + 1) K (F.backing env) [id] (s.update id (·.govern governor)) :=
    { h.step hGovern with spent := Nat.lt_of_le_of_lt h.spent hSpent }
  apply Runs.read_then
  split
  · exact (h1.reject (by simp) _).finish
  · split
    · exact .pure trivial
    · exact (h1.reject (by simp) _).finish
    · exact checks_checkGoverned h1 hCheck hFlatten governor _ site

theorem checksSafely_checkWithin {walks : Prop} {total : Nat} (depth : Nat) (hTotal : total ≤ depth + n) :
    ChecksSafely n ⟨walks, Exhausted total env⟩ env (checkWithin depth) := by
  induction depth generalizing n with
  | zero =>
    intro K s id governor site h
    refine .tooDeep ?_
    have hSpent := h.spent
    unfold Exhausted
    omega
  | succ depth ih =>
    refine checksSafely_checkStep (ih (by omega)) fun K s id h => ?_
    exact checks_flattenWithin (by omega) h

end TemplateCheck
