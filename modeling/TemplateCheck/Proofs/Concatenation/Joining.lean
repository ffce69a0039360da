import TemplateCheck.Proofs.Concatenation
import TemplateCheck.Proofs.Lengths.Verdict

/-!
# Joining operands

What a concatenation of strings is folded to depends on what its operands stand for. A reading tells this for the
templates of one string type; it may be a language or a list of texts. By the time operands are joined they have been
checked, each in a part of the tree of its own, so the argument goes along the tree.
-/

namespace TemplateCheck

open List Store

variable {env : Env} {s : Store} {id left right : NodeId} {t : Template} {governor : TypeKey} {decl : TypeDecl}
  {family : StringFamily} {site : Site} {check : ChildCheck} {flatten : Flattening} {M : Type}

structure Store.Remarks (s : Store) (id : NodeId) (t : Template) (s' : Store) : Prop where
  node : ∃ marks, s'.get? id = some { t with marks }
  others : ∀ other, other ≠ id → s'.get? other = s.get? other

/-- An operand that stands for a template: its own, or the one at the end of the chain that has been followed. -/
inductive Store.StandsFor (s : Store) (id : NodeId) (t : Template) : Prop where
  | own : s.get? id = some t → t.form.isDirect → StandsFor s id t
  | followed {u : Template} {r : Reference} {last : NodeId} : s.get? id = some u →
      u.form = .referenced r (some last) → s.get? last = some t → StandsFor s id t

/-- `Reads t m` says that `t` can be joined and stands for `m`, and `Made form m` that two operands may be folded to
`form`, which stands for `m`. -/
structure Joining (env : Env) (governor : TypeKey) (family : StringFamily) {M : Type} (op : M → M → M)
    (Reads : Template → M → Prop) (Made : Form → M → Prop) : Prop where
  isErroneous : ∀ {t m}, Reads t m → t.form.isErroneous = false
  operandFault? : ∀ {t m}, Reads t m → env.definitions.operandFault? family.charFamily? t = none
  join : ∀ {l r m m'}, Reads l m → Reads r m' →
    ∃ form, concatForm? family (env.definitions.operand l) (env.definitions.operand r) = some form ∧ Made form (op m m')
  mayBecome : ∀ {form m} left right, Made form m → (Form.concat left right).mayBecome form
  conforms : ∀ {value m}, Made (.specific value) m → env.valueProblems value governor false = []
  reads : ∀ {form m}, Made form m → ∀ t : Template, t.form = form → t.length = none → t.ifPresent = false → Reads t m

section Steps

variable {s' : Store} {allowOmit : Bool}

theorem Store.Remarks.refl (hNode : s.get? id = some t) : s.Remarks id t s :=
  ⟨⟨t.marks, hNode⟩, fun _ _ => rfl⟩

theorem Store.Remarks.mark (hNode : s.get? id = some t) (m : Mark) : s.Remarks id t (s.update id (·.mark m)) := by
  exact ⟨⟨t.marks.set m, get?_update_some hNode _⟩, fun other hNe => get?_update_of_ne hNe⟩

theorem valueProblems_literal {own : StringFamily} {text : String}
    (hDecl : env.types.decl? governor = some decl) (hCategory : decl.category = .string family)
    (hAccepts : family.accepts own) : env.valueProblems (.string own text) governor allowOmit = [] := by
  rw [Env.valueProblems, hDecl]
  simp [Env.literalProblems, hCategory, hAccepts]

theorem attains_checkConformance {value : Value} (hNode : s.get? id = some t)
    (hForm : t.form = .specific value) (hProblems : env.valueProblems value governor allowOmit = []) :
    Attains true env s (checkConformance id governor allowOmit) fun _ => s.Remarks id t := by
  apply Attains.node_then hNode
  split
  · exact .pure (.refl hNode)
  · apply (Attains.mark hNode .valueChecked).bind
    rintro _ _ rfl
    simp only [hForm]
    apply Attains.read_then
    rw [hProblems]
    exact .pure (.mark hNode .valueChecked)

theorem attains_checkStep_direct {P P' : Store → Prop} (hNode : s.get? id = some t)
    (hUnchecked : t.marks.checked = false)
    (hDirect : t.form.isDirect) (hOmitted : t.form ≠ .omitted) (hSite : t.form = .anyOrOmit → site.allowAnyOrOmit)
    (hConcat : env.settings.concatenation) (hDecl : env.types.decl? governor = some decl)
    (hCategory : decl.category = .string family)
    (hForm : (s.update id (·.govern governor)).get? id = some (t.govern governor) →
      Attains true env (s.update id (·.govern governor)) (checkForm check flatten id governor decl site) fun _ => P)
    (hModifiers : ∀ s', P s' → Attains true env s' (checkModifiers id governor site) fun _ => P')
    (hEnd : ∀ s', P' s' → ∃ t', s'.get? id = some t') :
    Attains true env s (checkStep check flatten id governor site) fun _ => P' := by
  have hGoverned := get?_update_some hNode (·.govern governor)
  apply Attains.checkStep hNode hUnchecked hDecl (by simp [hCategory]) (by simp [hCategory])
  rw [checkGoverned_eq]
  apply (Attains.beforeForm hGoverned hDirect (.inl hConcat) hOmitted hSite).bind
  rintro _ _ rfl
  apply (hForm hGoverned).bind
  intro _ s1 hP
  apply (hModifiers s1 hP).bind
  intro _ s2 hP'
  obtain ⟨t', hNode'⟩ := hEnd s2 hP'
  exact .isErroneous_then hNode' (.pure hP')

theorem attains_checkModifiers_plain (hNode : s.get? id = some t) (hLength : t.length = none)
    (hAlways : t.ifPresent = false) : Attains true env s (checkModifiers id governor site) fun _ s' => s' = s := by
  apply Attains.node_then hNode
  simp only [hLength, hAlways, Option.isSome_none, Bool.false_and]
  exact .pure rfl

theorem Store.StandsFor.attains_lastTemplate (h : s.StandsFor id t) :
    ∃ last u, s.get? last = some t ∧ s.get? id = some u ∧
    (u.form.isErroneous → t.form.isErroneous) ∧
    ∀ env, Attains true env s (lastTemplate id) fun found s' => found = last ∧ s' = s := by
  cases h with
  | own hNode hDirect =>
    exact ⟨id, t, hNode, hNode, fun h => h, fun _ => .lastTemplate hNode (Form.ne_referenced_of_isDirect hDirect)⟩
  | @followed u r last hNode hForm hEnd =>
    exact ⟨last, u, hEnd, hNode, by simp [hForm, Form.isErroneous], fun _ =>
      attains_lastTemplate_of_knownEnd hNode (by rw [hForm]; rfl)⟩

end Steps

structure Store.Folds {M : Type} (Made : Form → M → Prop) (s : Store) (id : NodeId) (t : Template) (m : M)
    (s' : Store) : Prop where
  others : ∀ other, other ≠ id → s'.get? other = s.get? other
  node : ∃ form marks, s'.get? id = some { t with form, marks } ∧ Made form m

namespace Joining

variable {op : M → M → M} {Reads : Template → M → Prop} {Made : Form → M → Prop} {m m' : M}
  (h : Joining env governor family op Reads Made)

include h

variable {P P' : Store → Prop}

theorem attains_checkOperand (hCheck : Attains true env s (check id governor { allowOmit := false }) fun _ => P)
    (hLeads : ∀ s', P s' → ∃ t m, s'.StandsFor id t ∧ Reads t m) :
    Attains true env s (checkOperand check id governor family.charFamily?) fun _ => P := by
  apply hCheck.bind
  intro _ s' hP
  obtain ⟨t, m, hLead, hReads⟩ := hLeads s' hP
  obtain ⟨last, u, hNode, hOwn, hErroneous, hLast⟩ := hLead.attains_lastTemplate
  have hSound := h.isErroneous hReads
  have hSound' : u.form.isErroneous = false := Bool.eq_false_iff.2 fun hTrue => by simp [hErroneous hTrue] at hSound
  apply (hLast env).bind
  rintro _ _ ⟨rfl, rfl⟩
  apply Attains.isErroneous_then hOwn
  apply Attains.isErroneous_then hNode
  simp only [hSound, hSound', Bool.or_self, Bool.false_eq_true, if_false]
  apply Attains.node_then hNode
  apply Attains.read_then
  rw [h.operandFault? hReads]
  exact .pure hP

theorem attains_joinOperands {l r : Template} (hNode : s.get? id = some t) (hForm : t.form = .concat left right)
    (hLeft : s.StandsFor left l) (hReads : Reads l m) (hRight : s.StandsFor right r) (hReads' : Reads r m') :
    Attains true env s (joinOperands id left right governor family) fun _ => s.Folds Made id t (op m m') := by
  obtain ⟨form, hJoined, hMade⟩ := h.join hReads hReads'
  have hMay : t.form.mayBecome form := hForm ▸ h.mayBecome left right hMade
  have hReplaced := get?_update_some hNode fun t => { t with form }
  have hOthers : ∀ other, other ≠ id → (s.update id fun t => { t with form }).get? other = s.get? other :=
    fun _ => get?_update_of_ne
  obtain ⟨last, _, hLast, -, -, hLeft⟩ := hLeft.attains_lastTemplate
  obtain ⟨last', _, hLast', -, -, hRight⟩ := hRight.attains_lastTemplate
  apply Attains.read_then
  apply (hLeft env).bind
  rintro _ _ ⟨rfl, rfl⟩
  apply Attains.node_then hLast
  apply (hRight env).bind
  rintro _ _ ⟨rfl, rfl⟩
  apply Attains.node_then hLast'
  simp only [hJoined]
  apply (Attains.replaceForm hNode hMay).bind
  rintro _ _ rfl
  split
  · rename_i value
    apply (attains_checkConformance hReplaced rfl (h.conforms hMade)).mono
    intro _ s' hRemarks
    obtain ⟨marks, hNode'⟩ := hRemarks.node
    exact ⟨fun other hNe => (hRemarks.others other hNe).trans (hOthers other hNe), _, marks, hNode', hMade⟩
  · exact .pure ⟨hOthers, _, t.marks, hReplaced, hMade⟩

theorem attains_checkConcatenation (hForm : t.form = .concat left right)
    (hLeft : Attains true env s (check left governor { allowOmit := false }) fun _ => P)
    (hFirst : ∀ s', P s' → ∃ l, s'.StandsFor left l ∧ Reads l m)
    (hRight : ∀ s', P s' → Attains true env s' (check right governor { allowOmit := false }) fun _ => P')
    (hBoth : ∀ s', P' s' → s'.get? id = some t ∧ (∃ l, s'.StandsFor left l ∧ Reads l m) ∧
      ∃ r, s'.StandsFor right r ∧ Reads r m')
    (hCategory : decl.category = .string family) :
    Attains true env s (checkConcatenation check id left right governor decl) fun _ s' =>
      ∃ s1, P' s1 ∧ s1.Folds Made id t (op m m') s' := by
  have hOperands : Attains true env s (inside .concatenation do
      let first ← inside .firstOperand (checkOperand check left governor family.charFamily?)
      let second ← inside .secondOperand (checkOperand check right governor family.charFamily?)
      return first || second) fun _ => P' := by
    apply Attains.inside
    apply (h.attains_checkOperand hLeft fun s' hP => ?_).inside .firstOperand |>.bind
    · intro _ s1 hP
      apply (h.attains_checkOperand (hRight s1 hP) fun s' hP' => ?_).inside .secondOperand |>.bind
      · exact fun _ _ hP' => .pure hP'
      · obtain ⟨-, -, r, hLeads, hReads⟩ := hBoth s' hP'
        exact ⟨r, m', hLeads, hReads⟩
    · obtain ⟨l, hLeads, hReads⟩ := hFirst s' hP
      exact ⟨l, m, hLeads, hReads⟩
  unfold checkConcatenation
  simp only [hCategory, Category.concatFamily?]
  apply hOperands.bind
  intro _ s1 hP'
  obtain ⟨hNode, ⟨l, hLeads, hReads⟩, r, hLeads', hReads'⟩ := hBoth s1 hP'
  have hSound {u v : Template} {operand : NodeId} {value : M} (hLeads : s1.StandsFor operand v) (hReads : Reads v value)
      (hOwn : s1.get? operand = some u) : u.form.isErroneous = false := by
    obtain ⟨_, _, -, hFound, hErroneous, -⟩ := hLeads.attains_lastTemplate
    cases hOwn.symm.trans hFound
    have hFalse := h.isErroneous hReads
    exact Bool.eq_false_iff.2 fun hTrue => by simp [hErroneous hTrue] at hFalse
  obtain ⟨_, u, -, hOwn, -, -⟩ := hLeads.attains_lastTemplate
  obtain ⟨_, v, -, hOwn', -, -⟩ := hLeads'.attains_lastTemplate
  have hSettled : Attains true env s1 (settleConcatenation id left right governor (some family)) fun _ =>
      s1.Folds Made id t (op m m') := by
    apply Attains.isErroneous_then hOwn
    apply Attains.isErroneous_then hOwn'
    simp only [hSound hLeads hReads hOwn, hSound hLeads' hReads' hOwn', Bool.or_self, Bool.false_eq_true, if_false]
    exact h.attains_joinOperands hNode hForm hLeads hReads hLeads' hReads'
  apply hSettled.bind
  exact fun _ s' hFolds => .pure ⟨s1, hP', hFolds⟩

/-- A concatenation is folded to what its operands stand for one after the other. -/
theorem attains_checkStep_concat (hNode : s.get? id = some t) (hUnchecked : t.marks.checked = false)
    (hAlways : t.ifPresent = false) (hLength : t.length = none) (hForm : t.form = .concat left right)
    (hLeft : Attains true env (s.update id (·.govern governor)) (check left governor { allowOmit := false }) fun _ => P)
    (hFirst : ∀ s', P s' → ∃ l, s'.StandsFor left l ∧ Reads l m)
    (hRight : ∀ s', P s' → Attains true env s' (check right governor { allowOmit := false }) fun _ => P')
    (hBoth : ∀ s', P' s' → s'.get? id = some (t.govern governor) ∧ (∃ l, s'.StandsFor left l ∧ Reads l m) ∧
      ∃ r, s'.StandsFor right r ∧ Reads r m')
    (hConcat : env.settings.concatenation) (hDecl : env.types.decl? governor = some decl)
    (hCategory : decl.category = .string family) :
    Attains true env s (checkStep check flatten id governor site) fun _ s' =>
      ∃ s1, P' s1 ∧ s1.Folds Made id (t.govern governor) (op m m') s' := by
  refine attains_checkStep_direct hNode hUnchecked (by rw [hForm]; rfl) (by simp [hForm]) (by simp [hForm]) hConcat
    hDecl hCategory (P := fun s' => ∃ s1, P' s1 ∧ s1.Folds Made id (t.govern governor) (op m m') s')
    (fun hGoverned => ?_) ?_ ?_
  · apply Attains.formOf_then hGoverned
    have hForm' : (t.govern governor).form = .concat left right := hForm
    rw [hForm']
    exact h.attains_checkConcatenation hForm' hLeft hFirst hRight hBoth hCategory
  · rintro s' ⟨s1, hP', hFolds⟩
    obtain ⟨form, marks, hNode', -⟩ := hFolds.node
    apply (attains_checkModifiers_plain hNode' hLength hAlways).mono
    rintro _ _ rfl
    exact ⟨s1, hP', hFolds⟩
  · rintro s' ⟨s1, -, hFolds⟩
    obtain ⟨form, marks, hNode', -⟩ := hFolds.node
    exact ⟨_, hNode'⟩

end Joining

structure Store.Joined {M : Type} (Reads : Template → M → Prop) (s : Store) (ids : List NodeId) (id : NodeId) (m : M)
    (s' : Store) : Prop where
  others : ∀ other, other ∉ ids → s'.get? other = s.get? other
  node : ∃ t', s'.get? id = some t' ∧ t'.form.isDirect ∧ Reads t' m

/-- An unchecked tree of concatenations with the nodes `ids`, where `Leaf` tells what its leaves stand for. -/
inductive Store.Unjoined {M : Type} (s : Store) (op : M → M → M) (Leaf : Template → M → Prop) :
    NodeId → List NodeId → M → Prop where
  | leaf {id : NodeId} {t : Template} {m : M} : s.get? id = some t → t.marks.checked = false → Leaf t m →
      Unjoined s op Leaf id [id] m
  | concat {id left right : NodeId} {t : Template} {ids ids' : List NodeId} {m m' : M} : s.get? id = some t →
      t.marks.checked = false → t.ifPresent = false → t.length = none → t.form = .concat left right →
      Unjoined s op Leaf left ids m → Unjoined s op Leaf right ids' m' →
      Unjoined s op Leaf id (id :: (ids ++ ids')) (op m m')

section Trees

variable {op : M → M → M} {Reads Leaf : Template → M → Prop} {Made : Form → M → Prop} {s0 : Store}
  {ids ids' : List NodeId} {m m' : M} {depth : Nat}

theorem Store.Unjoined.mem (h : s.Unjoined op Leaf id ids m) : id ∈ ids := by
  cases h <;> exact mem_cons_self

theorem Store.Unjoined.has (h : s.Unjoined op Leaf id ids m) : ∀ other ∈ ids, s.Has other := by
  induction h with
  | leaf hNode => exact fun other hMem => mem_singleton.1 hMem ▸ has_of_get? hNode
  | concat hNode _ _ _ _ _ _ ih ih' =>
    intro other hMem
    obtain rfl | hMem := mem_cons.1 hMem
    · exact has_of_get? hNode
    · exact (mem_append.1 hMem).elim (ih other) (ih' other)

structure Store.FoldedTree (Made : Form → M → Prop) (s : Store) (ids : List NodeId) (id : NodeId) (t : Template) (m : M)
    (s' : Store) : Prop where
  others : ∀ other, other ∉ ids → s'.get? other = s.get? other
  node : ∃ form marks, s'.get? id = some { t with form, marks } ∧ Made form m

variable (h : Joining env governor family op Reads Made)
  (hLeaf : ∀ {t : Template} {m : M} (depth : Nat) (s : Store) (id : NodeId) (site : Site), Leaf t m →
    s.get? id = some t → t.marks.checked = false → site.allowAnyOrOmit →
    Attains true env s (checkWithin (depth + 1) id governor site) fun _ s' => s.Joined Reads [id] id m s')
  (hConcat : env.settings.concatenation) (hDecl : env.types.decl? governor = some decl)
  (hCategory : decl.category = .string family)

include h hConcat hDecl hCategory

theorem Joining.attains_checkWithin_concat (hNode : s0.get? id = some t) (hUnchecked : t.marks.checked = false)
    (hAlways : t.ifPresent = false) (hLength : t.length = none) (hForm : t.form = .concat left right)
    (hNodup : (id :: (ids ++ ids')).Nodup) (hMem : left ∈ ids)
    (hSame : ∀ other ∈ id :: (ids ++ ids'), s.get? other = s0.get? other)
    (hLeft : ∀ s', (∀ other ∈ ids, s'.get? other = s0.get? other) →
      Attains true env s' (checkWithin depth left governor { allowOmit := false }) fun _ s'' =>
        s'.Joined Reads ids left m s'') (hRight : ∀ s', (∀ other ∈ ids', s'.get? other = s0.get? other) →
      Attains true env s' (checkWithin depth right governor { allowOmit := false }) fun _ s'' =>
        s'.Joined Reads ids' right m' s'') : Attains true env s (checkWithin (depth + 1) id governor site) fun _ s' =>
      s.FoldedTree Made (id :: (ids ++ ids')) id (t.govern governor) (op m m') s' := by
  obtain ⟨hNew, hApart⟩ := nodup_cons.1 hNodup
  rw [mem_append, not_or] at hNew
  have hDisjoint : ∀ other ∈ ids, other ∉ ids' := (nodup_append'.1 hApart).2.2
  rw [← hSame id mem_cons_self] at hNode
  have hOthers : ∀ other, other ≠ id → (s.update id (·.govern governor)).get? other = s.get? other :=
    fun _ => get?_update_of_ne
  have hBelow : ∀ other ∈ ids ++ ids', (s.update id (·.govern governor)).get? other = s0.get? other := by
    intro other hOther
    rw [hOthers other fun hRoot => (nodup_cons.1 hNodup).1 (hRoot ▸ hOther)]
    exact hSame other (mem_cons_of_mem id hOther)
  have hGoverned := get?_update_some hNode (·.govern governor)
  have hStep : Attains true env s (checkStep (checkWithin depth) (flattenWithin depth) id governor site) fun _ s' =>
      ∃ s2, (∃ s1, (s.update id (·.govern governor)).Joined Reads ids left m s1 ∧ s1.Joined Reads ids' right m' s2) ∧
        s2.Folds Made id (t.govern governor) (op m m') s' := by
    refine h.attains_checkStep_concat hNode hUnchecked hAlways hLength hForm
      (hLeft _ fun other hOther => hBelow other (mem_append_left _ hOther)) ?_ ?_ ?_ hConcat hDecl hCategory
    · intro s1 hJoined
      obtain ⟨l, hFound, hDirect, hReads⟩ := hJoined.node
      exact ⟨l, .own hFound hDirect, hReads⟩
    · intro s1 hJoined
      apply (hRight s1 fun other hOther => ?_).mono
      · exact fun _ s2 hJoined' => ⟨s1, hJoined, hJoined'⟩
      · rw [hJoined.others other fun hOwn => hDisjoint other hOwn hOther]
        exact hBelow other (mem_append_right _ hOther)
    · rintro s2 ⟨s1, hJoined, hJoined'⟩
      obtain ⟨l, hFound, hDirect, hReads⟩ := hJoined.node
      obtain ⟨r, hFound', hDirect', hReads'⟩ := hJoined'.node
      rw [← hJoined'.others left (hDisjoint left hMem)] at hFound
      refine ⟨?_, ⟨l, .own hFound hDirect, hReads⟩, r, .own hFound' hDirect', hReads'⟩
      rw [hJoined'.others id hNew.2, hJoined.others id hNew.1, hGoverned]
  apply hStep.mono
  rintro _ s' ⟨s2, ⟨s1, hJoined, hJoined'⟩, hFolds⟩
  refine ⟨fun other hNot => ?_, hFolds.node⟩
  simp only [mem_cons, mem_append, not_or] at hNot
  rw [hFolds.others other hNot.1, hJoined'.others other hNot.2.2, hJoined.others other hNot.2.1, hOthers other hNot.1]

include hLeaf

/-- Checking a tree of concatenations leaves a template that stands for the leaves one after the other. -/
theorem Store.Unjoined.attains_check (hTree : s0.Unjoined op Leaf id ids m) (hNodup : ids.Nodup)
    (hDirect : ∀ {form m}, Made form m → form.isDirect) (hDepth : ids.length ≤ depth) (hSite : site.allowAnyOrOmit)
    (s : Store) (hSame : ∀ other ∈ ids, s.get? other = s0.get? other) :
    Attains true env s (checkWithin depth id governor site) fun _ => s.Joined Reads ids id m := by
  induction hTree generalizing s depth site with
  | @leaf id t m hNode hUnchecked hLeafRead =>
    rw [length_singleton] at hDepth
    obtain ⟨depth, rfl⟩ : ∃ n, depth = n + 1 := ⟨depth - 1, by omega⟩
    exact hLeaf depth s id site hLeafRead ((hSame id mem_cons_self).trans hNode) hUnchecked hSite
  | @concat id left right t ids ids' m m' hNode hUnchecked hAlways hLength hForm hLeft _ ih ih' =>
    rw [length_cons, length_append] at hDepth
    obtain ⟨depth, rfl⟩ : ∃ n, depth = n + 1 := ⟨depth - 1, by omega⟩
    obtain ⟨hNodupLeft, hNodupRight, -⟩ := nodup_append'.1 (nodup_cons.1 hNodup).2
    apply (h.attains_checkWithin_concat hConcat hDecl hCategory hNode hUnchecked hAlways hLength hForm hNodup hLeft.mem
      hSame (ih hNodupLeft (by omega) rfl) (ih' hNodupRight (by omega) rfl)).mono
    intro _ s' hFolded
    obtain ⟨form, marks, hNode', hMade⟩ := hFolded.node
    exact ⟨hFolded.others, _, hNode', hDirect hMade, h.reads hMade _ rfl hLength hAlways⟩

theorem Store.Unjoined.attains_check_root (hTree : s.Unjoined op Leaf id ids m) (hNodup : ids.Nodup)
    (hDirect : ∀ {form m}, Made form m → form.isDirect) (hNode : s.get? id = some t)
    (hForm : t.form = .concat left right)
    (hLeafForm : ∀ {t : Template} {m : M}, Leaf t m → t.form ≠ .concat left right) (hDepth : s.size < depth) :
    t.length = none ∧ t.ifPresent = false ∧ Attains true env s (checkWithin depth id governor site) fun _ =>
      s.FoldedTree Made ids id (t.govern governor) m := by
  have hSize : ids.length ≤ s.size := Store.length_le_size hNodup hTree.has
  obtain ⟨depth, rfl⟩ : ∃ n, depth = n + 1 := ⟨depth - 1, by omega⟩
  cases hTree with
  | leaf hFound _ hLeafRead =>
    cases hNode.symm.trans hFound
    exact absurd hForm (hLeafForm hLeafRead)
  | concat hFound hUnchecked hAlways hLength hForm' hLeft hRight =>
    cases hNode.symm.trans hFound
    cases hForm.symm.trans hForm'
    rw [length_cons, length_append] at hSize
    obtain ⟨hNodupLeft, hNodupRight, -⟩ := nodup_append'.1 (nodup_cons.1 hNodup).2
    refine ⟨hLength, hAlways, h.attains_checkWithin_concat hConcat hDecl hCategory hNode hUnchecked hAlways hLength
      hForm hNodup hLeft.mem (fun _ _ => rfl)
      (hLeft.attains_check h hLeaf hConcat hDecl hCategory hNodupLeft hDirect (by omega) rfl)
      (hRight.attains_check h hLeaf hConcat hDecl hCategory hNodupRight hDirect (by omega) rfl)⟩

end Trees

end TemplateCheck
