import TemplateCheck.Proofs.Stepwise.Check

/-!
# What the check of a node does to the node itself

However far a chain of references leads, only referenced templates change on the way, and only those whose chain was not
followed before: they learn where it ends, or are given up. Apart from its governor, from splicing and from implicit
omits, a check changes the node it is about in one way only: the node keeps its children or loses all of them.
-/

namespace TemplateCheck

open Store

variable {t t' t'' : Template} {s : Store} {id : NodeId} {env : Env}

namespace Template

theorem remember_form_ne (t : Template) (last : NodeId) (r : Reference) :
    (t.remember last).form ≠ .referenced r none := by
  unfold Template.remember
  split
  · simp
  · rename_i hNot
    exact fun hSame => hNot r none hSame

/-- What following references makes of a node. -/
inductive Pursued (t : Template) : Template → Prop where
  | same : t.Pursued t
  | followed {r : Reference} {last : NodeId} {marks : Marks} : t.form = .referenced r none →
      marks = t.marks ∨ marks = t.marks.set .recursionsChecked →
      t.Pursued { t with form := .referenced r (some last), marks }
  | givenUp {r : Reference} {marks : Marks} : t.form = .referenced r none →
      marks = t.marks ∨ marks = t.marks.set .recursionsChecked →
      t.Pursued { t with form := .erroneous, marks }

namespace Pursued

variable {r : Reference}

theorem trans (hFirst : t.Pursued t') (hSecond : t'.Pursued t'') : t.Pursued t'' := by
  cases hFirst with
  | same => exact hSecond
  | followed hForm hMarks =>
    cases hSecond with
    | same => exact .followed hForm hMarks
    | followed hForm' | givenUp hForm' => cases hForm'
  | givenUp hForm hMarks =>
    cases hSecond with
    | same => exact .givenUp hForm hMarks
    | followed hForm' | givenUp hForm' => cases hForm'

theorem giveUp (hForm : t.form = .referenced r none) (h : t.Pursued t') : t.Pursued { t' with form := .erroneous } := by
  cases h with
  | same => exact .givenUp hForm (.inl rfl)
  | followed _ hMarks | givenUp _ hMarks => exact .givenUp hForm hMarks

theorem remember (hForm : t.form = .referenced r none) (h : t.Pursued t') (last : NodeId) :
    t.Pursued (t'.remember last) := by
  cases h with
  | same =>
    have hEq : t.remember last = { t with form := .referenced r (some last) } := by
      simp only [Template.remember, hForm]
    rw [hEq]
    exact .followed hForm (.inl rfl)
  | followed hForm' hMarks => exact .followed hForm' hMarks
  | givenUp hForm' hMarks => exact .givenUp hForm' hMarks

theorem mark (h : t.Pursued t') (hNe : t'.form ≠ t.form) : t.Pursued (t'.mark .recursionsChecked) := by
  have hSet : ∀ marks : Marks, marks = t.marks ∨ marks = t.marks.set .recursionsChecked →
      marks.set .recursionsChecked = t.marks.set .recursionsChecked := by
    rintro _ (rfl | rfl) <;> rfl
  cases h with
  | same => exact absurd rfl hNe
  | followed hForm' hMarks => exact .followed hForm' (.inr (hSet _ hMarks))
  | givenUp hForm' hMarks => exact .givenUp hForm' (.inr (hSet _ hMarks))

theorem governor (h : t.Pursued t') : t'.governor = t.governor := by
  cases h <;> rfl

theorem children (h : t.Pursued t') : t'.form.children = t.form.children := by
  cases h with
  | same => rfl
  | followed hForm | givenUp hForm => simp [hForm, Form.children]

theorem checked (h : t.Pursued t') : t'.marks.checked = t.marks.checked := by
  cases h with
  | same => rfl
  | followed _ hMarks | givenUp _ hMarks => obtain rfl | rfl := hMarks <;> rfl

theorem eq_of_form (h : t.Pursued t') (hForm : ∀ r, t.form ≠ .referenced r none) : t' = t := by
  cases h with
  | same => rfl
  | followed hReferenced | givenUp hReferenced => exact absurd hReferenced (hForm _)

end Pursued

end Template

namespace Store

variable {s0 : Store}

instance : Course Template.Pursued := ⟨fun _ => .same, .trans⟩

/-- What following references does to a store. -/
abbrev Pursues : Store → Store → Prop := Turns fun _ => Template.Pursued

theorem Pursues.update {f : Template → Template} {t0 : Template} (h : s0.Pursues s) (hStart : s0.get? id = some t0)
    (hNode : ∀ t, s.get? id = some t → t0.Pursued t → t0.Pursued (f t)) : s0.Pursues (s.update id f) where
  size_eq := by rw [size_update, h.size_eq]
  nodes other t hOther := by
    obtain ⟨t', hFound, hPursued⟩ := h.nodes other t hOther
    by_cases hEq : other = id
    · subst hEq
      cases hStart.symm.trans hOther
      exact ⟨f t', by simp [hFound], hNode t' hFound hPursued⟩
    · exact ⟨t', (get?_update_of_ne hEq).trans hFound, hPursued⟩

end Store

section

def Pursuing (env : Env) (resolve : NodeId → CheckM NodeId) : Prop :=
  ∀ s id, Steps Pursues env s (resolve id)

theorem steps_narrow {resolve : NodeId → CheckM NodeId} (hResolve : Pursuing env resolve)
    (span : Span) (depth : Nat) (path : List PathStep) (type : TypeKey) :
    Steps Pursues env s (narrow resolve span depth path id type) :=
  (sequential_steps Pursues env).stepwise.narrow (fun _ => .throw trivial) (fun id s => hResolve s id) span depth path
    id type s

theorem steps_chainEnd {resolve : ReferenceChain → NodeId → CheckM NodeId}
    (hResolve : ∀ chain, Pursuing env (resolve chain)) (chain : ReferenceChain) {t : Template}
    {r : Reference} (body : NodeId) (type : TypeKey) (hFound : s.get? id = some t)
    (hForm : t.form = .referenced r none) : Steps Pursues env s (chainEnd resolve chain id r body type) := by
  have hGiveUp : ∀ s', s.Pursues s' → Steps (fun _ => s.Pursues) env s' (do markErroneous id; return id) := by
    intro s' hPursues
    apply (moves_replaceForm hPursues ?_).bind_from
    · rintro _ _ hPursues' -
      exact .done hPursues' trivial
    · intro _ _ _
      exact hPursues.update hFound fun _ _ hPursued => hPursued.giveUp hForm
  unfold chainEnd
  split
  · rename_i longer _
    apply Still.currentStore.then
    intro store
    apply (steps_narrow (hResolve longer) r.span _ r.path type).bind_from
    intro part s1 hPursues _
    split
    · exact (hResolve longer s1 _).weaken fun _ => Course.trans hPursues
    · exact .done hPursues trivial
    · exact hGiveUp s1 hPursues
  · change Steps Pursues env s ((problemAt id _ >>= fun _ => markErroneous id) >>= fun _ => pure id)
    rw [bind_assoc]
    apply (Still.problemAt id _).then
    intro _
    exact hGiveUp s (Course.refl s)

theorem pursuing_lastWithin (depth : Nat) (chain : ReferenceChain) : Pursuing env (lastWithin depth chain) := by
  induction depth generalizing chain with
  | zero => exact fun _ _ => .throw trivial
  | succ depth ih =>
    intro s id
    unfold lastWithin
    apply Runs.formOf_then
    intro t hFound
    split
    · exact .pure trivial
    · rename_i r hForm
      have hRemember : ∀ s' last, s.Pursues s' → s.Pursues (s'.update id (·.remember last)) := by
        intro s' last hPursues
        exact hPursues.update hFound fun _ _ hPursued => hPursued.remember hForm last
      apply Still.read.then
      intro env'
      split
      · split
        · -- The mark is a permitted change of the node as it was at the start, not as it is then.
          apply (steps_chainEnd ih chain _ _ hFound hForm).bind_from
          intro last s1 hPursues _
          apply (moves_modifyNode hPursues fun _ _ => hRemember s1 last hPursues).bind_from
          rintro _ _ hPursues2 ⟨⟨t1, hFound1⟩, rfl⟩
          apply (moves_modifyNode hPursues2 ?_).bind_from
          · rintro _ _ hPursues3 -
            exact .done hPursues3 trivial
          · intro _ _
            apply hPursues2.update hFound
            intro t2 hFound2 hPursued
            apply hPursued.mark
            rw [get?_update_self, hFound1] at hFound2
            cases hFound2
            rw [hForm]
            exact Template.remember_form_ne t1 last r
        · apply (moves_modifyNode (Course.refl s) fun _ _ => hRemember s id (Course.refl s)).bind
          exact fun _ _ _ _ => .pure trivial
      · exact .pure trivial
    · exact .pure trivial

theorem pursuing_lastTemplate : Pursuing env lastTemplate := by
  intro s id
  apply Runs.store_then
  exact pursuing_lastWithin _ _ s id

theorem steps_basePart (r : Reference) (template : TemplateDef) (type : TypeKey) :
    Steps Pursues env s (basePart r template type) := by
  apply Runs.store_then
  apply (steps_narrow (pursuing_lastWithin _ _) r.span _ r.path type).bind
  intro part _ _ _
  split <;> exact .pure trivial

theorem Still.stepwise : Stepwise (fun _ => True) fun {_} (x : Unit → CheckM _) => Still (x ()) :=
  Sequential.stepwise ⟨fun hx => hx, fun hx hf => hx.bind hf⟩

theorem steps_walkTarget (span : Span) (path : List PathStep) (walk : TargetWalk) :
    Steps Pursues env s (walkTarget span path walk) :=
  (sequential_steps Pursues env).stepwise.walkTarget (fun id s => pursuing_lastTemplate s id) span path walk s

end

structure Template.Altered (t t' : Template) : Prop where
  governor : t'.governor = t.governor
  checked : t'.marks.checked = t.marks.checked
  form : t'.form = t.form ∨ t'.form.children = []

namespace Template

theorem Altered.refl (t : Template) : t.Altered t := ⟨rfl, rfl, .inl rfl⟩

theorem Altered.trans (hFirst : t.Altered t') (hSecond : t'.Altered t'') : t.Altered t'' where
  governor := hSecond.governor.trans hFirst.governor
  checked := hSecond.checked.trans hFirst.checked
  form := by
    obtain hSame | hNone := hSecond.form
    · rw [hSame]
      exact hFirst.form
    · exact .inr hNone

theorem Pursued.altered (h : t.Pursued t') : t.Altered t' where
  governor := h.governor
  checked := h.checked
  form := by
    cases h with
    | same => exact .inl rfl
    | followed | givenUp => exact .inr rfl

theorem Altered.children (h : t.Altered t') : t'.form.children = t.form.children ∨ t'.form.children = [] := by
  obtain hSame | hNone := h.form
  · exact .inl (by rw [hSame])
  · exact .inr hNone

end Template

/-- What the check of a node does to the store without its children. -/
abbrev Store.Alters (id : NodeId) : Store → Store → Prop :=
  Turns fun other t t' => t.Altered t' ∧ (other ≠ id → t.Pursued t')

variable {f : Template → Template}

namespace Store

instance {other : NodeId} : Course fun t t' : Template => t.Altered t' ∧ (other ≠ id → t.Pursued t') where
  refl t := ⟨.refl t, fun _ => .same⟩
  trans h h' := ⟨h.1.trans h'.1, fun hNe => (h.2 hNe).trans (h'.2 hNe)⟩

theorem Pursues.alters {after : Store} (h : s.Pursues after) : s.Alters id after :=
  h.mono fun _ _ _ hPursued => ⟨hPursued.altered, fun _ => hPursued⟩

theorem alters_update (h : ∀ t : Template, s.get? id = some t → t.Altered (f t)) : s.Alters id (s.update id f) :=
  turns_update fun t hNode => ⟨h t hNode, fun hNe => absurd rfl hNe⟩

end Store

section

variable {α : Type} {x : CheckM α}

theorem Runs.alters {Q : α → Store → Prop} (h : Moves Pursues env s x Q) : Moves (Alters id) env s x Q :=
  h.weaken fun _ => Pursues.alters

theorem steps_modifyNode {h : ∀ t : Template, t.Evolves (f t)}
    (hAltered : ∀ t : Template, t.Altered (f t)) : Steps (Alters id) env s (onStore (modifyNode id f h)) :=
  (moves_modifyNode (Course.refl s) fun _ _ => alters_update fun t _ => hAltered t).steps

theorem steps_mark {m : Mark} (hNe : m ≠ .checked) : Steps (Alters id) env s (mark id m) := by
  apply steps_modifyNode
  intro t
  refine ⟨rfl, ?_, .inl rfl⟩
  cases m with
  | checked => exact absurd rfl hNe
  | _ => rfl

theorem steps_replaceForm {form : Form} (hNone : form.children = []) :
    Steps (Alters id) env s (replaceForm id form) :=
  (moves_replaceForm (Course.refl s) fun _ _ _ =>
    alters_update fun _ _ => ⟨rfl, rfl, .inr hNone⟩).steps

theorem steps_markErroneous : Steps (Alters id) env s (markErroneous id) :=
  steps_replaceForm rfl

theorem steps_settle (flattened : Bool) : Steps (Alters id) env s (settle id flattened) := by
  apply steps_modifyNode
  intro t
  refine ⟨rfl, ?_, .inl rfl⟩
  cases flattened <;> rfl

theorem steps_reject (p : Problem) : Steps (Alters id) env s (reject id p) :=
  (Still.problemAt id p).then fun _ => steps_markErroneous

theorem steps_recognizeReference : Steps (Alters id) env s (recognizeReference id) := by
  apply (Still.formOf id).then
  intro form
  split
  · apply Still.read.then
    intro env'
    split
    · exact steps_reject _
    · split
      · exact steps_replaceForm rfl
      · exact .pure trivial
  · exact .pure trivial

theorem Own.alters (h : Own id x) : Steps (Alters id) env s x := by
  cases h with
  | recognizeReference => exact steps_recognizeReference
  | mark hNe => exact steps_mark hNe
  | giveUp span p => exact (Still.tell span _).then fun _ => steps_markErroneous
  | giveUpWith left right =>
    apply (Still.isErroneous left).then
    intro first
    apply (Still.isErroneous right).then
    intro second
    split
    · exact steps_markErroneous.finish
    · exact .pure trivial
  | become _ hChildren _ => exact steps_replaceForm hChildren
  | linkBase | inheritBase => exact steps_modifyNode fun _ => ⟨rfl, rfl, .inl rfl⟩

theorem follows_pursues (env : Env) : (Naming.plain Unit fun _ => True).Follows
    (Continues fun {_} (x : Unit → CheckM _) => ∀ s, Steps Pursues env s (x ())) :=
  (sequential_steps Pursues env).follows fun id s => pursuing_lastTemplate s id

theorem altering (id : NodeId) (env : Env) :
    Altering (· = id) fun {_} (x : Unit → CheckM _) => ∀ s, Steps (Alters id) env s (x ()) where
  toSequential := sequential_steps (Alters id) env
  inside c hx s := (hx s).inside c
  lastTemplate other s := (pursuing_lastTemplate s other).alters
  basePart r template type _ := (steps_basePart r template type).alters
  own h hId _ := hId ▸ h.alters

theorem Agreed.steps {x : Unit → CheckM α}
    (h : Agreed (Continues fun {_} (x : Unit → CheckM _) => ∀ s, Steps (Alters id) env s (x ())) x) :
    Steps (Alters id) env s (x ()) :=
  ((altering id env).stepwise.run h) s

theorem steps_checkPlacement (site : Site) : Steps Pursues env s (checkPlacement id site) :=
  ((sequential_steps Pursues env).stepwise.run ((follows_pursues env).checkPlacement trivial site)) s

theorem steps_completeness (incomplete : Bool) (given : Form → Completeness) :
    Steps Pursues env s (completeness id incomplete given) :=
  ((sequential_steps Pursues env).stepwise.runViewed (by simp) ((follows_pursues env).completeness trivial
    incomplete (fun _ _ _ _ _ _ => trivial) fun _ _ => by simp)) s

theorem still_checkSymbol (symbol : String) (decl : TypeDecl) : Still (checkSymbol id symbol decl) :=
  sequential_still.stepwise.run (sequential_still.reports.checkSymbol trivial symbol decl)

theorem steps_bindGovernor (inline : InlineTemplate) (expected : Option TypeKey) :
    Steps (Alters inline.body) env s (bindGovernor inline expected) :=
  ((altering inline.body env).reshapes.bindGovernor rfl (fun r _ => Naming.covers_plain r) expected).steps

end

end TemplateCheck
