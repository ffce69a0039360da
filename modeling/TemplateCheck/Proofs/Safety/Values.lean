import TemplateCheck.Proofs.Safety.Resolution

/-!
# Checking values safely

Ranges, patterns, specific values, length restrictions and concatenations. These checks read and
change the node itself; what they read below it are the operands of a concatenation and the items of
a list.
-/

namespace TemplateCheck

open Store

variable {n : Nat} {K : NodeId → Prop} {F : Allowance} {env : Env} {ids : List NodeId} {s : Store} {id : NodeId}
  {t : Template} {α : Type} {items : List NodeId} {form : Form} {check : ChildCheck} {left right : NodeId} {b : Backing}
  {x : CheckM α}

theorem checks_checkCharPattern {own family : CharFamily} {p : CharPattern}
    (h : Ready n K (F.backing env) ids s) (hMem : id ∈ ids) (hFound : s.get? id = some t)
    (hForm : t.form = .charPattern own p) (hFamily : ¬ (own = .universal ∧ family = .basic)) :
    Safe K F env s (checkCharPattern id family p) := by
  unfold checkCharPattern
  refine ((remarks_expandPattern family p).quiet (h.has id hMem)).bind_runs fun resolved _ => ?_
  refine Quiet.bind_runs (.optionForM fun fault _ => quiet_problemAt (h.has id hMem) _) fun _ _ => ?_
  refine (h.replaceForm hMem hFound ?_ (by simp [Form.children]) rfl (by simp [Form.reference?]) (.inr rfl)).mono
    fun _ _ _ _ => trivial
  rw [hForm]
  cases own <;> cases family <;> simp_all [Form.mayBecome, Form.variant]

theorem exists_foldlM_eq_ok {β : Type} {f : β → α → Except Fault β} {xs : List α}
    (h : ∀ a ∈ xs, ∀ b, ∃ b', f b a = .ok b') (b : β) : ∃ b', xs.foldlM f b = .ok b' := by
  induction xs generalizing b with
  | nil => exact ⟨b, rfl⟩
  | cons a xs ih =>
    obtain ⟨b', hStep⟩ := h a (by simp) b
    obtain ⟨b'', hRest⟩ := ih (fun a' ha' => h a' (by simp [ha'])) b'
    exact ⟨b'', by rw [List.foldlM_cons, hStep]; exact hRest⟩

theorem Store.exists_tallyWithin_eq_ok (measure : NodeId → Form → α) (add : α → α → α) (zero : α) (depth : Nat)
    (hItems : ∀ item ∈ items, s.Founded item ∧ ¬ s.Descends depth item) :
    ∃ total, s.tallyWithin measure add zero (depth + 1) items = .ok total := by
  induction depth generalizing items with
  | zero =>
    refine exists_foldlM_eq_ok (fun item hItem => ?_) zero
    exact absurd (.here item) (hItems item hItem).2
  | succ depth ih =>
    refine exists_foldlM_eq_ok (fun item hItem total => ?_) zero
    obtain ⟨hFounded, hPath⟩ := hItems item hItem
    obtain ⟨t, hFound⟩ := (hFounded.has item .refl).exists_get?
    have hForm : s.formOf item = .ok t.form := by simp [formOf, hFound]
    rw [hForm]
    dsimp only [bind, Except.bind]
    split
    · rename_i members hMembers
      have hBelow : ∀ member ∈ members, s.Founded member ∧ ¬ s.Descends depth member := by
        intro member hMember
        have hChild : s.Child item member := ⟨t, hFound, by rwa [hMembers]⟩
        exact ⟨hFounded.of_child hChild, fun hBelow => hPath (.step hChild hBelow)⟩
      obtain ⟨inner, hInner⟩ := ih hBelow
      exact ⟨_, by rw [hInner]; rfl⟩
    · exact ⟨_, rfl⟩

theorem quiet_extent (h : s.Backed b)
    (hItems : ∀ item ∈ items, s.Has item) : Quiet env s (extent items) fun _ => True := by
  refine quiet_currentStore.bind ?_
  rintro _ rfl
  obtain ⟨total, hTotal⟩ := exists_tallyWithin_eq_ok itemExtent Extent.add {} s.size
    fun item hItem => ⟨h.founded (hItems item hItem), fun hPath =>
      Nat.lt_irrefl _ (h.descends_lt hPath (hItems item hItem))⟩
  rw [Store.extent, hTotal]
  exact .pure trivial

/-- What a check does to a store without adding nodes. -/
def Store.Stays (b : Backing) (K : NodeId → Prop) (before after : Store) : Prop :=
  before.Reaches b K after ∧ after.size = before.size

instance {b : Backing} {K : NodeId → Prop} : Course (Stays b K) where
  refl s := ⟨Course.refl s, rfl⟩
  trans hFirst hSecond := ⟨Course.trans hFirst.1 hSecond.1, hSecond.2.trans hFirst.2⟩

theorem Runs.stays {Q : α → Store → Prop} (id : NodeId) (h : Checks K F env s x Q)
    (hAlters : Steps (Alters id) env s x) : Runs (Stays (F.backing env) K) F env s x Q := by
  intro report result after hRun
  obtain ⟨hReaches, hEnd⟩ := h report result after hRun
  exact ⟨⟨hReaches, (hAlters report result after hRun).1.size_eq⟩, hEnd⟩

/-- Safe steps of a check that concern the node itself. -/
abbrev Secured (n : Nat) (K : NodeId → Prop) (F : Allowance) (env : Env) (id : NodeId) (size : Nat) {α β : Type}
    (x : Unit → CheckM α) (view : Unit → β → α) (ok : β → Prop) : Prop :=
  Secure (Stays (F.backing env) K) F env (Ready n K (F.backing env) [id]) size x view ok

theorem Runs.secured (h : Safe K F env s x) (hAlters : Steps (Alters id) env s x) :
    Runs (Stays (F.backing env) K) F env s x fun a _ => ∃ b, True ∧ a = b :=
  (h.stays id hAlters).mono fun a _ _ _ => ⟨a, trivial, rfl⟩

theorem steady_ready (b : Backing) : Steady b (Stays b K) (Ready n K b ids) :=
  ⟨fun h hStays => h.step hStays.1, And.right, fun h => h.backed⟩

theorem alters_secured (size : Nat) :
    (Naming.below env size).Alters (fun other => other = id ∧ other.index < size) (Secured n K F env id size) where
  toReports := (steady_ready (F.backing env)).reports size
  lastTemplate hId s h hs := by
    subst hs
    refine ((checks_lastTemplate h.backed hId).stays id (pursuing_lastTemplate s _).alters).mono ?_
    exact fun last s' hStays hLast => ⟨last, hStays.2 ▸ hLast, rfl⟩
  extent hItems s h hs := by
    subst hs
    exact (quiet_extent h.backed fun item hItem => hItems item (by simpa using hItem)).runs
      fun total _ => ⟨total, trivial, rfl⟩
  known := And.right
  inside c hx s h hs := (hx s h hs).inside c
  mark m hId hNe s h _ := by
    obtain ⟨rfl, -⟩ := hId
    exact (h.mark (by simp) m).secured (steps_mark hNe)
  giveUp span p hId s h _ := by
    obtain ⟨rfl, -⟩ := hId
    exact (quiet_problem span p).bind_runs fun _ _ => (h.markErroneous (by simp)).secured steps_markErroneous

theorem Agreed.safe {x : Unit → CheckM α} (h : Ready n K (F.backing env) [id] s)
    (hx : id.index < s.size → Agreed (Secured n K F env id s.size) x) : Safe K F env s (x ()) :=
  ((hx h.head s h rfl).weaken fun _ hStays => hStays.1).mono fun _ _ _ _ => trivial

theorem checks_checkConformance (governor : TypeKey) (allowOmit : Bool) (h : Ready n K (F.backing env) [id] s) :
    Safe K F env s (checkConformance id governor allowOmit) :=
  Agreed.safe h fun hId => (alters_secured s.size).checkConformance ⟨rfl, hId⟩ governor allowOmit

theorem checks_checkOperand (hCheck : ChecksSafely n F env check)
    (governor : TypeKey) (text : Option CharFamily) (h : Ready n K (F.backing env) [id] s) :
    Safe K F env s (checkOperand check id governor text) := by
  unfold checkOperand
  refine h.bind (hCheck K s id governor _ h) fun outcome s1 _ h1 _ => ?_
  refine h1.bind (checks_lastTemplate h1.backed h1.head) fun last s2 _ h2 hLast => ?_
  have hHas := h2.head
  refine (quiet_isErroneous hHas).bind_runs fun _ _ => ?_
  refine (quiet_isErroneous hLast).bind_runs fun _ _ => ?_
  split
  · exact .pure trivial
  refine (quiet_node hLast).bind_runs fun t _ => quiet_read.bind_runs fun _ _ => ?_
  refine Runs.finish (.optionForM fun fault _ => ?_)
  refine (quiet_problemAt hHas _).bind_runs fun _ _ => ?_
  split
  · exact h2.markErroneous (by simp)
  · exact .pure trivial

theorem checks_joinOperands (governor : TypeKey) (family : StringFamily)
    (h : Ready n K (F.backing env) [id] s) (hFound : s.get? id = some t)
    (hForm : t.form = .concat left right) : Safe K F env s (joinOperands id left right governor family) := by
  have hReference : t.form.reference? = none := by simp [hForm, Form.reference?]
  have hLeft : s.Has left := h.backed.has_child hFound (by simp [hForm, Form.children])
  unfold joinOperands
  apply Runs.read_then
  refine h.bind_guarded hFound hReference (checks_lastTemplate h.backed hLeft) ?_
  intro first s1 h1 hFound1 hFirst
  have hRight : s1.Has right := h1.backed.has_child hFound1 (by simp [hForm, Form.children])
  refine (quiet_node hFirst).bind_runs fun _ _ => ?_
  refine h1.bind_guarded hFound1 hReference (checks_lastTemplate h1.backed hRight) ?_
  intro second s2 h2 hFound2 hSecond
  refine (quiet_node hSecond).bind_runs fun _ _ => ?_
  dsimp only
  split
  · exact .pure trivial
  · rename_i form hJoined
    obtain ⟨hMay, hChildren, hResolved, hNone, hPlain, -⟩ := concatForm_mayBecome hJoined left right
    refine h2.bind (h2.replaceForm (by simp) hFound2 (hForm ▸ hMay) (by simp [hChildren]) hResolved
      (by simp [hNone]) (.inr hPlain)) ?_
    intro _ s3 _ h3 _
    split
    · exact checks_checkConformance governor false h3
    · exact .pure trivial

theorem checks_checkConcatenation (hCheck : ChecksSafely n F env check) (governor : TypeKey) (decl : TypeDecl)
    (h : Ready n K (F.backing env) [id] s) (hFound : s.get? id = some t) (hForm : t.form = .concat left right) :
    Safe K F env s (checkConcatenation check id left right governor decl) := by
  have hChildren : t.form.children = [left, right] := by simp [hForm, Form.children]
  unfold checkConcatenation
  split
  · rename_i family _
    dsimp only
    have hOperands := h.guarded (by simp) hFound
    rw [hChildren] at hOperands
    refine h.bind_guarded (Q := fun _ _ => True) hFound (by simp [hForm, Form.reference?]) (Runs.inside _ ?_) ?_
    · have hLeft := checks_checkOperand hCheck governor (family.bind StringFamily.charFamily?)
        (hOperands.only (by simp : left ∈ _))
      refine hOperands.bind (.inside _ hLeft) fun first s1 _ h1 _ => ?_
      have hRight := checks_checkOperand hCheck governor (family.bind StringFamily.charFamily?)
        (h1.only (by simp : right ∈ _))
      exact (Runs.inside _ hRight).finish
    intro selfReference s1 h1 hFound1 _
    have hLeft : s1.Has left := h1.backed.has_child hFound1 (by simp [hChildren])
    have hRight : s1.Has right := h1.backed.has_child hFound1 (by simp [hChildren])
    have hSettle : Safe K F env s1 (settleConcatenation id left right governor family) := by
      refine (quiet_isErroneous hLeft).bind_runs fun _ _ => ?_
      refine (quiet_isErroneous hRight).bind_runs fun _ _ => ?_
      split
      · exact h1.markErroneous (by simp)
      · exact .optionForM fun family _ => checks_joinOperands governor family h1 hFound1 hForm
    exact hSettle.finish
  · exact (h.reject (by simp) _).finish

end TemplateCheck
