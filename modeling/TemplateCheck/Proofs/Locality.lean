import TemplateCheck.Proofs.Execution
import TemplateCheck.Proofs.Graph

/-!
# What a computation does to the store

Nothing is assumed of the store here: links may lead nowhere or in circles, and a computation may end in any fault. A
still computation leaves the store alone. Any other moves it along a relation, whether it ends with a result or in a
fault, and a result has a given property.
-/

namespace TemplateCheck

variable {α β : Type} {E : Fault → Store → Prop}

section Still

def Still (x : CheckM α) : Prop := ∀ env st, ((x env).run st).2.store = st.store

namespace Still

variable {x : CheckM α} {f : α → CheckM β}

theorem pure (a : α) : Still (pure a : CheckM α) := fun _ _ => rfl

theorem throw (fault : Fault) : Still (throw fault : CheckM α) := fun _ _ => rfl

theorem read : Still (read : CheckM Env) := fun _ _ => rfl

theorem currentStore : Still currentStore := fun _ _ => rfl

theorem tell (span : Span) (finding : Finding) : Still (tell span finding) := fun _ _ => rfl

theorem bind (hx : Still x) (hf : ∀ a, Still (f a)) : Still (x >>= f) := by
  intro env st
  have hFirst := hx env st
  rcases hRun : (x env).run st with ⟨fault | a, middle⟩
  · rw [run_bind_error f hRun]
    rwa [hRun] at hFirst
  · rw [run_bind_ok f hRun, hf a env middle]
    rwa [hRun] at hFirst

theorem onlyIf {c : Bool} {x : CheckM Unit} (hx : Still x) : Still (onlyIf c x) := by
  cases c with
  | false => exact pure ()
  | true => exact hx

theorem forM {xs : List α} {f : α → CheckM Unit} (hf : ∀ a, Still (f a)) : Still (xs.forM f) := by
  induction xs with
  | nil => exact pure ()
  | cons a xs ih => exact (hf a).bind fun _ => ih

theorem optionForM {o : Option α} {f : α → CheckM Unit} (hf : ∀ a, Still (f a)) : Still (o.forM f) := by
  cases o with
  | none => exact pure ()
  | some a => exact hf a

theorem ofExcept (result : Except Fault α) : Still (MonadExcept.ofExcept result : CheckM α) := by
  cases result with
  | error fault => exact throw fault
  | ok a => exact pure a

theorem node (id : NodeId) : Still (node id) := fun _ _ => rfl

theorem formOf (id : NodeId) : Still (formOf id) := (node id).bind fun _ => pure _

theorem isErroneous (id : NodeId) : Still (isErroneous id) := (formOf id).bind fun _ => pure _

theorem problemAt (id : NodeId) (p : Problem) : Still (problemAt id p) := (node id).bind fun _ => tell _ _

theorem warnAt (id : NodeId) (w : Warning) : Still (warnAt id w) := (node id).bind fun _ => tell _ _

theorem illegalForm (id : NodeId) (decl : TypeDecl) : Still (illegalForm id decl) :=
  (formOf id).bind fun _ => problemAt id _

end Still

end Still

section Moves

variable {R : Store → Store → Prop} {env : Env} {s : Store}

/-- The store moves along `R`. A result has the property `Q`, and `E` holds of a fault. -/
def Runs (R : Store → Store → Prop) (E : Fault → Store → Prop) (env : Env) (s : Store) (x : CheckM α)
    (Q : α → Store → Prop) : Prop :=
  ∀ report result after, (x env).run ⟨s, report⟩ = (result, after) → R s after.store ∧
    match result with
    | .ok a => Q a after.store
    | .error fault => E fault after.store

abbrev Moves (R : Store → Store → Prop) (env : Env) (s : Store) (x : CheckM α) (Q : α → Store → Prop) : Prop :=
  Runs R (fun _ _ => True) env s x Q

abbrev Steps (R : Store → Store → Prop) (env : Env) (s : Store) (x : CheckM α) : Prop :=
  Moves R env s x fun _ _ => True

namespace Runs

variable {x : CheckM α} {f : α → CheckM β} {Q Q' : α → Store → Prop} {P : β → Store → Prop} {xs : List α} {g : α → β}
  {a : α}

theorem mono (h : Runs R E env s x Q) (hQ : ∀ a s', R s s' → Q a s' → Q' a s') : Runs R E env s x Q' := by
  intro report result after hRun
  obtain ⟨hR, hEnd⟩ := h report result after hRun
  refine ⟨hR, ?_⟩
  cases result with
  | ok a => exact hQ a _ hR hEnd
  | error fault => exact hEnd

theorem loosen {E' : Fault → Store → Prop} (h : Runs R E env s x Q) (hE : ∀ fault s', E fault s' → E' fault s') :
    Runs R E' env s x Q := by
  intro report result after hRun
  obtain ⟨hR, hEnd⟩ := h report result after hRun
  refine ⟨hR, ?_⟩
  cases result with
  | ok a => exact hEnd
  | error fault => exact hE fault _ hEnd

theorem moves (h : Runs R E env s x Q) : Moves R env s x Q := h.loosen fun _ _ _ => trivial

theorem steps (h : Moves R env s x Q) : Steps R env s x := h.mono fun _ _ _ _ => trivial

theorem weaken {R' : Store → Store → Prop} (h : Runs R E env s x Q) (hR : ∀ s', R s s' → R' s s') :
    Runs R' E env s x Q := by
  intro report result after hRun
  obtain ⟨hMove, hEnd⟩ := h report result after hRun
  exact ⟨hR _ hMove, hEnd⟩

theorem bind_from (hx : Runs R E env s x Q)
    (hf : ∀ a s', R s s' → Q a s' → Runs (fun _ s'' => R s s'') E env s' (f a) P) : Runs R E env s (x >>= f) P := by
  intro report result after hRun
  obtain ⟨fault, rfl, hFirst⟩ | ⟨a, middle, hFirst, hNext⟩ := of_run_bind hRun
  · exact hx _ _ _ hFirst
  · obtain ⟨hR, hQ⟩ := hx _ _ _ hFirst
    exact hf a middle.store hR hQ _ _ _ hNext

theorem done (hR : R s s) (hQ : Q a s) : Runs R E env s (Pure.pure a) Q := by
  intro report result after hRun
  cases hRun
  exact ⟨hR, hQ⟩

theorem inside (c : Context) (h : Runs R E env s x Q) : Runs R E env s (inside c x) Q := by
  intro report result after hRun
  obtain ⟨middle, hInner, rfl⟩ := of_run_inside hRun
  exact h _ _ middle hInner

variable [Course R]

theorem pure (hQ : Q a s) : Runs R E env s (Pure.pure a) Q := done (Course.refl s) hQ

theorem throw {fault : Fault} (hE : E fault s) : Runs R E env s (throw fault) Q := by
  intro report result after hRun
  cases hRun
  exact ⟨Course.refl s, hE⟩

theorem bind (hx : Runs R E env s x Q) (hf : ∀ a s', R s s' → Q a s' → Runs R E env s' (f a) P) :
    Runs R E env s (x >>= f) P :=
  hx.bind_from fun a s' hR hQ => (hf a s' hR hQ).weaken fun _ => Course.trans hR

theorem bind_pure (h : Runs R E env s x Q) (hP : ∀ a s', P (g a) s') :
    Runs R E env s (x >>= fun a => Pure.pure (g a)) P :=
  h.bind fun a s' _ _ => pure (hP a s')

theorem finish (h : Runs R E env s x Q) : Runs R E env s (x >>= fun a => Pure.pure (g a)) fun _ _ => True :=
  h.bind_pure fun _ _ => trivial

theorem foldlM {f : β → α → CheckM β} {J : β → Store → Prop} {b : β} (hb : J b s)
    (h : ∀ a ∈ xs, ∀ b s', R s s' → J b s' → Runs R E env s' (f b a) J) : Runs R E env s (xs.foldlM f b) J := by
  induction xs generalizing s b with
  | nil => exact pure hb
  | cons a xs ih =>
    rw [List.foldlM_cons]
    apply (h a (by simp) b s (Course.refl s) hb).bind
    intro b' s' hR hb'
    apply ih hb'
    intro a' ha' b'' s'' hR'
    exact h a' (by simp [ha']) b'' s'' (Course.trans hR hR')

theorem mapM (hP : ∀ b s' s'', R s' s'' → P b s' → P b s'')
    (h : ∀ a ∈ xs, ∀ s', R s s' → Runs R E env s' (f a) P) :
    Runs R E env s (xs.mapM f) fun bs s' => ∀ b ∈ bs, P b s' := by
  induction xs generalizing s with
  | nil => exact pure (by simp)
  | cons a xs ih =>
    rw [List.mapM_cons]
    apply (h a (by simp) s (Course.refl s)).bind
    intro b s' hR hb
    apply (ih fun a' ha' s'' hR' => h a' (by simp [ha']) s'' (Course.trans hR hR')).bind
    intro bs s'' hR' hbs
    exact pure (by simpa using ⟨hP b _ _ hR' hb, hbs⟩)

theorem optionForM {o : Option α} {f : α → CheckM Unit} (h : ∀ a, o = some a → Runs R E env s (f a) fun _ _ => True) :
    Runs R E env s (o.forM f) fun _ _ => True := by
  cases o with
  | none => exact pure trivial
  | some a => exact h a rfl

theorem onlyIf {c : Bool} {x : CheckM Unit} (h : c → Runs R E env s x fun _ _ => True) :
    Runs R E env s (onlyIf c x) fun _ _ => True := by
  cases c with
  | false => exact pure trivial
  | true => exact h rfl

end Runs

variable {x : CheckM α} {f : α → CheckM β} {P : β → Store → Prop} {id : NodeId}

theorem Runs.read_then {f : Env → CheckM β} (h : Runs R E env s (f env) P) : Runs R E env s (read >>= f) P :=
  fun report result after hRun => h report result after hRun

theorem Runs.store_then {f : Store → CheckM β} (h : Runs R E env s (f s) P) : Runs R E env s (currentStore >>= f) P :=
  fun report result after hRun => h report result after hRun

theorem Still.store_eq (h : Still x) {report : Report} {result : Except Fault α} {after : CheckState}
    (hRun : (x env).run ⟨s, report⟩ = (result, after)) : after.store = s := by
  have hSame := h env ⟨s, report⟩
  rwa [hRun] at hSame

variable [Course R]

theorem Still.steps (h : Still x) : Steps R env s x := by
  intro report result after hRun
  rw [h.store_eq hRun]
  refine ⟨Course.refl s, ?_⟩
  cases result <;> trivial

theorem Still.then (h : Still x) (hf : ∀ a, Moves R env s (f a) P) : Moves R env s (x >>= f) P := by
  have hx : Moves R env s x fun _ s' => s' = s := by
    intro report result after hRun
    rw [h.store_eq hRun]
    refine ⟨Course.refl s, ?_⟩
    cases result <;> trivial
  apply hx.bind
  rintro a _ - rfl
  exact hf a

theorem Runs.node_then {f : Template → CheckM β}
    (h : ∀ t, s.get? id = some t → Moves R env s (f t) P) : Moves R env s (node id >>= f) P := by
  intro report result after hRun
  obtain ⟨-, hFault⟩ | ⟨t, hFound, hNext⟩ := run_node_then env id f ⟨s, report⟩
  · cases hFault.symm.trans hRun
    exact ⟨Course.refl s, trivial⟩
  · exact h t hFound report result after (hNext.symm.trans hRun)

theorem Runs.formOf_then {f : Form → CheckM β}
    (h : ∀ t, s.get? id = some t → Moves R env s (f t.form) P) : Moves R env s (formOf id >>= f) P := by
  rw [formOf_bind]
  exact node_then h

theorem moves_modifyNode {R : Store → Store → Prop} {f : Template → Template}
    {h : ∀ t : Template, t.Evolves (f t)} (hSame : R s s) (hR : ∀ t, s.get? id = some t → R s (s.update id f)) :
    Moves R env s (onStore (Store.modifyNode id f h)) fun _ s' =>
      (∃ t, s.get? id = some t) ∧ s' = s.update id f := by
  intro report result after hRun
  cases hFound : s.get? id with
  | none =>
    cases (run_modifyNode_of_none hFound).symm.trans hRun
    exact ⟨hSame, trivial⟩
  | some t =>
    cases (run_modifyNode hFound).symm.trans hRun
    exact ⟨hR t hFound, ⟨t, rfl⟩, rfl⟩

theorem moves_replaceForm {R : Store → Store → Prop} {form : Form} (hSame : R s s)
    (hR : ∀ t, s.get? id = some t → t.form.mayBecome form → R s (s.update id fun t => { t with form })) :
    Moves R env s (replaceForm id form) fun _ s' =>
      (∃ t, s.get? id = some t ∧ t.form.mayBecome form) ∧ s' = s.update id fun t => { t with form } := by
  intro report result after hRun
  cases hFound : s.get? id with
  | none =>
    cases (run_replaceForm_of_none form hFound).symm.trans hRun
    exact ⟨hSame, trivial⟩
  | some t =>
    by_cases hMay : t.form.mayBecome form
    · cases (run_replaceForm hFound hMay).symm.trans hRun
      exact ⟨hR t hFound hMay, ⟨t, rfl, hMay⟩, rfl⟩
    · cases (run_replaceForm_of_not hFound hMay).symm.trans hRun
      exact ⟨hSame, trivial⟩

end Moves

end TemplateCheck
