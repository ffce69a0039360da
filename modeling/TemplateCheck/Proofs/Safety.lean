import TemplateCheck.Proofs.Locality

/-!
# Safe computations

A computation runs safely from a store if it moves the store along a given preorder and ends either
with a result of which a postcondition holds or in one of two faults: an endless walk, or a descent
that went too deep, of which a given bound holds. Every other fault is ruled out. A quiet computation
leaves the store alone and has a result.
-/

namespace TemplateCheck

variable {α β : Type} {env : Env} {s : Store}

section

variable {R : Store → Store → Prop} {F : Allowance} {P : α → Prop} {x : CheckM α} {Q : α → Store → Prop}
  {f : α → CheckM β} {xs : List α} {g : α → β}

/-- The faults in which a check may end: an endless walk if references are followed at all, and too deep a descent. -/
structure Allowance where
  walks : Prop
  deep : Store → Prop

abbrev Allowance.permits (F : Allowance) (fault : Fault) (s : Store) : Prop :=
  fault = .endlessWalk ∧ F.walks ∨ fault = .tooDeep ∧ F.deep s

instance : Coe Allowance (Fault → Store → Prop) := ⟨Allowance.permits⟩

abbrev Allowance.backing (F : Allowance) (env : Env) : Backing := ⟨env.definitions, F.walks⟩

def Quiet (env : Env) (s : Store) (x : CheckM α) (P : α → Prop) : Prop :=
  ∀ report, ∃ a report', (x env).run ⟨s, report⟩ = (.ok a, ⟨s, report'⟩) ∧ P a

theorem Quiet.pure {a : α} (h : P a) : Quiet env s (pure a) P :=
  fun report => ⟨a, report, rfl, h⟩

theorem Quiet.bind {P' : β → Prop}
    (hx : Quiet env s x P) (hf : ∀ a, P a → Quiet env s (f a) P') : Quiet env s (x >>= f) P' := by
  intro report
  obtain ⟨a, report', hRun, ha⟩ := hx report
  obtain ⟨b, report'', hRun', hb⟩ := hf a ha report'
  exact ⟨b, report'', (run_bind_ok f hRun).trans hRun', hb⟩

theorem Runs.permit {deep : Store → Prop} (h : Runs R F env s x Q)
    (hDeep : ∀ s', F.deep s' → deep s') : Runs R ({ F with deep } : Allowance) env s x Q :=
  h.loosen fun _ _ hEnd => hEnd.imp_right (And.imp_right (hDeep _))

theorem Runs.with_relation (h : Runs R F env s x Q) : Runs R F env s x fun a s' => R s s' ∧ Q a s' :=
  h.mono fun _ _ hR hQ => ⟨hR, hQ⟩

theorem Quiet.bind_runs {Q : β → Store → Prop}
    (hx : Quiet env s x P) (hf : ∀ a, P a → Runs R F env s (f a) Q) : Runs R F env s (x >>= f) Q := by
  intro report result after hRun
  obtain ⟨a, report', hFirst, ha⟩ := hx report
  rw [run_bind_ok f hFirst] at hRun
  exact hf a ha _ _ _ hRun

variable [Course R]

theorem Quiet.runs (h : Quiet env s x P) (hQ : ∀ a, P a → Q a s) : Runs R F env s x Q := by
  intro report result after hRun
  obtain ⟨a, report', hRun', ha⟩ := h report
  cases hRun'.symm.trans hRun
  exact ⟨Course.refl s, hQ a ha⟩

theorem Quiet.bind_pure {Q : β → Store → Prop} (h : Quiet env s x P) (hQ : ∀ a, Q (g a) s) :
    Runs R F env s (x >>= fun a => Pure.pure (g a)) Q :=
  h.bind_runs fun a _ => .pure (hQ a)

theorem Quiet.finish (h : Quiet env s x P) :
    Runs R F env s (x >>= fun a => Pure.pure (g a)) fun _ _ => True :=
  h.bind_pure fun _ => trivial

theorem Runs.endlessWalk (h : F.walks) : Runs R F env s (MonadExcept.throw .endlessWalk) Q :=
  .throw (.inl ⟨rfl, h⟩)

theorem Runs.tooDeep (h : F.deep s) : Runs R F env s (MonadExcept.throw .tooDeep) Q :=
  .throw (.inr ⟨rfl, h⟩)

theorem Runs.forM {f : α → CheckM Unit}
    (h : ∀ a ∈ xs, ∀ s', R s s' → Runs R F env s' (f a) fun _ _ => True) :
    Runs R F env s (xs.forM f) fun _ _ => True := by
  induction xs generalizing s with
  | nil => exact .pure trivial
  | cons a xs ih =>
    change Runs R F env s (f a >>= fun _ => xs.forM f) _
    refine (h a (by simp) s (Course.refl s)).bind fun _ s' hR _ => ih fun b hb s'' hR' => ?_
    exact h b (by simp [hb]) s'' (Course.trans hR hR')

theorem Runs.checkAny {check : α → CheckM Bool}
    (h : ∀ a ∈ xs, ∀ s', R s s' → Runs R F env s' (check a) fun _ _ => True) :
    Runs R F env s (checkAny check xs) fun _ _ => True :=
  .foldlM trivial fun a ha _ s' hR _ => (h a ha s' hR).finish

end

section

variable {f : α → CheckM Bool} {xs : List α}

theorem Quiet.forM {f : α → CheckM Unit}
    (h : ∀ a ∈ xs, Quiet env s (f a) fun _ => True) : Quiet env s (xs.forM f) fun _ => True := by
  induction xs with
  | nil => exact .pure trivial
  | cons a xs ih =>
    change Quiet env s (f a >>= fun _ => xs.forM f) _
    exact (h a (by simp)).bind fun _ _ => ih fun b hb => h b (by simp [hb])

theorem Quiet.mapM {f : α → CheckM β} {P : β → Prop}
    (h : ∀ a ∈ xs, Quiet env s (f a) P) : Quiet env s (xs.mapM f) fun bs => ∀ b ∈ bs, P b := by
  induction xs with
  | nil => exact .pure (by simp)
  | cons a xs ih =>
    rw [List.mapM_cons]
    refine (h a (by simp)).bind fun b hb => ?_
    refine (ih fun a' ha' => h a' (by simp [ha'])).bind fun bs hbs => ?_
    exact .pure (by simpa using ⟨hb, hbs⟩)

theorem Quiet.optionForM {o : Option α} {f : α → CheckM Unit}
    (h : ∀ a, o = some a → Quiet env s (f a) fun _ => True) : Quiet env s (o.forM f) fun _ => True := by
  cases o with
  | none => exact .pure trivial
  | some a => exact h a rfl

theorem Quiet.onlyIf {c : Bool} {x : CheckM Unit} (h : c → Quiet env s x fun _ => True) :
    Quiet env s (onlyIf c x) fun _ => True := by
  cases c with
  | false => exact .pure trivial
  | true => exact h rfl

variable {id : NodeId}

theorem quiet_read : Quiet env s (read : CheckM Env) (env = ·) :=
  fun report => ⟨env, report, rfl, rfl⟩

theorem quiet_currentStore : Quiet env s currentStore (s = ·) :=
  fun report => ⟨s, report, rfl, rfl⟩

theorem quiet_node (h : s.Has id) : Quiet env s (node id) fun t => s.get? id = some t := by
  obtain ⟨t, hFound⟩ := h.exists_get?
  exact fun report => ⟨t, report, run_node hFound, hFound⟩

theorem quiet_formOf (h : s.Has id) : Quiet env s (formOf id) fun form => ∃ t, s.get? id = some t ∧ t.form = form :=
  (quiet_node h).bind fun t hFound => .pure ⟨t, hFound, rfl⟩

theorem quiet_isErroneous (h : s.Has id) :
    Quiet env s (isErroneous id) fun b => ∃ t, s.get? id = some t ∧ t.form.isErroneous = b :=
  (quiet_formOf h).bind fun _ ⟨t, hFound, hForm⟩ => .pure ⟨t, hFound, by rw [hForm]⟩

theorem quiet_problem (span : Span) (p : Problem) : Quiet env s (problem span p) fun _ => True :=
  fun _ => ⟨(), _, rfl, trivial⟩

theorem quiet_note (span : Span) (n : Note) : Quiet env s (note span n) fun _ => True :=
  fun _ => ⟨(), _, rfl, trivial⟩

theorem quiet_problemAt (h : s.Has id) (p : Problem) : Quiet env s (problemAt id p) fun _ => True :=
  (quiet_node h).bind fun t _ => quiet_problem t.span p

theorem quiet_warnAt (h : s.Has id) (w : Warning) : Quiet env s (warnAt id w) fun _ => True :=
  (quiet_node h).bind fun _ _ _ => ⟨(), _, rfl, trivial⟩

theorem quiet_illegalForm (h : s.Has id) (decl : TypeDecl) : Quiet env s (illegalForm id decl) fun _ => True :=
  (quiet_formOf h).bind fun _ _ => quiet_problemAt h _

end

end TemplateCheck
