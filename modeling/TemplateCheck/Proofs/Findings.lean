import TemplateCheck.Proofs.Plain
import TemplateCheck.Proofs.Remarks

/-!
# What a computation reports

A computation that ends with a result is described together with the diagnostics it adds to the report. They
lie in the contexts that were open when it started.
-/

namespace TemplateCheck

open List

variable {α β : Type} {env : Env} {s : Store} {context : List Context} {a : α}

/-- The computation ends with a result. `Q` holds of it, of the store and of the diagnostics that it adds. -/
structure Reports (env : Env) (s : Store) (context : List Context) (x : CheckM α)
    (Q : α → Store → List Diagnostic → Prop) : Prop where
  run : ∀ report, report.context = context → ∃ a after found, (x env).run ⟨s, report⟩ = (.ok a, after) ∧
    after.report.diagnostics = report.diagnostics ++ found ∧ Q a after.store found

namespace Reports

variable {x : CheckM α} {f : α → CheckM β} {Q Q' : α → Store → List Diagnostic → Prop}
  {P : β → Store → List Diagnostic → Prop} {id : NodeId} {t : Template} {R : α → Store → Prop} {xs : List α}

theorem mono (h : Reports env s context x Q) (hQ : ∀ a s' found, Q a s' found → Q' a s' found) :
    Reports env s context x Q' := by
  constructor
  intro report hContext
  obtain ⟨a, after, found, hRun, hFound, hResult⟩ := h.run report hContext
  exact ⟨a, after, found, hRun, hFound, hQ a _ found hResult⟩

theorem bind (hx : Reports env s context x Q) (hf : ∀ a s' found, Q a s' found →
      Reports env s' context (f a) fun b s'' more => P b s'' (found ++ more)) : Reports env s context (x >>= f) P := by
  constructor
  intro report hContext
  obtain ⟨a, ⟨s', report'⟩, found, hRun, hFound, hResult⟩ := hx.run report hContext
  obtain ⟨b, after, more, hRun', hMore, hResult'⟩ :=
    (hf a s' found hResult).run report' ((evolves_of_run hRun).report.context.trans hContext)
  refine ⟨b, after, found ++ more, (run_bind_ok f hRun).trans hRun', ?_, hResult'⟩
  rw [hMore, hFound, List.append_assoc]

theorem of_attains (h : Attains true env s x R) : Reports env s context x fun a s' found => found = [] ∧ R a s' := by
  constructor
  intro report _
  obtain ⟨a, after, hRun, hReport, hResult⟩ := h.run report
  exact ⟨a, after, [], hRun, by rw [hReport rfl, append_nil], rfl, hResult⟩

theorem attains_then (hx : Attains true env s x R)
    (hf : ∀ a s', R a s' → Reports env s' context (f a) P) : Reports env s context (x >>= f) P := by
  apply (of_attains hx).bind
  rintro a s' _ ⟨rfl, hResult⟩
  exact hf a s' hResult

theorem pure (hQ : Q a s []) : Reports env s context (pure a) Q :=
  ⟨fun report _ => ⟨a, ⟨s, report⟩, [], rfl, (append_nil _).symm, hQ⟩⟩

theorem read_then {f : Env → CheckM β} (h : Reports env s context (f env) P) : Reports env s context (read >>= f) P :=
  ⟨h.run⟩

theorem store_then {f : Store → CheckM β} (h : Reports env s context (f s) P) :
    Reports env s context (currentStore >>= f) P :=
  ⟨h.run⟩

theorem node_then {f : Template → CheckM β} (hNode : s.get? id = some t)
    (h : Reports env s context (f t) P) : Reports env s context (node id >>= f) P := by
  constructor
  intro report hContext
  have hRun : (node id env).run ⟨s, report⟩ = (.ok t, ⟨s, report⟩) := run_node hNode
  rw [run_bind_ok f hRun]
  exact h.run report hContext

theorem formOf_then {f : Form → CheckM β} (hNode : s.get? id = some t)
    (h : Reports env s context (f t.form) P) : Reports env s context (formOf id >>= f) P := by
  rw [formOf_bind]
  exact node_then hNode h

theorem tell (span : Span) (finding : Finding) :
    Reports env s context (tell span finding) fun _ s' found => s' = s ∧ found = [⟨finding, span, context⟩] := by
  constructor
  rintro report rfl
  exact ⟨(), ⟨s, report.add span finding⟩, _, rfl, Report.diagnostics_add .., rfl, rfl⟩

theorem problemAt (hNode : s.get? id = some t) (p : Problem) : Reports env s context (problemAt id p) fun _ s' found =>
      s' = s ∧ found = [⟨.error p, t.span, context⟩] :=
  node_then hNode (tell _ _)

theorem forM_problemAt (hNode : s.get? id = some t) (problem : α → Problem) :
    Reports env s context (xs.forM fun a => TemplateCheck.problemAt id (problem a)) fun _ s' found =>
      s' = s ∧ found = xs.map fun a => ⟨.error (problem a), t.span, context⟩ := by
  induction xs with
  | nil => exact pure ⟨rfl, rfl⟩
  | cons a xs ih =>
    apply (problemAt hNode (problem a)).bind
    rintro _ _ _ ⟨rfl, rfl⟩
    apply ih.mono
    rintro _ _ _ ⟨rfl, rfl⟩
    exact ⟨rfl, rfl⟩

theorem checkAny {check : α → CheckM Bool} {J : List α → Store → Prop} {found : α → List Diagnostic}
    (hStart : J xs s) (h : ∀ a ∈ xs, ∀ rest s', J (a :: rest) s' →
      Reports env s' context (check a) fun _ s'' more => more = found a ∧ J rest s'') :
    Reports env s context (checkAny check xs) fun _ s' more => more = xs.flatMap found ∧ J [] s' := by
  unfold TemplateCheck.checkAny
  generalize false = soFar
  induction xs generalizing s soFar with
  | nil => exact pure ⟨rfl, hStart⟩
  | cons a xs ih =>
    rw [foldlM_cons, flatMap_cons]
    have hOne : Reports env s context (do let one ← check a; return soFar || one) fun _ s' more =>
        more = found a ∧ J xs s' := by
      apply (h a mem_cons_self xs s hStart).bind
      rintro _ s' _ ⟨rfl, hNext⟩
      exact pure ⟨append_nil _, hNext⟩
    apply hOne.bind
    rintro _ s' _ ⟨rfl, hNext⟩
    apply (ih hNext (fun a ha => h a (mem_cons_of_mem _ ha)) _).mono
    rintro _ s'' _ ⟨rfl, hLast⟩
    exact ⟨rfl, hLast⟩

theorem inside (c : Context) (h : Reports env s (context ++ [c]) x Q) : Reports env s context (inside c x) Q := by
  constructor
  rintro report rfl
  obtain ⟨a, after, found, hRun, hFound, hResult⟩ := h.run (report.enter c) rfl
  refine ⟨a, { after with report := after.report.leave }, found, ?_, hFound, hResult⟩
  simp only [TemplateCheck.inside, hRun]

theorem checkStep {check : ChildCheck} {flatten : Flattening} {governor : TypeKey}
    {decl : TypeDecl} {site : Site} {Q : Outcome → Store → List Diagnostic → Prop} (hNode : s.get? id = some t)
    (hUnchecked : t.marks.checked = false) (hDecl : env.types.decl? governor = some decl)
    (hCategory : decl.category ≠ .erroneous) (hPort : decl.category ≠ .port)
    (h : Reports env (s.update id (·.govern governor)) context (checkGoverned check flatten id governor decl site) Q) :
    Reports env s context (checkStep check flatten id governor site) Q := by
  unfold TemplateCheck.checkStep
  apply node_then hNode
  simp only [hUnchecked, Bool.false_eq_true, if_false]
  apply attains_then (.modifyNode hNode)
  rintro _ _ rfl
  apply read_then
  simpa only [hDecl] using h

end Reports

/-- The computation reports ordinary findings in the contexts that were open when it started, and in no further ones. -/
def ReportsHere (env : Env) (s : Store) (context : List Context) (x : CheckM α) (Q : α → Store → Prop) : Prop :=
  Reports env s context x fun a s' found => (∀ d ∈ found, d.context = context ∧ d.finding.isOrdinary) ∧ Q a s'

namespace ReportsHere

variable {x : CheckM α} {f : α → CheckM β} {Q Q' : α → Store → Prop} {P : β → Store → Prop} {id : NodeId}

theorem mono (h : ReportsHere env s context x Q) (hQ : ∀ a s', Q a s' → Q' a s') : ReportsHere env s context x Q' :=
  Reports.mono h fun a s' _ hResult => hResult.imp_right (hQ a s')

theorem pure (h : Q a s) : ReportsHere env s context (pure a) Q := Reports.pure ⟨nofun, h⟩

theorem bind (hx : ReportsHere env s context x Q) (hf : ∀ a s', Q a s' → ReportsHere env s' context (f a) P) :
    ReportsHere env s context (x >>= f) P := by
  apply Reports.bind hx
  rintro a s' found ⟨hFound, hResult⟩
  apply Reports.mono (hf a s' hResult)
  rintro b s'' more ⟨hMore, hResult'⟩
  exact ⟨fun d hd => (mem_append.1 hd).elim (hFound d) (hMore d), hResult'⟩

theorem attains_then (hx : Attains true env s x Q) (hf : ∀ a s', Q a s' → ReportsHere env s' context (f a) P) :
    ReportsHere env s context (x >>= f) P :=
  Reports.attains_then hx hf

theorem tell (span : Span) {finding : Finding} (h : finding.isOrdinary) :
    ReportsHere env s context (tell span finding) fun _ s' => s' = s := by
  apply (Reports.tell span finding).mono
  rintro _ _ _ ⟨rfl, rfl⟩
  exact ⟨by simpa using h, rfl⟩

theorem problemAt (hId : s.Has id) {p : Problem} (h : (Finding.error p).isOrdinary) :
    ReportsHere env s context (problemAt id p) fun _ s' => s' = s := by
  obtain ⟨t, hNode⟩ := hId.exists_get?
  exact Reports.node_then hNode (tell t.span h)

theorem onlyIf {c : Bool} {x : CheckM Unit} {R : Store → Prop} (h : ReportsHere env s context x fun _ s' => R s')
    (hR : R s) : ReportsHere env s context (onlyIf c x) fun _ s' => R s' := by
  cases c with
  | false => exact pure hR
  | true => exact h

end ReportsHere

theorem Remarks.reportsHere {x : NodeId → CheckM α} {id : NodeId} (h : Remarks x) (hId : s.Has id) :
    ReportsHere env s context (x id) fun _ s' => s' = s := by
  obtain ⟨t, hNode⟩ := hId.exists_get?
  induction h with
  | pure _ => exact ReportsHere.pure rfl
  | read => exact Reports.read_then (ReportsHere.pure rfl)
  | tell span h => exact ReportsHere.tell span h
  | problemAt h => exact ReportsHere.problemAt hId h
  | warnAt h => exact Reports.node_then hNode (ReportsHere.tell t.span h)
  | bind _ _ ihx ihf =>
    apply ReportsHere.bind ihx
    rintro a _ rfl
    exact ihf a

end TemplateCheck
