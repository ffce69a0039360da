import TemplateCheck.Proofs.History
import TemplateCheck.Proofs.Locality

/-!
# Computations that end with a result

Only runs that end with a result are looked at, and what is claimed of the result is judged by the states before and
after: it may be claimed of all runs, or of those only that report no error, or nothing. A computation that reports an
error has no run of the latter kinds, so nothing has to be shown about what it does. A computation attains a result if
it does end with one, whatever the report.
-/

namespace TemplateCheck

open List

variable {id : NodeId} {t : Template} {α β : Type} {env : Env} {s : Store}

/-- What is judged of a run from one state to another, given what is claimed of its result. -/
abbrev Judgement := CheckState → CheckState → Prop → Prop

/-- A run is judged by its parts. -/
class Judgement.Lawful (K : Judgement) : Prop where
  imp : ∀ {st after : CheckState} {p q : Prop}, (p → q) → K st after p → K st after q
  quiet : ∀ {st after : CheckState} {p : Prop}, after.report = st.report → p → K st after p
  join : ∀ {st middle after : CheckState} {p : Prop}, st.Evolves middle → middle.Evolves after →
    K st middle (K middle after p) → K st after p

/-- What holds in any case is judged to hold. -/
class Judgement.Lenient (K : Judgement) : Prop extends K.Lawful where
  of : ∀ {st after : CheckState} {p : Prop}, p → K st after p

/-- A kind of runs that holds the parts of each of its runs. -/
class Report.Divides (admits : Report → Report → Prop) : Prop where
  divide : ∀ {before middle after : Report}, before.Extends middle → middle.Extends after → admits before after →
    admits before middle ∧ admits middle after

/-- The claim is made of the runs of a kind. -/
abbrev Judgement.during (admits : Report → Report → Prop) : Judgement :=
  fun st after p => admits st.report after.report → p

instance {admits : Report → Report → Prop} [Report.Divides admits] : (Judgement.during admits).Lenient where
  imp hImp h hAdmits := hImp (h hAdmits)
  quiet _ hp _ := hp
  join hFirst hSecond h hAdmits :=
    have ⟨hBefore, hAfter⟩ := Report.Divides.divide hFirst.report hSecond.report hAdmits
    h hBefore hAfter
  of hp _ := hp

/-- Whatever ends with a result does so with one of which `Q` is judged to hold. -/
structure Concludes (K : Judgement) (env : Env) (s : Store) (x : CheckM α) (Q : α → Store → Prop) : Prop where
  post : ∀ report a after, (x env).run ⟨s, report⟩ = (.ok a, after) → K ⟨s, report⟩ after (Q a after.store)

def Report.SameErrors (before after : Report) : Prop := after.errors = before.errors

/-- Whatever has reported no error ends with a result of which `Q` holds. -/
abbrev Clean (env : Env) (s : Store) (x : CheckM α) (Q : α → Store → Prop) : Prop :=
  Concludes (.during Report.SameErrors) env s x Q

theorem Report.Extends.errors_le {before after : Report} (h : before.Extends after) : before.errors ≤ after.errors := by
  obtain ⟨found, -, -, hErrors, -⟩ := h.added
  omega

instance : Report.Divides Report.SameErrors where
  divide hFirst hSecond hSame := by
    have hBefore := hFirst.errors_le
    have hAfter := hSecond.errors_le
    unfold Report.SameErrors at hSame ⊢
    omega

namespace Concludes

open Judgement

variable {K : Judgement} {x : CheckM α} {f : α → CheckM β} {Q Q' : α → Store → Prop} {P : β → Store → Prop}
  {R : Store → Store → Prop} {xs : List α}

section

variable [K.Lawful]

theorem mono (h : Concludes K env s x Q) (hQ : ∀ a s', Q a s' → Q' a s') : Concludes K env s x Q' :=
  ⟨fun report a after hRun => Lawful.imp (hQ a _) (h.post report a after hRun)⟩

theorem pure {a : α} (hQ : Q a s) : Concludes K env s (pure a) Q := by
  constructor
  intro report b after hRun
  cases hRun
  exact Lawful.quiet rfl hQ

omit [K.Lawful] in
theorem throw (fault : Fault) : Concludes K env s (throw fault) Q := by
  constructor
  intro report a after hRun
  cases hRun

theorem bind (hx : Concludes K env s x Q)
    (hf : ∀ a s', Q a s' → Concludes K env s' (f a) P) : Concludes K env s (x >>= f) P := by
  constructor
  intro report b after hRun
  obtain ⟨a, middle, hFirst, hNext⟩ := of_run_bind_ok hRun
  refine Lawful.join (evolves_of_run hFirst) (evolves_of_run hNext) (Lawful.imp (fun hResult => ?_)
    (hx.post report a middle hFirst))
  exact (hf a middle.store hResult).post _ _ _ hNext

theorem and_moves (h : Concludes K env s x Q) (hMoves : Moves R env s x Q') :
    Concludes K env s x fun a s' => Q a s' ∧ R s s' ∧ Q' a s' :=
  ⟨fun report a after hRun =>
    Lawful.imp (fun hResult => ⟨hResult, hMoves report (.ok a) after hRun⟩) (h.post report a after hRun)⟩

theorem and_evolves (h : Concludes K env s x Q) : Concludes K env s x fun a s' => Q a s' ∧ s.Evolves s' :=
  ⟨fun report a after hRun =>
    Lawful.imp (fun hResult => ⟨hResult, (evolves_of_run hRun).store⟩) (h.post report a after hRun)⟩

end

theorem and {admits : Report → Report → Prop} (h : Concludes (.during admits) env s x Q)
    (h' : Concludes (.during admits) env s x Q') : Concludes (.during admits) env s x fun a s' => Q a s' ∧ Q' a s' :=
  ⟨fun report a after hRun hAdmits => ⟨h.post report a after hRun hAdmits, h'.post report a after hRun hAdmits⟩⟩

section

variable [K.Lenient]

theorem trivial : Concludes K env s x fun _ _ => True := ⟨fun _ _ _ _ => Lenient.of True.intro⟩

theorem of_moves (h : Moves R env s x Q) : Concludes K env s x fun a s' => R s s' ∧ Q a s' :=
  ⟨fun report a after hRun => Lenient.of (h report (.ok a) after hRun)⟩

theorem of_still (hx : Still x) (hQ : ∀ a, Q a s) : Concludes K env s x Q := by
  constructor
  intro report a after hRun
  rw [hx.store_eq hRun]
  exact Lenient.of (hQ a)

theorem modifyNode {f : Template → Template} {h : ∀ t : Template, t.Evolves (f t)} :
    Concludes K env s (onStore (Store.modifyNode id f h)) fun _ s' => (∃ t, s.get? id = some t) ∧ s' = s.update id f :=
  (of_moves (moves_modifyNode (R := fun _ _ => True) .intro fun _ _ => .intro)).mono fun _ _ hResult => hResult.2

theorem replaceForm {form : Form} : Concludes K env s (replaceForm id form) fun _ s' =>
    (∃ t, s.get? id = some t ∧ t.form.mayBecome form) ∧ s' = s.update id fun t => { t with form } :=
  (of_moves (moves_replaceForm (R := fun _ _ => True) .intro fun _ _ _ => .intro)).mono fun _ _ hResult => hResult.2

theorem still_then (hx : Still x) (hf : ∀ a, Concludes K env s (f a) P) : Concludes K env s (x >>= f) P := by
  have hSame : Concludes K env s x fun _ s' => s' = s := of_still hx fun _ => rfl
  apply hSame.bind
  rintro a _ rfl
  exact hf a

end

theorem read_then {f : Env → CheckM β} (h : Concludes K env s (f env) P) : Concludes K env s (read >>= f) P :=
  ⟨h.post⟩

theorem store_then {f : Store → CheckM β} (h : Concludes K env s (f s) P) :
    Concludes K env s (currentStore >>= f) P :=
  ⟨h.post⟩

theorem node_then {f : Template → CheckM β}
    (h : ∀ t, s.get? id = some t → Concludes K env s (f t) P) : Concludes K env s (node id >>= f) P := by
  constructor
  intro report b after hRun
  obtain ⟨t, hFound, hNext⟩ := of_run_node_then hRun
  exact (h t hFound).post report b after hNext

theorem formOf_then {f : Form → CheckM β} (h : ∀ t, s.get? id = some t → Concludes K env s (f t.form) P) :
    Concludes K env s (formOf id >>= f) P := by
  rw [formOf_bind]
  exact node_then h

section

variable (hNode : s.get? id = some t)

include hNode

theorem nodeIs_then {f : Template → CheckM β} (h : Concludes K env s (f t) P) :
    Concludes K env s (node id >>= f) P := by
  apply node_then
  intro _ hFound
  cases hNode.symm.trans hFound
  exact h

theorem formIs_then {f : Form → CheckM β} (h : Concludes K env s (f t.form) P) :
    Concludes K env s (formOf id >>= f) P := by
  rw [formOf_bind]
  exact nodeIs_then hNode h

end

variable [K.Lawful]

theorem foldlM {f : β → α → CheckM β} {J : β → List α → Store → Prop} {b : β} (hs : J b xs s)
    (h : ∀ b, ∀ a ∈ xs, ∀ rest s', J b (a :: rest) s' → Concludes K env s' (f b a) fun b' s'' => J b' rest s'') :
    Concludes K env s (xs.foldlM f b) fun b' s' => J b' [] s' := by
  induction xs generalizing s b with
  | nil => exact pure hs
  | cons a xs ih =>
    rw [foldlM_cons]
    apply (h b a mem_cons_self xs s hs).bind
    exact fun b' s' hs' => ih hs' fun b'' a' ha' => h b'' a' (mem_cons_of_mem a ha')

theorem mapM {J : List β → Store → Prop} {done : List β} (hs : J done s)
    (h : ∀ a ∈ xs, ∀ done s', J done s' → Concludes K env s' (f a) fun b s'' => J (done ++ [b]) s'') :
    Concludes K env s (xs.mapM f) fun bs s' => J (done ++ bs) s' := by
  induction xs generalizing s done with
  | nil =>
    rw [mapM_nil]
    exact pure (by rwa [append_nil])
  | cons a xs ih =>
    rw [mapM_cons]
    apply (h a mem_cons_self done s hs).bind
    intro b s' hs'
    apply (ih hs' fun a' ha' => h a' (mem_cons_of_mem _ ha')).bind
    intro bs s'' hs''
    exact pure (by rwa [append_assoc] at hs'')

end Concludes

namespace Clean

variable {x : CheckM α} {y : CheckM Unit} {f : Unit → CheckM β} {Q : α → Store → Prop} {P : β → Store → Prop}
  {R : Unit → Store → Prop}

theorem problem (span : Span) (p : Problem) : Clean env s (problem span p) R := by
  constructor
  intro report a after hRun hErrors
  cases hRun
  simp [Report.SameErrors, Report.add, Finding.isError] at hErrors

theorem inside (c : Context) (h : Clean env s x Q) : Clean env s (inside c x) Q := by
  constructor
  intro report a after hRun hErrors
  obtain ⟨middle, hInner, rfl⟩ := of_run_inside hRun
  exact h.post _ _ middle hInner hErrors

theorem problemAt (id : NodeId) (p : Problem) : Clean env s (problemAt id p) R :=
  .node_then fun _ _ => problem _ p

theorem after_error (h : Clean env s y fun _ _ => False) : Clean env s (y >>= f) P :=
  h.bind fun _ _ hFalse => hFalse.elim

theorem reject (id : NodeId) (p : Problem) : Clean env s (reject id p) R :=
  after_error (problemAt id p)

theorem illegalForm (id : NodeId) (decl : TypeDecl) : Clean env s (illegalForm id decl) R :=
  .formOf_then fun _ _ => problemAt id _

theorem onlyIf_then {c : Bool} (hy : c = true → Clean env s y fun _ s' => Clean env s' (f ()) P)
    (hf : c = false → Clean env s (f ()) P) : Clean env s (onlyIf c y >>= f) P := by
  cases c with
  | false => exact hf rfl
  | true => exact (hy rfl).bind fun _ _ h => h

end Clean

variable {quiet : Bool} {a : α} {x : CheckM α} {before after : Report} {Q : α → Store → Prop}

/-- The computation ends with a result of which `Q` holds. -/
structure Attains (quiet : Bool) (env : Env) (s : Store) (x : CheckM α) (Q : α → Store → Prop) : Prop where
  run : ∀ report, ∃ a after, (x env).run ⟨s, report⟩ = (.ok a, after) ∧
    (quiet → after.report = report) ∧ Q a after.store

namespace Attains

variable {f : α → CheckM β} {Q' : α → Store → Prop} {P : β → Store → Prop}

theorem mono (h : Attains quiet env s x Q) (hQ : ∀ a s', Q a s' → Q' a s') : Attains quiet env s x Q' := by
  constructor
  intro report
  obtain ⟨a, after, hRun, hReport, hResult⟩ := h.run report
  exact ⟨a, after, hRun, hReport, hQ a _ hResult⟩

theorem of_quiet (h : Attains true env s x Q) : Attains quiet env s x Q := by
  constructor
  intro report
  obtain ⟨a, after, hRun, hReport, hResult⟩ := h.run report
  exact ⟨a, after, hRun, fun _ => hReport rfl, hResult⟩

theorem pure (hQ : Q a s) : Attains quiet env s (pure a) Q :=
  ⟨fun report => ⟨a, ⟨s, report⟩, rfl, fun _ => rfl, hQ⟩⟩

theorem bind (hx : Attains quiet env s x Q) (hf : ∀ a s', Q a s' → Attains quiet env s' (f a) P) :
    Attains quiet env s (x >>= f) P := by
  constructor
  intro report
  obtain ⟨a, ⟨s', report'⟩, hRun, hReport, hResult⟩ := hx.run report
  obtain ⟨b, after, hRun', hReport', hResult'⟩ := (hf a s' hResult).run report'
  refine ⟨b, after, (run_bind_ok f hRun).trans hRun', fun hQuiet => ?_, hResult'⟩
  rw [hReport' hQuiet]
  exact hReport hQuiet

theorem read_then {f : Env → CheckM β} (h : Attains quiet env s (f env) P) : Attains quiet env s (read >>= f) P :=
  ⟨h.run⟩

theorem store_then {f : Store → CheckM β} (h : Attains quiet env s (f s) P) :
    Attains quiet env s (currentStore >>= f) P :=
  ⟨h.run⟩

section

variable (hNode : s.get? id = some t)

include hNode

theorem node_then {f : Template → CheckM β}
    (h : Attains quiet env s (f t) P) : Attains quiet env s (node id >>= f) P := by
  constructor
  intro report
  have hRun : (node id env).run ⟨s, report⟩ = (.ok t, ⟨s, report⟩) := run_node hNode
  rw [run_bind_ok f hRun]
  exact h.run report

theorem formOf_then {f : Form → CheckM β}
    (h : Attains quiet env s (f t.form) P) : Attains quiet env s (formOf id >>= f) P := by
  rw [formOf_bind]
  exact node_then hNode h

theorem modifyNode {f : Template → Template} {h : ∀ t : Template, t.Evolves (f t)} :
    Attains quiet env s (onStore (Store.modifyNode id f h)) fun _ s' => s' = s.update id f :=
  ⟨fun report => ⟨(), ⟨s.update id f, report⟩, run_modifyNode hNode, fun _ => rfl, rfl⟩⟩

theorem giveUp : Attains quiet env s (replaceForm id .erroneous) fun _ s' =>
    s' = s.update id fun t => { t with form := .erroneous } :=
  ⟨fun _ => ⟨(), _, run_replaceForm hNode (by simp [Form.mayBecome, Form.isErroneous]), fun _ => rfl, rfl⟩⟩

theorem replaceForm {form : Form} (hMay : t.form.mayBecome form) :
    Attains quiet env s (replaceForm id form) fun _ s' => s' = s.update id fun t => { t with form } :=
  ⟨fun _ => ⟨(), _, run_replaceForm hNode hMay, fun _ => rfl, rfl⟩⟩

end

theorem tell (span : Span) (finding : Finding) : Attains false env s (tell span finding) fun _ s' => s' = s :=
  ⟨fun report => ⟨(), ⟨s, report.add span finding⟩, rfl, nofun, rfl⟩⟩

theorem problemAt (hNode : s.get? id = some t) (p : Problem) :
    Attains false env s (problemAt id p) fun _ s' => s' = s :=
  node_then hNode (tell _ _)

theorem warnAt (hNode : s.get? id = some t) (w : Warning) : Attains false env s (warnAt id w) fun _ s' => s' = s :=
  node_then hNode (tell _ _)

theorem onlyIf {c : Bool} {x : CheckM Unit} (hQuiet : quiet → c = false)
    (hx : c → Attains false env s x fun _ s' => s' = s) : Attains quiet env s (onlyIf c x) fun _ s' => s' = s := by
  cases c with
  | false => exact pure rfl
  | true =>
    cases quiet with
    | false => exact hx rfl
    | true => cases hQuiet rfl

end Attains

theorem Concludes.of_attains {K : Judgement} [K.Lawful] (h : Attains true env s x Q) : Concludes K env s x Q := by
  constructor
  intro report a after hRun
  obtain ⟨a', after', hRun', hReport, hResult⟩ := h.run report
  cases hRun.symm.trans hRun'
  exact Judgement.Lawful.quiet (hReport rfl) hResult

def Report.Calm (quiet : Bool) (before after : Report) : Prop :=
  quiet → after.errors = before.errors ∧ after.warnings = before.warnings

theorem Report.calm_false (before after : Report) : Report.Calm false before after :=
  fun hQuiet => absurd hQuiet Bool.false_ne_true

/-- Whenever the computation ends with a result, `Q` holds of it. -/
abbrev Returns (quiet : Bool) (env : Env) (s : Store) (x : CheckM α) (Q : α → Store → Prop) : Prop :=
  Concludes (.during (Report.Calm quiet)) env s x Q

theorem Report.Extends.warnings_le (h : before.Extends after) : before.warnings ≤ after.warnings := by
  obtain ⟨found, -, -, -, hWarnings⟩ := h.added
  omega

theorem Report.Extends.counters_of_notes (h : before.Extends after) {notes : List Diagnostic}
    (hNotes : after.diagnostics = before.diagnostics ++ notes) (hOnly : ∀ d ∈ notes, d.finding.isNote) :
    after.errors = before.errors ∧ after.warnings = before.warnings := by
  obtain ⟨found, hFound, -, hErrors, hWarnings⟩ := h.added
  obtain rfl := append_cancel_left (hFound.symm.trans hNotes)
  have hNone : found.countP (·.finding.isError) = 0 ∧ found.countP (·.finding.isWarning) = 0 := by
    constructor <;>
    · rw [countP_eq_zero]
      intro d hd
      have := hOnly d hd
      cases hFinding : d.finding <;> simp_all [Finding.isNote, Finding.isError, Finding.isWarning]
  omega

theorem Concludes.moves (h : Returns false env s x Q) : Moves (fun _ _ => True) env s x Q := by
  intro report result after hRun
  refine ⟨True.intro, ?_⟩
  cases result with
  | ok a => exact h.post report a after hRun (Report.calm_false _ _)
  | error => exact True.intro

instance : Report.Divides (Report.Calm quiet) where
  divide hFirst hSecond hCalm := by
    have hErrors := hFirst.errors_le
    have hErrors' := hSecond.errors_le
    have hWarnings := hFirst.warnings_le
    have hWarnings' := hSecond.warnings_le
    constructor
    all_goals
      intro hQuiet
      obtain ⟨hSame, hSame'⟩ := hCalm hQuiet
      omega

namespace Returns

theorem of_clean (h : Clean env s x Q) : Returns true env s x Q :=
  ⟨fun report a after hRun hReport => h.post report a after hRun (hReport rfl).1⟩

theorem clean (h : Returns false env s x Q) : Clean env s x Q :=
  ⟨fun report a after hRun _ => h.post report a after hRun (Report.calm_false _ _)⟩

theorem tell {span : Span} {finding : Finding} (h : finding.isNote = false) {Q : Unit → Store → Prop} :
    Returns true env s (tell span finding) Q := by
  constructor
  intro report a after hRun hReport
  cases hRun
  obtain ⟨hErrors, hWarnings⟩ := hReport rfl
  cases finding with
  | error p => simp [Report.add, Finding.isError] at hErrors
  | warning w => simp [Report.add, Finding.isWarning] at hWarnings
  | note n => cases h

theorem problemAt (id : NodeId) (p : Problem) {Q : Unit → Store → Prop} : Returns true env s (problemAt id p) Q :=
  .node_then fun _ _ => tell rfl

theorem warnAt (id : NodeId) (w : Warning) {Q : Unit → Store → Prop} : Returns true env s (warnAt id w) Q :=
  .node_then fun _ _ => tell rfl

end Returns

namespace Session

theorem size_lt_limit (s : Session) : s.store.size + 1 < s.limit := by
  have hSquare : s.store.size + s.definitions.size + s.types.size + 8 ≤ s.limit := Nat.le_mul_self _
  omega

variable {s : Session}

theorem run_of_attains (h : Attains quiet s.env s.store x Q) :
    ∃ a, (s.run x).1 = .ok a ∧ (quiet → (s.run x).2.report = s.report) ∧ Q a (s.run x).2.store := by
  obtain ⟨a, after, hRun, hReport, hResult⟩ := h.run s.report
  rw [run_of_run hRun]
  exact ⟨a, rfl, hReport, hResult⟩

theorem of_run_of_returns (h : Returns quiet s.env s.store x Q) (hEnds : (s.run x).1 = .ok a)
    (hReport : quiet → (s.run x).2.report.errors = s.report.errors ∧
      (s.run x).2.report.warnings = s.report.warnings) : Q a (s.run x).2.store := by
  rcases hRun : (x s.env).run ⟨s.store, s.report⟩ with ⟨result, after⟩
  rw [run_of_run hRun] at hEnds hReport ⊢
  obtain rfl : result = .ok a := hEnds
  exact h.post s.report a after hRun hReport

end Session

end TemplateCheck
