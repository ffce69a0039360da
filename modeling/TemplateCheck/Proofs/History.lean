import Mathlib.Logic.Relation
import TemplateCheck.Proofs.Execution
import TemplateCheck.Session

/-!
# What a history of operations leaves

Operations are performed one after the other, with or without faults, and each of them descends at most the given number
of levels. Nodes stay where they are and only evolve. A check and a flattening begin by setting a mark that they test,
so neither of them acts on the same node again. To the report an operation appends diagnostics inside of the contexts
that are open, and does nothing else.
-/

namespace TemplateCheck

open List

/-- What can be done with a session. -/
inductive Operation where
  | check (id : NodeId) (governor : TypeKey) (site : Site)
  | checkInline (inline : InlineTemplate) (expected : Option TypeKey)
  | checkDefinition (id : DefId)
  | checkModule
  | bindGovernor (inline : InlineTemplate) (expected : Option TypeKey)
  | flatten (id : NodeId)
  | checkRestriction (use : RestrictedUse) (id : NodeId) (required : Restriction)
  | lastTemplate (id : NodeId)
  | copy (id : NodeId)
  | addTemplate (t : Template)

namespace Session

variable {α : Type}

def state (s : Session) : CheckState := ⟨s.store, s.report⟩

def ended {α : Type} : Except Fault α × Session → Option Fault × Session
  | (.ok _, s) => (none, s)
  | (.error fault, s) => (some fault, s)

/-- Perform an operation that may descend `depth` levels. -/
def performWithin (s : Session) (depth : Nat) : Operation → Option Fault × Session
  | .check id governor site => ended (s.run (checkWithin depth id governor site))
  | .checkInline inline expected =>
    ended (s.run (TemplateCheck.checkInline (checkWithin depth) inline expected))
  | .checkDefinition id => ended (s.run (TemplateCheck.checkDefinition depth id))
  | .checkModule => ended (s.run (TemplateCheck.checkModule depth))
  | .bindGovernor inline expected => ended (s.run (TemplateCheck.bindGovernor inline expected))
  | .flatten id => ended (s.run (flattenWithin depth id))
  | .checkRestriction use id required => ended (s.run (restrictWithin use depth id required))
  | .lastTemplate id => ended (s.run (TemplateCheck.lastTemplate id))
  | .copy id => ended (s.run (onStore (Store.deepCopy id)))
  | .addTemplate t => ended (s.run (onStore (Store.alloc t)))

def after (s : Session) (history : List (Nat × Operation)) : Session :=
  history.foldl (fun s entry => (s.performWithin entry.1 entry.2).2) s

@[simp] theorem ended_snd (r : Except Fault α × Session) : (ended r).2 = r.2 := by
  rcases r with ⟨_ | _, s⟩ <;> rfl

theorem ended_fst_eq_some {r : Except Fault α × Session} {fault : Fault} :
    (ended r).1 = some fault ↔ r.1 = .error fault := by
  rcases r with ⟨_ | _, s⟩ <;> simp [ended]

theorem run_evolves (s : Session) (x : CheckM α) : s.state.Evolves (s.run x).2.state :=
  (x s.env).along s.state

theorem run_of_run {s : Session} {x : CheckM α} {result : Except Fault α} {after : CheckState}
    (h : (x s.env).run s.state = (result, after)) :
    s.run x = (result, { s with store := after.store, report := after.report }) := by
  rw [run, show (x s.env).run ⟨s.store, s.report⟩ = (result, after) from h]

theorem run_of_unchanged {s : Session} {x : CheckM α} {result : Except Fault α}
    (h : (x s.env).run s.state = (result, s.state)) : s.run x = (result, s) :=
  run_of_run h

theorem performWithin_evolves (s : Session) (depth : Nat) (op : Operation) :
    s.state.Evolves (s.performWithin depth op).2.state := by
  cases op <;> simp only [performWithin, ended_snd] <;> exact run_evolves s _

theorem after_evolves (s : Session) (history : List (Nat × Operation)) : s.state.Evolves (s.after history).state := by
  induction history generalizing s with
  | nil => exact Course.refl s.state
  | cons entry history ih => exact Course.trans (s.performWithin_evolves entry.1 entry.2) (ih _)

end Session

variable {shape : ListShape} {items : List NodeId}

namespace Form.Becomes

variable {first second : Form}

/-- A property that every permitted change keeps holds after any number of them. -/
theorem keeps {P : Form → Prop} (h : first.Becomes second)
    (hStep : ∀ f g, P f → f.mayBecome g → P g) (hFirst : P first) : P second := by
  induction h with
  | refl => exact hFirst
  | step _ hMay ih => exact hStep _ _ ih hMay

theorem reflTransGen (h : first.Becomes second) : Relation.ReflTransGen (fun f g => f.mayBecome g) first second := by
  induction h with
  | refl => exact .refl
  | step _ hMay ih => exact ih.tail hMay

theorem eq_erroneous (h : Form.erroneous.Becomes second) : second = .erroneous := by
  refine h.keeps (P := (· = .erroneous)) ?_ rfl
  rintro _ g rfl hMay
  cases g <;> simp_all [mayBecome, variant, isErroneous]

theorem of_named {entries : List NamedEntry} (h : (Form.named entries).Becomes second) :
    second = .erroneous ∨ ∃ entries', second = .named entries' := by
  refine h.keeps (P := fun f => f = .erroneous ∨ ∃ entries', f = .named entries') ?_ (.inr ⟨entries, rfl⟩)
  rintro _ g (rfl | ⟨_, rfl⟩) hMay <;> cases g <;> simp_all [mayBecome, variant, isErroneous]

theorem of_allFrom {target : NodeId} (h : (Form.allFrom target).Becomes second) :
    second = .erroneous ∨ ∃ target', second = .allFrom target' := by
  refine h.keeps (P := fun f => f = .erroneous ∨ ∃ target', f = .allFrom target') ?_ (.inr ⟨target, rfl⟩)
  rintro _ g (rfl | ⟨_, rfl⟩) hMay <;> cases g <;> simp_all [mayBecome, variant, isErroneous]

theorem of_list (h : (Form.list shape items).Becomes second) :
    second = .erroneous ∨ (∃ items', second = .list shape items') ∨
      shape = .positional ∧ ∃ entries, second = .named entries := by
  refine h.keeps (P := fun f => f = .erroneous ∨ (∃ items', f = .list shape items') ∨
    shape = .positional ∧ ∃ entries, f = .named entries) ?_ (.inr (.inl ⟨items, rfl⟩))
  rintro _ g (rfl | ⟨_, rfl⟩ | ⟨hShape, _, rfl⟩) hMay <;> cases g <;> cases shape <;>
    simp_all [mayBecome, variant, isErroneous]

end Form.Becomes

section

variable (env : Env) {st : CheckState} {id : NodeId} {t : Template}

section

variable (h : st.store.get? id = some t)

include h

theorem checked_after_check (check : ChildCheck) (flatten : Flattening) (governor : TypeKey) (site : Site) :
    ∃ t', ((checkStep check flatten id governor site env).run st).2.store.get? id = some t' ∧
      t'.marks.has .checked := by
  unfold checkStep
  rw [run_bind_ok _ (run_node h)]
  split
  · rename_i hChecked
    exact ⟨t, h, hChecked⟩
  · obtain ⟨t', h', hEvolves⟩ := (evolves_of_bind _ (run_govern h governor)).store id (t.govern governor) (by simp [h])
    exact ⟨t', h', hEvolves.marks .checked (Template.has_set_self t.marks .checked)⟩

theorem check_of_checked (hChecked : t.marks.has .checked)
    (check : ChildCheck) (flatten : Flattening) (governor : TypeKey) (site : Site) :
    (checkStep check flatten id governor site env).run st = (.ok { erroneous := t.form.isErroneous }, st) := by
  unfold checkStep
  rw [run_bind_ok _ (run_node h), if_pos (show t.marks.checked from hChecked)]
  rfl

theorem folded_after_expand (hForm : t.form = .list shape items) (expand : Expand)
    (inPermutation : Bool) (active : List DefId) :
    ∃ t', ((expandNode expand inPermutation active id env).run st).2.store.get? id = some t' ∧
      t'.marks.has .folded := by
  unfold expandNode
  rw [run_bind_ok _ (run_node h)]
  split
  · rename_i hFolded
    exact ⟨t, h, hFolded⟩
  · rw [hForm]
    obtain ⟨t', h', hEvolves⟩ := (evolves_of_bind _ (run_mark h .folded)).store id (t.mark .folded) (by simp [h])
    exact ⟨t', h', hEvolves.marks .folded (Template.has_set_self t.marks .folded)⟩

theorem expand_of_folded (hFolded : t.marks.has .folded)
    (expand : Expand) (inPermutation : Bool) (active : List DefId) :
    (expandNode expand inPermutation active id env).run st = (.ok t.marks.flattened, st) := by
  unfold expandNode
  rw [run_bind_ok _ (run_node h), if_pos (show t.marks.folded from hFolded)]
  rfl

end

end

namespace Session

/-- Whatever the history: every node is still there, with its span, its modifiers and every mark it
had, and its form has changed in permitted steps only. A node that was checked once is never checked
again, and a list that was flattened once is never flattened again. -/
theorem history_evolves (s : Session) (history : List (Nat × Operation)) :
    (∀ id t, s.store.get? id = some t → ∃ t', (s.after history).store.get? id = some t' ∧
      t'.span = t.span ∧ t'.length = t.length ∧ t'.ifPresent = t.ifPresent ∧
      (∀ m, t.marks.has m → t'.marks.has m) ∧
      Relation.ReflTransGen (fun f g => f.mayBecome g) t.form t'.form ∧
      (t.form = .erroneous → t'.form = .erroneous) ∧
      (∀ entries, t.form = .named entries →
        t'.form = .erroneous ∨ ∃ entries', t'.form = .named entries') ∧
      (∀ shape items, t.form = .list shape items →
        t'.form = .erroneous ∨ (∃ items', t'.form = .list shape items') ∨
          shape = .positional ∧ ∃ entries, t'.form = .named entries) ∧
      (∀ target, t.form = .allFrom target →
        t'.form = .erroneous ∨ ∃ target', t'.form = .allFrom target')) ∧
    (∀ id, (s.store.get? id).isSome → ∀ depth governor site depth' governor' site',
      let later := (s.run (checkWithin (depth + 1) id governor site)).2.after history
      ∃ t', later.store.get? id = some t' ∧
        later.run (checkWithin (depth' + 1) id governor' site') =
          (.ok { erroneous := t'.form.isErroneous }, later)) ∧
    (∀ id t shape items, s.store.get? id = some t → t.form = .list shape items → ∀ depth depth',
      let later := (s.run (flattenWithin depth id)).2.after history
      ∃ t', later.store.get? id = some t' ∧
        later.run (flattenWithin depth' id) = (.ok t'.marks.flattened, later)) := by
  refine ⟨fun id t h => ?_, fun id h depth governor site depth' governor' site' => ?_,
    fun id t shape items h hForm depth depth' => ?_⟩
  · obtain ⟨t', h', hEvolves⟩ := (s.after_evolves history).store id t h
    refine ⟨t', h', hEvolves.span, hEvolves.length, hEvolves.ifPresent, hEvolves.marks,
      hEvolves.form.reflTransGen, ?_, ?_, ?_, ?_⟩
    · exact fun hForm => (hForm ▸ hEvolves.form).eq_erroneous
    · exact fun _ hForm => (hForm ▸ hEvolves.form).of_named
    · exact fun _ _ hForm => (hForm ▸ hEvolves.form).of_list
    · exact fun _ hForm => (hForm ▸ hEvolves.form).of_allFrom
  · obtain ⟨t, hFound⟩ : ∃ t, s.state.store.get? id = some t := Option.isSome_iff_exists.1 h
    obtain ⟨t1, h1, hChecked⟩ := checked_after_check s.env hFound (checkWithin depth)
      (flattenWithin depth) governor site
    obtain ⟨t', h', hEvolves⟩ :=
      (after_evolves (s.run (checkWithin (depth + 1) id governor site)).2 history).store id t1 h1
    exact ⟨t', h', run_of_unchanged
      (check_of_checked _ h' (hEvolves.marks .checked hChecked) _ _ governor' site')⟩
  · have hFound : s.state.store.get? id = some t := h
    obtain ⟨t1, h1, hFolded⟩ := folded_after_expand s.env hFound hForm (expandWithin depth) false
      s.env.current.toList
    obtain ⟨t', h', hEvolves⟩ :=
      (after_evolves (s.run (flattenWithin depth id)).2 history).store id t1 h1
    exact ⟨t', h', run_of_unchanged
      (expand_of_folded _ h' (hEvolves.marks .folded hFolded) _ false _)⟩

def numbers : Session where
  types := .numbers
  store := .ofForms [.ofInteger 3, .ofItems [0]]

theorem history_evolves_numbers :
    (∃ t', (numbers.after [(2, .check 1 2 {}), (1, .flatten 1)]).store.get? 1 = some t' ∧
      (t'.form = .erroneous ∨ (∃ items', t'.form = .list .positional items') ∨
        ListShape.positional = .positional ∧ ∃ entries, t'.form = .named entries)) ∧
    (let later := (numbers.run (checkWithin 2 1 2 {})).2.after [(1, .flatten 1)]
      ∃ t', later.store.get? 1 = some t' ∧
        later.run (checkWithin 3 1 1 {}) = (.ok { erroneous := t'.form.isErroneous }, later)) ∧
    (let later := (numbers.run (flattenWithin 1 1)).2.after [(2, .check 1 2 {})]
      ∃ t', later.store.get? 1 = some t' ∧
        later.run (flattenWithin 4 1) = (.ok t'.marks.flattened, later)) := by
  refine ⟨?_, ?_, ?_⟩
  · obtain ⟨t', h', -, -, -, -, -, -, -, hList, -⟩ :=
      (history_evolves numbers [(2, .check 1 2 {}), (1, .flatten 1)]).1 1 _ rfl
    exact ⟨t', h', hList .positional [0] rfl⟩
  · exact (history_evolves numbers [(1, .flatten 1)]).2.1 1 rfl 1 2 {} 2 1 {}
  · exact (history_evolves numbers [(2, .check 1 2 {})]).2.2 1 _ .positional [0] rfl rfl 1 4

end Session

namespace Report

/-- The counters say how many errors and warnings are in the list. -/
def Counted (r : Report) : Prop :=
  r.errors = r.diagnostics.countP (·.finding.isError) ∧ r.warnings = r.diagnostics.countP (·.finding.isWarning)

instance (r : Report) : Decidable r.Counted := inferInstanceAs (Decidable (_ ∧ _))

variable {before after : Report}

theorem Extends.keeps (h : before.Extends after) : before.diagnostics <+: after.diagnostics := by
  obtain ⟨found, hDiagnostics, -⟩ := h.added
  rw [hDiagnostics]
  exact prefix_append _ _

theorem Extends.context_le (h : before.Extends after) {d : Diagnostic}
    (hd : d ∈ after.diagnostics.drop before.diagnostics.length) : before.context <+: d.context := by
  obtain ⟨found, hDiagnostics, hOpen, -⟩ := h.added
  rw [hDiagnostics, drop_left] at hd
  exact hOpen d hd

theorem Extends.counted (h : before.Extends after) (hCounted : before.Counted) : after.Counted := by
  obtain ⟨found, hDiagnostics, -, hErrors, hWarnings⟩ := h.added
  obtain ⟨hErrorCount, hWarningCount⟩ := hCounted
  constructor
  · rw [hErrors, hDiagnostics, countP_append, hErrorCount]
  · rw [hWarnings, hDiagnostics, countP_append, hWarningCount]

end Report

namespace Session

/-- Whatever the operation and however it ends: no diagnostic is lost or moved, the open contexts are
those from before, new diagnostics lie inside them, and counters that were right stay right. -/
theorem performWithin_appends (s : Session) (depth : Nat) (op : Operation) :
    let after := (s.performWithin depth op).2
    s.report.diagnostics <+: after.report.diagnostics ∧
    after.report.context = s.report.context ∧
    (∀ d ∈ after.report.diagnostics.drop s.report.diagnostics.length,
      s.report.context <+: d.context) ∧
    (s.report.Counted → after.report.Counted) := by
  have hExtends : s.report.Extends (s.performWithin depth op).2.report :=
    (s.performWithin_evolves depth op).report
  refine ⟨hExtends.keeps, hExtends.context, ?_, ?_⟩
  · intro d hd
    exact hExtends.context_le hd
  · intro hCounted
    exact hExtends.counted hCounted

/-- A record with a wrong field and one that leads nowhere, in a session that has a warning already and
is inside a context. -/
def broken : Session where
  types := ⟨[(1, ⟨"integer", .integer⟩),
    (2, ⟨"Pair", .record [⟨"a", 1, false, false⟩, ⟨"b", 1, false, false⟩]⟩)]⟩
  store := .ofForms [.specific (.boolean true), .named [⟨"a", 0, {}⟩, ⟨"b", 7, {}⟩]]
  report := {
    context := [.component 1]
    diagnostics := [⟨.warning .redundantLength, {}, []⟩]
    warnings := 1 }

/-- Its check reports an error and then ends in a fault. -/
theorem performWithin_appends_broken :
    broken.report.Counted ∧
    (broken.performWithin 3 (.check 1 2 {})).1 = some (.danglingTemplate 7) ∧
    (broken.performWithin 3 (.check 1 2 {})).2.report.diagnostics.length = 2 ∧
    (broken.performWithin 3 (.check 1 2 {})).2.report.Counted := by
  have hCounted : broken.report.Counted := by decide
  refine ⟨hCounted, by decide +kernel, by decide +kernel, ?_⟩
  exact (performWithin_appends broken 3 (.check 1 2 {})).2.2.2 hCounted

end Session

end TemplateCheck
