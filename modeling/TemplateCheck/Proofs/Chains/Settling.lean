import TemplateCheck.Proofs.Chains.Closing
import TemplateCheck.Proofs.Chains.Linking
import TemplateCheck.Proofs.Safety.Session

/-!
# Chains are settled at once

However references lead to each other, to follow one of them comes to an end. A chain grows only by nodes that are not
on it yet, and a walk over base links meets no node twice unless a node builds on itself. The first error is the only
one: it leaves a template that no path leads into, so whoever waits for the end of that chain stops there.
-/

namespace TemplateCheck

open List Store

variable {env : Env} {s s' : Store} {id last : NodeId} {t : Template} {form : Form} {decl : TypeDecl} {name : String}
  {base : Option NodeId} {step : PathStep} {Q : Part → Store → Prop} {span : Span} {depth : Nat} {r : Reference}

open Relation (TransGen)

def Form.endsPaths : Form → Bool
  | .erroneous | .referenced .. | .specific _ | .invoke .. => true
  | _ => false

theorem Form.Becomes.endsPaths {first second : Form} (h : first.Becomes second) (hFirst : first.endsPaths) :
    second.endsPaths := by
  refine h.keeps (P := fun form => form.endsPaths) ?_ hFirst
  intro f g hf hMay
  cases f <;> cases hf <;> cases g <;> simp_all [Form.endsPaths, Form.mayBecome, Form.variant, Form.isErroneous]

theorem Env.entrance_of_endsPaths (h : form.endsPaths) (id : NodeId) (type : TypeKey) :
    env.entrance form id type = .inl (if form.isErroneous then .found id type else .unknown) := by
  cases form <;> cases h <;> rfl

theorem TypeDecl.glanceField_of_endsPaths {field : FieldDecl} (hField : decl.field? name = some field)
    (h : form.endsPaths) :
    decl.glanceField name form base = .part .unknown := by
  cases form <;> cases h <;> simp [glanceField, hField, Form.hidesFields]

theorem Reading.glance_of_endsPaths {m m' : Reading} {base : NodeId}
    (hEnv : m'.env = m.env) (h : m.glance decl id step = some (.inherited base))
    (hNode : m'.view last = some t) (hForm : t.form.endsPaths) : m'.glance decl last step = some (.part .unknown) := by
  cases tells_of_glance h with
  | stops hStops => cases hStops
  | leftField _ _ hField => simp only [glance, hNode, Option.map_some, TypeDecl.glanceField_of_endsPaths hField hForm]
  | leftElement hItem =>
    obtain ⟨number, _, hNumber, hNonneg, -⟩ := hItem.place
    have hElements : t.form.elements? = none := by
      revert hForm
      cases t.form <;> simp [Form.endsPaths, Form.elements?]
    simp only [glance, glanceElement, hEnv, TypeDecl.glanceIndex, hItem.element, hNumber, hNonneg, if_false, hNode,
      Option.bind_some, hElements]

/-- How following references ends, and what it has reported by then: nothing, or one thing, or nothing because a node
is missing. -/
inductive Settlement {α : Type} (Q C : α → Store → Prop) : Except Fault α → Store → List Diagnostic → Prop where
  | quiet {a : α} {s : Store} : Q a s → Settlement Q C (.ok a) s []
  | caught {a : α} {s : Store} (d : Diagnostic) : C a s → Settlement Q C (.ok a) s [d]
  | missing {s : Store} (id : NodeId) : Settlement Q C (.error (.danglingTemplate id)) s []

/-- The computation comes to an end and reports at most one thing. `Q` holds if it reports nothing, and `C` if it
reports something. -/
structure Settles (env : Env) (s : Store) {α : Type} (x : CheckM α) (Q C : α → Store → Prop) : Prop where
  run : ∀ report, ∃ result after found, (x env).run ⟨s, report⟩ = (result, after) ∧
    after.report.diagnostics = report.diagnostics ++ found ∧ Settlement Q C result after.store found

namespace Settles

variable {α β : Type} {x : CheckM α} {f : α → CheckM β} {Q Q' C C' : α → Store → Prop} {P D : β → Store → Prop}

theorem imp (h : Settles env s x Q C) (hQ : ∀ report a after, (x env).run ⟨s, report⟩ = (.ok a, after) →
      after.report.diagnostics = report.diagnostics ++ [] → Q a after.store → Q' a after.store)
    (hC : ∀ report a after, (x env).run ⟨s, report⟩ = (.ok a, after) → C a after.store → C' a after.store) :
    Settles env s x Q' C' := by
  constructor
  intro report
  obtain ⟨result, after, found, hRun, hFound, hSettlement⟩ := h.run report
  refine ⟨result, after, found, hRun, hFound, ?_⟩
  cases hSettlement with
  | quiet hResult => exact .quiet (hQ _ _ _ hRun hFound hResult)
  | caught d hResult => exact .caught d (hC _ _ _ hRun hResult)
  | missing id => exact .missing id

theorem mono (h : Settles env s x Q C) (hQ : ∀ a s', Q a s' → Q' a s') (hC : ∀ a s', C a s' → C' a s') :
    Settles env s x Q' C' :=
  h.imp (fun _ a after _ _ => hQ a after.store) fun _ a after _ => hC a after.store

theorem bind (hx : Settles env s x Q C) (hf : ∀ a s', Q a s' → Settles env s' (f a) P D)
    (hRest : ∀ a s', C a s' → Attains true env s' (f a) D) : Settles env s (x >>= f) P D := by
  constructor
  intro report
  obtain ⟨result, ⟨s', report'⟩, found, hRun, hFound, hSettlement⟩ := hx.run report
  cases hSettlement with
  | quiet hResult =>
    obtain ⟨result', after, more, hRun', hMore, hSettlement'⟩ := (hf _ _ hResult).run report'
    refine ⟨result', after, more, (run_bind_ok f hRun).trans hRun', ?_, hSettlement'⟩
    rw [hMore, hFound, append_nil]
  | caught d hResult =>
    obtain ⟨b, after, hRun', hReport, hResult'⟩ := (hRest _ _ hResult).run report'
    refine ⟨.ok b, after, [d], (run_bind_ok f hRun).trans hRun', ?_, .caught d hResult'⟩
    rw [hReport rfl, hFound]
  | missing id => exact ⟨_, _, [], run_bind_error f hRun, hFound, .missing id⟩

theorem of_attains (h : Attains true env s x Q) : Settles env s x Q C := by
  constructor
  intro report
  obtain ⟨a, after, hRun, hReport, hResult⟩ := h.run report
  exact ⟨.ok a, after, [], hRun, by rw [hReport rfl, append_nil], .quiet hResult⟩

theorem pure {a : α} (hQ : Q a s) : Settles env s (pure a) Q C := of_attains (.pure hQ)

theorem of_reports (h : ∀ context, Reports env s context x fun a s' found => (∃ d, found = [d]) ∧ C a s') :
    Settles env s x Q C := by
  constructor
  intro report
  obtain ⟨a, after, found, hRun, hFound, ⟨d, rfl⟩, hResult⟩ := (h report.context).run report rfl
  exact ⟨.ok a, after, [d], hRun, hFound, .caught d hResult⟩

theorem and_clean {R : α → Store → Prop} (h : Settles env s x Q C) (hClean : Clean env s x R) :
    Settles env s x (fun a s' => Q a s' ∧ R a s') C := by
  refine h.imp (fun report a after hRun hFound hResult => ⟨hResult, ?_⟩) fun _ _ _ _ hResult => hResult
  exact hClean.post report a after hRun ((evolves_of_run hRun).report.counters_of_notes hFound (by simp)).1

theorem and_evolves (h : Settles env s x Q C) :
    Settles env s x (fun a s' => Q a s' ∧ s.Evolves s') fun a s' => C a s' ∧ s.Evolves s' :=
  h.imp (fun _ _ _ hRun _ hResult => ⟨hResult, (evolves_of_run hRun).store⟩)
    fun _ _ _ hRun hResult => ⟨hResult, (evolves_of_run hRun).store⟩

theorem read_then {f : Env → CheckM β} (h : Settles env s (f env) P D) : Settles env s (read >>= f) P D := ⟨h.run⟩

theorem store_then {f : Store → CheckM β} (h : Settles env s (f s) P D) : Settles env s (currentStore >>= f) P D :=
  ⟨h.run⟩

theorem node_then {f : Template → CheckM β} (h : ∀ t, s.get? id = some t → Settles env s (f t) P D) :
    Settles env s (node id >>= f) P D := by
  constructor
  intro report
  obtain ⟨-, hFault⟩ | ⟨t, hFound, hNext⟩ := run_node_then env id f ⟨s, report⟩
  · exact ⟨_, _, [], hFault, (append_nil _).symm, .missing id⟩
  · rw [hNext]
    exact (h t hFound).run report

theorem formOf_then {f : Form → CheckM β} (h : ∀ t, s.get? id = some t → Settles env s (f t.form) P D) :
    Settles env s (formOf id >>= f) P D := by
  rw [formOf_bind]
  exact node_then h

end Settles

theorem settles_invalidPart (span : Span) (fault : PathFault) :
    Settles env s (invalidPart span fault) Q fun p _ => p = .invalid := by
  apply Settles.of_reports
  intro context
  apply (Reports.tell span _).bind
  rintro _ _ _ ⟨rfl, rfl⟩
  exact .pure ⟨⟨_, rfl⟩, rfl⟩

theorem settles_partAt {resolve : NodeId → CheckM NodeId} {C : Part → Store → Prop}
    (h : ∀ g, (s.reading env).glance decl id step = some g →
      Settles env s (g.follow resolve decl span depth step) Q C) :
    Settles env s (partAt resolve decl span (depth + 1) id step) Q C := by
  constructor
  intro report
  obtain ⟨g, hGlance, hRun⟩ | ⟨-, missing, hFault⟩ := run_partAt_cases resolve decl span depth id step env ⟨s, report⟩
  · rw [hRun]
    exact (h g hGlance).run report
  · exact ⟨_, _, [], hFault, (append_nil _).symm, .missing missing⟩

def Store.EndsPaths (s : Store) (id : NodeId) : Prop := ∃ t, s.get? id = some t ∧ t.form.endsPaths

theorem Store.EndsPaths.evolves (h : s.EndsPaths id) (hEvolves : s.Evolves s') : s'.EndsPaths id := by
  obtain ⟨t, hNode, hForm⟩ := h
  obtain ⟨t', hNode', hKept⟩ := hEvolves id t hNode
  exact ⟨t', hNode', hKept.form.endsPaths hForm⟩

namespace Reading

variable {m : Reading} {type : TypeKey}

theorem Matches.size_eq (h : m.Matches s) (h' : m.Matches s') : s'.size = s.size := by
  have hWalk := h.walk_eq
  have hWalk' := h'.walk_eq
  omega

section Walk

/-- `resolve` finds the end of every chain or reports one error. -/
structure Resolves (m : Reading) (resolve : NodeId → CheckM NodeId) : Prop where
  trusts : m.Trusts resolve
  settles : ∀ s id, m.Matches s → Settles m.env s (resolve id) (fun _ _ => True) fun last s' => s'.EndsPaths last

variable {resolve : NodeId → CheckM NodeId}

theorem Resolves.found (h : m.Resolves resolve) (hs : m.Matches s) (id : NodeId) :
    Settles m.env s (resolve id) (fun last s' => m.EndsAt id last ∧ m.Matches s') fun last s' => s'.EndsPaths last :=
  ((h.settles s id hs).and_clean (h.trusts s id hs)).mono (fun _ _ hBoth => hBoth.2) fun _ _ hEnds => hEnds

variable (hResolve : m.Resolves resolve) (hBases : ∀ n, ¬ TransGen m.Builds n n)

include hResolve hBases

theorem settles_part {asked : List NodeId} (hNodup : asked.Nodup) (hAsked : ∀ n ∈ asked, TransGen m.Builds n id)
    (hDepth : s.size < depth + asked.length) (hs : m.Matches s) :
    Settles m.env s (partAt resolve decl span depth id step) (fun _ _ => True)
      fun p _ => p = .unknown ∨ p = .invalid := by
  have hHas : ∀ n ∈ asked, s.Has n := by
    intro n hMem
    obtain ⟨_, ⟨t, _, hView, -⟩, -⟩ := TransGen.head'_iff.1 (hAsked n hMem)
    obtain ⟨t', hNode, -⟩ := hs.nodes n t hView
    exact has_of_get? hNode
  have hLength : asked.length ≤ s.size := length_le_size hNodup hHas
  induction depth generalizing id s asked with
  | zero => omega
  | succ depth ih =>
    apply settles_partAt
    intro g hGlance
    replace hGlance := hs.glance hGlance
    cases g with
    | part p => exact .pure trivial
    | lost fault => exact (settles_invalidPart span fault).mono (fun _ _ h => h) fun _ _ h => .inr h
    | inherited base =>
      obtain ⟨t, hView, hBase⟩ := base_of_glance hGlance
      obtain ⟨t', hNode, -⟩ := hs.nodes id t hView
      have hNew : id ∉ asked := fun hMem => hBases id (hAsked id hMem)
      have hNodup' : (id :: asked).Nodup := List.nodup_cons.2 ⟨hNew, hNodup⟩
      have hHas' : ∀ n ∈ id :: asked, s.Has n := by
        rintro n (_ | ⟨_, hMem⟩)
        · exact has_of_get? hNode
        · exact hHas n hMem
      have hLength' : (id :: asked).length ≤ s.size := length_le_size hNodup' hHas'
      rw [length_cons] at hLength'
      apply (hResolve.found hs base).bind
      · rintro last s' ⟨hEnd, hs'⟩
        have hSize := hs.size_eq hs'
        have hBuilds : m.Builds id last := ⟨t, base, hView, hBase, hEnd⟩
        have hAsked' : ∀ n ∈ id :: asked, TransGen m.Builds n last := by
          rintro n (_ | ⟨_, hMem⟩)
          · exact .single hBuilds
          · exact (hAsked n hMem).tail hBuilds
        refine ih hNodup' hAsked' ?_ hs' ?_ ?_
        · rw [length_cons]
          omega
        · intro n hMem
          rw [Has, hSize]
          exact hHas' n hMem
        · rw [length_cons]
          omega
      · rintro last s' ⟨u, hLast, hForm⟩
        obtain ⟨depth, rfl⟩ := Nat.exists_eq_succ_of_ne_zero (show depth ≠ 0 by omega)
        exact attains_partAt (glance_of_endsPaths (m := m) rfl hGlance hLast hForm) (.pure (.inl rfl))

theorem settles_narrow {path : List PathStep} (hs : m.Matches s) :
    Settles m.env s (narrow resolve span m.walk path id type) (fun _ _ => True) fun p s' =>
      ∀ part type, p = .found part type → ∃ t, s'.get? part = some t ∧ t.form = .erroneous := by
  induction path generalizing id type s with
  | nil => exact .pure trivial
  | cons step path ih =>
    rw [narrow_cons]
    apply (hResolve.found hs id).bind
    · rintro last s' ⟨-, hs'⟩
      apply Settles.formOf_then
      intro t _
      apply Settles.read_then
      cases m.env.entrance t.form last type with
      | inl p => exact .pure trivial
      | inr decl =>
        have hRoom : s'.size < m.walk + ([] : List NodeId).length := by
          rw [hs'.walk_eq]
          simp
        apply ((settles_part hResolve hBases nodup_nil (by simp) hRoom hs').and_clean
          (clean_part hResolve.trusts hs')).bind
        · rintro q s'' ⟨-, -, hs''⟩
          cases q with
          | found part partType => exact ih hs''
          | unknown | invalid => exact .pure trivial
        · rintro q s'' (rfl | rfl)
          · exact .pure (by simp)
          · exact .pure (by simp)
    · rintro last s' ⟨t, hNode, hForm⟩
      apply Attains.formOf_then hNode
      apply Attains.read_then
      rw [Env.entrance_of_endsPaths hForm]
      apply Attains.pure
      intro part partType hFound
      split at hFound
      · rename_i hErroneous
        cases hFound
        refine ⟨t, hNode, ?_⟩
        revert hErroneous
        cases t.form <;> simp [Form.isErroneous]
      · cases hFound

end Walk

variable {chain : ReferenceChain}

theorem settles_chainEnd (hBases : ∀ n, ¬ TransGen m.Builds n n)
    {resolve : ReferenceChain → NodeId → CheckM NodeId} {body : NodeId}
    (hResolve : ∀ longer, chain.add? id r.text = some longer → m.Resolves (resolve longer))
    (hStays : ∀ longer s part u, chain.add? id r.text = some longer → s.get? part = some u → u.form = .erroneous →
      Attains true m.env s (resolve longer part) fun last s' => last = part ∧ s' = s)
    (hs : m.Matches s) (hNode : s.get? id = some t) (hForm : t.form.endsPaths) :
    Settles m.env s (chainEnd resolve chain id r body type) (fun _ _ => True) fun last s' => s'.EndsPaths last := by
  unfold chainEnd
  split
  · rename_i longer hLonger
    have hLongerResolve := hResolve longer hLonger
    apply Settles.store_then
    rw [← hs.walk_eq]
    have hNarrow : Settles m.env s (narrow (resolve longer) r.span m.walk r.path body type) _ _ :=
      (settles_narrow hLongerResolve hBases hs).and_clean (clean_narrow hLongerResolve.trusts hs)
    apply hNarrow.and_evolves.bind
    · rintro p s' ⟨⟨-, hNarrows, hs'⟩, -⟩
      cases p with
      | found part partType => exact hLongerResolve.settles s' part hs'
      | unknown => exact .pure trivial
      | invalid => exact absurd rfl hNarrows.ne_invalid
    · rintro p s' ⟨hErroneous, hEvolves⟩
      obtain ⟨t', hNode', hForm'⟩ := EndsPaths.evolves ⟨t, hNode, hForm⟩ hEvolves
      cases p with
      | found part partType =>
        obtain ⟨u, hPart, hGivenUp⟩ := hErroneous part partType rfl
        apply (hStays longer s' part u hLonger hPart hGivenUp).mono
        rintro _ _ ⟨rfl, rfl⟩
        exact ⟨u, hPart, by rw [hGivenUp]; rfl⟩
      | unknown => exact .pure ⟨t', hNode', hForm'⟩
      | invalid =>
        apply (Attains.giveUp hNode').bind
        rintro _ _ rfl
        exact .pure ⟨{ t' with form := .erroneous }, by simp [hNode'], rfl⟩
  · apply Settles.of_reports
    intro context
    apply (reports_reject hNode _).bind
    rintro _ _ _ ⟨rfl, rfl⟩
    exact .pure ⟨⟨_, rfl⟩, { t with form := .erroneous }, by simp [hNode], rfl⟩

theorem attains_settle (hNode : s.get? id = some t) (last : NodeId) :
    Attains true env s (do rememberLast id last; mark id .recursionsChecked; return last) fun last' s' =>
      last' = last ∧ s.Evolves s' := by
  apply Attains.bind (Attains.modifyNode hNode)
  rintro _ _ rfl
  apply Attains.bind (Attains.mark (t := t.remember last) (by simp [hNode]) _)
  rintro _ _ rfl
  refine .pure ⟨rfl, Course.trans (evolves_update ?_) (evolves_update ?_)⟩
  · exact fun t _ => t.evolves_remember last
  · exact fun t _ => t.evolves_mark _

/-- A chain that can still grow by all nodes that are not on it is settled. -/
theorem resolves_lastWithin (hBases : ∀ n, ¬ TransGen m.Builds n n) (depth : Nat)
    (hs : m.Matches s) (hChain : OnChain chain s) (hDepth : s.size < depth + chain.entries.length) :
    m.Resolves (lastWithin depth chain) := by
  refine ⟨trusts_lastWithin depth chain, ?_⟩
  induction depth generalizing chain with
  | zero =>
    have hLength := hChain.length_le
    omega
  | succ depth ih =>
    intro s1 id hs1
    have hSize := hs.size_eq hs1
    rw [lastWithin]
    apply Settles.formOf_then
    intro t hNode
    split
    · exact .pure trivial
    · rename_i r hForm
      have hEnds : t.form.endsPaths := by rw [hForm]; rfl
      have hLonger : ∀ longer, chain.add? id r.text = some longer → OnChain longer s ∧
          longer.entries.length = chain.entries.length + 1 := by
        intro longer hAdd
        obtain ⟨hEntries, hOnChain⟩ := (hChain.of_size_eq hSize).add (has_of_get? hNode) hAdd
        exact ⟨hOnChain.of_size_eq hSize.symm, by simp [hEntries]⟩
      have hResolve : ∀ longer, chain.add? id r.text = some longer → m.Resolves (lastWithin depth longer) := by
        intro longer hAdd
        obtain ⟨hOnChain, hLength⟩ := hLonger longer hAdd
        exact ⟨trusts_lastWithin depth longer, ih hOnChain (by omega)⟩
      have hStays : ∀ longer s part u, chain.add? id r.text = some longer → s.get? part = some u → u.form = .erroneous →
          Attains true m.env s (lastWithin depth longer part) fun last s' => last = part ∧ s' = s := by
        intro longer s2 part u hAdd hPart hGivenUp
        obtain ⟨hOnChain, hLength⟩ := hLonger longer hAdd
        have hRoom := hOnChain.length_le
        obtain ⟨depth, rfl⟩ := Nat.exists_eq_succ_of_ne_zero (show depth ≠ 0 by omega)
        exact attains_lastWithin_of_knownEnd hPart (by rw [hGivenUp]; rfl) depth longer
      apply Settles.read_then
      split
      · split
        · apply (settles_chainEnd hBases hResolve hStays hs1 hNode hEnds).and_evolves.bind
          · rintro last s2 ⟨-, hEvolves⟩
            obtain ⟨t2, hNode2, -⟩ := hEvolves id t hNode
            exact .of_attains ((attains_settle hNode2 last).mono fun _ _ _ => trivial)
          · rintro last s2 ⟨hLast, hEvolves⟩
            obtain ⟨t2, hNode2, -⟩ := hEvolves id t hNode
            apply (attains_settle hNode2 last).mono
            rintro _ s3 ⟨rfl, hEvolves'⟩
            exact hLast.evolves hEvolves'
        · exact .of_attains ((Attains.modifyNode hNode).bind fun _ _ _ => .pure trivial)
      · exact .pure trivial
    · exact .pure trivial

theorem settles_lastTemplate (hBases : ∀ n, ¬ TransGen m.Builds n n) (hs : m.Matches s) (id : NodeId) :
    Settles m.env s (lastTemplate id) (fun last s' => m.EndsAt id last ∧ m.Matches s')
      fun last s' => s'.EndsPaths last :=
  .store_then ((resolves_lastWithin hBases _ hs ⟨by simp, by simp⟩ (by simp)).found hs id)

end Reading

section Again

theorem Template.Pursued.knownEnd?_remember (env : Env) (id last : NodeId) {t' : Template}
    (h : t.Pursued t') (hForm : t.form = .referenced r none) :
    ∃ again, env.knownEnd? id (t'.remember last).form = some again ∧
      (again = last ∨ (t'.remember last).form = .erroneous) := by
  cases h with
  | same => exact ⟨last, by simp [Template.remember, hForm, Env.knownEnd?], .inl rfl⟩
  | followed => exact ⟨last, rfl, .inl rfl⟩
  | givenUp => exact ⟨id, rfl, .inr rfl⟩

theorem returns_lastTemplate : Returns false env s (lastTemplate id) fun last s' => ∃ t again, s'.get? id = some t ∧
      env.knownEnd? id t.form = some again ∧ (again = last ∨ t.form = .erroneous) := by
  apply Concludes.store_then
  rw [lastWithin]
  apply Concludes.formOf_then
  intro t hNode
  cases hForm : t.form with
  | referenced r known =>
    cases known with
    | some known => exact .pure ⟨t, known, hNode, by rw [hForm]; rfl, .inl rfl⟩
    | none =>
      apply Concludes.read_then
      cases hTarget : env.definitions.target? r with
      | none => exact .pure ⟨t, id, hNode, by simp [hForm, Env.knownEnd?, hTarget], .inl rfl⟩
      | some definition =>
        simp only
        split
        · apply (Concludes.of_moves (steps_chainEnd (pursuing_lastWithin _) _ _ _ hNode hForm)).bind
          rintro last s1 ⟨hPursues, -⟩
          obtain ⟨t1, hNode1, hPursued⟩ := hPursues.nodes id t hNode
          obtain ⟨again, hAgain, hEnd⟩ := hPursued.knownEnd?_remember env id last hForm
          apply Concludes.bind (.of_attains (Attains.modifyNode hNode1))
          rintro _ _ rfl
          apply Concludes.bind (.of_attains (Attains.mark (t := t1.remember last) (by simp [hNode1]) _))
          rintro _ _ rfl
          exact .pure ⟨(t1.remember last).mark .recursionsChecked, again, by simp [hNode1], hAgain, hEnd⟩
        · obtain ⟨again, hAgain, hEnd⟩ := Template.Pursued.same.knownEnd?_remember env id id hForm
          apply Concludes.bind (.of_attains (Attains.modifyNode hNode))
          rintro _ _ rfl
          exact .pure ⟨t.remember id, again, by simp [hNode], hAgain, hEnd⟩
  | _ => exact .pure ⟨t, id, hNode, by rw [hForm]; rfl, .inl rfl⟩

end Again

namespace Session

/-- Unless a node builds on itself, a chain is followed to its end or up to one error, and nothing changes but the
references on the way. To follow it again has no effect. -/
theorem lastTemplate_settles (s : Session) (id : NodeId)
    (hBases : ∀ n, ¬ TransGen (s.store.reading s.env).Builds n n) :
    let first := s.lastTemplate id
    (∀ fault, first.1 = .error fault → ∃ missing, fault = .danglingTemplate missing) ∧
    (s.WellFormed → s.store.Has id → ∃ last, first.1 = .ok last) ∧
    (∃ found, first.2.report.diagnostics = s.report.diagnostics ++ found ∧ found.length ≤ 1) ∧
    s.store.Pursues first.2.store ∧
    ∀ last, first.1 = .ok last → ∃ again, first.2.lastTemplate id = (.ok again, first.2) ∧
      (again = last ∨ ∃ t, first.2.store.get? id = some t ∧ t.form = .erroneous) := by
  intro first
  obtain ⟨result, after, found, hRun, hFound, hSettlement⟩ :=
    (Reading.settles_lastTemplate hBases (Reading.matches_reading s.store s.env) id).run s.report
  have hFirst : first = _ := Session.run_of_run hRun
  have hFaults : ∀ fault, first.1 = .error fault → ∃ missing, fault = .danglingTemplate missing := by
    rw [hFirst]
    rintro fault rfl
    cases hSettlement with
    | missing id => exact ⟨id, rfl⟩
  refine ⟨hFaults, ?_, ?_, ?_, ?_⟩
  · intro hWell hHas
    cases hResult : first.1 with
    | ok last => exact ⟨last, rfl⟩
    | error fault =>
      obtain ⟨missing, rfl⟩ := hFaults fault hResult
      have hSafe := (performed_performWithin 0 (.lastTemplate id) hWell hHas).faults (.danglingTemplate missing)
        (ended_fst_eq_some.2 hResult)
      simp at hSafe
  · refine ⟨found, by rw [hFirst]; exact hFound, ?_⟩
    cases hSettlement <;> simp
  · rw [hFirst]
    exact (pursuing_lastTemplate s.store id s.report result after hRun).1
  · intro last hLast
    obtain ⟨t, again, hNode, hKnown, hEnd⟩ := of_run_of_returns returns_lastTemplate hLast (Report.calm_false _ _)
    obtain ⟨last', after', hRun', hReport, rfl, hStore⟩ :=
      (attains_lastTemplate_of_knownEnd hNode hKnown).run first.2.report
    have hSame : after' = first.2.state := by
      rcases after' with ⟨store', report'⟩
      cases hStore
      cases hReport rfl
      rfl
    refine ⟨last', run_of_unchanged ?_, hEnd.imp_right fun hForm => ⟨t, hNode, hForm⟩⟩
    rw [hSame] at hRun'
    exact hRun'

/-- A reference that leads into a circle of two others, and a template that modifies another. -/
def sideways : Session where
  types := ⟨[(1, ⟨"Empty", .record []⟩)]⟩
  definitions := ⟨[.ofBody "a" 1 1, .ofBody "b" 1 2]⟩
  store := ⟨[{ form := .following "a" 0 },
    { form := .following "b" 1 },
    { form := .following "a" 0 },
    { form := .named [], base := some 4 }, { form := .named [] }]⟩

theorem sideways.not_builds (n : NodeId) : ¬ TransGen (sideways.store.reading sideways.env).Builds n n := by
  have hBase : ∀ {id t base}, sideways.store.get? id = some t → t.base = some base → base = 4 := by
    intro id t base hNode hBase
    have hMem : t ∈ sideways.store.nodes := mem_of_getElem? hNode
    simp only [sideways, mem_cons, not_mem_nil, or_false] at hMem
    obtain rfl | rfl | rfl | rfl | rfl := hMem <;> cases hBase
    rfl
  intro hCycle
  obtain ⟨_, -, t, base, hNode, hLink, hEnd⟩ := TransGen.tail'_iff.1 hCycle
  obtain rfl := hBase hNode hLink
  obtain rfl : n = 4 := hEnd.eq ⟨1, _, rfl, rfl⟩
  obtain ⟨_, ⟨u, _, hNode', hLink', -⟩, -⟩ := TransGen.head'_iff.1 hCycle
  cases hNode'
  cases hLink'

theorem lastTemplate_settles_sideways :
    (∀ n, ¬ TransGen (sideways.store.reading sideways.env).Builds n n) ∧ sideways.WellFormed ∧
    (sideways.lastTemplate 0).2.report.errors = 1 ∧
    ∃ last again, (sideways.lastTemplate 0).1 = .ok last ∧
      (sideways.lastTemplate 0).2.lastTemplate 0 = (.ok again, (sideways.lastTemplate 0).2) := by
  have hWell : sideways.WellFormed := Ordered.wellFormed (by decide)
  obtain ⟨-, hEnds, -, -, hAgain⟩ := lastTemplate_settles sideways 0 sideways.not_builds
  obtain ⟨last, hLast⟩ := hEnds hWell (by decide)
  obtain ⟨again, hSame, -⟩ := hAgain last hLast
  exact ⟨sideways.not_builds, hWell, by decide +kernel, last, again, hLast, hSame⟩

end Session

end TemplateCheck
