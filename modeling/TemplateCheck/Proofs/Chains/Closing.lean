import TemplateCheck.Proofs.Chains.Following
import TemplateCheck.Proofs.Findings

/-!
# Chains that come back

To find the end of a chain, the ends of other chains have to be found first, one after the other. A chain that in
this way asks for its own end has none. Whoever follows it comes back to its start along the shortest way, reports
there that the chain is circular, and gives up the reference.
-/

namespace TemplateCheck

open List
open Relation (ReflTransGen TransGen)

variable {depth : Nat} {type : TypeKey} {id other : NodeId} {s : Store}

namespace Reading

variable (m : Reading)

/-- For a part that is left to bases, the end of a base is asked for once the bases before it have been followed. -/
inductive PartAsks (decl : TypeDecl) (step : PathStep) : Nat → NodeId → NodeId → Prop where
  | here {depth : Nat} {id base : NodeId} :
      m.glance decl id step = some (.inherited base) → PartAsks decl step (depth + 1) id base
  | later {depth : Nat} {id base last other : NodeId} :
      m.glance decl id step = some (.inherited base) → m.EndsAt base last →
      PartAsks decl step depth last other → PartAsks decl step (depth + 1) id other

def PathAsks : List PathStep → NodeId → TypeKey → NodeId → Prop
  | [], _, _, _ => False
  | step :: path, id, type, other =>
    other = id ∨ ∃ last t decl, m.EndsAt id last ∧ m.view last = some t ∧ m.env.entrance t.form last type = .inr decl ∧
      (m.PartAsks decl step m.walk last other ∨
        ∃ part partType, m.PartAt m.EndsAt decl step m.walk last (.found part partType) ∧
          PathAsks path part partType other)

/-- To find the end of the first chain, that of the second has to be found. -/
def Asks (id other : NodeId) : Prop :=
  ∃ t r definition template type, m.view id = some t ∧ t.form = .referenced r none ∧
    m.env.definitions.target? r = some definition ∧ definition.kind.template? = some template ∧
    definition.type = some type ∧ r.args = none ∧
    (m.PathAsks r.path template.body type other ∨
      ∃ partType, m.Narrows m.EndsAt r.path template.body type (.found other partType))

section Ends

variable {m} {length : Nat} {decl : TypeDecl} {step : PathStep} {path : List PathStep} {last : NodeId} {p : Part}

theorem EndsWithin.at (h : m.EndsWithin length id last) : m.EndsAt id last := ⟨length, h⟩

theorem endsAt_unique (id a b : NodeId) (ha : m.EndsAt id a) (hb : m.EndsAt id b) : a = b := ha.eq hb

theorem PartAsks.exists_end (h : m.PartAsks decl step depth id other)
    (hPart : m.PartAt (m.EndsWithin length) decl step depth id p) : ∃ last, m.EndsWithin length other last := by
  induction h with
  | here hGlance =>
    cases hPart with
    | here hGlance' => cases hGlance.symm.trans hGlance'
    | inherited hGlance' hBase =>
      cases hGlance.symm.trans hGlance'
      exact ⟨_, hBase⟩
  | later hGlance hBase _ ih =>
    cases hPart with
    | here hGlance' => cases hGlance.symm.trans hGlance'
    | inherited hGlance' hBase' hRest =>
      cases hGlance.symm.trans hGlance'
      exact ih (hBase'.at.eq hBase ▸ hRest)

theorem PathAsks.exists_end (h : m.PathAsks path id type other)
    (hNarrows : m.Narrows (m.EndsWithin length) path id type p) : ∃ last, m.EndsWithin length other last := by
  induction path generalizing id type with
  | nil => exact h.elim
  | cons step path ih =>
    obtain ⟨last, t, hLast, hView, hRest⟩ := hNarrows
    obtain rfl | ⟨last', t', decl, hLast', hView', hEntrance, hLater⟩ := h
    · exact ⟨last, hLast⟩
    obtain rfl := hLast.at.eq hLast'
    cases hView.symm.trans hView'
    simp only [hEntrance] at hRest
    obtain ⟨q, hPart, hRest⟩ := hRest
    obtain hAsks | ⟨part, partType, hPart', hAsks⟩ := hLater
    · exact hAsks.exists_end hPart
    · have hSame : m.PartAt m.EndsAt decl step m.walk last q := hPart.mono fun _ _ => EndsWithin.at
      obtain rfl := hSame.eq endsAt_unique hPart'
      exact ih hAsks hRest

theorem Asks.exists_end (h : m.Asks id other) (hEnd : m.EndsWithin (length + 1) id last) :
    ∃ last, m.EndsWithin length other last := by
  obtain ⟨t, r, definition, template, type, hView, hForm, hTarget, hTemplate, hType, hArgs, hAsks⟩ := h
  obtain ⟨t', hView', hLeaves⟩ := hEnd
  cases hView.symm.trans hView'
  simp only [hForm, Leaves, hTarget, hTemplate, hType, hArgs] at hLeaves
  obtain ⟨p, hNarrows, hArrives⟩ := hLeaves
  obtain hAsks | ⟨partType, hFound⟩ := hAsks
  · exact hAsks.exists_end hNarrows
  · have hSame : m.Narrows m.EndsAt r.path template.body type p := hNarrows.mono fun _ _ => EndsWithin.at
    obtain rfl := hSame.eq endsAt_unique hFound
    exact ⟨last, hArrives⟩

theorem exists_shorter_of_transGen (h : TransGen m.Asks id other) (hEnd : m.EndsWithin length id last) :
    ∃ shorter last, shorter < length ∧ m.EndsWithin shorter other last := by
  induction h using TransGen.head_induction_on generalizing length last with
  | single hAsks =>
    obtain ⟨length, rfl⟩ : ∃ n, length = n + 1 := Nat.exists_eq_succ_of_ne_zero (by rintro rfl; exact hEnd)
    obtain ⟨last, hLast⟩ := hAsks.exists_end hEnd
    exact ⟨length, last, Nat.lt_succ_self length, hLast⟩
  | head hAsks _ ih =>
    obtain ⟨length, rfl⟩ : ∃ n, length = n + 1 := Nat.exists_eq_succ_of_ne_zero (by rintro rfl; exact hEnd)
    obtain ⟨last, hLast⟩ := hAsks.exists_end hEnd
    obtain ⟨shorter, last', hShorter, hLast'⟩ := ih hLast
    exact ⟨shorter, last', by omega, hLast'⟩

theorem not_endsAt_of_cycle (h : TransGen m.Asks id id) : ¬ m.EndsAt id last := by
  rintro ⟨length, hEnd⟩
  induction length using Nat.strong_induction_on generalizing last with
  | h length ih =>
    obtain ⟨shorter, last', hShorter, hEnd'⟩ := exists_shorter_of_transGen h hEnd
    exact ih shorter hShorter hEnd'

end Ends

end Reading

/-- Whenever the computation ends with a result, a circular chain has been reported and the node has been given up. -/
structure Catches (env : Env) (s : Store) (id : NodeId) {α : Type} (x : CheckM α) : Prop where
  post : ∀ report a after, (x env).run ⟨s, report⟩ = (.ok a, after) →
    (∃ found, after.report.diagnostics = report.diagnostics ++ found ∧ ∃ d ∈ found, d.finding.isCircular) ∧
      ∃ t, after.store.get? id = some t ∧ t.form = .erroneous

variable {t : Template}

theorem reports_reject {env : Env} {context : List Context}
    (hNode : s.get? id = some t) (p : Problem) : Reports env s context (reject id p) fun _ s' found =>
      found = [⟨.error p, t.span, context⟩] ∧ s' = s.update id fun t => { t with form := .erroneous } := by
  apply (Reports.problemAt hNode p).bind
  rintro _ _ _ ⟨rfl, rfl⟩
  apply (Reports.of_attains (.giveUp hNode)).mono
  rintro _ _ _ ⟨rfl, rfl⟩
  exact ⟨rfl, rfl⟩

namespace Catches

variable {α β : Type} {env : Env} {x : CheckM α} {f : α → CheckM β}

theorem bind (h : Catches env s id x) : Catches env s id (x >>= f) := by
  constructor
  intro report b after hRun
  obtain ⟨a, middle, hFirst, hNext⟩ := of_run_bind_ok hRun
  have hEvolves := evolves_of_run hNext
  obtain ⟨⟨found, hFound, hCircular⟩, t, hNode, hForm⟩ := h.post report a middle hFirst
  obtain ⟨more, hMore, -⟩ := hEvolves.report.added
  obtain ⟨t', hNode', hKept⟩ := hEvolves.store id t hNode
  constructor
  · obtain ⟨d, hd, hIs⟩ := hCircular
    refine ⟨found ++ more, ?_, d, mem_append_left _ hd, hIs⟩
    rw [← append_assoc, ← hFound]
    exact hMore
  · exact ⟨t', hNode', (hForm ▸ hKept.form).eq_erroneous⟩

theorem returns {quiet : Bool} (h : Catches env s id x) :
    Returns quiet env s x fun _ s' => ∃ t, s'.get? id = some t ∧ t.form = .erroneous :=
  ⟨fun report a after hRun _ => (h.post report a after hRun).2⟩

theorem after {R : α → Store → Prop} (hx : Attains true env s x R)
    (hf : ∀ a s', R a s' → Catches env s' id (f a)) : Catches env s id (x >>= f) := by
  constructor
  intro report b final hRun
  obtain ⟨a, ⟨s', report'⟩, hFirst, hReport, hResult⟩ := hx.run report
  obtain rfl : report' = report := hReport rfl
  rw [run_bind_ok f hFirst] at hRun
  exact (hf a s' hResult).post report' b final hRun

theorem read_then {f : Env → CheckM β} (h : Catches env s id (f env)) : Catches env s id (read >>= f) := ⟨h.post⟩

theorem store_then {f : Store → CheckM β} (h : Catches env s id (f s)) : Catches env s id (currentStore >>= f) :=
  ⟨h.post⟩

theorem formOf_then {f : Form → CheckM β} (hNode : s.get? other = some t)
    (h : Catches env s id (f t.form)) : Catches env s id (formOf other >>= f) := by
  constructor
  intro report b after hRun
  rw [run_bind_ok f (run_formOf hNode)] at hRun
  exact h.post report b after hRun

theorem reject (hNode : s.get? id = some t) (names : List String) :
    Catches env s id (reject id (.circularReference names)) := by
  constructor
  intro report a final hRun
  obtain ⟨_, _, found, hRun', hFound, rfl, hStore⟩ :=
    (reports_reject hNode (.circularReference names)).run report rfl
  cases hRun.symm.trans hRun'
  exact ⟨⟨_, hFound, _, mem_singleton_self _, rfl⟩, _, hStore ▸ Store.get?_update_some hNode _, rfl⟩

end Catches

namespace Reading

variable {m : Reading} {goal : NodeId}

section Asked

variable {I : Store → Prop} {resolve : NodeId → CheckM NodeId} (hI : ∀ s, I s → m.Agrees s)
  (hResolve : m.Finds I m.EndsAt resolve) (hAsked : ∀ s, I s → Catches m.env s goal (resolve other)) {span : Span}

include hI hResolve hAsked

theorem PartAsks.catches {decl : TypeDecl} {step : PathStep} {depth' : Nat}
    (h : m.PartAsks decl step depth id other) (hLe : depth ≤ depth') (hs : I s) :
    Catches m.env s goal (partAt resolve decl span depth' id step) := by
  induction h generalizing depth' s with
  | here hGlance =>
    obtain ⟨depth', rfl⟩ := Nat.exists_eq_add_one.2 (Nat.zero_lt_of_lt hLe)
    constructor
    intro report a after hRun
    rw [run_partAt ((hI s hs).glance hGlance)] at hRun
    exact (hAsked s hs).bind.post report a after hRun
  | later hGlance hBase _ ih =>
    obtain ⟨depth', rfl⟩ := Nat.exists_eq_add_one.2 (Nat.zero_lt_of_lt hLe)
    constructor
    intro report a after hRun
    rw [run_partAt ((hI s hs).glance hGlance)] at hRun
    refine (Catches.after (hResolve s _ _ hs hBase) ?_).post report a after hRun
    rintro _ s' ⟨rfl, hs'⟩
    exact ih hAsked (by omega) hs'

theorem PathAsks.catches {path : List PathStep} (h : m.PathAsks path id type other) (hLe : m.walk ≤ depth) (hs : I s) :
    Catches m.env s goal (narrow resolve span depth path id type) := by
  induction path generalizing id type s with
  | nil => exact h.elim
  | cons step path ih =>
    rw [narrow_cons]
    obtain rfl | ⟨last, t, decl, hLast, hView, hEntrance, hLater⟩ := h
    · exact (hAsked s hs).bind
    apply Catches.after (hResolve s _ _ hs hLast)
    rintro _ s' ⟨rfl, hs'⟩
    obtain ⟨t', hFound, hFollowed⟩ := (hI s' hs').nodes _ t hView
    apply Catches.formOf_then hFound
    apply Catches.read_then
    rw [← Env.entrance_uncached, hFollowed.uncached.1, Env.entrance_uncached, hEntrance]
    obtain hAsks | ⟨part, partType, hPart, hAsks⟩ := hLater
    · exact (hAsks.catches hI hResolve hAsked hLe hs').bind
    · apply Catches.after (attains_part hI hResolve hPart hLe hs')
      rintro _ s'' ⟨rfl, hs''⟩
      exact ih hAsks hs''

end Asked

variable {chain : ReferenceChain}

/-- The chain leads from the node to the goal and visits nodes that are not on it yet. -/
theorem catches_chainEnd {I : Store → Prop} (hI : ∀ s, I s → m.Agrees s)
    {resolve : ReferenceChain → NodeId → CheckM NodeId} {longer : ReferenceChain} {r : Reference}
    (hLonger : chain.add? id r.text = some longer) (hResolve : m.Finds I m.EndsAt (resolve longer))
    (hAsked : ∀ s, I s → Catches m.env s goal (resolve longer other)) {body : NodeId}
    (hAsks : m.PathAsks r.path body type other ∨
      ∃ partType, m.Narrows m.EndsAt r.path body type (.found other partType)) (hs : I s) :
    Catches m.env s goal (chainEnd resolve chain id r body type) := by
  unfold chainEnd
  rw [hLonger]
  apply Catches.store_then
  obtain hAsks | ⟨partType, hNarrows⟩ := hAsks
  · exact (hAsks.catches hI hResolve hAsked (hI s hs).room hs).bind
  · apply Catches.after (attains_narrow hI hResolve hNarrows (hI s hs).room hs)
    rintro _ s' ⟨rfl, hs'⟩
    exact hAsked s' hs'

/-- A node that asks for another one passes on what is caught there. No node on the way here has an end. -/
theorem Asks.catches (h : m.Asks id other) (hOpen : ∀ last, ¬ m.EndsAt id last)
    (hs : m.Agrees s) (hChain : OnChain chain s) (hNew : ∀ entry ∈ chain.entries, entry.1 ≠ id)
    (hUnended : ∀ entry ∈ chain.entries, ∀ last, ¬ m.EndsAt entry.1 last)
    (hDepth : s.size < depth + 1 + chain.entries.length)
    (hAsked : ∀ longer s', (∃ name, longer.entries = chain.entries ++ [(id, name)]) → m.Learns s s' →
      OnChain longer s' → Catches m.env s' goal (lastWithin depth longer other)) :
    Catches m.env s goal (lastWithin (depth + 1) chain id) := by
  obtain ⟨t, r, definition, template, type, hView, hForm, hTarget, hTemplate, hType, hArgs, hAsks⟩ := h
  obtain ⟨t', hFound, hFollowed⟩ := hs.nodes id t hView
  obtain ⟨longer, hAdd, hEntries, hOnChain⟩ := exists_longer hChain (Store.has_of_get? hFound) hNew r.text
  have hFinds : m.Finds (m.Learns s) m.EndsAt (lastWithin depth longer) := by
    apply hOnChain.finds
    · rw [hEntries, forall_mem_append]
      exact ⟨hUnended, by simpa using hOpen⟩
    · rw [hEntries, length_append, length_singleton]
      omega
  rw [lastWithin]
  apply Catches.formOf_then hFound
  cases hFollowed with
  | known _ _ hKnown => exact absurd hKnown (hOpen _)
  | same marks =>
    simp only [hForm]
    apply Catches.read_then
    simp only [hTarget, hTemplate, hType, hArgs]
    apply Catches.bind
    apply catches_chainEnd (fun _ h => h.agrees) hAdd hFinds _ hAsks hs.learns
    intro s' hs'
    exact hAsked longer s' ⟨r.text, hEntries⟩ hs' (hOnChain.of_size_eq hs'.size_eq)

theorem Asks.catches_closing (h : m.Asks goal other) (hOpen : ∀ last, ¬ m.EndsAt goal last) (hs : m.Agrees s)
    (hOn : ∃ entry ∈ chain.entries, entry.1 = goal) :
    Catches m.env s goal (lastWithin (depth + 1) chain goal) := by
  obtain ⟨t, r, definition, template, type, hView, hForm, hTarget, hTemplate, hType, hArgs, -⟩ := h
  obtain ⟨t', hFound, hFollowed⟩ := hs.nodes goal t hView
  have hClosed : chain.add? goal r.text = none := ReferenceChain.add?_of_mem (mem_map.2 hOn) _
  rw [lastWithin]
  apply Catches.formOf_then hFound
  cases hFollowed with
  | known _ _ hKnown => exact absurd hKnown (hOpen _)
  | same marks =>
    simp only [hForm]
    apply Catches.read_then
    simp only [hTarget, hTemplate, hType, hArgs, chainEnd, hClosed]
    exact (Catches.reject hFound _).bind.bind

/-- The chain leads from the node to the goal, which is on it already, through nodes that are not. -/
theorem catches_path {path : List NodeId} (hPath : (id :: path).IsChain m.Asks)
    (hGoal : (id :: path).getLast (cons_ne_nil id path) = goal) (hNodup : (id :: path).Nodup)
    (hAsks : m.Asks goal other) (hOpen : ∀ n, ReflTransGen m.Asks n goal → ∀ last, ¬ m.EndsAt n last) (hs : m.Agrees s)
    (hChain : OnChain chain s)
    (hOn : ∃ entry ∈ chain.entries, entry.1 = goal)
    (hSeen : ∀ entry ∈ chain.entries, entry.1 ∈ id :: path → entry.1 = goal)
    (hUnended : ∀ entry ∈ chain.entries, ∀ last, ¬ m.EndsAt entry.1 last)
    (hDepth : s.size < depth + chain.entries.length) : Catches m.env s goal (lastWithin depth chain id) := by
  induction path generalizing id chain s depth with
  | nil =>
    obtain rfl : id = goal := hGoal
    obtain ⟨depth, rfl⟩ := Nat.exists_eq_succ_of_ne_zero (show depth ≠ 0 by have := hChain.length_le; omega)
    exact hAsks.catches_closing (hOpen id .refl) hs hOn
  | cons next path ih =>
    have hReach := relationReflTransGen_of_exists_isChain_cons _ hPath hGoal
    rw [getLast_cons (cons_ne_nil next path)] at hGoal
    obtain ⟨hStep, hRest⟩ := isChain_cons_cons.1 hPath
    obtain ⟨hNotIn, hNodup⟩ := nodup_cons.1 hNodup
    have hNe : id ≠ goal := by
      rintro rfl
      exact hNotIn (hGoal ▸ getLast_mem (cons_ne_nil next path))
    have hNew : ∀ entry ∈ chain.entries, entry.1 ≠ id := by
      rintro entry hMem rfl
      exact hNe (hSeen entry hMem mem_cons_self)
    obtain ⟨depth, rfl⟩ := Nat.exists_eq_succ_of_ne_zero (show depth ≠ 0 by have := hChain.length_le; omega)
    apply hStep.catches (hOpen id hReach) hs hChain hNew hUnended hDepth
    rintro longer s' ⟨name, hEntries⟩ hs' hOnChain
    apply ih hRest hGoal hNodup hs'.agrees hOnChain
    · obtain ⟨entry, hMem, hEq⟩ := hOn
      exact ⟨entry, hEntries ▸ mem_append_left _ hMem, hEq⟩
    · intro entry hMem hIn
      rw [hEntries, mem_append, mem_singleton] at hMem
      obtain hMem | rfl := hMem
      · exact hSeen entry hMem (mem_cons_of_mem id hIn)
      · exact absurd hIn hNotIn
    · rw [hEntries, forall_mem_append]
      exact ⟨hUnended, by simpa using hOpen id hReach⟩
    · rw [hEntries, length_append, length_singleton, hs'.size_eq]
      omega

theorem catches_lastTemplate (h : TransGen m.Asks goal goal) (hs : m.Agrees s) :
    Catches m.env s goal (lastTemplate goal) := by
  have hOpen : ∀ n, ReflTransGen m.Asks n goal → ∀ last, ¬ m.EndsAt n last := by
    rintro n hReach last ⟨length, hEnd⟩
    obtain ⟨_, last', -, hEnd'⟩ := exists_shorter_of_transGen (TransGen.trans_right hReach h) hEnd
    exact not_endsAt_of_cycle h hEnd'.at
  obtain ⟨next, hAsks, hBack⟩ := TransGen.head'_iff.1 h
  obtain ⟨path, hPath, hGoal, hNodup⟩ := exists_nodup_path hBack
  apply Catches.store_then
  apply hAsks.catches (hOpen goal .refl) hs ⟨by simp, by simp⟩ (by simp) (by simp) (by simp)
  rintro longer s' ⟨name, hEntries⟩ hs' hOnChain
  rw [nil_append] at hEntries
  apply catches_path hPath hGoal hNodup hAsks hOpen hs'.agrees hOnChain
  · exact ⟨_, hEntries ▸ mem_singleton_self _, rfl⟩
  · simp [hEntries]
  · simpa [hEntries] using hOpen goal .refl
  · rw [hEntries, length_singleton, hs'.size_eq]
    omega

end Reading

end TemplateCheck
