import TemplateCheck.Proofs.Chains
import TemplateCheck.Proofs.Chains.Marks
import TemplateCheck.Proofs.Results

/-!
# Following chains of references

A run finds the end of every chain that has one, reports nothing on the way, and changes nothing but caches
and marks: it is never taken for circular, because the chains it meets on the way are shorter. Conversely
whatever a run finds without an error is the end of the chain. So the order in which chains are followed
does not matter, and neither do the caches that are filled.
-/

namespace TemplateCheck

open List Store

variable {s : Store} {decl : TypeDecl} {span : Span} {depth : Nat} {id : NodeId} {step : PathStep} {g : Glance}

section

variable {env : Env} {report : Report} {resolve : NodeId → CheckM NodeId} {Q : Part → Store → Prop}

/-- A step of a path goes on as the glance tells, unless a node is missing. -/
theorem run_partAt_cases (resolve : NodeId → CheckM NodeId) (decl : TypeDecl) (span : Span) (depth : Nat) (id : NodeId)
    (step : PathStep) (env : Env) (st : CheckState) :
    (∃ g, (st.store.reading env).glance decl id step = some g ∧
      (partAt resolve decl span (depth + 1) id step env).run st = (g.follow resolve decl span depth step env).run st) ∨
    (st.store.reading env).glance decl id step = none ∧ ∃ missing,
      (partAt resolve decl span (depth + 1) id step env).run st = (.error (.danglingTemplate missing), st) := by
  cases step with
  | field name =>
    rw [partAt, fieldPart_succ]
    obtain ⟨hNone, hFault⟩ | ⟨t, hNode, hRun⟩ := run_node_then env id (fun t =>
      (decl.glanceField name t.form t.base).follow resolve decl span depth (.field name)) st
    · exact .inr ⟨by simp only [Reading.glance, reading, hNone, Option.map_none], id, hFault⟩
    · exact .inl ⟨_, by simp only [Reading.glance, reading, hNode, Option.map_some], hRun⟩
  | index index =>
    rw [partAt, elementPart_succ, run_bind_ok _ (run_read env _)]
    simp only [Reading.glance, Reading.glanceElement, reading]
    cases decl.glanceIndex env.definitions index with
    | inl g => exact .inl ⟨g, rfl, rfl⟩
    | inr wanted =>
      cases hNode : st.store.get? id with
      | none => exact .inr ⟨rfl, id, run_bind_error _ (run_node_of_none hNode)⟩
      | some t =>
        simp only [run_bind_ok _ (run_node hNode), Option.bind_some]
        cases t.form.elements? with
        | none => exact .inl ⟨_, rfl, rfl⟩
        | some items =>
          simp only
          cases items[(decl.category.position wanted.2).toNat]? with
          | none => exact .inl ⟨_, rfl, rfl⟩
          | some item =>
            simp only [formOf_bind]
            cases hItem : st.store.get? item with
            | none => exact .inr ⟨rfl, item, run_bind_error _ (run_node_of_none hItem)⟩
            | some u => exact .inl ⟨_, rfl, run_bind_ok _ (run_node hItem)⟩

theorem run_partAt (hGlance : (s.reading env).glance decl id step = some g) :
    (partAt resolve decl span (depth + 1) id step env).run ⟨s, report⟩ =
      (g.follow resolve decl span depth step env).run ⟨s, report⟩ := by
  obtain ⟨g', hGlance', hRun⟩ | ⟨hNone, -⟩ := run_partAt_cases resolve decl span depth id step env ⟨s, report⟩
  · cases hGlance.symm.trans hGlance'
    exact hRun
  · cases hGlance.symm.trans hNone

theorem attains_partAt {quiet : Bool} (hGlance : (s.reading env).glance decl id step = some g)
    (h : Attains quiet env s (g.follow resolve decl span depth step) Q) :
    Attains quiet env s (partAt resolve decl span (depth + 1) id step) Q := by
  constructor
  intro report
  rw [run_partAt hGlance]
  exact h.run report

theorem concludes_partAt {K : Judgement} (h : ∀ g, (s.reading env).glance decl id step = some g →
      Concludes K env s (g.follow resolve decl span depth step) Q) :
    Concludes K env s (partAt resolve decl span (depth + 1) id step) Q := by
  constructor
  intro report p after hRun
  obtain ⟨g, hGlance, hEq⟩ | ⟨-, _, hFault⟩ := run_partAt_cases resolve decl span depth id step env ⟨s, report⟩
  · exact (h g hGlance).post report p after (hEq.symm.trans hRun)
  · cases hFault.symm.trans hRun

end

namespace Reading

variable {s' : Store}

/-- What following references makes of a node: it may learn the end of its chain. -/
inductive Followed (m : Reading) (id : NodeId) (t : Template) : Template → Prop where
  | same (marks : Marks) : Followed m id t { t with marks }
  | known {r : Reference} {last : NodeId} (marks : Marks) : t.form = .referenced r none →
      m.EndsAt id last → Followed m id t { t with form := .referenced r (some last), marks }

/-- The nodes of the reading are in the store as they were read, but for what has been followed. -/
structure Agrees (m : Reading) (s : Store) : Prop where
  room : m.walk ≤ s.size + 1
  nodes : ∀ id t, m.view id = some t → ∃ t', s.get? id = some t' ∧ m.Followed id t t'

structure Learns (m : Reading) (s s' : Store) : Prop where
  agrees : m.Agrees s'
  size_eq : s'.size = s.size
  unread : ∀ id, m.view id = none → s'.get? id = s.get? id

structure Matches (m : Reading) (s : Store) : Prop extends m.Agrees s where
  walk_eq : m.walk = s.size + 1
  covers : ∀ id, s.Has id → ∃ t, m.view id = some t

variable {m : Reading} {last body : NodeId} {t t' : Template} {f : Template → Template} {path : List PathStep}
  {type : TypeKey} {resolve : ReferenceChain → NodeId → CheckM NodeId}

theorem Followed.uncached (h : m.Followed id t t') : t'.form.uncached = t.form.uncached ∧ t'.base = t.base := by
  cases h with
  | same => exact ⟨rfl, rfl⟩
  | known _ hForm => rw [hForm]; exact ⟨rfl, rfl⟩

theorem Followed.mark (h : m.Followed id t t') (mark : Mark) : m.Followed id t (t'.mark mark) := by
  cases h with
  | same => exact .same _
  | known _ hForm hEnd => exact .known _ hForm hEnd

theorem Followed.remember {r : Reference} (h : m.Followed id t t') (hForm : t.form = .referenced r none)
    (hEnd : m.EndsAt id last) : m.Followed id t (t'.remember last) := by
  cases h with
  | same marks =>
    have hEq : ({ t with marks } : Template).remember last = { t with form := .referenced r (some last), marks } := by
      simp only [Template.remember, hForm]
    rw [hEq]
    exact .known _ hForm hEnd
  | known _ hForm' => exact .known _ hForm' hEnd

theorem matches_reading (s : Store) (env : Env) : (s.reading env).Matches s where
  room := Nat.le_refl _
  nodes _ t hNode := ⟨t, hNode, .same t.marks⟩
  walk_eq := rfl
  covers _ hHas := hHas.exists_get?

theorem Matches.of_get? (h : m.Matches s) (hFound : s.get? id = some t') :
    ∃ t, m.view id = some t ∧ m.Followed id t t' := by
  obtain ⟨t, hView⟩ := h.covers id (has_of_get? hFound)
  obtain ⟨u, hFound', hFollowed⟩ := h.nodes id t hView
  cases hFound.symm.trans hFound'
  exact ⟨t, hView, hFollowed⟩

theorem Matches.learns (h : m.Matches s) (hLearns : m.Learns s s') : m.Matches s' where
  toAgrees := hLearns.agrees
  walk_eq := by
    rw [hLearns.size_eq]
    exact h.walk_eq
  covers id hHas := by
    apply h.covers
    rwa [Has, ← hLearns.size_eq]

theorem Agrees.update (h : m.Agrees s)
    (hNode : ∀ t t', m.view id = some t → m.Followed id t t' → m.Followed id t (f t')) : m.Agrees (s.update id f) where
  room := by
    rw [size_update]
    exact h.room
  nodes other t hView := by
    obtain ⟨t', hFound, hFollowed⟩ := h.nodes other t hView
    by_cases hEq : other = id
    · subst hEq
      exact ⟨f t', by simp [hFound], hNode t t' hView hFollowed⟩
    · exact ⟨t', (get?_update_of_ne hEq).trans hFound, hFollowed⟩

theorem Agrees.learns (h : m.Agrees s) : m.Learns s s := ⟨h, rfl, fun _ _ => rfl⟩

theorem Learns.trans {s'' : Store} (h : m.Learns s s') (h' : m.Learns s' s'') : m.Learns s s'' where
  agrees := h'.agrees
  size_eq := h'.size_eq.trans h.size_eq
  unread id hView := (h'.unread id hView).trans (h.unread id hView)

theorem Agrees.learns_update (h : m.Agrees s) (hView : m.view id = some t)
    (hNode : ∀ t', m.Followed id t t' → m.Followed id t (f t')) : m.Learns s (s.update id f) where
  agrees := by
    apply h.update
    intro u u' hView' hFollowed
    cases hView.symm.trans hView'
    exact hNode u' hFollowed
  size_eq := size_update ..
  unread other hOther := by
    apply get?_update_of_ne
    rintro rfl
    cases hView.symm.trans hOther

theorem Agrees.glance (h : m.Agrees s)
    (hGlance : m.glance decl id step = some g) : (s.reading m.env).glance decl id step = some g := by
  refine glance_congr (K := fun _ => True) (by rfl) trivial ?_ (fun _ _ _ _ => trivial) hGlance
  intro id t _ hView
  obtain ⟨t', hFound, hFollowed⟩ := h.nodes id t hView
  exact ⟨t', hFound, hFollowed.uncached⟩

theorem Matches.glance (h : m.Matches s)
    (hGlance : (s.reading m.env).glance decl id step = some g) : m.glance decl id step = some g := by
  refine glance_congr (K := fun _ => True) (by rfl) trivial ?_ (fun _ _ _ _ => trivial) hGlance
  intro id t' _ hFound
  obtain ⟨t, hView, hFollowed⟩ := h.of_get? hFound
  exact ⟨t, hView, hFollowed.uncached.1.symm, hFollowed.uncached.2.symm⟩

section Complete

variable {I : Store → Prop} {ends : NodeId → NodeId → Prop} {resolve : NodeId → CheckM NodeId} {p : Part}

/-- `resolve` finds the ends that `ends` tells of, as long as the store has the property `I`. -/
def Finds (m : Reading) (I : Store → Prop) (ends : NodeId → NodeId → Prop) (resolve : NodeId → CheckM NodeId) : Prop :=
  ∀ s id last, I s → ends id last → Attains true m.env s (resolve id) fun last' s' => last' = last ∧ I s'

variable (hI : ∀ s, I s → m.Agrees s) (hResolve : m.Finds I ends resolve)

include hI hResolve

theorem attains_part {depth' : Nat} (hPart : m.PartAt ends decl step depth id p) (hLe : depth ≤ depth') (hs : I s) :
    Attains true m.env s (partAt resolve decl span depth' id step) fun p' s' => p' = p ∧ I s' := by
  induction hPart generalizing depth' s with
  | here hGlance =>
    obtain ⟨depth', rfl⟩ := Nat.exists_eq_add_one.2 (Nat.zero_lt_of_lt hLe)
    exact attains_partAt ((hI s hs).glance hGlance) (.pure ⟨rfl, hs⟩)
  | inherited hGlance hBase _ ih =>
    obtain ⟨depth', rfl⟩ := Nat.exists_eq_add_one.2 (Nat.zero_lt_of_lt hLe)
    apply attains_partAt ((hI s hs).glance hGlance)
    apply (hResolve s _ _ hs hBase).bind
    rintro _ s' ⟨rfl, hs'⟩
    exact ih (by omega) hs'

theorem attains_narrow (hNarrows : m.Narrows ends path id type p) (hLe : m.walk ≤ depth) (hs : I s) :
    Attains true m.env s (narrow resolve span depth path id type) fun p' s' => p' = p ∧ I s' := by
  induction path generalizing id type s with
  | nil => exact .pure ⟨hNarrows.symm, hs⟩
  | cons step path ih =>
    obtain ⟨last, t, hLast, hView, hRest⟩ := hNarrows
    rw [narrow_cons]
    apply (hResolve s _ _ hs hLast).bind
    rintro last s' ⟨rfl, hs'⟩
    obtain ⟨t', hFound, hFollowed⟩ := (hI s' hs').nodes _ t hView
    apply Attains.formOf_then hFound
    apply Attains.read_then
    rw [← Env.entrance_uncached, hFollowed.uncached.1, Env.entrance_uncached]
    cases hEntrance : m.env.entrance t.form last type with
    | inl q =>
      simp only [hEntrance] at hRest
      exact .pure ⟨hRest.symm, hs'⟩
    | inr decl =>
      simp only [hEntrance] at hRest
      obtain ⟨q, hPart, hRest⟩ := hRest
      apply (attains_part hI hResolve hPart hLe hs').bind
      rintro q s'' ⟨rfl, hs''⟩
      cases q with
      | found part partType => exact ih hRest hs''
      | unknown | invalid => exact .pure ⟨hRest.symm, hs''⟩

end Complete

variable {r : Reference} {chain longer : ReferenceChain}

structure OnChain (chain : ReferenceChain) (s : Store) : Prop where
  nodup : (chain.entries.map (·.1)).Nodup
  has : ∀ entry ∈ chain.entries, s.Has entry.1

theorem OnChain.length_le (h : OnChain chain s) : chain.entries.length ≤ s.size := by
  rw [← length_map (·.1)]
  apply length_le_size h.nodup
  intro id hMem
  obtain ⟨entry, hEntry, rfl⟩ := mem_map.1 hMem
  exact h.has entry hEntry

theorem OnChain.of_size_eq (h : OnChain chain s) (hSize : s'.size = s.size) : OnChain chain s' := by
  refine ⟨h.nodup, fun entry hMem => ?_⟩
  rw [Has, hSize]
  exact h.has entry hMem

theorem OnChain.add {name : String} (h : OnChain chain s) (hHas : s.Has id) (hAdd : chain.add? id name = some longer) :
    longer.entries = chain.entries ++ [(id, name)] ∧ OnChain longer s := by
  obtain ⟨hNew, rfl⟩ := ReferenceChain.add?_eq_some_iff.1 hAdd
  refine ⟨rfl, ?_, forall_mem_append.2 ⟨h.has, by simpa using hHas⟩⟩
  simpa [ReferenceChain.nodes] using h.nodup.concat hNew

theorem exists_longer (h : OnChain chain s) (hHas : s.Has id)
    (hNew : ∀ entry ∈ chain.entries, entry.1 ≠ id) (name : String) :
    ∃ longer, chain.add? id name = some longer ∧ longer.entries = chain.entries ++ [(id, name)] ∧ OnChain longer s := by
  have hNotMem : id ∉ chain.nodes := by simpa [ReferenceChain.nodes] using fun name hMem => hNew (id, name) hMem rfl
  have hAdd := ReferenceChain.add?_of_notMem hNotMem name
  exact ⟨_, hAdd, h.add hHas hAdd⟩

theorem attains_rememberLast (hs : m.Agrees s) (hView : m.view id = some t)
    (hForm : t.form = .referenced r none) (hEnd : m.EndsAt id last) :
    Attains true m.env s (rememberLast id last) fun _ => m.Learns s := by
  obtain ⟨t', hFound, -⟩ := hs.nodes id t hView
  apply (Attains.modifyNode hFound).mono
  rintro _ _ rfl
  exact hs.learns_update hView fun _ hFollowed => hFollowed.remember hForm hEnd

theorem attains_mark (hs : m.Agrees s) (hView : m.view id = some t) (flag : Mark) :
    Attains true m.env s (mark id flag) fun _ => m.Learns s := by
  obtain ⟨t', hFound, -⟩ := hs.nodes id t hView
  apply (Attains.modifyNode hFound).mono
  rintro _ _ rfl
  exact hs.learns_update hView fun _ hFollowed => hFollowed.mark flag

theorem attains_chainEnd {I : Store → Prop} (hI : ∀ s, I s → m.Agrees s)
    {ends : NodeId → NodeId → Prop} (hLonger : chain.add? id r.text = some longer)
    (hResolve : m.Finds I ends (resolve longer)) {p : Part}
    (hNarrows : m.Narrows ends r.path body type p) (hArrives : Arrives ends id last p) (hs : I s) :
    Attains true m.env s (chainEnd resolve chain id r body type) fun last' s' => last' = last ∧ I s' := by
  unfold chainEnd
  rw [hLonger]
  apply Attains.store_then
  apply (attains_narrow hI hResolve hNarrows (hI s hs).room hs).bind
  rintro p s' ⟨rfl, hs'⟩
  cases p with
  | found part type => exact hResolve s' part last hs' hArrives
  | unknown => exact .pure ⟨hArrives.symm, hs'⟩
  | invalid => exact hArrives.elim

/-- Chains that have an end are followed to it. The chains of all nodes on the way here are longer. -/
theorem finds_lastWithin {length : Nat} (hChain : OnChain chain s)
    (hLonger : ∀ entry ∈ chain.entries, ∀ last, ¬ m.EndsWithin length entry.1 last)
    (hDepth : s.size < depth + chain.entries.length) :
    m.Finds (m.Learns s) (m.EndsWithin length) (lastWithin depth chain) := by
  induction length generalizing depth chain with
  | zero => exact fun _ _ _ _ hEnd => hEnd.elim
  | succ length ih =>
    intro s1 id last hs1 hEnd
    have hPrevious : ∀ entry ∈ chain.entries, ∀ last, ¬ m.EndsWithin length entry.1 last :=
      fun entry hMem last hShort => hLonger entry hMem last hShort.succ
    by_cases hShort : ∃ last', m.EndsWithin length id last'
    · obtain ⟨last', hShort⟩ := hShort
      obtain rfl := hShort.succ.eq hEnd
      exact ih hChain hPrevious hDepth s1 id _ hs1 hShort
    have hAt : m.EndsAt id last := ⟨_, hEnd⟩
    have hNew : ∀ entry ∈ chain.entries, entry.1 ≠ id := by
      rintro entry hMem rfl
      exact hLonger entry hMem last hEnd
    obtain ⟨t, hView, hLeaves⟩ := hEnd
    obtain ⟨t', hFound, hFollowed⟩ := hs1.agrees.nodes id t hView
    have hHas : s.Has id := by
      rw [Has, ← hs1.size_eq]
      exact has_of_get? hFound
    obtain ⟨depth, rfl⟩ : ∃ depth', depth = depth' + 1 :=
      Nat.exists_eq_succ_of_ne_zero (by have := hChain.length_le; omega)
    rw [lastWithin]
    apply Attains.formOf_then hFound
    cases hFollowed with
    | known _ _ hKnown => exact .pure ⟨hKnown.eq hAt, hs1⟩
    | same marks =>
      simp only
      cases hForm : t.form with
      | referenced r known =>
        rw [hForm] at hLeaves
        cases known with
        | some known => exact .pure ⟨Eq.symm hLeaves, hs1⟩
        | none =>
          apply Attains.read_then
          cases hTarget : m.env.definitions.target? r with
          | none =>
            simp only [Leaves, hTarget] at hLeaves
            exact .pure ⟨hLeaves.symm, hs1⟩
          | some definition =>
            simp only
            split
            · rename_i template type hTemplate hType hArgs
              simp only [Leaves, hTarget, hTemplate, hType, hArgs] at hLeaves
              obtain ⟨p, hNarrows, hArrives⟩ := hLeaves
              obtain ⟨longer, hAdd, hEntries, hOnChain⟩ := exists_longer hChain hHas hNew r.text
              have hFinds : m.Finds (m.Learns s) (m.EndsWithin length) (lastWithin depth longer) := by
                apply ih hOnChain
                · rw [hEntries, forall_mem_append]
                  exact ⟨hPrevious, by simpa using hShort⟩
                · rw [hEntries, length_append, length_singleton]
                  omega
              apply (attains_chainEnd (fun _ h => h.agrees) hAdd hFinds hNarrows hArrives hs1).bind
              rintro _ s2 ⟨rfl, hs2⟩
              apply (attains_rememberLast hs2.agrees hView hForm hAt).bind
              intro _ s3 hs3
              apply (attains_mark hs3.agrees hView .recursionsChecked).bind
              intro _ s4 hs4
              exact .pure ⟨rfl, (hs2.trans hs3).trans hs4⟩
            · simp only [Leaves, hTarget] at hLeaves
              subst hLeaves
              apply (attains_rememberLast hs1.agrees hView hForm hAt).bind
              rintro _ s2 hs2
              exact .pure ⟨rfl, hs1.trans hs2⟩
      | _ =>
        rw [hForm] at hLeaves
        exact .pure ⟨Eq.symm hLeaves, hs1⟩

theorem OnChain.finds (h : OnChain chain s) (hUnended : ∀ entry ∈ chain.entries, ∀ last, ¬ m.EndsAt entry.1 last)
    (hDepth : s.size < depth + chain.entries.length) : m.Finds (m.Learns s) m.EndsAt (lastWithin depth chain) := by
  rintro s' id last hs' ⟨length, hEnd⟩
  exact finds_lastWithin h (fun entry hMem last hEnd => hUnended entry hMem last ⟨length, hEnd⟩) hDepth s' id last hs'
    hEnd

theorem attains_lastTemplate (hEnd : m.EndsAt id last) (hs : m.Agrees s) :
    Attains true m.env s (lastTemplate id) fun last' s' => last' = last ∧ m.Learns s s' := by
  have hStart : OnChain ⟨"While searching for referenced template", [], []⟩ s := ⟨by simp, by simp⟩
  exact .store_then (hStart.finds (by simp) (by simp) s id last hs.learns hEnd)

section Sound

variable {resolve : NodeId → CheckM NodeId}

def Trusts (m : Reading) (resolve : NodeId → CheckM NodeId) : Prop :=
  ∀ s id, m.Matches s → Clean m.env s (resolve id) fun last s' => m.EndsAt id last ∧ m.Matches s'

variable (hResolve : m.Trusts resolve)

include hResolve

theorem clean_part (hs : m.Matches s) : Clean m.env s (partAt resolve decl span depth id step) fun p s' =>
      m.PartAt m.EndsAt decl step depth id p ∧ m.Matches s' := by
  induction depth generalizing id s with
  | zero => cases step <;> exact .throw _
  | succ depth ih =>
    apply concludes_partAt
    intro g hGlance
    replace hGlance := hs.glance hGlance
    cases g with
    | part p => exact .pure ⟨.here hGlance, hs⟩
    | lost fault => exact Clean.after_error (.problem _ _)
    | inherited base =>
      apply (hResolve s base hs).bind
      rintro last s' ⟨hBase, hs'⟩
      exact (ih hs').mono fun p s'' ⟨hPart, hs''⟩ => ⟨.inherited hGlance hBase hPart, hs''⟩

theorem clean_narrow (hs : m.Matches s) : Clean m.env s (narrow resolve span m.walk path id type) fun p s' =>
      m.Narrows m.EndsAt path id type p ∧ m.Matches s' := by
  induction path generalizing id type s with
  | nil => exact .pure ⟨rfl, hs⟩
  | cons step path ih =>
    rw [narrow_cons]
    apply (hResolve s id hs).bind
    rintro last s' ⟨hLast, hs'⟩
    apply Concludes.formOf_then
    intro t' hFound
    obtain ⟨t, hView, hFollowed⟩ := hs'.of_get? hFound
    apply Concludes.read_then
    rw [← Env.entrance_uncached, hFollowed.uncached.1, Env.entrance_uncached]
    cases hEntrance : m.env.entrance t.form last type with
    | inl p => exact .pure ⟨⟨last, t, hLast, hView, by simp [hEntrance]⟩, hs'⟩
    | inr decl =>
      apply (clean_part hResolve hs').bind
      rintro q s'' ⟨hPart, hs''⟩
      have hStep : ∀ p, Onward (m.Narrows m.EndsAt path) p q → m.Narrows m.EndsAt (step :: path) id type p := by
        intro p hRest
        refine ⟨last, t, hLast, hView, ?_⟩
        simp only [hEntrance]
        exact ⟨q, hPart, hRest⟩
      cases q with
      | found part partType => exact (ih hs'').mono fun p s3 ⟨hRest, hs3⟩ => ⟨hStep p hRest, hs3⟩
      | unknown | invalid => exact .pure ⟨hStep _ rfl, hs''⟩

end Sound

theorem clean_chainEnd (hResolve : ∀ chain, m.Trusts (resolve chain)) (hs : m.Matches s) : Clean m.env s
    (chainEnd resolve chain id r body type) fun last s' =>
      (∃ p, m.Narrows m.EndsAt r.path body type p ∧ Arrives m.EndsAt id last p) ∧ m.Matches s' := by
  unfold chainEnd
  split
  · rename_i longer hLonger
    apply Concludes.store_then
    rw [← hs.walk_eq]
    apply (clean_narrow (hResolve longer) hs).bind
    rintro p s' ⟨hNarrows, hs'⟩
    cases p with
    | found part type =>
      exact (hResolve longer s' part hs').mono fun last s'' ⟨hLast, hs''⟩ => ⟨⟨_, hNarrows, hLast⟩, hs''⟩
    | unknown => exact .pure ⟨⟨_, hNarrows, rfl⟩, hs'⟩
    | invalid => exact absurd rfl hNarrows.ne_invalid
  · exact Clean.after_error (.reject id _)

theorem trusts_lastWithin (depth : Nat) (chain : ReferenceChain) : m.Trusts (lastWithin depth chain) := by
  induction depth generalizing chain with
  | zero => exact fun _ _ _ => .throw _
  | succ depth ih =>
    intro s id hs
    rw [lastWithin]
    apply Concludes.formOf_then
    intro t' hFound
    obtain ⟨t, hView, hFollowed⟩ := hs.of_get? hFound
    cases hFollowed with
    | known _ _ hKnown => exact .pure ⟨hKnown, hs⟩
    | same marks =>
      have hEnd : ∀ last, m.Leaves m.EndsAt id last t.form → m.EndsAt id last :=
        fun last h => endsAt_iff.2 ⟨t, hView, h⟩
      simp only
      unfold Leaves at hEnd
      split
      · rename_i hForm
        exact .pure ⟨hEnd _ (by simp only [hForm]), hs⟩
      · rename_i r hForm
        simp only [hForm] at hEnd
        apply Concludes.read_then
        split
        · rename_i definition hTarget
          simp only [hTarget] at hEnd
          split
          · rename_i template type hTemplate hType hArgs
            simp only [hTemplate, hType, hArgs] at hEnd
            apply (clean_chainEnd ih hs).bind
            rintro last s1 ⟨hArrives, hs1⟩
            have hAt := hEnd last hArrives
            apply (Concludes.of_attains (attains_rememberLast hs1.toAgrees hView hForm hAt)).bind
            intro _ s2 hs2
            apply (Concludes.of_attains (attains_mark hs2.agrees hView .recursionsChecked)).bind
            intro _ s3 hs3
            exact .pure ⟨hAt, hs1.learns (hs2.trans hs3)⟩
          · rename_i hNotTemplate
            have hAt : m.EndsAt id id := by
              apply hEnd
              split
              · exact absurd ‹_› (hNotTemplate _ _ ‹_› ‹_›)
              · rfl
            apply (Concludes.of_attains (attains_rememberLast hs.toAgrees hView hForm hAt)).bind
            intro _ s' hs'
            exact .pure ⟨hAt, hs.learns hs'⟩
        · rename_i hTarget
          cases hDefined : m.env.definitions.target? r with
          | none => exact .pure ⟨hEnd id (by simp only [hDefined]), hs⟩
          | some definition => exact absurd hDefined (hTarget definition)
      · rename_i hKnown hUnknown
        refine .pure ⟨hEnd id ?_, hs⟩
        split
        · exact absurd ‹_› (hKnown _ _)
        · exact absurd ‹_› (hUnknown _)
        · rfl

theorem clean_lastTemplate (hs : m.Matches s) :
    Clean m.env s (lastTemplate id) fun last s' => m.EndsAt id last ∧ m.Matches s' :=
  .store_then (trusts_lastWithin _ _ s id hs)

end Reading

namespace Session

/-- What a run finds without reporting anything is the end of the chain. -/
theorem endsAt_of_lastTemplate {s : Session} {last : NodeId} (hLast : (s.lastTemplate id).1 = .ok last)
    (hReport : (s.lastTemplate id).2.report = s.report) : (s.store.reading s.env).EndsAt id last := by
  have hReturns : Returns true s.env s.store (TemplateCheck.lastTemplate id) _ :=
    .of_clean (Reading.clean_lastTemplate (Reading.matches_reading s.store s.env))
  have hSame : (s.lastTemplate id).2.report.errors = s.report.errors ∧
      (s.lastTemplate id).2.report.warnings = s.report.warnings := by
    rw [hReport]
    exact ⟨rfl, rfl⟩
  exact (of_run_of_returns hReturns hLast fun _ => hSame).1

end Session

end TemplateCheck
