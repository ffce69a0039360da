import TemplateCheck.Proofs.Results
import TemplateCheck.Proofs.Stepwise.Check

/-!
# Findings about the size of an array

The number of elements of an array is compared once with its size. No other part of a check says anything about it in
the same contexts: splicing and following references report other problems, and whatever is found in an element lies
in a context of its own.
-/

namespace TemplateCheck

open List

/-- What was found about something in exactly these contexts. -/
def levelFindings (about : Finding → Bool) (context : List Context) (found : List Diagnostic) : List Diagnostic :=
  found.filter fun d => d.context = context && about d.finding

abbrev sizeFindings (context : List Context) (found : List Diagnostic) : List Diagnostic :=
  levelFindings Finding.comparesSize context found

theorem levelFindings_append (about : Finding → Bool) (context : List Context) (found more : List Diagnostic) :
    levelFindings about context (found ++ more) =
      levelFindings about context found ++ levelFindings about context more :=
  filter_append found more

/-- Neither splicing nor an ordinary remark has anything to say about it. -/
structure Finding.Special (about : Finding → Bool) : Prop where
  splicing : ∀ p : Problem, p.ofSplicing → about (.error p) = false
  ordinary : ∀ finding : Finding, finding.isOrdinary → about finding = false

theorem Finding.special_comparesSize : Finding.Special Finding.comparesSize where
  splicing p hp := by cases p <;> first | rfl | cases hp
  ordinary _ := Finding.comparesSize_of_isOrdinary

section Silent

variable {α β : Type} {about : Finding → Bool}

/-- Nothing is said about something, unless further inside. -/
def Silent (about : Finding → Bool) (x : CheckM α) : Prop := ∀ env st, ∃ found,
  ((x env).run st).2.report.diagnostics = st.report.diagnostics ++ found ∧
    levelFindings about st.report.context found = []

namespace Silent

variable {x : CheckM α} {f : α → CheckM β} {id : NodeId} {p : Problem} {xs : List α}

theorem of_quiet (h : ∀ env st, ((x env).run st).2.report = st.report) : Silent about x := by
  intro env st
  exact ⟨[], by rw [h env st, append_nil], rfl⟩

theorem pure (a : α) : Silent about (pure a : CheckM α) := of_quiet fun _ _ => rfl

theorem throw (fault : Fault) : Silent about (throw fault : CheckM α) := of_quiet fun _ _ => rfl

theorem read : Silent about (read : CheckM Env) := of_quiet fun _ _ => rfl

theorem currentStore : Silent about currentStore := of_quiet fun _ _ => rfl

theorem onStore (x : StoreM α) : Silent about (onStore x) := of_quiet fun _ _ => rfl

theorem bind (hx : Silent about x) (hf : ∀ a, Silent about (f a)) : Silent about (x >>= f) := by
  intro env st
  obtain ⟨found, hFound, hNone⟩ := hx env st
  have hContext := ((x env).along st).report.context
  rcases hRun : (x env).run st with ⟨fault | a, middle⟩
  · rw [run_bind_error f hRun]
    rw [hRun] at hFound
    exact ⟨found, hFound, hNone⟩
  · rw [run_bind_ok f hRun]
    rw [hRun] at hFound hContext
    obtain ⟨more, hMore, hNone'⟩ := hf a env middle
    refine ⟨found ++ more, by rw [hMore, hFound, List.append_assoc], ?_⟩
    rw [levelFindings_append, hNone, ← hContext, hNone', append_nil]

theorem inside (c : Context) (x : CheckM α) : Silent about (inside c x) := by
  intro env st
  obtain ⟨found, hFound, hOpen, -⟩ := ((x env).along ⟨st.store, st.report.enter c⟩).report.added
  refine ⟨found, hFound, filter_eq_nil_iff.2 fun d hd => ?_⟩
  have hLength := (hOpen d hd).length_le
  simp only [Report.enter, length_append, length_singleton] at hLength
  have hNe : d.context ≠ st.report.context := by
    intro hEq
    rw [hEq] at hLength
    omega
  simp [hNe]

theorem tell {span : Span} {finding : Finding} (h : about finding = false) : Silent about (tell span finding) := by
  intro env st
  exact ⟨[⟨finding, span, st.report.context⟩], rfl, by simp [levelFindings, h]⟩

theorem node (id : NodeId) : Silent about (node id) := onStore _

theorem formOf (id : NodeId) : Silent about (formOf id) := (node id).bind fun _ => pure _

theorem isErroneous (id : NodeId) : Silent about (isErroneous id) := (formOf id).bind fun _ => pure _

theorem mark (id : NodeId) (m : Mark) : Silent about (mark id m) := onStore _

theorem govern (id : NodeId) (type : TypeKey) : Silent about (govern id type) := onStore _

theorem replaceForm (id : NodeId) (form : Form) : Silent about (replaceForm id form) := (onStore _).bind fun _ => pure _

theorem problemAt (h : about (.error p) = false) : Silent about (problemAt id p) :=
  (node id).bind fun _ => tell h

theorem reject (h : about (.error p) = false) : Silent about (reject id p) :=
  (problemAt h).bind fun _ => replaceForm id .erroneous

theorem ite {c : Prop} [Decidable c] {y : CheckM α} (hx : Silent about x) (hy : Silent about y) :
    Silent about (if c then x else y) := by
  split
  · exact hx
  · exact hy

theorem optionForM {o : Option α} {f : α → CheckM Unit} (hf : ∀ a, Silent about (f a)) : Silent about (o.forM f) := by
  cases o with
  | none => exact pure ()
  | some a => exact hf a

theorem foldlM {f : β → α → CheckM β} {b : β} (hf : ∀ b a, Silent about (f b a)) : Silent about (xs.foldlM f b) := by
  induction xs generalizing b with
  | nil => exact pure b
  | cons a xs ih =>
    rw [foldlM_cons]
    exact (hf b a).bind fun _ => ih

theorem checkAny {check : α → CheckM Bool} (h : ∀ a, Silent about (check a)) : Silent about (checkAny check xs) :=
  foldlM fun _ a => (h a).bind fun _ => pure _

theorem ofExcept (result : Except Fault α) : Silent about (MonadExcept.ofExcept result : CheckM α) := by
  cases result with
  | error fault => exact throw fault
  | ok a => exact pure a

variable (hAbout : Finding.Special about)

include hAbout

theorem stepwise : Stepwise (fun _ => True) fun {_} (x : Unit → CheckM _) => Silent about (x ()) where
  pure a := .pure a
  bind hx hf := hx.bind hf
  read_then hf := read.bind fun env => hf env trivial
  node id := .node id
  problem _ p hp := tell (hAbout.splicing p hp)

theorem chainEnd {resolve : ReferenceChain → NodeId → CheckM NodeId}
    (hResolve : ∀ chain id, Silent about (resolve chain id)) (chain : ReferenceChain) (id : NodeId) (r : Reference)
    (body : NodeId) (type : TypeKey) : Silent about (chainEnd resolve chain id r body type) := by
  unfold TemplateCheck.chainEnd
  split
  · apply currentStore.bind
    intro store
    apply bind ((stepwise hAbout).narrow (throw _) (hResolve _) _ _ _ _ _)
    intro part
    split
    · exact hResolve _ _
    · exact pure _
    · exact (replaceForm _ _).bind fun _ => pure _
  · exact (reject (hAbout.splicing _ rfl)).bind fun _ => pure _

theorem lastWithin (depth : Nat) (chain : ReferenceChain) (id : NodeId) : Silent about (lastWithin depth chain id) := by
  induction depth generalizing chain id with
  | zero => exact throw _
  | succ depth ih =>
    apply (formOf id).bind
    intro form
    split
    · exact pure _
    · apply read.bind
      intro env
      split
      · split
        · apply (chainEnd hAbout ih _ _ _ _ _).bind
          intro last
          exact (onStore _).bind fun _ => (mark _ _).bind fun _ => pure _
        · exact (onStore _).bind fun _ => pure _
      · exact pure _
    · exact pure _

theorem lastTemplate (id : NodeId) : Silent about (lastTemplate id) :=
  currentStore.bind fun _ => lastWithin hAbout _ _ id

theorem unfolding : Unfolding (fun _ => True) fun {_} (x : Unit → CheckM _) => Silent about (x ()) where
  toStepwise := stepwise hAbout
  lastTemplate id := lastTemplate hAbout id
  deepCopy _ := onStore _
  alloc _ _ := onStore _
  giveUp id := replaceForm id _
  mark id m := .mark id m
  fill id _ _ := replaceForm id _
  settle _ _ := onStore _

theorem expandWithin (depth : Nat) (inPermutation : Bool) (active : List DefId) (items : List NodeId) :
    Silent about (expandWithin depth inPermutation active items) := by
  induction depth generalizing inPermutation active items with
  | zero => exact throw _
  | succ depth ih =>
    exact foldlM fun done item =>
      (unfolding hAbout).expandItem (e := fun _ => TemplateCheck.expandWithin depth) ih done item

theorem flattenWithin (depth : Nat) (id : NodeId) : Silent about (flattenWithin depth id) :=
  read.bind fun _ => (unfolding hAbout).expandNode (e := fun _ => TemplateCheck.expandWithin depth)
    (expandWithin hAbout depth) id

theorem follows : (Naming.plain Unit fun _ => True).Follows
    (Continues fun {_} (x : Unit → CheckM _) => Silent about (x ())) :=
  (stepwise hAbout).follows (fun _ finding h => tell (hAbout.ordinary finding h)) (lastTemplate hAbout) fun _ =>
    currentStore.bind fun _ => ofExcept _

theorem checkModifiers (governor : TypeKey) (site : Site) : Silent about (checkModifiers id governor site) :=
  (stepwise hAbout).run ((follows hAbout).checkModifiers trivial ((stepwise hAbout).agreed (.mark id _)) governor site)

theorem completeness (incomplete : Bool) (given : Form → Completeness) :
    Silent about (completeness id incomplete given) :=
  (stepwise hAbout).runViewed (by simp)
    ((follows hAbout).completeness trivial incomplete (fun _ _ _ _ _ _ => trivial) fun _ _ => by simp)

variable {check : ChildCheck} {g : ListType} {item : NodeId}

theorem checkPermutation (members : List NodeId) : Silent about (checkPermutation check g id item members) := by
  have hMembers : ∀ list, Silent about (checkMembers check g.element list members) :=
    fun _ => checkAny fun _ => (inside _ _).bind fun _ => pure _
  refine ite (((formOf item).bind fun _ => problemAt (hAbout.ordinary _ rfl)).bind fun _ => pure _)
    (ite ((problemAt (hAbout.ordinary _ rfl)).bind fun _ => pure _) ?_)
  exact (mark id _).bind fun _ => (govern item _).bind fun _ => hMembers _

theorem checkItem (permitted : Completeness) (position : Nat) :
    Silent about (checkItem check g id permitted item position) := by
  have hNotUsed : Silent about (checkNotUsed item position permitted) :=
    (stepwise hAbout).run ((follows hAbout).remarks trivial (remarks_checkNotUsed position permitted))
  have hElement : Silent about (checkElement check g permitted item position) := by
    unfold checkElement
    exact (optionForM fun _ => onStore _).bind fun _ => (inside _ _).bind fun _ => pure _
  apply (formOf item).bind
  intro form
  split
  · exact (checkPermutation hAbout _).bind fun _ => pure _
  · exact hNotUsed.bind fun _ => pure _
  · exact hElement.bind fun _ => pure _

end Silent

end Silent

end TemplateCheck
