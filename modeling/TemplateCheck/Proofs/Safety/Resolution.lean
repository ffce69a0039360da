import TemplateCheck.Proofs.Footprint

/-!
# Following references safely

From a well-formed store a reference chain ends at a node, or the walk is endless. On the way only
referenced templates change.
-/

namespace TemplateCheck

open List Store

variable {F : Allowance} {env : Env} {s : Store} {id : NodeId} {t : Template} {resolve : NodeId → CheckM NodeId}

section Secure

/-- The nodes below a bound, in computations with given settings. -/
def Naming.below (env : Env) (size : Nat) : Naming Unit :=
  ⟨(· = env), True, fun _ => True, fun id => id.index < size, fun _ n => n, fun _ _ h => h⟩

@[simp] theorem Naming.below_map (env : Env) (size : Nat) (i : Unit) : Naming.below env size i = fun n => n := rfl

/-- Moves that keep an invariant of backed stores and add no nodes. -/
structure Steady (b : Backing) (R : Store → Store → Prop) (I : Store → Prop) : Prop where
  keeps : ∀ {s s'}, I s → R s s' → I s'
  size_eq : ∀ {s s'}, R s s' → s'.size = s.size
  backed : ∀ {s}, I s → s.Backed b

/-- The computation runs safely from every store of that size of which the invariant holds. -/
def Secure (R : Store → Store → Prop) (F : Allowance) (env : Env) (I : Store → Prop) (size : Nat) {α β : Type}
    (x : Unit → CheckM α) (view : Unit → β → α) (ok : β → Prop) : Prop :=
  ∀ s, I s → s.size = size → Runs R F env s (x ()) fun a _ => ∃ b, ok b ∧ a = view () b

variable {R : Store → Store → Prop} {I : Store → Prop} {walks : Prop} {size : Nat}

theorem Form.isPlain_of_mem_mentions {form : Form} {r : Reference} (h : r ∈ form.mentions) : form.isPlain = false := by
  cases form with
  | specific value => cases value <;> first | rfl | cases h
  | referenced | decoded => rfl
  | _ => cases h

theorem Store.Backed.covers (h : s.Backed ⟨env.definitions, walks⟩) (hWalks : walks) (r : Reference) :
    (Naming.below env s.size).Covers r := by
  rintro _ definition template rfl hTarget hTemplate
  obtain ⟨target, -, hGet⟩ := Option.bind_eq_some_iff.1 hTarget
  exact ⟨h.bodies hWalks definition (mem_of_getElem? hGet) template hTemplate, fun _ => rfl⟩

theorem Store.Backed.shows (h : s.Backed ⟨env.definitions, walks⟩) (hFound : s.get? id = some t) :
    (Naming.below env s.size).Shows t fun _ => t where
  alike _ := .of_eq rfl
  holds.children _ := h.has_child hFound
  holds.mentions r hr := h.covers (h.refers hFound (by simp [Template.isPlain, Form.isPlain_of_mem_mentions hr])) r
  holds.target _ := by
    rintro _ r resolved rfl hForm
    exact h.references id t r hFound (by rw [hForm]; rfl)
  base _ := h.has_base hFound

theorem secure_tell [Course R] (span : Span) (finding : Finding) :
    Agreed (Secure R F env I size) fun _ => tell span finding :=
  fun _ _ _ => Quiet.runs (P := fun _ => True) (fun _ => ⟨(), _, rfl, trivial⟩) fun _ _ => ⟨(), trivial, rfl⟩

theorem Steady.reports [Course R] (h : Steady ⟨env.definitions, walks⟩ R I) (size : Nat) :
    (Naming.below env size).Reports (Secure R F env I size) where
  pure hb ha _ _ _ := .pure ⟨_, hb, ha ()⟩
  bind hx hf s hI hs := (hx s hI hs).bind fun _ s' hR ⟨b, hb, hEq⟩ =>
    hEq ▸ hf b hb s' (h.keeps hI hR) ((h.size_eq hR).trans hs)
  read_then hf s hI hs := quiet_read.bind_runs fun _ hEnv => hEnv ▸ hf env rfl s hI hs
  node_then hId hf s hI hs := by
    subst hs
    exact (quiet_node hId).bind_runs fun t hFound => hf t _ ((h.backed hI).shows hFound) s hI rfl
  mention span finding _ := secure_tell span finding
  tell := secure_tell

instance : Course fun s s' : Store => s' = s := ⟨fun _ => rfl, fun hFirst hSecond => hSecond.trans hFirst⟩

/-- The computation has a result for that store and leaves it alone. -/
abbrev Quietly (env : Env) (s : Store) {α β : Type} (x : Unit → CheckM α) (view : Unit → β → α) (ok : β → Prop) :
    Prop :=
  Secure (fun s s' => s' = s) ⟨False, fun _ => False⟩ env (· = s) s.size x view ok

theorem Store.Backed.quietly (h : s.Backed ⟨env.definitions, walks⟩) :
    (Naming.below env s.size).Reports (Quietly env s) :=
  Steady.reports ⟨fun hI hR => hR.trans hI, fun hR => congrArg size hR, fun hI => hI ▸ h⟩ s.size

theorem Agreed.quiet {α : Type} {x : Unit → CheckM α} (hx : Agreed (Quietly env s) x) :
    Quiet env s (x ()) fun _ => True := by
  intro report
  rcases hRun : (x () env).run ⟨s, report⟩ with ⟨fault | a, after⟩ <;>
    obtain ⟨rfl, hEnd⟩ := hx s rfl rfl report _ _ hRun
  · obtain ⟨-, hNever⟩ | ⟨-, hNever⟩ := hEnd <;> exact hNever.elim
  · exact ⟨a, after.report, rfl, trivial⟩

end Secure

def Follows (F : Allowance) (env : Env) (resolve : NodeId → CheckM NodeId) : Prop :=
  ∀ s id, s.Backed (F.backing env) → s.Has id →
    Runs (Endures (F.backing env)) F env s (resolve id) fun last s' => s'.Has last

theorem steady_endures (b : Backing) : Steady b (Endures b) (·.Backed b) :=
  ⟨fun h hEndures => hEndures.backed h, fun hEndures => hEndures.size_eq, fun h => h⟩

theorem Follows.secure (h : Follows F env resolve) {size : Nat} (id : NodeId) (hId : (Naming.below env size).dom id) :
    Secure (Endures (F.backing env)) F env (·.Backed (F.backing env)) size (fun _ => resolve id)
      (Naming.below env size) (Naming.below env size).dom := by
  rintro s hs rfl
  refine (h s id hs hId).mono fun last s' hEndures hLast => ⟨last, ?_, rfl⟩
  exact hEndures.size_eq ▸ hLast

theorem runs_narrow (hWalks : F.walks) (hResolve : Follows F env resolve) (span : Span) (depth : Nat)
    (path : List PathStep) (type : TypeKey) (h : s.Backed (F.backing env)) (hHas : s.Has id) :
    Runs (Endures (F.backing env)) F env s (narrow resolve span depth path id type)
      fun part s' => ∀ last type, part = .found last type → s'.Has last := by
  have hDepth : (Naming.below env s.size).Depths depth fun _ => depth := fun _ => ⟨Nat.le_refl _, fun _ => rfl⟩
  have hNarrow := ((steady_endures (F.backing env)).reports s.size).narrow hResolve.secure
    (fun hStop _ _ _ => by rw [hStop () trivial]; exact .endlessWalk hWalks) span hDepth path hHas type
  refine (hNarrow s h rfl).mono ?_
  rintro _ s' hEndures ⟨part, hPart, rfl⟩ last type hFound
  obtain ⟨last, rfl⟩ : ∃ id, part = .found id type := by
    cases part <;> cases hFound
    exact ⟨_, rfl⟩
  cases hFound
  exact hEndures.size_eq ▸ hPart last type rfl

theorem Template.links_remember (t : Template) (last : NodeId) :
    ∀ link ∈ (t.remember last).links, link ∈ t.links ∨ link = last := by
  unfold Template.remember
  intro link hLink
  split at hLink
  · rename_i hForm
    simp only [Template.links, Form.children, Form.resolved?, hForm, nil_append,
      mem_append, Option.toList_some, mem_singleton] at hLink ⊢
    exact hLink.imp .inl fun h => h
  · exact .inl hLink

namespace Store

variable {b : Backing}

theorem endures_update {f : Template → Template} (hFound : s.get? id = some t)
    (hLinks : ∀ link ∈ (f t).links, link ∈ t.links ∨ s.Has link)
    (hReference : ∀ r, (f t).form.reference? = some r → t.form.reference? = some r)
    (hChildren : ∀ child ∈ (f t).form.children, child ∈ t.form.children) (hPlain : t.isPlain → (f t).isPlain) :
    s.Endures b (s.update id f) where
  backed h := by
    refine h.update hFound (fun link hLink => (hLinks link hLink).elim (h.links id t hFound link) fun h => h)
      (fun r hr => h.references id t r hFound (hReference r hr)) (fun child hChild => ?_)
      ((h.plain id t hFound).imp_right hPlain)
    exact h.acyclic.not_below ⟨t, hFound, hChildren child hChild⟩
  size_eq := size_update s id f

theorem endures_remember {last : NodeId} (hFound : s.get? id = some t) (hLast : s.Has last) :
    s.Endures b (s.update id (·.remember last)) := by
  have hSame : (t.remember last).form.children = t.form.children ∧
      (t.remember last).form.reference? = t.form.reference? ∧ (t.remember last).isPlain = t.isPlain := by
    unfold Template.remember
    split
    · rename_i hForm
      simp [hForm, Form.children, Form.reference?, Template.isPlain, Form.isPlain]
    · exact ⟨rfl, rfl, rfl⟩
  obtain ⟨hChildren, hReference, hPlain⟩ := hSame
  refine endures_update hFound (fun link hLink => ?_) (by simp [hReference]) (by simp [hChildren]) (by simp [hPlain])
  obtain hOld | rfl := t.links_remember last link hLink
  · exact .inl hOld
  · exact .inr hLast

end Store

variable {r : Reference}

theorem runs_giveUp (hHas : s.Has id) :
    Runs (Endures (F.backing env)) F env s (markErroneous id) fun _ s' => s'.Has id := by
  obtain ⟨t, hFound⟩ := hHas.exists_get?
  refine (runs_replaceForm hFound (by simp [Form.mayBecome, Form.isErroneous]) ?_).mono ?_
  · refine endures_update hFound (fun link hLink => ?_) (by simp [Form.reference?]) (by simp [Form.children]) ?_
    · simp only [Template.links, Form.children, Form.resolved?, mem_append] at hLink ⊢
      simp_all
    · exact fun hPlain => Template.isPlain_iff.2 ⟨(Template.isPlain_iff.1 hPlain).1, rfl⟩
  · rintro _ _ - rfl
    exact has_update.2 hHas

theorem runs_chainEnd (hWalks : F.walks) {resolve : ReferenceChain → NodeId → CheckM NodeId}
    (hResolve : ∀ chain, Follows F env (resolve chain)) (chain : ReferenceChain) (r : Reference) {body : NodeId}
    (type : TypeKey) (h : s.Backed (F.backing env)) (hHas : s.Has id) (hBody : s.Has body) :
    Runs (Endures (F.backing env)) F env s (chainEnd resolve chain id r body type) fun last s' =>
    s'.Has last := by
  unfold chainEnd
  split
  · rename_i longer _
    apply Runs.store_then
    refine (runs_narrow hWalks (hResolve longer) r.span _ r.path type h hBody).bind fun part s1 hEndures hPart => ?_
    have hHas1 : s1.Has id := hHas.of_size_le (Nat.le_of_eq hEndures.size_eq.symm)
    split
    · exact hResolve longer s1 _ (hEndures.backed h) (hPart _ _ rfl)
    · exact .pure hHas1
    · exact (runs_giveUp hHas1).bind fun _ _ _ hHas => .pure hHas
  · have hReject : Runs (Endures (F.backing env)) F env s
        (reject id (.circularReference (chain.cycleNames id))) fun _ s' => s'.Has id :=
      (quiet_problemAt hHas _).bind_runs fun _ _ => runs_giveUp hHas
    exact hReject.bind fun _ _ _ hHas => .pure hHas

theorem Definitions.mem_of_target? {defs : Definitions} {definition : Definition}
    (h : defs.target? r = some definition) : definition ∈ defs.entries := by
  obtain ⟨target, -, hTarget⟩ := Option.bind_eq_some_iff.1 h
  exact mem_of_getElem? hTarget

theorem follows_lastWithin (hWalks : F.walks) (depth : Nat) (chain : ReferenceChain) :
    Follows F env (lastWithin depth chain) := by
  induction depth generalizing chain with
  | zero => exact fun _ _ _ _ => .endlessWalk hWalks
  | succ depth ih =>
    intro s id h hHas
    unfold lastWithin
    refine (quiet_formOf hHas).bind_runs ?_
    rintro _ ⟨t, hFound, rfl⟩
    split
    · rename_i hForm
      exact .pure (h.has_resolved hFound hForm)
    · rename_i r hForm
      apply Runs.read_then
      split
      · rename_i definition hTarget
        split
        · rename_i template type hTemplate _ _
          have hBody := h.bodies hWalks definition (Definitions.mem_of_target? hTarget) template hTemplate
          refine (runs_chainEnd hWalks ih chain r type h hHas hBody).bind fun last s1 hEndures hLast => ?_
          obtain ⟨t1, hFound1⟩ := (hHas.of_size_le (Nat.le_of_eq hEndures.size_eq.symm)).exists_get?
          refine (runs_modifyNode hFound1 (endures_remember hFound1 hLast)).bind ?_
          rintro _ _ - rfl
          refine (runs_modifyNode (get?_update_some hFound1 _) (endures_update
            (get?_update_some hFound1 _) (fun _ => .inl) (fun _ h => h) (fun _ h => h) fun h => h)).bind ?_
          rintro _ _ - rfl
          exact .pure (by simpa using hLast)
        · refine (runs_modifyNode hFound (endures_remember hFound hHas)).bind ?_
          rintro _ _ - rfl
          exact .pure (by simpa using hHas)
      · exact .pure hHas
    · exact .pure hHas

theorem follows_lastTemplate : Follows F env lastTemplate := by
  intro s id h hHas
  apply Runs.store_then
  obtain ⟨t, hFound⟩ := hHas.exists_get?
  obtain hWalks | hPlain := h.plain id t hFound
  · exact follows_lastWithin hWalks _ _ s id h hHas
  · -- The node is the end of its chain.
    apply (quiet_formOf hHas).bind_runs
    rintro _ ⟨t', hFound', rfl⟩
    cases hFound.symm.trans hFound'
    split
    case h_1 | h_2 =>
      rename_i hForm
      simp [Template.isPlain, hForm, Form.isPlain] at hPlain
    · exact .pure hHas

theorem checks_lastTemplate {K : NodeId → Prop} (h : s.Backed (F.backing env)) (hHas : s.Has id) :
    Checks K F env s (lastTemplate id) fun last s' => s'.Has last :=
  ((follows_lastTemplate s id h hHas).reaches (pursuing_lastTemplate s id)).mono fun _ _ _ hLast => hLast.1

end TemplateCheck
