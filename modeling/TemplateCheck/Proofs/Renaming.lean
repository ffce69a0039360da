import TemplateCheck.Proofs.Walk.Check

/-!
# Renamed stores

Two stores agree on a set of nodes if the second one holds the same templates as the first under other names. The set is
closed under everything that a check follows. New nodes are added to both stores in the same order, so their names are
shifted. Marks that no check reads are left out of account.

A computation mirrors another one if it does the same with renamed nodes: where the first one ends with a result, the
second one ends with the renamed result on every store that agrees, the stores agree afterwards, and both report the
same. The second store may be larger, since walks that are cut off at the size of the store end no earlier there. A
reference is pending between its recognition and the search for the end of its chain.
-/

namespace TemplateCheck

open Store

variable {defs : Definitions} {P P' : NodeId → Prop} {id : NodeId} {form : Form} {f f' : Template → Template}

section Rename

variable {ρ : NodeId → NodeId} {m m' : Marks}

theorem Form.rename_of_none (hChildren : form.children = []) (hResolved : form.resolved? = none) :
    form.rename ρ = form := by
  cases form <;> simp_all [rename, children, resolved?]

@[simp] theorem Form.mayBecome_rename (source target : Form) :
    (source.rename ρ).mayBecome (target.rename ρ) = source.mayBecome target := by
  cases source with
  | list shape items => cases shape <;> cases target <;> rfl
  | specific value => cases value <;> cases target <;> rfl
  | charPattern family pattern => cases family <;> cases target <;> rfl
  | _ => cases target <;> rfl

theorem Marks.forget_set (h : m'.forget = m.forget) (mark : Mark) : (m'.set mark).forget = (m.set mark).forget := by
  cases mark <;> simp_all [forget, set]

theorem Marks.forget_settle (h : m'.forget = m.forget) (flattened : Bool) :
    (m'.settle flattened).forget = (m.settle flattened).forget := by
  cases flattened <;> simp_all [forget, settle]

end Rename

/-- New names for the nodes of a set that keep them apart. Definitions are not renamed. -/
structure Renaming (defs : Definitions) where
  map : NodeId → NodeId
  dom : NodeId → Prop
  injective : ∀ {n m}, dom n → dom m → map n = map m → n = m

instance {defs : Definitions} : CoeFun (Renaming defs) fun _ => NodeId → NodeId := ⟨Renaming.map⟩

namespace Renaming

variable (ρ : Renaming defs)

def Id (n m : NodeId) : Prop := ρ.dom n ∧ m = ρ n

def Covers (r : Reference) : Prop :=
  ∀ definition template, defs.target? r = some definition → definition.kind.template? = some template →
    ρ.Id template.body template.body

end Renaming

section Agree

variable {ρ : Renaming defs} {pending : Prop} {s s' : Store} {t t' : Template}

structure Form.Inside (ρ : Renaming defs) (form : Form) : Prop where
  children : ∀ child ∈ form.children, ρ.dom child
  resolved : ∀ last, form.resolved? = some last → ρ.dom last
  mentions : ∀ r ∈ form.mentions, ρ.Covers r

structure Template.Matches (ρ : Renaming defs) (pending : Prop) (t t' : Template) : Prop where
  alike : t.Alike ρ t'
  inside : t.form.Inside ρ
  base : ∀ base, t.base = some base → ρ.dom base
  followed : ∀ r, t.form = .referenced r none → pending ∧ (defs.target? r).isSome

abbrev NonePending : NodeId → Prop := fun _ => False

structure Store.Agree (ρ : Renaming defs) (P : NodeId → Prop) (s s' : Store) : Prop where
  nodes : ∀ n t, ρ.dom n → s.get? n = some t → ∃ t', s'.get? (ρ n) = some t' ∧ t.Matches ρ (P n) t'
  fresh : ∀ n, ¬ s.Has n → ρ.dom n
  shift : ∀ k, ρ ⟨s.size + k⟩ = ⟨s'.size + k⟩
  size_le : s.size ≤ s'.size

theorem Form.inside_of_none (hChildren : form.children = []) (hResolved : form.resolved? = none)
    (hMentions : form.mentions = []) : form.Inside ρ := by
  constructor
  · simp [hChildren]
  · simp [hResolved]
  · simp [hMentions]

theorem Store.Agree.update (h : s.Agree ρ P s') (hId : ρ.dom id)
    (hf : ∀ t t' : Template, t.Matches ρ (P id) t' → (f t).Matches ρ (P' id) (f' t'))
    (hP : ∀ n, n ≠ id → P n → P' n) : (s.update id f).Agree ρ P' (s'.update (ρ id) f') where
  nodes n t hn hFound := by
    obtain ⟨hOld, hNe⟩ | ⟨rfl, t, hOld, rfl⟩ := get?_update_cases hFound
    · obtain ⟨t', hFound', hMatches⟩ := h.nodes n t hn hOld
      have hNe' : ρ n ≠ ρ id := fun hEq => hNe (ρ.injective hn hId hEq)
      refine ⟨t', (get?_update_of_ne hNe').trans hFound', hMatches.alike, hMatches.inside,
        hMatches.base, fun r hr => ?_⟩
      exact (hMatches.followed r hr).imp_left (hP n hNe)
    · obtain ⟨t', hFound', hMatches⟩ := h.nodes n t hn hOld
      exact ⟨f' t', get?_update_some hFound' f', hf t t' hMatches⟩
  fresh n hn := h.fresh n (by rwa [has_update] at hn)
  shift k := by
    rw [size_update, size_update]
    exact h.shift k
  size_le := by
    rw [size_update, size_update]
    exact h.size_le

theorem Store.Agree.loosen (h : s.Agree ρ P s') (hP : ∀ n, P n → P' n) : s.Agree ρ P' s' where
  nodes n t hn hFound := by
    obtain ⟨t', hFound', hMatches⟩ := h.nodes n t hn hFound
    exact ⟨t', hFound', hMatches.alike, hMatches.inside, hMatches.base, fun r hr =>
      (hMatches.followed r hr).imp_left (hP n)⟩
  fresh := h.fresh
  shift := h.shift
  size_le := h.size_le

theorem Store.Agree.nextId (h : s.Agree ρ P s') : ρ s.nextId = s'.nextId := h.shift 0

theorem Store.Agree.push (h : s.Agree ρ P s') (ht : t.Matches ρ (P s.nextId) t') :
    (s.push t).Agree ρ P (s'.push t') where
  nodes n found hn hFound := by
    obtain hOld | ⟨rfl, rfl⟩ := get?_push_cases hFound
    · obtain ⟨found', hFound', hMatches⟩ := h.nodes n found hn hOld
      exact ⟨found', (get?_push_of_lt (lt_size_of_get? hFound')).trans hFound', hMatches⟩
    · refine ⟨t', ?_, ht⟩
      rw [h.nextId]
      exact get?_push_nextId s' t'
  fresh n hn := h.fresh n fun hHas => hn (hHas.push t)
  shift k := by
    rw [size_push, size_push, Nat.add_assoc, Nat.add_assoc]
    exact h.shift (1 + k)
  size_le := by
    rw [size_push, size_push]
    exact Nat.succ_le_succ h.size_le

end Agree

/-- Two states of a check: their stores agree, they are inside the same contexts, and what they have
reported beyond the given diagnostics is the same. -/
structure Twin {defs : Definitions} (ρ : Renaming defs) (P : NodeId → Prop) (before before' : List Diagnostic)
    (st st' : CheckState) : Prop where
  store : st.store.Agree ρ P st'.store
  context : st'.report.context = st.report.context
  found : ∃ found, st.report.diagnostics = before ++ found ∧ st'.report.diagnostics = before' ++ found

/-- Where the first computation ends with a result, the second one does the same with renamed nodes. -/
structure Mirrors {α β : Type} (env : Env) (ρ : Renaming env.definitions) (P P' : NodeId → Prop)
    (x : CheckM α) (y : CheckM β) (R : α → β → Prop) : Prop where
  run : ∀ before before' st st' a after, Twin ρ P before before' st st' → (x env).run st = (.ok a, after) →
    ∃ b after', (y env).run st' = (.ok b, after') ∧ R a b ∧ Twin ρ P' before before' after after'

abbrev Echoes {α β : Type} (env : Env) (ρ : Renaming env.definitions) (x : CheckM α) (y : CheckM β)
    (R : α → β → Prop) : Prop :=
  Mirrors env ρ NonePending NonePending x y R

section Mirrors

variable {α β γ δ : Type} {env : Env} {ρ : Renaming env.definitions} {P'' : NodeId → Prop} {R : α → β → Prop}
  {S : γ → δ → Prop}

namespace Mirrors

variable {x : CheckM α} {y : CheckM β} {f : α → CheckM γ} {g : β → CheckM δ}

theorem mono {R' : α → β → Prop} (h : Mirrors env ρ P P' x y R) (hR : ∀ a b, R a b → R' a b) :
    Mirrors env ρ P P' x y R' := by
  constructor
  intro before before' st st' a after hTwin hRun
  obtain ⟨b, after', hRun', hResult, hTwin'⟩ := h.run before before' st st' a after hTwin hRun
  exact ⟨b, after', hRun', hR a b hResult, hTwin'⟩

theorem loosen (h : Mirrors env ρ P P' x y R) (hP : ∀ n, P' n → P'' n) : Mirrors env ρ P P'' x y R := by
  constructor
  intro before before' st st' a after hTwin hRun
  obtain ⟨b, after', hRun', hResult, hTwin'⟩ := h.run before before' st st' a after hTwin hRun
  exact ⟨b, after', hRun', hResult, hTwin'.store.loosen hP, hTwin'.context, hTwin'.found⟩

theorem pure {a : α} {b : β} (h : R a b) : Mirrors env ρ P P (pure a) (pure b) R := by
  constructor
  intro before before' st st' a' after hTwin hRun
  cases hRun
  exact ⟨b, st', rfl, h, hTwin⟩

theorem throw (fault : Fault) : Mirrors env ρ P P' (throw fault) y R := by
  constructor
  intro before before' st st' a after hTwin hRun
  cases hRun

theorem bind (hx : Mirrors env ρ P P' x y R) (hf : ∀ a b, R a b → Mirrors env ρ P' P'' (f a) (g b) S) :
    Mirrors env ρ P P'' (x >>= f) (y >>= g) S := by
  constructor
  intro before before' st st' c after hTwin hRun
  obtain ⟨a, middle, hFirst, hNext⟩ := of_run_bind_ok hRun
  obtain ⟨b, middle', hFirst', hR, hMiddle⟩ := hx.run before before' st st' a middle hTwin hFirst
  rw [run_bind_ok g hFirst']
  exact (hf a b hR).run before before' middle middle' c after hMiddle hNext

theorem read_then {f : Env → CheckM γ} {g : Env → CheckM δ} (h : Mirrors env ρ P P' (f env) (g env) S) :
    Mirrors env ρ P P' (read >>= f) (read >>= g) S :=
  ⟨h.run⟩

theorem store_then {f : Store → CheckM γ} {g : Store → CheckM δ}
    (h : ∀ s s', s.Agree ρ P s' → Mirrors env ρ P P' (f s) (g s') S) :
    Mirrors env ρ P P' (currentStore >>= f) (currentStore >>= g) S := by
  constructor
  intro before before' st st' c after hTwin hRun
  exact (h st.store st'.store hTwin.store).run before before' st st' c after hTwin hRun

theorem withCurrent {current : Option DefId} (h : Mirrors { env with current } ρ P P' x y R) :
    Mirrors env ρ P P' (withReader ({ · with current }) x) (withReader ({ · with current }) y) R :=
  ⟨h.run⟩

theorem tell (span : Span) (finding : Finding) : Mirrors env ρ P P (tell span finding) (tell span finding) Eq := by
  constructor
  intro before before' st st' a after hTwin hRun
  cases hRun
  refine ⟨(), _, rfl, rfl, hTwin.store, hTwin.context, ?_⟩
  obtain ⟨found, hFound, hFound'⟩ := hTwin.found
  refine ⟨found ++ [⟨finding, span, st.report.context⟩], ?_, ?_⟩
  · simp [hFound]
  · simp [hFound', hTwin.context]

theorem inside (c : Context) (h : Mirrors env ρ P P' x y R) : Mirrors env ρ P P' (inside c x) (inside c y) R := by
  constructor
  intro before before' st st' a after hTwin hRun
  obtain ⟨middle, hInner, rfl⟩ := of_run_inside hRun
  have hEntered : Twin ρ P before before' { st with report := st.report.enter c }
      { st' with report := st'.report.enter c } :=
    ⟨hTwin.store, by simp [Report.enter, hTwin.context], hTwin.found⟩
  obtain ⟨b, middle', hInner', hR, hMiddle⟩ := h.run before before' _ _ a middle hEntered hInner
  refine ⟨b, { middle' with report := middle'.report.leave }, ?_, hR, hMiddle.store, ?_, hMiddle.found⟩
  · simp only [TemplateCheck.inside, hInner']
  · simp [Report.leave, hMiddle.context]

end Mirrors

theorem mirrors_node (hId : ρ.dom id) : Mirrors env ρ P P (node id) (node (ρ id)) (Template.Matches ρ (P id)) := by
  constructor
  intro before before' st st' t after hTwin hRun
  cases hFound : st.store.get? id with
  | none =>
    rw [run_node_of_none hFound] at hRun
    cases hRun
  | some found =>
    rw [run_node hFound] at hRun
    cases hRun
    obtain ⟨t', hFound', hMatches⟩ := hTwin.store.nodes id _ hId hFound
    exact ⟨t', st', run_node hFound', hMatches, hTwin⟩

structure Form.Held (ρ : Renaming env.definitions) (pending : Prop) (form : Form) : Prop where
  inside : form.Inside ρ
  followed : ∀ r, form = .referenced r none → pending ∧ (env.definitions.target? r).isSome

theorem Mirrors.pending_then (hId : ρ.dom id) {f : Form → CheckM γ} {g : Form → CheckM δ}
    (h : ∀ form : Form, form.Held ρ (P id) →
      Mirrors env ρ (fun n => P n ∧ (n = id → ∃ r, form = .referenced r none)) P' (f form)
        (g (form.rename ρ)) S) : Mirrors env ρ P P' (formOf id >>= f) (formOf (ρ id) >>= g) S := by
  constructor
  intro before before' st st' c after hTwin hRun
  rw [formOf_bind] at hRun
  obtain ⟨t, hFound, hNext⟩ := of_run_node_then hRun
  obtain ⟨t', hFound', hMatches⟩ := hTwin.store.nodes id t hId hFound
  rw [run_bind_ok g (run_formOf hFound'), hMatches.alike.form]
  apply (h t.form ⟨hMatches.inside, hMatches.followed⟩).run before before' st st' c after ?_ hNext
  refine ⟨⟨fun n found hn hGet => ?_, hTwin.store.fresh, hTwin.store.shift, hTwin.store.size_le⟩,
    hTwin.context, hTwin.found⟩
  obtain ⟨found', hGet', hBoth⟩ := hTwin.store.nodes n found hn hGet
  refine ⟨found', hGet', hBoth.alike, hBoth.inside, hBoth.base, fun r hr => ?_⟩
  obtain ⟨hPending, hTarget⟩ := hBoth.followed r hr
  refine ⟨⟨hPending, ?_⟩, hTarget⟩
  rintro rfl
  cases hFound.symm.trans hGet
  exact ⟨r, hr⟩

/-- What two computations call the nodes. -/
def Renaming.naming (ρ : Renaming env.definitions) : Naming Bool where
  At := (· = env)
  defined := False
  leads i := i = false
  dom := ρ.dom
  map i n := cond i (ρ n) n
  injective {i n m} hn hm h := by
    cases i with
    | false => exact h
    | true => exact ρ.injective hn hm h

@[simp] theorem Renaming.naming_false : ρ.naming false = fun n => n := rfl

@[simp] theorem Renaming.naming_true : ρ.naming true = ρ := rfl

/-- The second computation of a pair mirrors the first one. What they find are views of the same value. -/
def Pairs (env : Env) (ρ : Renaming env.definitions) (P P' : NodeId → Prop) {α β : Type} (x : Bool → CheckM α)
    (view : Bool → β → α) (ok : β → Prop) : Prop :=
  Mirrors env ρ P P' (x false) (x true) fun a b => ∃ c, ok c ∧ a = view false c ∧ b = view true c

abbrev Paired (env : Env) (ρ : Renaming env.definitions) (P : NodeId → Prop) {α β : Type} (x : Bool → CheckM α)
    (view : Bool → β → α) (ok : β → Prop) : Prop :=
  Pairs env ρ P P x view ok

theorem Renaming.Covers.naming {r : Reference} (h : ρ.Covers r) : ρ.naming.Covers r := by
  intro other definition template hOther hTarget hTemplate
  have hSame := congrArg (·.definitions.target? r) hOther
  obtain ⟨hBody, hFixed⟩ := h definition template (hSame.symm.trans hTarget) hTemplate
  exact ⟨hBody, fun i => by cases i <;> simp [← hFixed]⟩

theorem Template.Matches.shows {pending : Prop} {t t' : Template} (h : t.Matches ρ pending t') :
    ρ.naming.Shows t fun i => cond i t' t where
  alike i := by
    cases i with
    | false => exact .of_eq rfl
    | true => exact h.alike
  holds := ⟨h.inside.children, fun r hr => (h.inside.mentions r hr).naming, nofun⟩
  base := h.base

namespace Pairs

variable {x : Bool → CheckM α} {view : Bool → β → α} {ok : β → Prop} {f : Bool → Form → CheckM α}

theorem same (h : Agreed (Pairs env ρ P P') x) : Mirrors env ρ P P' (x false) (x true) Eq := by
  apply Mirrors.mono h
  rintro _ _ ⟨_, -, rfl, rfl⟩
  rfl

theorem loosen (h : Pairs env ρ P P' x view ok) (hP : ∀ n, P' n → P'' n) : Pairs env ρ P P'' x view ok :=
  Mirrors.loosen h hP

theorem throw {fault : Fault} (h : ∀ i, ρ.naming.leads i → x i = throw fault) : Pairs env ρ P P' x view ok := by
  rw [Pairs, h false rfl]
  exact .throw fault

theorem bind {f : Bool → α → CheckM γ} {view' : Bool → δ → γ} {ok' : δ → Prop} (hx : Pairs env ρ P P' x view ok)
    (hf : ∀ b, ok b → Pairs env ρ P' P'' (fun i => f i (view i b)) view' ok') :
    Pairs env ρ P P'' (fun i => x i >>= f i) view' ok' := by
  apply Mirrors.bind hx
  rintro _ _ ⟨b, hb, rfl, rfl⟩
  exact hf b hb

theorem read_then {f : Bool → Env → CheckM α} (h : Pairs env ρ P P' (fun i => f i env) view ok) :
    Pairs env ρ P P' (fun i => read >>= f i) view ok :=
  Mirrors.read_then h

theorem sizes_then {f : Bool → Store → CheckM α} (h : ∀ (s : Bool → Store) (least : Nat),
      ρ.naming.Depths least (fun i => (s i).size + 1) → Pairs env ρ P P' (fun i => f i (s i)) view ok) :
    Pairs env ρ P P' (fun i => currentStore >>= f i) view ok := by
  apply Mirrors.store_then
  intro s s' hAgree
  refine h (fun i => cond i s' s) (s.size + 1) fun i => ?_
  cases i with
  | false => exact ⟨Nat.le_refl _, fun _ => rfl⟩
  | true => exact ⟨Nat.succ_le_succ hAgree.size_le, nofun⟩

theorem pending_then (hId : ρ.dom id) (h : ∀ form : Form, form.Held ρ (P id) →
      Pairs env ρ (fun n => P n ∧ (n = id → ∃ r, form = .referenced r none)) P'
        (fun i => f i (form.rename (ρ.naming i))) view ok) :
    Pairs env ρ P P' (fun i => formOf (ρ.naming i id) >>= f i) view ok := by
  apply Mirrors.pending_then hId
  intro form hForm
  simpa only [Pairs, Renaming.naming_false, Renaming.naming_true, Form.rename_self] using h form hForm

theorem tighten (h : Pairs env ρ P' P'' x view ok) (hP : ∀ n, P n → P' n) : Pairs env ρ P P'' x view ok :=
  ⟨fun before before' st st' a after hTwin => h.run before before' st st' a after
    ⟨hTwin.store.loosen hP, hTwin.context, hTwin.found⟩⟩

theorem formOf_then (hId : ρ.dom id) (h : ∀ form : Form, form.Held ρ (P id) →
      Pairs env ρ P P' (fun i => f i (form.rename (ρ.naming i))) view ok) :
    Pairs env ρ P P' (fun i => formOf (ρ.naming i id) >>= f i) view ok :=
  pending_then hId fun form hForm => (h form hForm).tighten fun _ hn => hn.1

end Pairs

theorem Mirrors.agreed {x : Bool → CheckM α} (h : Mirrors env ρ P P' (x false) (x true) Eq) :
    Agreed (Pairs env ρ P P') x :=
  h.mono fun a _ hab => ⟨a, trivial, rfl, hab.symm⟩

theorem paired : ρ.naming.Reports (Paired env ρ P) where
  pure hb ha := Mirrors.pure ⟨_, hb, ha false, ha true⟩
  bind := .bind
  read_then hf := .read_then (hf env rfl)
  node_then hId hf := (mirrors_node hId).bind fun t _ ht => hf t _ ht.shows
  mention span finding _ := (Mirrors.tell span finding).agreed
  tell span finding := (Mirrors.tell span finding).agreed

section

variable (hId : ρ.dom id) {h : ∀ t : Template, t.Evolves (f t)}

include hId

theorem mirrors_modifyNode {h' : ∀ t : Template, t.Evolves (f' t)}
    (hf : ∀ t t' : Template, t.Matches ρ (P id) t' → (f t).Matches ρ (P' id) (f' t')) (hP : ∀ n, n ≠ id → P n → P' n) :
    Mirrors env ρ P P' (onStore (modifyNode id f h)) (onStore (modifyNode (ρ id) f' h')) Eq := by
  constructor
  intro before before' st st' a after hTwin hRun
  cases hFound : st.store.get? id with
  | none => cases (run_modifyNode_of_none hFound).symm.trans hRun
  | some t =>
    obtain ⟨t', hFound', -⟩ := hTwin.store.nodes id t hId hFound
    cases (run_modifyNode hFound).symm.trans hRun
    exact ⟨(), _, run_modifyNode hFound', rfl, hTwin.store.update hId hf hP, hTwin.context, hTwin.found⟩

/-- What a check follows is left alone. -/
theorem mirrors_annotate
    (hf : ∀ t t' : Template, t.Alike ρ t' → (f t).Alike ρ (f t')) (hForm : ∀ t, (f t).form = t.form)
    (hBase : ∀ t, (f t).base = t.base) :
    Agreed (Paired env ρ P) fun i => onStore (modifyNode (ρ.naming i id) f h) := by
  apply Mirrors.agreed
  apply mirrors_modifyNode hId
  · intro t t' ht
    refine ⟨hf t t' ht.alike, ?_, ?_, ?_⟩
    · rw [hForm]
      exact ht.inside
    · rw [hBase]
      exact ht.base
    · rw [hForm]
      exact ht.followed
  · exact fun _ _ hn => hn

theorem mirrors_mark (m : Mark) : Agreed (Paired env ρ P) fun i => mark (ρ.naming i id) m :=
  mirrors_annotate hId (fun _ _ h => { h with marks := Marks.forget_set h.marks m }) (fun _ => rfl) fun _ => rfl

theorem mirrors_govern (type : TypeKey) : Agreed (Paired env ρ P) fun i => govern (ρ.naming i id) type :=
  mirrors_annotate hId (fun _ _ h => { h with governor := rfl, marks := Marks.forget_set h.marks .checked })
    (fun _ => rfl) fun _ => rfl

theorem mirrors_settle (flattened : Bool) : Agreed (Paired env ρ P) fun i => settle (ρ.naming i id) flattened :=
  mirrors_annotate hId (fun _ _ h => { h with marks := Marks.forget_settle h.marks flattened }) (fun _ => rfl)
    fun _ => rfl

theorem mirrors_replaceForm (form : Form) (hInside : form.Inside ρ)
    (hFollowed : ∀ r, form = .referenced r none → P' id ∧ (env.definitions.target? r).isSome)
    (hP : ∀ n, n ≠ id → P n → P' n) :
    Agreed (Pairs env ρ P P') fun i => replaceForm (ρ.naming i id) (form.rename (ρ.naming i)) := by
  apply Mirrors.agreed
  rw [Renaming.naming_false, Form.rename_self]
  constructor
  intro before before' st st' a after hTwin hRun
  cases hFound : st.store.get? id with
  | none => cases (run_replaceForm_of_none form hFound).symm.trans hRun
  | some t =>
    obtain ⟨t', hFound', hMatches⟩ := hTwin.store.nodes id t hId hFound
    by_cases hMay : t.form.mayBecome form
    · have hMay' : t'.form.mayBecome (form.rename ρ) := by
        rwa [hMatches.alike.form, Form.mayBecome_rename]
      cases (run_replaceForm hFound hMay).symm.trans hRun
      refine ⟨(), _, run_replaceForm hFound' hMay', rfl, ?_, hTwin.context, hTwin.found⟩
      apply hTwin.store.update hId ?_ hP
      rintro t t' ⟨hAlike, -, hDom, -⟩
      exact ⟨{ hAlike with form := rfl }, hInside, hDom, hFollowed⟩
    · cases (run_replaceForm_of_not hFound hMay).symm.trans hRun

theorem mirrors_replaceForm_plain (hChildren : form.children = [])
    (hResolved : form.resolved? = none) (hMentions : form.mentions = []) :
    Agreed (Paired env ρ P) fun i => replaceForm (ρ.naming i id) form := by
  have hFollowed : ∀ r, form = .referenced r none → P id ∧ (env.definitions.target? r).isSome := by
    rintro r rfl
    cases hMentions
  have hReplace := mirrors_replaceForm hId form (Form.inside_of_none hChildren hResolved hMentions) hFollowed
    fun _ _ hn => hn
  simpa only [Form.rename_of_none hChildren hResolved] using hReplace

theorem mirrors_markErroneous : Agreed (Paired env ρ P) fun i => markErroneous (ρ.naming i id) :=
  mirrors_replaceForm_plain hId rfl rfl rfl

theorem mirrors_reject (p : Problem) : Agreed (Paired env ρ P) fun i => reject (ρ.naming i id) p :=
  paired.next (paired.complain hId p) fun _ => mirrors_markErroneous hId

end

theorem mirrors_alloc {t : Bool → Template} (ht : ∀ pending, (t false).Matches ρ pending (t true)) :
    Paired env ρ P (fun i => onStore (alloc (t i))) ρ.naming ρ.dom := by
  constructor
  intro before before' st st' n after hTwin hRun
  cases hRun
  refine ⟨st'.store.nextId, ⟨st'.store.push (t true), st'.report⟩, rfl, ?_, hTwin.store.push (ht _),
    hTwin.context, hTwin.found⟩
  exact ⟨_, hTwin.store.fresh _ (not_has_nextId _), rfl, hTwin.store.nextId.symm⟩

end Mirrors

end TemplateCheck
