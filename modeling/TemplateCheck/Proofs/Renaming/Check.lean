import TemplateCheck.Proofs.Renaming.Resolution
import TemplateCheck.Proofs.Safety.Values

/-!
# Checks in renamed stores

A check of a template, and then of a definition, does the same in both stores. Slots are filled with copies of the same
elements, which get new nodes in the same order. Elements are counted alike, since the members of permutations
correspond to each other. The only reference that is ever pending is the node under check, from the moment it is
recognized until its placement is looked at; nothing is spliced meanwhile.
-/

namespace TemplateCheck

open List Store

section OnStore

variable {α β : Type}

theorem onStore_bind (x : StoreM α) (f : α → StoreM β) : onStore (x >>= f) = onStore x >>= fun a => onStore (f a) := by
  funext env
  apply Tracked.ext
  funext st
  change ((x >>= f).run st.store |>.1, _) = Tracked.run (onStore x env >>= fun a => onStore (f a) env) st
  rw [Tracked.run_bind]
  simp only [onStore, Tracked.run_bind]
  rcases x.run st.store with ⟨fault | a, s⟩
  · rfl
  · rfl

theorem onStore_pure (a : α) : onStore (pure a) = pure a := rfl

theorem onStore_mapM (f : α → StoreM β) (xs : List α) : onStore (xs.mapM f) = xs.mapM fun a => onStore (f a) := by
  induction xs with
  | nil => rfl
  | cons a xs ih =>
    rw [mapM_cons, mapM_cons, onStore_bind]
    simp only [onStore_bind, ih, onStore_pure]

theorem onStore_mapChildrenM (f : NodeId → StoreM NodeId) (form : Form) :
    onStore (form.mapChildrenM f) = form.mapChildrenM fun child => onStore (f child) := by
  cases form <;> simp only [Form.mapChildrenM, onStore_bind, onStore_mapM, onStore_pure]

end OnStore

variable {env : Env} {ρ : Renaming env.definitions} {id : NodeId} {least : Nat} {depth : Bool → Nat}

abbrev Echoed (env : Env) (ρ : Renaming env.definitions) {α β : Type} (x : Bool → CheckM α) (view : Bool → β → α)
    (ok : β → Prop) : Prop :=
  Paired env ρ NonePending x view ok

section Copies

variable {form : Form} {news : List NodeId} {pending : Prop}

theorem Form.mem_children_withChildren {child : NodeId}
    (h : child ∈ (form.withChildren news).children) : child ∈ news ∨ child ∈ form.children := by
  have hPlaced {α : Type} {entry : α → NodeId} {place : α → NodeId → α} (hPlace : ∀ e new, entry (place e new) = new)
      {entries : List α} (hMem : child ∈ (List.zipWith place entries news).map entry) : child ∈ news := by
    obtain ⟨e, he, rfl⟩ := mem_map.1 hMem
    obtain ⟨i, _, rfl⟩ := getElem_of_mem he
    simp [hPlace]
  cases form with
  | list shape items => exact .inl h
  | named | indexed => exact .inl (hPlaced (fun _ _ => rfl) h)
  | allFrom | decoded => cases news <;> simp_all [withChildren, children]
  | concat left right =>
    rcases news with _ | ⟨new, _ | ⟨new', news⟩⟩ <;> simp_all [withChildren, children] <;> grind
  | _ => exact .inr h

theorem Form.Held.withChildren (h : form.Held ρ pending)
    (hNews : ∀ new ∈ news, ρ.dom new) : (form.withChildren news).Held ρ pending where
  inside.children child hChild := (Form.mem_children_withChildren hChild).elim (hNews child) (h.inside.children child)
  inside.resolved last hLast := h.inside.resolved last (Form.resolved?_withChildren form news ▸ hLast)
  inside.mentions r hr := h.inside.mentions r (by cases form <;> exact hr)
  followed r hForm := h.followed r (by cases form <;> cases hForm; rfl)

theorem Form.rename_withChildren (ρ : NodeId → NodeId) (form : Form) (news : List NodeId) :
    (form.rename ρ).withChildren (news.map ρ) = (form.withChildren news).rename ρ := by
  cases form with
  | allFrom | decoded => cases news <;> rfl
  | concat left right => rcases news with _ | ⟨new, _ | ⟨new', news⟩⟩ <;> rfl
  | _ => simp [withChildren, rename, zipWith_map, map_zipWith, NamedEntry.rename, IndexedEntry.rename]

theorem mirrors_mapChildrenM {f : Bool → NodeId → CheckM NodeId} (hForm : form.Held ρ pending)
    (hf : ∀ child, ρ.dom child → Echoed env ρ (fun i => f i (ρ.naming i child)) ρ.naming ρ.dom) :
    Echoed env ρ (fun i => (form.rename (ρ.naming i)).mapChildrenM (f i)) (fun i copy => copy.rename (ρ.naming i))
      (Form.Held ρ pending) := by
  have hRenamed : ∀ i, (form.rename (ρ.naming i)).children = form.children.map (ρ.naming i) := by
    intro i
    cases form <;> simp [Form.rename, Form.children, NamedEntry.rename, IndexedEntry.rename, InlineTemplate.rename]
  simp only [Form.mapChildrenM_eq, hRenamed]
  apply Pairs.bind (paired.mapM fun child hChild => hf child (hForm.inside.children child hChild))
  intro news hNews
  exact paired.pure (hForm.withChildren hNews) fun i => form.rename_withChildren _ news

theorem mirrors_copyWithin (hDepth : ρ.naming.Depths least depth) (hId : ρ.dom id) :
    Echoed env ρ (fun i => onStore (copyWithin (depth i) (ρ.naming i id))) ρ.naming ρ.dom := by
  induction least generalizing depth id with
  | zero =>
    apply Pairs.throw
    intro i hLead
    rw [(hDepth i).2 hLead]
    rfl
  | succ least ih =>
    obtain ⟨depth, hLess, rfl⟩ := hDepth.pred
    simp only [copyWithin, onStore_bind, onStore_mapChildrenM]
    apply Mirrors.bind (mirrors_node hId)
    intro t t' ht
    have hForm : t.form.Held ρ (NonePending id) := ⟨ht.inside, ht.followed⟩
    have hCopy := mirrors_mapChildrenM (f := fun i child => onStore (copyWithin (depth i) child)) hForm
      fun child hChild => ih hLess hChild
    simp only [Pairs, Renaming.naming_false, Form.rename_self, Renaming.naming_true, ← ht.alike.form] at hCopy
    apply Mirrors.bind hCopy
    rintro copy _ ⟨_, hCopy, rfl, rfl⟩
    refine mirrors_alloc (t := fun i => cond i { t' with form := copy.rename ρ, governor := none, marks := {} }
      { t with form := copy, governor := none, marks := {} }) fun pending => ?_
    exact ⟨{ ht.alike with form := rfl, governor := rfl, marks := rfl }, hCopy.inside, ht.base,
      fun r hr => (hCopy.followed r hr).imp_left False.elim⟩

end Copies

theorem splices_paired : ρ.naming.Splices (Echoed env ρ) where
  toWalks := paired.toWalks
  lastTemplate := mirrors_lastTemplate
  deepCopy hId := by
    simp only [deepCopy, onStore_bind]
    exact .sizes_then fun _ _ hDepth => mirrors_copyWithin hDepth hId
  alloc _ hMentions := mirrors_alloc fun _ =>
    ⟨⟨rfl, rfl, rfl, rfl, rfl, rfl, rfl⟩, Form.inside_of_none rfl rfl hMentions, nofun, nofun⟩
  giveUp := mirrors_markErroneous

theorem unfolds_paired : ρ.naming.Unfolds (Echoed env ρ) where
  toSplices := splices_paired
  mark m hId := mirrors_mark hId m
  fill shape hId hItems := mirrors_replaceForm hId (.list shape _) ⟨hItems, nofun, nofun⟩ nofun fun _ _ hn => hn
  settle flattened hId := mirrors_settle hId flattened

theorem mirrors_expandWithin (depth : Nat) (inPermutation : Bool) (active : List DefId) (items : List NodeId)
    (hItems : ρ.naming.All items) :
    Echoed env ρ (fun i => expandWithin depth inPermutation active (items.map (ρ.naming i))) ρ.naming.expanded
      ρ.naming.Expanded := by
  induction depth generalizing inPermutation active items with
  | zero => exact .throw fun _ _ => rfl
  | succ depth ih =>
    apply paired.foldlM ρ.naming.expanded (b := ([], true)) nofun
    exact fun done hDone item hItem => unfolds_paired.expandItem (e := fun _ => expandWithin depth) ih
      (hItems item hItem) hDone

variable {P : NodeId → Prop}

section Length

variable {items : List NodeId}

theorem foldlM_map_ok {α β γ : Type} {f : β → α → Except Fault β} {g : β → γ → Except Fault β} {h : α → γ}
    {xs : List α} (hStep : ∀ a ∈ xs, ∀ b c, f b a = .ok c → g b (h a) = .ok c) {b c : β}
    (hFold : xs.foldlM f b = .ok c) : (xs.map h).foldlM g b = .ok c := by
  induction xs generalizing b with
  | nil => exact hFold
  | cons a xs ih =>
    rw [foldlM_cons] at hFold
    rw [map_cons, foldlM_cons]
    cases hFirst : f b a with
    | error fault =>
      rw [hFirst] at hFold
      cases hFold
    | ok next =>
      rw [hFirst] at hFold
      rw [hStep a mem_cons_self b next hFirst]
      exact ih (fun a ha => hStep a (mem_cons_of_mem _ ha)) hFold

theorem Store.Agree.tallyWithin {s s' : Store} (h : s.Agree ρ P s') {depth depth' : Nat} (hDepth : depth ≤ depth')
    (hItems : ∀ item ∈ items, ρ.dom item) {total : Extent}
    (hTotal : s.tallyWithin itemExtent Extent.add {} depth items = .ok total) :
    s'.tallyWithin itemExtent Extent.add {} depth' (items.map ρ) = .ok total := by
  induction depth generalizing depth' items total with
  | zero => cases hTotal
  | succ depth ih =>
    obtain ⟨depth', rfl⟩ : ∃ k, depth' = k + 1 := ⟨depth' - 1, by omega⟩
    refine foldlM_map_ok (fun item hItem sum next hStep => ?_) hTotal
    cases hFound : s.get? item with
    | none => simp [formOf, hFound, bind, Except.bind] at hStep
    | some t =>
      obtain ⟨t', hFound', hMatches⟩ := h.nodes item t (hItems item hItem) hFound
      have hChildren := hMatches.inside.children
      simp only [formOf, hFound, bind, Except.bind] at hStep
      simp only [formOf, hFound', hMatches.alike.form, bind, Except.bind]
      cases hOwn : t.form with
      | list shape members =>
        rw [hOwn] at hStep hChildren
        cases shape with
        | permutation =>
          dsimp only [Form.rename] at hStep ⊢
          cases hInner : s.tallyWithin itemExtent Extent.add {} depth members with
          | error fault =>
            rw [hInner] at hStep
            cases hStep
          | ok inner =>
            rw [hInner] at hStep
            have hMembers : ∀ member ∈ members, ρ.dom member := hChildren
            rw [ih (Nat.le_of_succ_le_succ hDepth) hMembers hInner]
            exact hStep
        | _ => exact hStep
      | _ =>
        rw [hOwn] at hStep
        exact hStep

theorem mirrors_extent (hItems : ∀ item ∈ items, ρ.dom item) :
    Agreed (Paired env ρ P) fun i => extent (items.map (ρ.naming i)) := by
  apply Mirrors.agreed
  apply Mirrors.store_then
  intro s s' hAgree
  cases hTotal : s.extent (items.map (ρ.naming false)) with
  | error fault => exact .throw fault
  | ok total =>
    simp only [Renaming.naming_false, map_id'] at hTotal
    have hTotal' : s'.extent (items.map (ρ.naming true)) = .ok total :=
      hAgree.tallyWithin (Nat.succ_le_succ hAgree.size_le) hItems hTotal
    rw [hTotal']
    exact .pure rfl

end Length

section Values

variable (hId : ρ.dom id)

include hId

theorem mirrors_inheritBase {base : NodeId} (hBase : ρ.dom base) :
    Agreed (Paired env ρ P) fun i => inheritBase (ρ.naming i id) (ρ.naming i base) := by
  apply Mirrors.agreed
  apply mirrors_modifyNode hId
  · intro t t' ht
    refine ⟨{ ht.alike with base := ?_ }, ht.inside, ?_, ht.followed⟩
    · change t'.base.or (some (ρ base)) = (t.base.or (some base)).map ρ
      rw [ht.alike.base]
      cases t.base <;> rfl
    · intro found hFound
      obtain hFound | ⟨-, hFound⟩ := Option.or_eq_some_iff.1 hFound
      · exact ht.base found hFound
      · cases hFound
        exact hBase
  · exact fun _ _ hn => hn

omit hId in
theorem reshapes_paired {T : NodeId → Prop} (hT : ∀ {id}, T id → ρ.dom id) : ρ.naming.Reshapes T (Paired env ρ P) where
  toReports := paired
  lastTemplate := mirrors_lastTemplate
  extent := mirrors_extent
  known := hT
  inside c hx := ((Pairs.same hx).inside c).agreed
  mark m hId _ := mirrors_mark (hT hId) m
  giveUp span _ hId := paired.next (paired.tell span _) fun _ => mirrors_markErroneous (hT hId)
  basePart r _ type := mirrors_basePart r type
  linkBase hId := mirrors_linkBase (hT hId)
  inheritBase hId := mirrors_inheritBase (hT hId)
  undefined _ _ _ := .throw fun _ _ => rfl
  giveUpWith hId hLeft hRight := paired.next (paired.isErroneous hLeft) fun _ => paired.next (paired.isErroneous hRight)
    fun _ => Naming.Looks.ite (paired.next (mirrors_markErroneous (hT hId)) fun _ => paired.done _) (paired.done _)
  become hId _ := mirrors_replaceForm_plain (hT hId)

/-- The node is pending from the moment it is recognized until its placement is looked at. -/
theorem mirrors_recognized {α β : Type} {site : Site} {x : Bool → CheckM α} {view : Bool → β → α} {ok : β → Prop}
    (hx : Echoed env ρ x view ok) : Echoed env ρ (fun i => do
      recognizeReference (ρ.naming i id); checkSupported (ρ.naming i id); checkPlacement (ρ.naming i id) site; x i)
      view ok := by
  apply Pairs.bind (mirrors_recognizeReference hId)
  intro _ _
  apply Pairs.bind ((reshapes_paired fun hDom => hDom).checkSupported hId)
  intro _ _
  have hPlacement : Agreed (Pairs env ρ (fun n => NonePending n ∨ n = id) NonePending) fun i =>
      checkPlacement (ρ.naming i id) site := by
    have hNone : ∀ n, (NonePending n ∨ n = id) ∧ n ≠ id → NonePending n := fun n hn => hn.1.resolve_right hn.2
    apply Pairs.bind ((mirrors_lastTemplate_settled hId).loosen hNone)
    intro last hLast
    apply paired.formOf_then hLast
    intro form _
    cases form with
    | omitted | anyOrOmit => exact Naming.Looks.ite (paired.complain hId _) (paired.done _)
    | _ => exact paired.done _
  exact Pairs.bind hPlacement fun _ _ => hx

variable {entries : List NamedEntry} (hEntries : ∀ e ∈ entries, ρ.dom e.template)

include hEntries

theorem mirrors_name :
    Agreed (Paired env ρ P) fun i => replaceForm (ρ.naming i id) (.named (entries.map (·.rename (ρ.naming i)))) :=
  mirrors_replaceForm hId (.named entries) ⟨forall_mem_map.2 hEntries, nofun, nofun⟩ nofun fun _ _ hn => hn

theorem mirrors_fillOmitted (fields : List FieldDecl) :
    Agreed (Paired env ρ P) fun i => fillOmitted (ρ.naming i id) (entries.map (·.rename (ρ.naming i))) fields := by
  refine Naming.Looks.ite (paired.done _) (paired.node_then hId fun t shown ht => ?_)
  simp only [ht.like.span]
  have hField : ∀ field ∈ fields, Paired env ρ P (fun _ => do
      let template ← onStore (alloc (implicitOmit field.type t.span))
      return { name := field.name, template, span := t.span : NamedEntry })
      (fun i => NamedEntry.rename (ρ.naming i)) fun e => ρ.dom e.template := by
    intro field _
    refine Pairs.bind (mirrors_alloc (t := fun _ => implicitOmit field.type t.span) fun _ => ?_) fun template hDom => ?_
    · exact ⟨⟨rfl, rfl, rfl, rfl, rfl, rfl, rfl⟩, Form.inside_of_none rfl rfl rfl, nofun, nofun⟩
    · exact paired.give ⟨field.name, template, t.span⟩ rfl hDom
  have hFilled := paired.mapM (g := fun _ field => field) hField
  simp only [map_id'] at hFilled
  apply Pairs.bind hFilled
  intro filled hDom
  simp only [← map_append]
  exact mirrors_name hId (forall_mem_append.2 ⟨hEntries, hDom⟩)

end Values

theorem checks_paired : ρ.naming.Checks ρ.dom ρ.dom (Echoed env ρ) where
  toReshapes := reshapes_paired or_self_iff.1
  children_then hId hf := paired.formOf_then (or_self_iff.1 hId) fun form hForm => hf form hForm hForm.children
  recognized_then hId hx := mirrors_recognized hId hx
  govern type hId := mirrors_govern (or_self_iff.1 hId) type
  name hId hEntries := mirrors_name hId hEntries
  fillOmitted fields hId hEntries := mirrors_fillOmitted hId hEntries fields

theorem restricts_paired : ρ.naming.Restricts (Echoed env ρ) where
  toReports := paired
  endless hx := .throw hx
  undefined _ _ _ := .throw fun _ _ => rfl
  sizes_then := .sizes_then
  lastTemplate := mirrors_lastTemplate
  mark hId := mirrors_mark hId _

theorem mirrors_checkWithin (depth : Nat) (id : NodeId) (type : TypeKey) (site : Site) (hId : ρ.dom id) :
    Agreed (Echoed env ρ) fun i => checkWithin depth (ρ.naming i id) type site := by
  induction depth generalizing id type site with
  | zero => exact .throw fun _ _ => rfl
  | succ depth ih =>
    exact checks_paired.checkStep (c := fun _ => checkWithin depth) ih (l := fun _ => flattenWithin depth)
      (fun _ hId => .read_then (unfolds_paired.expandNode (e := fun _ => expandWithin depth)
        (mirrors_expandWithin depth) hId)) hId type site

theorem mirrors_restrictWithin (use : RestrictedUse) (depth : Nat) (id : NodeId) (required : Restriction)
    (hId : ρ.dom id) : Agreed (Echoed env ρ) fun i => restrictWithin use depth (ρ.naming i id) required := by
  induction depth generalizing id required with
  | zero => exact .throw fun _ _ => rfl
  | succ depth ih => exact restricts_paired.restrictStep (r := fun _ => restrictWithin use depth) ih use hId required

section Definitions

variable {d : DefId}

def Renaming.Hosts (ρ : Renaming env.definitions) (d : DefId) : Prop :=
  ∀ definition template, env.definitions.get? d = some definition → definition.kind.template? = some template →
    ρ.Id template.body template.body ∧ ∀ r, template.modifies = some r → ρ.Covers r

theorem mirrors_checkBody (depth : Nat) (h : ρ.Hosts d) {definition : Definition} {template : TemplateDef}
    (hGet : env.definitions.get? d = some definition) (hTemplate : definition.kind.template? = some template)
    (current : Option DefId) :
    Mirrors { env with current } ρ NonePending NonePending
      (checkInline (checkWithin depth) (template.inline definition.span) definition.type)
      (checkInline (checkWithin depth) (template.inline definition.span) definition.type) Eq := by
  obtain ⟨⟨hBody, hFixed⟩, hModifies⟩ := h definition template hGet hTemplate
  have hBody' : ρ.dom (template.inline definition.span).body := hBody
  have hChecks := @checks_paired { env with current } ρ
  have hInline := hChecks.checkInline (c := fun _ => checkWithin depth) hChecks.unflagged
    (@mirrors_checkWithin { env with current } ρ depth) hBody'
    (fun r hr => @Renaming.Covers.naming { env with current } ρ r (hModifies r hr)) definition.type
  have hSame : (template.inline definition.span).rename ρ = template.inline definition.span := by
    simp only [InlineTemplate.rename, TemplateDef.inline, ← hFixed]
  have hMirrors := hInline.same
  simp only [Renaming.naming_true, hSame] at hMirrors
  exact hMirrors

theorem mirrors_checkDefinition (depth : Nat) (h : ρ.Hosts d) :
    Echoes env ρ (checkDefinition depth d) (checkDefinition depth d) Eq := by
  apply Mirrors.read_then
  cases hGet : env.definitions.get? d with
  | none => exact .throw _
  | some definition =>
    dsimp only
    cases hTemplate : definition.kind.template? with
    | none => exact .pure rfl
    | some template =>
      apply (Mirrors.withCurrent (mirrors_checkBody depth h hGet hTemplate (some d))).bind
      rintro outcome _ rfl
      obtain ⟨⟨hBody, hFixed⟩, -⟩ := h definition template hGet hTemplate
      have hRestrict := (mirrors_restrictWithin ⟨definition.description, definition.span⟩ depth template.body
        template.restriction hBody).same
      simp only [Renaming.naming_true, ← hFixed] at hRestrict
      have hRestriction : Agreed (Echoed env ρ) fun _ => restrictDefinition depth definition template :=
        paired.next (Mirrors.agreed (x := fun _ => _) hRestrict) fun _ => paired.done _
      exact (paired.onlyIf hRestriction).same.bind fun _ _ _ => .pure rfl

end Definitions

end TemplateCheck
