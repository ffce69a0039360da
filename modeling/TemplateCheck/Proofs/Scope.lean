import TemplateCheck.Proofs.Locality.Check
import TemplateCheck.Proofs.Locality.Restricted
import TemplateCheck.Proofs.Renaming.Check
import TemplateCheck.Proofs.Safety.Session

/-!
# What the check of a definition depends on

The check of a definition looks at nothing outside of its scope: the nodes that links and references lead to from its
body, with the whole trees around them. It changes nothing but the nodes below its body, and adds nodes. So it does not
notice changes outside of its scope, where templates may change in marks that no check reads.
-/

namespace TemplateCheck

open List Renaming Definitions Store

variable {t t' : Template} {report : Report} {after : CheckState}

section Kept

variable {ρ σ π : NodeId → NodeId} {form : Form} {t'' : Template}

theorem Form.rename_rename (form : Form) : (form.rename ρ).rename σ = form.rename fun n => σ (ρ n) := by
  cases form with
  | referenced r resolved => cases resolved <;> rfl
  | list shape items => exact congrArg (Form.list shape) map_map
  | named entries => exact congrArg Form.named map_map
  | indexed entries => exact congrArg Form.indexed map_map
  | _ => rfl

theorem Form.rename_congr (hChildren : ∀ child ∈ form.children, ρ child = σ child)
    (hResolved : ∀ last, form.resolved? = some last → ρ last = σ last) : form.rename ρ = form.rename σ := by
  cases form with
  | referenced r resolved =>
    cases resolved with
    | none => rfl
    | some last => exact congrArg (fun last => Form.referenced r (some last)) (hResolved last rfl)
  | list shape items => exact congrArg (Form.list shape) (map_congr_left hChildren)
  | named entries =>
    apply congrArg Form.named
    apply map_congr_left
    intro e he
    rw [NamedEntry.rename, NamedEntry.rename, hChildren e.template (mem_map_of_mem he)]
  | indexed entries =>
    apply congrArg Form.indexed
    apply map_congr_left
    intro e he
    rw [IndexedEntry.rename, IndexedEntry.rename, hChildren e.template (mem_map_of_mem he)]
  | allFrom target => exact congrArg Form.allFrom (hChildren target mem_cons_self)
  | decoded encoding target =>
    have hBody : ρ target.body = σ target.body := hChildren target.body mem_cons_self
    simp only [rename, InlineTemplate.rename, hBody]
  | concat left right =>
    have hLeft : ρ left = σ left := hChildren left mem_cons_self
    have hRight : ρ right = σ right := hChildren right (mem_cons_of_mem _ mem_cons_self)
    simp only [rename, hLeft, hRight]
  | _ => rfl

theorem Template.Alike.join (h : t.Alike ρ t') (h' : t.Alike σ t'')
    (hLinks : ∀ link ∈ t.links, π (ρ link) = σ link) : t'.Alike π t'' where
  form := by
    rw [h.form, h'.form, Form.rename_rename]
    apply Form.rename_congr
    · intro child hChild
      exact (hLinks child (by simp [links, hChild])).symm
    · intro last hLast
      exact (hLinks last (by simp [links, hLast])).symm
  base := by
    rw [h.base, h'.base]
    cases hBase : t.base with
    | none => rfl
    | some base => exact congrArg some (hLinks base (by simp [links, hBase])).symm
  governor := h'.governor.trans h.governor.symm
  length := h'.length.trans h.length.symm
  ifPresent := h'.ifPresent.trans h.ifPresent.symm
  span := h'.span.trans h.span.symm
  marks := h'.marks.trans h.marks.symm

abbrev Template.Kept (t t' : Template) : Prop := t.Alike (fun n => n) t'

namespace Template.Kept

theorem form_eq (h : t.Kept t') : t'.form = t.form := h.form.trans (Form.rename_self _)

theorem base_eq (h : t.Kept t') : t'.base = t.base := h.base.trans (by simp)

theorem symm (h : t.Kept t') : t'.Kept t := h.join (Alike.of_eq rfl) fun _ _ => rfl

theorem trans (h : t.Kept t') (h' : t'.Kept t'') : t.Kept t'' := h.symm.join h' fun _ _ => rfl

end Template.Kept

theorem Template.Annotated.kept (h : t.Annotated t') (hForm : ∀ r, t.form ≠ .referenced r none) : t.Kept t' where
  form := by
    obtain hSame | ⟨r, hOld, -⟩ := h.form
    · rw [hSame, Form.rename_self]
    · exact absurd hOld (hForm r)
  base := by simp [h.base]
  governor := h.governor
  length := h.length
  ifPresent := h.ifPresent
  span := h.span
  marks := by
    obtain ⟨verified, followed, hFollowed, hMarks⟩ := h.marks
    cases followed with
    | true =>
      obtain ⟨r, hOld⟩ := hFollowed rfl
      exact absurd hOld (hForm r)
    | false => simp [hMarks, Marks.forget]

end Kept

/-- The chain of every referenced template has been followed. -/
def Store.Followed (s : Store) : Prop := ∀ id t r, s.get? id = some t → t.form ≠ .referenced r none

theorem Store.followed_of_forall {s : Store}
    (h : ∀ t ∈ s.nodes, t.form.variant = .referenced → t.form.resolved?.isSome) : s.Followed := by
  intro id t r hFound hForm
  have hSome := h t (mem_of_getElem? hFound)
  rw [hForm] at hSome
  exact absurd (hSome rfl) nofun

variable {env : Env} {defs : Definitions} {s s' : Store} {D : NodeId → Prop} {n m : NodeId} {d e : DefId}

section Bodies

def Definitions.body? (defs : Definitions) (d : DefId) : Option NodeId :=
  ((defs.get? d).bind (·.kind.template?)).map (·.body)

theorem Definitions.body?_eq {definition : Definition} {template : TemplateDef}
    (hGet : defs.get? d = some definition) (hTemplate : definition.kind.template? = some template) :
    defs.body? d = some template.body := by
  simp [body?, hGet, hTemplate]

theorem Definitions.exists_of_body? (h : defs.body? d = some n) : ∃ definition template,
    defs.get? d = some definition ∧ definition.kind.template? = some template ∧ template.body = n := by
  obtain ⟨template, hBind, hBody⟩ := Option.map_eq_some_iff.1 h
  obtain ⟨definition, hGet, hTemplate⟩ := Option.bind_eq_some_iff.1 hBind
  exact ⟨definition, template, hGet, hTemplate, hBody⟩

theorem Store.WellFormed.has_body (h : s.WellFormed defs) (hBody : defs.body? d = some n) : s.Has n := by
  obtain ⟨definition, template, hGet, hTemplate, rfl⟩ := exists_of_body? hBody
  exact h.bodies definition (mem_of_getElem? hGet) template hTemplate

end Bodies

section Leads

/-- A check that comes across the first node may come across the second. -/
inductive Store.Leads (defs : Definitions) (s : Store) : NodeId → NodeId → Prop where
  | child {n m : NodeId} (h : s.Child n m) : Leads defs s n m
  | parent {n m : NodeId} (h : s.Child m n) : Leads defs s n m
  | base {n m : NodeId} {t : Template} (hFound : s.get? n = some t) (h : t.base = some m) : Leads defs s n m
  | last {n m : NodeId} {t : Template} (hFound : s.get? n = some t) (h : t.form.resolved? = some m) : Leads defs s n m
  | mention {n m : NodeId} {t : Template} {r : Reference} {d : DefId} (hFound : s.get? n = some t)
    (h : r ∈ t.form.mentions) (hTarget : r.target = some d) (hBody : defs.body? d = some m) : Leads defs s n m
  | modified {m : NodeId} {d e : DefId} {definition : Definition} {template : TemplateDef} {r : Reference}
    (hGet : defs.get? d = some definition) (hTemplate : definition.kind.template? = some template)
    (h : template.modifies = some r) (hTarget : r.target = some e) (hBody : defs.body? e = some m) :
    Leads defs s template.body m

structure Store.Sealed (defs : Definitions) (s : Store) (D : NodeId → Prop) : Prop where
  has : ∀ n, D n → s.Has n
  leads : ∀ n m, D n → s.Leads defs n m → D m

def Store.Scope (defs : Definitions) (s : Store) (d : DefId) (n : NodeId) : Prop :=
  ∃ body, defs.body? d = some body ∧ Relation.ReflTransGen (s.Leads defs) body n

def Store.Tree (defs : Definitions) (s : Store) (d : DefId) (n : NodeId) : Prop :=
  ∃ body, defs.body? d = some body ∧ s.Below body n

theorem Store.WellFormed.has_of_leads (hs : s.WellFormed defs) (h : s.Leads defs n m) : s.Has m := by
  cases h with
  | child h =>
    obtain ⟨t, hFound, hMem⟩ := h
    exact hs.backed.has_child hFound hMem
  | parent h =>
    obtain ⟨t, hFound, -⟩ := h
    exact has_of_get? hFound
  | base hFound h => exact hs.backed.has_base hFound h
  | last hFound h => exact hs.links n _ hFound m (by simp [Template.links, h])
  | mention _ _ _ hBody | modified _ _ _ _ hBody => exact hs.has_body hBody

theorem Store.WellFormed.sealed_has (hs : s.WellFormed defs) : s.Sealed defs s.Has :=
  ⟨fun _ hn => hn, fun _ _ _ hLeads => hs.has_of_leads hLeads⟩

theorem Store.WellFormed.sealed_scope (hs : s.WellFormed defs) (d : DefId) : s.Sealed defs (s.Scope defs d) where
  has := by
    rintro n ⟨body, hBody, hReach⟩
    obtain rfl | ⟨m, -, hLeads⟩ := Relation.ReflTransGen.cases_tail hReach
    · exact hs.has_body hBody
    · exact hs.has_of_leads hLeads
  leads := by
    rintro n m ⟨body, hBody, hReach⟩ hLeads
    exact ⟨body, hBody, hReach.tail hLeads⟩

theorem Store.Sealed.scope (hD : s.Sealed defs D) (hBody : ∀ body, defs.body? d = some body → D body) :
    ∀ n, s.Scope defs d n → D n := by
  rintro n ⟨body, hFound, hReach⟩
  induction hReach with
  | refl => exact hBody body hFound
  | tail _ hLeads ih => exact hD.leads _ _ ih hLeads

theorem Store.Sealed.of_below (hD : s.Sealed defs D) (hBelow : s.Below n m) : D m ↔ D n := by
  induction hBelow with
  | refl => exact Iff.rfl
  | tail _ hChild ih => exact ⟨fun h => ih.1 (hD.leads _ _ h (.parent hChild)),
      fun h => hD.leads _ _ (ih.2 h) (.child hChild)⟩

theorem Store.Sealed.of_tree (hD : s.Sealed defs D) (hBody : ∀ body, defs.body? d = some body → D body)
    (hTree : s.Tree defs d n) : D n := by
  obtain ⟨body, hFound, hBelow⟩ := hTree
  exact (hD.of_below hBelow).2 (hBody body hFound)

theorem Store.Sealed.not_tree (hD : s.Sealed defs D) (hNot : ∀ body, defs.body? d = some body → ¬ D body)
    (hn : D n) : ¬ s.Tree defs d n := by
  rintro ⟨body, hBody, hBelow⟩
  exact hNot body hBody ((hD.of_below hBelow).1 hn)

def Store.Parted (defs : Definitions) (s : Store) (p : NodeId → Bool) : Prop :=
  (∀ node ∈ s.nodes.zipIdx, (∀ child ∈ node.1.form.children, p child = p ⟨node.2⟩) ∧
    (p ⟨node.2⟩ → (∀ base ∈ node.1.base.toList, p base) ∧ (∀ last ∈ node.1.form.resolved?.toList, p last) ∧
      ∀ r ∈ node.1.form.mentions, ∀ body ∈ (r.target.bind defs.body?).toList, p body)) ∧
  ∀ definition ∈ defs.entries, ∀ template ∈ definition.kind.template?.toList, p template.body →
    ∀ r ∈ template.modifies.toList, ∀ body ∈ (r.target.bind defs.body?).toList, p body

instance {p : NodeId → Bool} : Decidable (s.Parted defs p) := inferInstanceAs (Decidable (_ ∧ _))

theorem Store.Parted.sealed {p : NodeId → Bool} (h : s.Parted defs p) (hs : s.WellFormed defs) :
    s.Sealed defs fun n => s.Has n ∧ p n := by
  have hNode : ∀ id t, s.get? id = some t → (t, id.index) ∈ s.nodes.zipIdx := fun id t hFound =>
    mem_zipIdx_iff_getElem?.2 hFound
  refine ⟨fun n hn => hn.1, fun n m hn hLeads => ⟨hs.has_of_leads hLeads, ?_⟩⟩
  cases hLeads with
  | child hChild =>
    obtain ⟨t, hFound, hMem⟩ := hChild
    exact ((h.1 _ (hNode n t hFound)).1 m hMem).trans hn.2
  | parent hChild =>
    obtain ⟨t, hFound, hMem⟩ := hChild
    exact ((h.1 _ (hNode m t hFound)).1 n hMem).symm.trans hn.2
  | base hFound hBase => exact ((h.1 _ (hNode n _ hFound)).2 hn.2).1 m (by simp [hBase])
  | last hFound hLast => exact ((h.1 _ (hNode n _ hFound)).2 hn.2).2.1 m (by simp [hLast])
  | mention hFound hMention hTarget hBody =>
    exact ((h.1 _ (hNode n _ hFound)).2 hn.2).2.2 _ hMention m (by simp [hTarget, hBody])
  | modified hGet hTemplate hModifies hTarget hBody =>
    exact h.2 _ (mem_of_getElem? hGet) _ (Option.mem_toList.2 hTemplate) hn.2 _
      (Option.mem_toList.2 hModifies) m (by simp [hTarget, hBody])

end Leads

section Shift

variable {α : Type}

/-- Nodes that are not in the store are moved up, as they are where other nodes were added first. -/
def Renaming.shift (defs : Definitions) (s : Store) (k : Nat) (D : NodeId → Prop) : Renaming defs where
  map n := if n.index < s.size then n else ⟨n.index + k⟩
  dom n := D n ∨ ¬ s.Has n
  injective {n m} _ _ hEq := by
    obtain ⟨n⟩ := n
    obtain ⟨m⟩ := m
    simp only at hEq
    split at hEq <;> split at hEq <;> simp only [NodeId.mk.injEq] at hEq ⊢ <;> omega

variable {k : Nat} {x : CheckM α} {a : α}

theorem Renaming.shift_of_has (hn : s.Has n) : Renaming.shift defs s k D n = n := if_pos hn

theorem Renaming.shift_of_not_has (hn : ¬ s.Has n) : Renaming.shift defs s k D n = ⟨n.index + k⟩ := if_neg hn

theorem Renaming.shift_size (hSize : s'.size = s.size + k) (j : Nat) :
    Renaming.shift defs s k D ⟨s.size + j⟩ = ⟨s'.size + j⟩ := by
  rw [shift_of_not_has (fun hHas : s.size + j < s.size => by omega)]
  simp only [NodeId.mk.injEq]
  omega

theorem Store.Sealed.agree (hD : s.Sealed defs D) (hs : s.WellFormed defs) (hFollowed : s.Followed)
    (hSize : s'.size = s.size + k) (hKept : ∀ n t, D n → s.get? n = some t → ∃ t', s'.get? n = some t' ∧ t.Kept t') :
    s.Agree (.shift defs s k D) NonePending s' where
  nodes n t hn hFound := by
    have hHas := has_of_get? hFound
    have hDn : D n := hn.resolve_right fun hNot => hNot hHas
    obtain ⟨t', hFound', hAlike⟩ := hKept n t hDn hFound
    refine ⟨t', by rwa [shift_of_has hHas], ?_, ⟨?_, ?_, ?_⟩, ?_, ?_⟩
    · have hSame : t.Kept t := .of_eq rfl
      exact hSame.join hAlike fun link hLink => shift_of_has (hs.links n t hFound link hLink)
    · intro child hChild
      exact .inl (hD.leads n child hDn (.child ⟨t, hFound, hChild⟩))
    · intro last hLast
      exact .inl (hD.leads n last hDn (.last hFound hLast))
    · intro r hr definition template hTarget hTemplate
      obtain ⟨d, hd, hGet⟩ := Option.bind_eq_some_iff.1 hTarget
      have hBody := body?_eq hGet hTemplate
      exact ⟨.inl (hD.leads n _ hDn (.mention hFound hr hd hBody)), (shift_of_has (hs.has_body hBody)).symm⟩
    · intro base hBase
      exact .inl (hD.leads n base hDn (.base hFound hBase))
    · intro r hr
      exact absurd hr (hFollowed n t r hFound)
  fresh n hn := .inr hn
  shift := shift_size hSize
  size_le := by omega

theorem Store.WellFormed.hosts {ρ : Renaming env.definitions} (hs : s.WellFormed env.definitions)
    (hDom : ∀ n, ρ.dom n) (hFixed : ∀ n, s.Has n → ρ n = n) (d : DefId) : ρ.Hosts d := by
  intro definition template hGet hTemplate
  have hBody : ∀ e n, env.definitions.body? e = some n → ρ.Id n n := fun e n hBody =>
    ⟨hDom n, (hFixed n (hs.has_body hBody)).symm⟩
  refine ⟨hBody d _ (body?_eq hGet hTemplate), fun r _ other modified hTarget hModified => ?_⟩
  obtain ⟨e, -, hOther⟩ := Option.bind_eq_some_iff.1 hTarget
  exact hBody e _ (body?_eq hOther hModified)

theorem Store.Sealed.agree_after {R : α → α → Prop} (hD : s.Sealed env.definitions D)
    (hs : s.WellFormed env.definitions) (hFollowed : s.Followed)
    (hx : Mirrors env (.shift _ s 0 D) NonePending NonePending x x R)
    (hRun : (x env).run ⟨s, report⟩ = (.ok a, after)) :
    after.store.Agree (.shift env.definitions s 0 D) NonePending after.store := by
  have hAgree : s.Agree (.shift env.definitions s 0 D) NonePending s :=
    hD.agree hs hFollowed rfl fun n t _ hFound => ⟨t, hFound, .of_eq rfl⟩
  have hTwin : Twin (.shift env.definitions s 0 D) NonePending report.diagnostics report.diagnostics ⟨s, report⟩
      ⟨s, report⟩ := ⟨hAgree, rfl, [], by simp, by simp⟩
  obtain ⟨_, _, hRun', -, hTwin'⟩ := hx.run _ _ _ _ a after hTwin hRun
  cases hRun.symm.trans hRun'
  exact hTwin'.store

theorem followed_of_mirrors (hs : s.WellFormed env.definitions) (hFollowed : s.Followed)
    (hx : ∀ ρ : Renaming env.definitions, (∀ d, ρ.Hosts d) → Echoes env ρ x x Eq)
    (hRun : (x env).run ⟨s, report⟩ = (.ok a, after)) :
    after.store.Followed := by
  have hHosts := hs.hosts (fun n => Classical.em _) fun n => shift_of_has (D := s.Has) (k := 0)
  have hAgree := hs.sealed_has.agree_after hs hFollowed (hx _ hHosts) hRun
  intro n t r hFound hForm
  obtain ⟨t', -, hMatches⟩ := hAgree.nodes n t (Classical.em _) hFound
  exact (hMatches.followed r hForm).1

end Shift

section Frame

instance : Course Template.Kept := ⟨fun _ => .of_eq rfl, .trans⟩

abbrev Store.Framed : (NodeId → Prop) → Store → Store → Prop := Bounds Template.Kept

theorem Store.Confined.framed (h : s.Confined D s') (hs : s.Followed) : s.Framed D s' where
  size_le := h.size_le
  closed := h.closed
  nodes n t hFound := by
    obtain ⟨t', hFound', hPursued⟩ := h.nodes n t hFound
    exact ⟨t', hFound', fun hOut => .of_eq ((hPursued hOut).eq_of_form fun r => hs n t r hFound)⟩

theorem Store.Annotates.framed (h : s.Annotates s') (hs : s.Followed) : s.Framed D s' where
  size_le := Nat.le_of_eq h.size_eq.symm
  closed hClosed := by
    refine ⟨fun n hNew => hClosed.new n (hNew ∘ h.has_iff.2), ?_⟩
    rintro parent child hParent ⟨t', hFound', hMem⟩
    obtain ⟨t, hFound, hAnnotated⟩ := h.of_get? hFound'
    rw [(hAnnotated.kept fun r => hs parent t r hFound).form_eq] at hMem
    exact hClosed.child parent child hParent ⟨t, hFound, hMem⟩
  nodes n t hFound := by
    obtain ⟨t', hFound', hAnnotated⟩ := h.nodes n t hFound
    exact ⟨t', hFound', fun _ => hAnnotated.kept fun r => hs n t r hFound⟩

theorem steps_checkInline {check : ChildCheck} (hCheck : check.Confined D env) (hClosed : s.Closed D)
    {inline : InlineTemplate} (hBody : D inline.body) (expected : Option TypeKey) :
    Steps (Confined D) env s (checkInline check inline expected) := by
  apply ((steps_bindGovernor inline expected).confined hBody).bind
  intro governor s1 hConfined _
  split
  · exact hCheck s1 inline.body _ inline.site (hConfined.closed hClosed) hBody
  · apply (Still.tell _ _).then
    intro _
    exact (steps_markErroneous.confined hBody).finish

theorem steps_checkDefinition (hs : s.WellFormed env.definitions) (hFollowed : s.Followed)
    (hClosed : s.Closed D) (hBody : ∀ body, env.definitions.body? d = some body → D body) (depth : Nat) :
    Steps (Framed D) env s (checkDefinition depth d) := by
  apply Runs.read_then
  cases hGet : env.definitions.get? d with
  | none => exact .throw trivial
  | some definition =>
    dsimp only
    cases hTemplate : definition.kind.template? with
    | none => exact .pure trivial
    | some template =>
      have hFound := hBody _ (body?_eq hGet hTemplate)
      have hInline : Moves (Framed D) env s (withReader ({ · with current := some d })
          (checkInline (checkWithin depth) (template.inline definition.span) definition.type))
          fun _ s' => s'.Followed := by
        intro report result after hRun
        have hSteps : Steps (Confined D) { env with current := some d } s
            (checkInline (checkWithin depth) (template.inline definition.span) definition.type) :=
          steps_checkInline (confined_checkWithin depth) hClosed hFound definition.type
        obtain ⟨hConfined, -⟩ := hSteps report result after hRun
        refine ⟨hConfined.framed hFollowed, ?_⟩
        obtain _ | outcome := result
        · trivial
        have hEnv : s.WellFormed { env with current := some d }.definitions := hs
        have hInner : (checkInline (checkWithin depth) (template.inline definition.span) definition.type
            { env with current := some d }).run ⟨s, report⟩ = (.ok outcome, after) := hRun
        apply followed_of_mirrors hEnv hFollowed ?_ hInner
        intro ρ hHosts
        exact mirrors_checkBody depth (hHosts d) hGet hTemplate (some d)
      apply hInline.bind
      intro outcome s1 hFramed h1
      apply (Runs.onlyIf fun _ => ?_).bind
      · exact fun _ _ _ _ => .pure trivial
      · have hRestrict : Steps Annotates env s1 (restrictDefinition depth definition template) :=
          (annotates_restrictWithin env _ depth template.body template.restriction s1).finish
        exact hRestrict.weaken fun _ hAnnotates => hAnnotates.framed h1

end Frame

section Passed

variable {depth : Nat} {outcome : Outcome}

structure Store.Passed (defs : Definitions) (d : DefId) (before after : Store) : Prop where
  wellFormed : after.WellFormed defs
  followed : after.Followed
  framed : before.Framed (fun n => before.Tree defs d n ∨ ¬ before.Has n) after
  sealed : ∀ D, before.Sealed defs D → (∀ body, defs.body? d = some body → D body) →
    after.Sealed defs fun n => D n ∨ ¬ before.Has n ∧ after.Has n

theorem Store.closed_tree (defs : Definitions) (s : Store) (d : DefId) :
    s.Closed fun n => s.Tree defs d n ∨ ¬ s.Has n where
  new _ hNew := .inr hNew
  child parent child hParent hChild := by
    obtain ⟨body, hBody, hBelow⟩ | hNew := hParent
    · exact .inl ⟨body, hBody, hBelow.tail hChild⟩
    · obtain ⟨t, hFound, -⟩ := hChild
      exact absurd (has_of_get? hFound) hNew

theorem Store.Framed.child (h : s.Framed D s') (hn : s.Has n) (hOut : ¬ D n) (hChild : s'.Child n m) : s.Child n m := by
  obtain ⟨t, hFound⟩ := hn.exists_get?
  obtain ⟨t', hFound', hKept⟩ := h.nodes n t hFound
  obtain ⟨_, hFound'', hMem⟩ := hChild
  cases hFound'.symm.trans hFound''
  rw [(hKept hOut).form_eq] at hMem
  exact ⟨t, hFound, hMem⟩

theorem Store.Sealed.hosts {k : Nat} (hD : s.Sealed env.definitions D)
    (hBody : ∀ body, env.definitions.body? d = some body → D body) :
    (Renaming.shift env.definitions s k D).Hosts d := by
  intro definition template hGet hTemplate
  have hId : ∀ n, D n → (Renaming.shift env.definitions s k D).Id n n := fun n hn =>
    ⟨.inl hn, (shift_of_has (hD.has n hn)).symm⟩
  have hIn := hBody _ (body?_eq hGet hTemplate)
  refine ⟨hId _ hIn, fun r hr other modified hTarget hModified => hId _ ?_⟩
  obtain ⟨e, he, hOther⟩ := Option.bind_eq_some_iff.1 hTarget
  exact hD.leads _ _ hIn (.modified hGet hTemplate hr he (body?_eq hOther hModified))

/-- If the body of a definition is in a set that nothing leads out of, then nothing leads out of the set
and the new nodes after its check. -/
theorem sealed_checkDefinition (hs : s.WellFormed env.definitions) (hFollowed : s.Followed)
    (hRun : (checkDefinition depth d env).run ⟨s, report⟩ = (.ok outcome, after))
    (hAfter : after.store.WellFormed env.definitions)
    (hFramed : s.Framed (fun n => s.Tree env.definitions d n ∨ ¬ s.Has n) after.store)
    (hD : s.Sealed env.definitions D) (hBody : ∀ body, env.definitions.body? d = some body → D body) :
    after.store.Sealed env.definitions fun n => D n ∨ ¬ s.Has n ∧ after.store.Has n where
  has := by
    rintro n (hn | ⟨-, hn⟩)
    · exact (hD.has n hn).of_size_le hFramed.size_le
    · exact hn
  leads n m hn hLeads := by
    have hHas : after.store.Has m := hAfter.has_of_leads hLeads
    suffices hDom : D m ∨ ¬ s.Has m from hDom.imp_right fun hNew => ⟨hNew, hHas⟩
    have hAgree : after.store.Agree (.shift env.definitions s 0 D) NonePending after.store :=
      hD.agree_after hs hFollowed (mirrors_checkDefinition depth (hD.hosts hBody)) hRun
    have hMatches : ∀ t, after.store.get? n = some t → ∃ t', t.Matches (.shift env.definitions s 0 D) False t' := by
      intro t hFound
      obtain ⟨t', -, hMatches⟩ := hAgree.nodes n t (hn.imp_right And.left) hFound
      exact ⟨t', hMatches⟩
    cases hLeads with
    | child h =>
      obtain ⟨t, hFound, hMem⟩ := h
      obtain ⟨t', hMatches⟩ := hMatches t hFound
      exact hMatches.inside.children m hMem
    | parent h =>
      -- A new parent of an old node would lie below the body, which is in the set.
      by_cases hOld : s.Has m
      · by_cases hTree : s.Tree env.definitions d m
        · exact .inl (hD.of_tree hBody hTree)
        · have hChild := hFramed.child hOld (fun hIn => hIn.elim hTree fun hNew => hNew hOld) h
          obtain hn | ⟨hNew, -⟩ := hn
          · exact .inl (hD.leads n m hn (.parent hChild))
          · obtain ⟨t, hFound, hMem⟩ := hChild
            exact absurd (hs.backed.has_child hFound hMem) hNew
      · exact .inr hOld
    | base hFound h =>
      obtain ⟨t', hMatches⟩ := hMatches _ hFound
      exact hMatches.base m h
    | last hFound h =>
      obtain ⟨t', hMatches⟩ := hMatches _ hFound
      exact hMatches.inside.resolved m h
    | mention hFound h hTarget hMentioned =>
      obtain ⟨t', hMatches⟩ := hMatches _ hFound
      obtain ⟨definition, template, hGet, hTemplate, rfl⟩ := exists_of_body? hMentioned
      exact (hMatches.inside.mentions _ h definition template
        (Option.bind_eq_some_iff.2 ⟨_, hTarget, hGet⟩) hTemplate).1
    | modified hGet hTemplate h hTarget hModified =>
      have hOld := hs.has_body (body?_eq hGet hTemplate)
      exact .inl (hD.leads _ m (hn.resolve_right fun hNew => hNew.1 hOld)
        (.modified hGet hTemplate h hTarget hModified))

theorem passed_checkDefinition (hs : s.WellFormed env.definitions) (hFollowed : s.Followed)
    (hRun : (checkDefinition depth d env).run ⟨s, report⟩ = (.ok outcome, after)) :
    s.Passed env.definitions d after.store := by
  have hGet : (env.definitions.get? d).isSome := by
    cases hGet : env.definitions.get? d with
    | some definition => rfl
    | none =>
      have hThrow : Moves Eq env s (checkDefinition depth d) fun _ _ => False := by
        apply Runs.read_then
        rw [hGet]
        intro report result after hRun
        cases hRun
        exact ⟨rfl, trivial⟩
      exact (hThrow report _ after hRun).2.elim
  have hAfter : after.store.WellFormed env.definitions :=
    ((checks_checkDefinition hs hGet) report _ after hRun).1.wellFormed hs
  have hFramed := ((steps_checkDefinition hs hFollowed (s.closed_tree env.definitions d)
    (fun body hBody => .inl ⟨body, hBody, .refl⟩) depth) report _ after hRun).1
  refine ⟨hAfter, ?_, hFramed, fun D hD hBody => ?_⟩
  · apply followed_of_mirrors hs hFollowed ?_ hRun
    exact fun ρ hHosts => mirrors_checkDefinition depth (hHosts d)
  · exact sealed_checkDefinition hs hFollowed hRun hAfter hFramed hD hBody

namespace Store.Passed

theorem kept (h : s.Passed defs d s') (hFound : s.get? n = some t) (hOut : ¬ s.Tree defs d n) :
    ∃ t', s'.get? n = some t' ∧ t.Kept t' := by
  obtain ⟨t', hFound', hKept⟩ := h.framed.nodes n t hFound
  exact ⟨t', hFound', hKept fun hIn => hIn.elim hOut fun hNew => hNew (has_of_get? hFound)⟩

theorem sealed_outside (h : s.Passed defs d s') (hD : s.Sealed defs D)
    (hNot : ∀ body, defs.body? d = some body → ¬ D body) : s'.Sealed defs D := by
  have hOut : ∀ n, D n → ¬ (s.Tree defs d n ∨ ¬ s.Has n) := fun n hn hIn =>
    hIn.elim (hD.not_tree hNot hn) fun hNew => hNew (hD.has n hn)
  refine ⟨fun n hn => (hD.has n hn).of_size_le h.framed.size_le, fun n m hn hLeads => ?_⟩
  obtain ⟨t, hFound⟩ := (hD.has n hn).exists_get?
  obtain ⟨t', hFound', hKept⟩ := h.kept hFound (hD.not_tree hNot hn)
  cases hLeads with
  | child hChild => exact hD.leads n m hn (.child (h.framed.child (hD.has n hn) (hOut n hn) hChild))
  | parent hChild =>
    -- A parent below the body would have children below the body or new ones only.
    have hParent : ¬ (s.Tree defs d m ∨ ¬ s.Has m) := fun hIn =>
      hOut n hn ((h.framed.closed (s.closed_tree defs d)).child m n hIn hChild)
    have hHas : s.Has m := by
      by_contra hNew
      exact hParent (.inr hNew)
    exact hD.leads n m hn (.parent (h.framed.child hHas hParent hChild))
  | base hFound'' hBase =>
    cases hFound'.symm.trans hFound''
    rw [hKept.base_eq] at hBase
    exact hD.leads n m hn (.base hFound hBase)
  | last hFound'' hLast =>
    cases hFound'.symm.trans hFound''
    rw [hKept.form_eq] at hLast
    exact hD.leads n m hn (.last hFound hLast)
  | mention hFound'' hMention hTarget hBody =>
    cases hFound'.symm.trans hFound''
    rw [hKept.form_eq] at hMention
    exact hD.leads n m hn (.mention hFound hMention hTarget hBody)
  | modified hGet hTemplate hModifies hTarget hBody =>
    exact hD.leads _ m hn (.modified hGet hTemplate hModifies hTarget hBody)

end Store.Passed

def Store.Involves (defs : Definitions) (s : Store) (d e : DefId) : Prop :=
  ∃ body, defs.body? e = some body ∧ s.Scope defs d body

theorem Store.Involves.mem (h : s.Involves defs d e) {body : NodeId} (hBody : defs.body? e = some body) :
    s.Scope defs d body := by
  obtain ⟨_, hBody', hScope⟩ := h
  cases hBody.symm.trans hBody'
  exact hScope

theorem Store.Sealed.not_involves (hD : s.Sealed defs D) (hd : ∀ body, defs.body? d = some body → D body)
    (he : ∀ body, defs.body? e = some body → ¬ D body) : ¬ s.Involves defs d e := by
  rintro ⟨body, hBody, hScope⟩
  exact he body hBody (hD.scope hd body hScope)

theorem Store.scope_of_body (defs : Definitions) (s : Store) (d : DefId) :
    ∀ body, defs.body? d = some body → s.Scope defs d body :=
  fun body hBody => ⟨body, hBody, .refl⟩

theorem Store.Passed.involves {c : DefId} (hs : s.WellFormed defs) (h : s.Passed defs c s')
    (hInvolves : s'.Involves defs d e) : s.Involves defs d e := by
  obtain ⟨body, hBody, hScope⟩ := hInvolves
  refine ⟨body, hBody, ?_⟩
  have hD := hs.sealed_scope d
  have hOwn := s.scope_of_body defs d
  by_cases hIn : s.Involves defs d c
  · have hSealed := h.sealed _ hD fun body hBody => hIn.mem hBody
    have hMem := hSealed.scope (fun own hFound => .inl (hOwn own hFound)) body hScope
    exact hMem.resolve_right fun hNew => hNew.1 (hs.has_body hBody)
  · have hSealed := h.sealed_outside hD fun body hBody hMem => hIn ⟨body, hBody, hMem⟩
    exact hSealed.scope hOwn body hScope

theorem Store.scope_of_tree (hs : s.WellFormed defs) (hTree : s.Tree defs d n) : s.Scope defs d n :=
  (hs.sealed_scope d).of_tree (s.scope_of_body defs d) hTree

theorem Store.Passed.not_tree (hs : s.WellFormed defs) (h : s.Passed defs d s')
    (hFree : ¬ s.Involves defs d e) (hn : s.Scope defs d n ∨ ¬ s.Has n) (hHas : s'.Has n) : ¬ s'.Tree defs e n := by
  apply (h.sealed _ (hs.sealed_scope d) (s.scope_of_body defs d)).not_tree ?_ (hn.imp_right fun hNew => ⟨hNew, hHas⟩)
  rintro body hBody (hMem | ⟨hNew, -⟩)
  · exact hFree ⟨body, hBody, hMem⟩
  · exact hNew (hs.has_body hBody)

theorem Store.Passed.not_tree_outside (hs : s.WellFormed defs) (h : s.Passed defs e s')
    (hFree : ¬ s.Involves defs d e) (hn : ¬ s.Scope defs d n) : ¬ s'.Tree defs d n := by
  have hSealed := h.sealed_outside (hs.sealed_scope d) fun body hBody hMem => hFree ⟨body, hBody, hMem⟩
  exact fun hTree => hn (hSealed.of_tree (s.scope_of_body defs d) hTree)

end Passed

end TemplateCheck
