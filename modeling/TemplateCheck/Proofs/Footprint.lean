import TemplateCheck.Proofs.Copy
import TemplateCheck.Proofs.Locality.Resolution

/-!
# Footprints

What checks may do to the store is `Reaches`: well-formedness is kept, the graph grows, and the nodes
of a given set are not touched, unless they are referenced templates. A check of some nodes is ready
to run if none of them leads to that set. While the children of a node are checked, the node itself
belongs to the set; it is not below its children, so it stays as it was when they were read.
-/

namespace TemplateCheck

open List Store

variable {b : Backing} {K : NodeId → Prop} {s : Store} {id : NodeId} {t : Template} {α : Type} {F : Allowance}
  {env : Env} {n : Nat} {ids : List NodeId}

namespace Store

variable {after origin : Store} {f : Template → Template}

structure Endures (b : Backing) (before after : Store) : Prop where
  backed : before.Backed b → after.Backed b
  size_eq : after.size = before.size

/-- What a check does to a store. The nodes in `K` are not touched. -/
structure Reaches (b : Backing) (K : NodeId → Prop) (before after : Store) : Prop where
  backed : before.Backed b → after.Backed b
  evolves : before.Evolves after
  grows : before.Grows after
  kept : ∀ id t, K id → before.get? id = some t → t.form.reference? = none → after.get? id = some t

instance : Course (Endures b) where
  refl _ := ⟨fun h => h, rfl⟩
  trans hFirst hSecond := ⟨hSecond.backed ∘ hFirst.backed, hSecond.size_eq.trans hFirst.size_eq⟩

instance : Course (Reaches b K) where
  refl s := ⟨fun h => h, Course.refl s, Course.refl s, fun _ _ _ h _ => h⟩
  trans := by
    intro first second third hFirst hSecond
    refine ⟨hSecond.backed ∘ hFirst.backed, Course.trans hFirst.evolves hSecond.evolves,
      Course.trans hFirst.grows hSecond.grows, fun id t hK h hReference => ?_⟩
    exact hSecond.kept id t hK (hFirst.kept id t hK h hReference) hReference

theorem Endures.reaches (h : s.Endures b after) (hPursues : s.Pursues after) (hEvolves : s.Evolves after) :
    s.Reaches b K after where
  backed := h.backed
  evolves := hEvolves
  grows := by
    have hChild : ∀ {parent child}, after.Child parent child → s.Child parent child := by
      rintro parent child ⟨t', hFound', hMem⟩
      obtain ⟨t, hFound, hPursued⟩ := hPursues.of_get? hFound'
      exact ⟨t, hFound, hPursued.children ▸ hMem⟩
    refine ⟨Nat.le_of_eq h.size_eq.symm, fun h _ => .inl (hChild h), fun h hNew => ?_⟩
    obtain ⟨t, hFound, -⟩ := hChild h
    exact absurd (has_of_get? hFound) hNew
  kept id t _ hFound hReference := by
    obtain ⟨t', hFound', hPursued⟩ := hPursues.nodes id t hFound
    rwa [hPursued.eq_of_form fun r hForm => by simp [hForm, Form.reference?] at hReference] at hFound'

theorem Reaches.update (h : origin.Reaches b K s)
    (hHas : origin.Has id) (hFound : s.get? id = some t) (hK : ¬ K id) (hEvolves : t.Evolves (f t))
    (hLinks : ∀ link ∈ (f t).links, link ∈ t.links ∨ s.Has link) (hReference : ∀ r, (f t).form.reference? = some r →
      t.form.reference? = some r ∨ (b.definitions.target? r).isSome)
    (hChildren : ∀ child ∈ (f t).form.children, child ∈ t.form.children ∨ ¬ origin.Has child)
    (hPlain : t.isPlain → b.refers ∨ (f t).isPlain) : origin.Reaches b K (s.update id f) where
  backed hOrigin := by
    have hWell := h.backed hOrigin
    refine hWell.update hFound (fun link hLink => (hLinks link hLink).elim (hWell.links id t hFound link) fun h => h)
      (fun r hr => (hReference r hr).elim (hWell.references id t r hFound) fun h => h)
      (fun child hChild hBelow => ?_) ((hWell.plain id t hFound).elim .inl hPlain)
    obtain hOld | hNew := hChildren child hChild
    · exact hWell.acyclic.not_below ⟨t, hFound, hOld⟩ hBelow
    · exact hNew (h.grows.below hBelow hHas).1
  evolves := Course.trans h.evolves (evolves_update fun t' hFound' => by
    cases hFound.symm.trans hFound'
    exact hEvolves)
  grows := grows_update h.grows hFound hChildren
  kept other t' hOther hStart hReference := by
    rw [get?_update_of_ne]
    · exact h.kept other t' hOther hStart hReference
    · rintro rfl
      exact hK hOther

theorem reaches_update_same_form (hFound : s.get? id = some t) (hK : ¬ K id)
    (hEvolves : t.Evolves (f t)) (hForm : (f t).form = t.form)
    (hBase : (f t).base = t.base ∨ b.refers ∧ ∀ base, (f t).base = some base → t.base = some base ∨ s.Has base) :
    s.Reaches b K (s.update id f) := by
  refine Reaches.update (Course.refl s) (has_of_get? hFound) hFound hK hEvolves (fun link hLink => ?_)
    (fun r h => .inl (hForm ▸ h)) (fun child h => .inl (hForm ▸ h)) fun hPlain => ?_
  · simp only [Template.links, hForm, mem_append, Option.mem_toList] at hLink ⊢
    obtain (hChild | hLink) | hResolved := hLink
    · exact .inl (.inl (.inl hChild))
    · obtain hSame | ⟨-, hNew⟩ := hBase
      · exact .inl (.inl (.inr (hSame ▸ hLink)))
      · exact (hNew link hLink).imp (fun h => .inl (.inr h)) fun h => h
    · exact .inl (.inr hResolved)
  · obtain hSame | ⟨hRefers, -⟩ := hBase
    · exact .inr (by simpa only [Template.isPlain, hSame, hForm] using hPlain)
    · exact .inl hRefers

theorem Reaches.update_form {form : Form} (h : origin.Reaches b K s)
    (hHas : origin.Has id) (hFound : s.get? id = some t) (hK : ¬ K id) (hMay : t.form.mayBecome form)
    (hChildren : ∀ child ∈ form.children,
      child ∈ t.form.children ∨ ¬ origin.Has child ∧ s.Has child) (hResolved : form.resolved? = none)
    (hReference : ∀ r, form.reference? = some r → (b.definitions.target? r).isSome)
    (hPlain : b.refers ∨ form.isPlain) : origin.Reaches b K (s.update id fun t => { t with form }) := by
  refine h.update hHas hFound hK (Template.evolves_form hMay) (fun link hLink => ?_)
    (fun r h => .inr (hReference r h)) (fun child hChild => (hChildren child hChild).imp_right And.left)
    fun hOld => hPlain.imp_right fun hForm => Template.isPlain_iff.2 ⟨(Template.isPlain_iff.1 hOld).1, hForm⟩
  simp only [Template.links, hResolved, mem_append] at hLink ⊢
  obtain (hChild | hBase) | hNone := hLink
  · exact (hChildren link hChild).imp (fun h => .inl (.inl h)) And.right
  · exact .inl (.inl (.inr hBase))
  · cases hNone

theorem Adds.reaches (h : s.Adds b after) : s.Reaches b K after where
  backed _ := h.backed
  evolves id t hFound := ⟨t, (h.same id (has_of_get? hFound)).trans hFound, .refl t⟩
  grows := h.grows
  kept id _ _ hFound _ := (h.same id (has_of_get? hFound)).trans hFound

theorem Reaches.wellFormed {defs : Definitions} (h : s.Reaches ⟨defs, True⟩ K after)
    (hWell : s.WellFormed defs) : after.WellFormed defs :=
  (h.backed hWell.backed).wellFormed trivial

theorem Reaches.has (h : s.Reaches b K after) (hHas : s.Has id) : after.Has id :=
  hHas.of_size_le h.grows.size_le

theorem Reaches.narrow {K' : NodeId → Prop} (h : s.Reaches b K after)
    (hK : ∀ id, K' id → K id) : s.Reaches b K' after :=
  ⟨h.backed, h.evolves, h.grows, fun id t hId => h.kept id t (hK id hId)⟩

end Store

/-- Nodes that may be checked without touching those in `K`, after `n` marks have been spent. -/
structure Ready (n : Nat) (K : NodeId → Prop) (b : Backing) (ids : List NodeId) (s : Store) : Prop where
  backed : s.Backed b
  kept : ∀ k, K k → s.Has k
  has : ∀ id ∈ ids, s.Has id
  apart : ∀ id ∈ ids, ∀ k, K k → ¬ s.Below id k
  spent : n ≤ s.spent

abbrev Checks {α : Type} (K : NodeId → Prop) (F : Allowance) (env : Env) (s : Store)
    (x : CheckM α) (Q : α → Store → Prop) : Prop :=
  Runs (Reaches (F.backing env) K) F env s x Q

abbrev Safe {α : Type} (K : NodeId → Prop) (F : Allowance) (env : Env) (s : Store) (x : CheckM α) : Prop :=
  Checks K F env s x fun _ _ => True

section

theorem Quiet.safe {P : α → Prop} (h : Quiet env s x P) : Safe K F env s x := h.runs fun _ _ => trivial

theorem Runs.reaches {Q : α → Store → Prop} (h : Runs (Endures (F.backing env)) F env s x Q)
    (hPursues : Steps Pursues env s x) : Checks K F env s x fun a s' => Q a s' ∧ s.Pursues s' := by
  intro report result after hRun
  obtain ⟨hEndures, hEnd⟩ := h report result after hRun
  obtain ⟨hPursues, -⟩ := hPursues report result after hRun
  refine ⟨hEndures.reaches hPursues (evolves_of_run hRun).store, ?_⟩
  cases result with
  | ok a => exact ⟨hEnd, hPursues⟩
  | error fault => exact hEnd

end

def ChecksSafely (n : Nat) (F : Allowance) (env : Env) (check : ChildCheck) : Prop :=
  ∀ K s id governor site, Ready n K (F.backing env) [id] s → Safe K F env s (check id governor site)

namespace Ready

variable {s' : Store}

section

variable (h : Ready n K b ids s)

include h

theorem step (hReaches : s.Reaches b K s') : Ready n K b ids s' where
  backed := hReaches.backed h.backed
  kept k hk := hReaches.has (h.kept k hk)
  has id hMem := hReaches.has (h.has id hMem)
  apart id hMem k hk hBelow := h.apart id hMem k hk (hReaches.grows.below hBelow (h.kept k hk)).2
  spent := Nat.le_trans h.spent hReaches.evolves.spent_le

theorem subset {ids' : List NodeId} (hSub : ∀ id ∈ ids', id ∈ ids) : Ready n K b ids' s :=
  ⟨h.backed, h.kept, fun id hMem => h.has id (hSub id hMem), fun id hMem => h.apart id (hSub id hMem), h.spent⟩

theorem only (hMem : id ∈ ids) : Ready n K b [id] s :=
  h.subset (by simpa using hMem)

theorem not_kept (hMem : id ∈ ids) : ¬ K id :=
  fun hK => h.apart id hMem id hK .refl

theorem cons (hId : Ready n K b [id] s) : Ready n K b (id :: ids) s where
  backed := h.backed
  kept := h.kept
  has other hMem := by
    obtain rfl | hMem := mem_cons.1 hMem
    · exact hId.has other (by simp)
    · exact h.has other hMem
  apart other hMem := by
    obtain rfl | hMem := mem_cons.1 hMem
    · exact hId.apart other (by simp)
    · exact h.apart other hMem
  spent := h.spent

theorem children (hMem : id ∈ ids) (hFound : s.get? id = some t) : Ready n K b t.form.children s where
  backed := h.backed
  kept := h.kept
  has child hChild := h.backed.links id t hFound child (by simp [Template.links, hChild])
  apart child hChild k hk hBelow := h.apart id hMem k hk (.head ⟨t, hFound, hChild⟩ hBelow)
  spent := h.spent

/-- While its children are checked, a node belongs to those that are not touched. -/
theorem guarded (hMem : id ∈ ids) (hFound : s.get? id = some t) :
    Ready n (fun k => K k ∨ k = id) b t.form.children s where
  backed := h.backed
  kept k hk := by
    obtain hk | rfl := hk
    · exact h.kept k hk
    · exact h.has k hMem
  has := (h.children hMem hFound).has
  apart child hChild k hk := by
    obtain hk | rfl := hk
    · exact (h.children hMem hFound).apart child hChild k hk
    · exact h.backed.acyclic.not_below ⟨t, hFound, hChild⟩
  spent := h.spent

theorem added {new : List NodeId} (hReaches : s.Reaches b K s')
    (hNew : ∀ id ∈ new, ¬ s.Has id ∧ s'.Has id) : Ready n K b new s' where
  backed := hReaches.backed h.backed
  kept k hk := hReaches.has (h.kept k hk)
  has id hMem := (hNew id hMem).2
  apart id hMem k hk hBelow := (hNew id hMem).1 (hReaches.grows.below hBelow (h.kept k hk)).1
  spent := Nat.le_trans h.spent hReaches.evolves.spent_le

end

theorem head (h : Ready n K b (id :: ids) s) : s.Has id := h.has id mem_cons_self

variable {β : Type} {x : CheckM α} {f : α → CheckM β} {Q : α → Store → Prop} {Q' : β → Store → Prop}

theorem formOf_then {f : Form → CheckM β} (h : Ready n K (F.backing env) (id :: ids) s)
    (hf : ∀ t, s.get? id = some t → Checks K F env s (f t.form) Q') : Checks K F env s (formOf id >>= f) Q' := by
  apply (quiet_formOf h.head).bind_runs
  rintro _ ⟨t, hFound, rfl⟩
  exact hf t hFound

theorem bind (h : Ready n K (F.backing env) ids s) (hx : Checks K F env s x Q)
    (hf : ∀ a s', s.Reaches (F.backing env) K s' → Ready n K (F.backing env) ids s' → Q a s' →
      Checks K F env s' (f a) Q') : Checks K F env s (x >>= f) Q' :=
  Runs.bind hx fun a s' hReaches hQ => hf a s' hReaches (h.step hReaches) hQ

/-- A node that is guarded for a while stays as it is, unless it is a referenced template. -/
theorem bind_guarded (h : Ready n K (F.backing env) ids s) (hFound : s.get? id = some t)
    (hReference : t.form.reference? = none) (hx : Checks (fun k => K k ∨ k = id) F env s x Q)
    (hf : ∀ a s', Ready n K (F.backing env) ids s' → s'.get? id = some t → Q a s' →
      Checks K F env s' (f a) Q') : Checks K F env s (x >>= f) Q' := by
  refine h.bind (hx.with_relation.weaken fun _ hReaches => hReaches.narrow fun _ hk => .inl hk) ?_
  intro a s' _ h' ⟨hKept, hQ⟩
  exact hf a s' h' (hKept.kept id t (.inr rfl) hFound hReference) hQ

end Ready

section

variable {R : Store → Store → Prop} {f : Template → Template} {form : Form}

theorem runs_modifyNode {h : ∀ t : Template, t.Evolves (f t)} (hFound : s.get? id = some t) (hR : R s (s.update id f)) :
    Runs R F env s (onStore (modifyNode id f h)) fun _ s' => s' = s.update id f := by
  intro report result after hRun
  cases (run_modifyNode hFound).symm.trans hRun
  exact ⟨hR, rfl⟩

theorem runs_replaceForm (hFound : s.get? id = some t) (hMay : t.form.mayBecome form)
    (hR : R s (s.update id fun t => { t with form })) :
    Runs R F env s (replaceForm id form) fun _ s' => s' = s.update id fun t => { t with form } := by
  intro report result after hRun
  cases (run_replaceForm hFound hMay).symm.trans hRun
  exact ⟨hR, rfl⟩

section

variable (h : Ready n K (F.backing env) ids s)

include h

section

variable (hMem : id ∈ ids)

include hMem

theorem Ready.modifyNode {hEvolves : ∀ t : Template, t.Evolves (f t)} (hForm : ∀ t, (f t).form = t.form)
    (hBase : ∀ t, (f t).base = t.base ∨ F.walks ∧ ∀ base, (f t).base = some base → t.base = some base ∨ s.Has base) :
    Safe K F env s (onStore (modifyNode id f hEvolves)) := by
  obtain ⟨t, hFound⟩ := (h.has id hMem).exists_get?
  exact (runs_modifyNode hFound (reaches_update_same_form hFound (h.not_kept hMem) (hEvolves t)
    (hForm t) (hBase t))).mono fun _ _ _ _ => trivial

theorem Ready.mark (m : Mark) : Safe K F env s (mark id m) :=
  h.modifyNode hMem (fun _ => rfl) fun _ => .inl rfl

theorem Ready.govern (type : TypeKey) : Safe K F env s (govern id type) :=
  h.modifyNode hMem (fun _ => rfl) fun _ => .inl rfl

theorem Ready.replaceForm (hFound : s.get? id = some t) (hMay : t.form.mayBecome form)
    (hChildren : ∀ child ∈ form.children, child ∈ t.form.children) (hResolved : form.resolved? = none)
    (hReference : ∀ r, form.reference? = some r → (env.definitions.target? r).isSome)
    (hPlain : F.walks ∨ form.isPlain) :
    Checks K F env s (replaceForm id form) fun _ s' => s'.get? id = some { t with form } := by
  have hReaches : s.Reaches (F.backing env) K (s.update id fun t => { t with form }) :=
    Reaches.update_form (Course.refl s) (h.has id hMem) hFound (h.not_kept hMem) hMay
      (fun child hChild => .inl (hChildren child hChild)) hResolved hReference hPlain
  refine (runs_replaceForm hFound hMay hReaches).mono ?_
  rintro _ _ - rfl
  simp [hFound]

theorem Ready.markErroneous : Safe K F env s (markErroneous id) := by
  obtain ⟨t, hFound⟩ := (h.has id hMem).exists_get?
  refine (h.replaceForm hMem hFound ?_ (by simp [Form.children]) rfl (by simp [Form.reference?]) (.inr rfl)).mono
    fun _ _ _ _ => trivial
  simp [Form.mayBecome, Form.isErroneous]

theorem Ready.reject (p : Problem) : Safe K F env s (reject id p) :=
  (quiet_problemAt (h.has id hMem) p).bind_runs fun _ _ => h.markErroneous hMem

end

end

theorem Ready.checkChild {check : ChildCheck} (hCheck : ChecksSafely n F env check)
    (h : Ready n K (F.backing env) ids s) (hMem : id ∈ ids) (c : Context) (type : TypeKey) (site : Site) :
    Safe K F env s (checkChild check c id type site) :=
  (Runs.inside c (hCheck K s id type site (h.only hMem))).finish

theorem runs_onStore {x : StoreM α} (h : StoreRuns (s.Adds b) False s x Q) :
    Runs (Reaches b K) F env s (onStore x) fun a s' => s.Adds b s' ∧ Q a s' := by
  intro report result after hRun
  simp only [onStore, Prod.mk.injEq] at hRun
  obtain ⟨rfl, rfl⟩ := hRun
  obtain ⟨hAdds, hEnd⟩ := h _ _ rfl
  refine ⟨hAdds.reaches, ?_⟩
  split at hEnd
  · rename_i a hResult
    rw [hResult]
    exact ⟨hAdds, hEnd⟩
  · exact hEnd.elim

theorem checks_alloc (h : s.Backed (F.backing env)) (hLinks : t.links = [])
    (hReference : t.form.reference? = none) (hPlain : F.walks ∨ t.isPlain) :
    Checks K F env s (onStore (alloc t)) fun new s' => ¬ s.Has new ∧ s'.Has new := by
  have hAdds : s.Adds (F.backing env) (s.push t) := by
    refine h.adds.push (by simp [hLinks]) (by simp [hReference]) hPlain fun child hChild => ?_
    have hLink : child ∈ t.links := by simp [Template.links, hChild]
    simp [hLinks] at hLink
  exact (runs_onStore (alloc_runs h.adds hAdds)).mono fun _ _ _ hNew => hNew.2

end

end TemplateCheck
