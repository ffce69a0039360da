import Mathlib.Data.Finite.Defs
import Mathlib.Data.List.Chain
import Mathlib.Data.List.Perm.Subperm
import Mathlib.Data.Set.Finite.Basic
import Mathlib.Logic.Relation
import Mathlib.Order.WellFounded
import TemplateCheck.Definition
import TemplateCheck.Store

/-!
# The graph of nodes

Nodes are linked to their children, to the template they modify and to the end of their reference chain. A store is
well-formed if every link leads to a node, every referenced template has a definition, and no node lies below itself.
Changes of the store are compared by what becomes of the children: a new child of an old node is a new node, and new
nodes have new children only. Hence no path between old nodes comes into being. A walk along a relation comes to an end
if it cannot come back to where it has been, because there are only finitely many places to go.
-/

namespace TemplateCheck

open List
open Relation (ReflTransGen TransGen)

variable {s : Store} {id : NodeId} {t : Template} {b : Backing}

/-- Where only finitely much can be reached, every path ends exactly if none comes to a cycle. -/
theorem acc_iff_not_cycle {α : Type} {step : α → α → Prop} {a : α} (hFinite : {b | ReflTransGen step a b}.Finite) :
    Acc (fun next b => step b next) a ↔ ¬ ∃ b, ReflTransGen step a b ∧ TransGen step b b := by
  constructor
  · intro hAcc
    induction hAcc with
    | intro a _ ih =>
      rintro ⟨b, hReach, hCycle⟩
      obtain ⟨next, hStep, hBack⟩ := TransGen.head'_iff.1 (TransGen.trans_right hReach hCycle)
      have hFinite' : {c | ReflTransGen step next c}.Finite := hFinite.subset fun c hc => .head hStep hc
      exact ih next hStep hFinite' ⟨b, hBack, hCycle⟩
  · intro hNone
    have : Finite {b // ReflTransGen step a b} := hFinite
    let later : {b // ReflTransGen step a b} → {b // ReflTransGen step a b} → Prop :=
      fun next b => TransGen step b.1 next.1
    have : IsTrans _ later := ⟨fun _ _ _ h h' => TransGen.trans h' h⟩
    have : Std.Irrefl later := ⟨fun b hCycle => hNone ⟨b.1, b.2, hCycle⟩⟩
    have hWellFounded : WellFounded later := Finite.wellFounded_of_trans_of_irrefl later
    suffices ∀ b : {b // ReflTransGen step a b}, Acc (fun next b => step b next) b.1 from this ⟨a, .refl⟩
    intro b
    induction b using hWellFounded.induction with
    | h b ih =>
      constructor
      intro next hStep
      exact ih ⟨next, b.2.tail hStep⟩ (.single hStep)

theorem exists_nodup_path {α : Type} {step : α → α → Prop} {a b : α} (h : ReflTransGen step a b) :
    ∃ rest : List α, (a :: rest).IsChain step ∧ (a :: rest).getLast (cons_ne_nil a rest) = b ∧ (a :: rest).Nodup := by
  induction h using ReflTransGen.head_induction_on with
  | refl => exact ⟨[], .singleton b, rfl, nodup_singleton b⟩
  | @head a c hStep _ ih =>
    obtain ⟨rest, hChain, hLast, hNodup⟩ := ih
    by_cases hMem : a ∈ c :: rest
    · -- The part of the path before `a` is a detour.
      obtain ⟨detour, rest', hSplit⟩ := append_of_mem hMem
      simp only [hSplit] at hChain hLast hNodup
      refine ⟨rest', hChain.right_of_append, ?_, hNodup.of_append_right⟩
      rwa [getLast_append_of_ne_nil _ (cons_ne_nil a rest')] at hLast
    · exact ⟨c :: rest, .cons_cons hStep hChain, by rwa [getLast_cons (cons_ne_nil c rest)],
        nodup_cons.2 ⟨hMem, hNodup⟩⟩

def Form.resolved? : Form → Option NodeId
  | .referenced _ resolved => resolved
  | _ => none

def Form.reference? : Form → Option Reference
  | .referenced reference _ => some reference
  | _ => none

def Form.isPlain : Form → Bool
  | .referenced .. | .specific (.ref _) | .allFrom _ | .decoded .. => false
  | _ => true

def Form.isSlot : Form → Bool
  | .allFrom _ => true
  | _ => false

def Template.isPlain (t : Template) : Bool := t.base.isNone && t.form.isPlain

theorem Template.isPlain_iff : t.isPlain ↔ t.base = none ∧ t.form.isPlain := by
  simp [isPlain]

structure Backing where
  definitions : Definitions
  refers : Prop

def Template.links (t : Template) : List NodeId :=
  t.form.children ++ t.base.toList ++ t.form.resolved?.toList

variable {defs : Definitions}

namespace Store

variable {other : NodeId} {found : Template} {f : Template → Template}

def Has (s : Store) (id : NodeId) : Prop := id.index < s.size

instance : Decidable (s.Has id) := inferInstanceAs (Decidable (_ < _))

theorem has_of_get? (h : s.get? id = some t) : s.Has id := lt_size_of_get? h

theorem Has.exists_get? (h : s.Has id) : ∃ t, s.get? id = some t := by
  cases hFound : s.get? id with
  | none => exact absurd h (Nat.not_lt.2 (get?_eq_none_iff.1 hFound))
  | some t => exact ⟨t, rfl⟩

@[simp] theorem has_update : (s.update id f).Has other ↔ s.Has other := by
  simp [Has]

theorem Has.push (h : s.Has id) (t : Template) : (s.push t).Has id := by
  unfold Has at h ⊢
  rw [size_push]
  omega

theorem not_has_nextId (s : Store) : ¬ s.Has s.nextId := Nat.lt_irrefl _

theorem has_push_nextId (s : Store) (t : Template) : (s.push t).Has s.nextId :=
  has_of_get? (get?_push_nextId s t)

theorem get?_push_of_get? (h : s.get? other = some found) : (s.push t).get? other = some found :=
  (get?_push_of_lt (lt_size_of_get? h)).trans h

theorem get?_push_cases (h : (s.push t).get? other = some found) :
    s.get? other = some found ∨ other = s.nextId ∧ found = t := by
  by_cases hHas : s.Has other
  · exact .inl (get?_push_of_lt hHas ▸ h)
  · have hLt := lt_size_of_get? h
    rw [size_push] at hLt
    have hEq : other = s.nextId := by
      cases other
      simp only [Has, nextId, NodeId.mk.injEq] at hHas hLt ⊢
      omega
    subst hEq
    exact .inr ⟨rfl, by simpa using h.symm⟩

theorem get?_update_some (hNode : s.get? id = some t) (f : Template → Template) :
    (s.update id f).get? id = some (f t) := by
  rw [get?_update_self, hNode, Option.map_some]

theorem get?_update_cases (h : (s.update id f).get? other = some found) :
    s.get? other = some found ∧ other ≠ id ∨ other = id ∧ ∃ t, s.get? id = some t ∧ found = f t := by
  by_cases hEq : other = id
  · subst hEq
    rw [get?_update_self] at h
    obtain ⟨t, hFound, rfl⟩ := Option.map_eq_some_iff.1 h
    exact .inr ⟨rfl, t, hFound, rfl⟩
  · exact .inl ⟨get?_update_of_ne hEq ▸ h, hEq⟩

/-- The stores have the same nodes, and `R` tells what has become of each. -/
structure Turns (R : NodeId → Template → Template → Prop) (before after : Store) : Prop where
  size_eq : after.size = before.size
  nodes : ∀ id t, before.get? id = some t → ∃ t', after.get? id = some t' ∧ R id t t'

section Turns

variable {R R' : NodeId → Template → Template → Prop} {after : Store}

theorem Turns.mono (h : s.Turns R after) (hR : ∀ id t t', R id t t' → R' id t t') : s.Turns R' after where
  size_eq := h.size_eq
  nodes id t hNode := by
    obtain ⟨t', hNode', hTurned⟩ := h.nodes id t hNode
    exact ⟨t', hNode', hR id t t' hTurned⟩

theorem Turns.has_iff (h : s.Turns R after) : after.Has id ↔ s.Has id := by
  simp only [Has, h.size_eq]

theorem Turns.of_get? (h : s.Turns R after) (hFound : after.get? id = some found) :
    ∃ t, s.get? id = some t ∧ R id t found := by
  obtain ⟨t, hNode⟩ := (h.has_iff.1 (has_of_get? hFound)).exists_get?
  obtain ⟨_, hFound', hTurned⟩ := h.nodes id t hNode
  cases hFound.symm.trans hFound'
  exact ⟨t, hNode, hTurned⟩

variable [∀ id, Course (R id)]

instance : Course (Turns R) where
  refl _ := ⟨rfl, fun id t h => ⟨t, h, Course.refl (R := R id) t⟩⟩
  trans hFirst hSecond := by
    refine ⟨hSecond.size_eq.trans hFirst.size_eq, fun id t h => ?_⟩
    obtain ⟨t', h', hOld⟩ := hFirst.nodes id t h
    obtain ⟨t'', h'', hNew⟩ := hSecond.nodes id t' h'
    exact ⟨t'', h'', Course.trans hOld hNew⟩

theorem turns_update (h : ∀ t, s.get? id = some t → R id t (f t)) : s.Turns R (s.update id f) where
  size_eq := size_update s id f
  nodes other t hOther := by
    by_cases hEq : other = id
    · subst hEq
      exact ⟨f t, get?_update_some hOther f, h t hOther⟩
    · exact ⟨t, (get?_update_of_ne hEq).trans hOther, Course.refl (R := R other) t⟩

end Turns

theorem length_le_size {ids : List NodeId} (hNodup : ids.Nodup) (hHas : ∀ id ∈ ids, s.Has id) :
    ids.length ≤ s.size := by
  have hSub : ids ⊆ (range s.size).map NodeId.mk := fun id hMem =>
    mem_map.2 ⟨id.index, mem_range.2 (hHas id hMem), rfl⟩
  have hLe := (hNodup.subperm hSub).length_le
  rwa [length_map, length_range] at hLe

def Child (s : Store) (parent child : NodeId) : Prop :=
  ∃ t, s.get? parent = some t ∧ child ∈ t.form.children

/-- The second node is the first or lies below it. -/
abbrev Below (s : Store) : NodeId → NodeId → Prop := Relation.ReflTransGen s.Child

def Acyclic (s : Store) : Prop := ∀ id, ¬ Relation.TransGen s.Child id id

structure WellFormed (s : Store) (defs : Definitions) : Prop where
  links : ∀ id t, s.get? id = some t → ∀ link ∈ t.links, s.Has link
  references : ∀ id t r, s.get? id = some t → t.form.reference? = some r → (defs.target? r).isSome
  bodies : ∀ d ∈ defs.entries, ∀ template, d.kind.template? = some template → s.Has template.body
  acyclic : s.Acyclic

/-- What a store is judged against. Without references it need not hold the bodies of the definitions. -/
structure Backed (s : Store) (b : Backing) : Prop where
  links : ∀ id t, s.get? id = some t → ∀ link ∈ t.links, s.Has link
  references : ∀ id t r, s.get? id = some t → t.form.reference? = some r → (b.definitions.target? r).isSome
  bodies : b.refers → ∀ d ∈ b.definitions.entries, ∀ template, d.kind.template? = some template → s.Has template.body
  acyclic : s.Acyclic
  plain : ∀ id t, s.get? id = some t → b.refers ∨ t.isPlain

theorem WellFormed.backed (h : s.WellFormed defs) : s.Backed ⟨defs, True⟩ :=
  ⟨h.links, h.references, fun _ => h.bodies, h.acyclic, fun _ _ _ => .inl trivial⟩

theorem Backed.wellFormed (h : s.Backed b) (hRefers : b.refers) : s.WellFormed b.definitions :=
  ⟨h.links, h.references, h.bodies hRefers, h.acyclic⟩

section Backed

variable (h : s.Backed b) (hFound : s.get? id = some t)

include h hFound

theorem Backed.has_child {child : NodeId} (hMem : child ∈ t.form.children) : s.Has child :=
  h.links id t hFound child (by simp [Template.links, hMem])

theorem Backed.has_base {base : NodeId} (hBase : t.base = some base) : s.Has base :=
  h.links id t hFound base (by simp [Template.links, hBase])

theorem Backed.has_resolved {r : Reference} {last : NodeId} (hForm : t.form = .referenced r (some last)) : s.Has last :=
  h.links id t hFound last (by simp [Template.links, hForm, Form.resolved?])

theorem Backed.refers (hPlain : t.isPlain = false) : b.refers :=
  (h.plain id t hFound).resolve_right (by simp [hPlain])

end Backed

variable {parent child first last : NodeId} {length : Nat} {after before origin : Store}

theorem Acyclic.not_below (h : s.Acyclic) (hChild : s.Child parent child) : ¬ s.Below child parent :=
  fun hBelow => h parent (.head' hChild hBelow)

inductive Descends (s : Store) : Nat → NodeId → Prop where
  | here (id : NodeId) : Descends s 0 id
  | step {length : Nat} {id child : NodeId} : s.Child id child → Descends s length child → Descends s (length + 1) id

/-- Below a node no node is missing, and none lies below itself. -/
structure Founded (s : Store) (id : NodeId) : Prop where
  has : ∀ other, s.Below id other → s.Has other
  acyclic : ∀ other, s.Below id other → ¬ Relation.TransGen s.Child other other

theorem Backed.founded (h : s.Backed b) (hHas : s.Has id) : s.Founded id where
  has other hBelow := by
    induction hBelow with
    | refl => exact hHas
    | tail _ hChild =>
      obtain ⟨t, hFound, hMem⟩ := hChild
      exact h.has_child hFound hMem
  acyclic other _ := h.acyclic other

theorem Founded.of_child (h : s.Founded id) (hChild : s.Child id child) : s.Founded child :=
  ⟨fun other hBelow => h.has other (.head hChild hBelow), fun other hBelow => h.acyclic other (.head hChild hBelow)⟩

theorem Founded.exists_path (h : s.Founded id) (hPath : s.Descends length id) :
    ∃ path : List NodeId, path.length = length + 1 ∧ path.Nodup ∧ ∀ other ∈ path, s.Below id other := by
  induction hPath with
  | here id => exact ⟨[id], rfl, by simp, by simpa using .refl⟩
  | @step length id child hChild _ ih =>
    obtain ⟨path, hLength, hNodup, hAll⟩ := ih (h.of_child hChild)
    refine ⟨id :: path, by simp [hLength], nodup_cons.2 ⟨fun hAgain => ?_, hNodup⟩, ?_⟩
    · exact h.acyclic id .refl (.head' hChild (hAll id hAgain))
    · intro other hOther
      obtain rfl | hOther := mem_cons.1 hOther
      · exact .refl
      · exact .head hChild (hAll other hOther)

theorem Founded.descends_lt (h : s.Founded id) (hPath : s.Descends length id) : length < s.size := by
  obtain ⟨path, hLength, hNodup, hAll⟩ := h.exists_path hPath
  have hLe := length_le_size hNodup fun other hOther => h.has other (hAll other hOther)
  omega

theorem Backed.descends_lt (h : s.Backed b) (hPath : s.Descends length id) (hHas : s.Has id) : length < s.size :=
  (h.founded hHas).descends_lt hPath

theorem child_of_child_update (h : (s.update id f).Child parent child) (hNe : parent ≠ id) : s.Child parent child := by
  obtain ⟨found, hFound, hMem⟩ := h
  exact ⟨found, get?_update_of_ne hNe ▸ hFound, hMem⟩

theorem below_of_below_update (h : (s.update id f).Below first id) : s.Below first id := by
  induction h using Relation.ReflTransGen.head_induction_on with
  | refl => exact .refl
  | @head parent child hChild _ ih =>
    by_cases hEq : parent = id
    · exact hEq ▸ .refl
    · exact .head (child_of_child_update hChild hEq) ih

theorem path_update_cases (h : Relation.TransGen (s.update id f).Child first last) :
    Relation.TransGen s.Child first last ∨ (s.update id f).Below first id ∧ (s.update id f).Below id last := by
  induction h with
  | single hChild =>
    by_cases hEq : first = id
    · subst hEq
      exact .inr ⟨.refl, .single hChild⟩
    · exact .inl (.single (child_of_child_update hChild hEq))
  | @tail middle last hPath hChild ih =>
    obtain hOld | ⟨hTo, hFrom⟩ := ih
    · by_cases hEq : middle = id
      · subst hEq
        exact .inr ⟨hPath.to_reflTransGen, .single hChild⟩
      · exact .inl (hOld.tail (child_of_child_update hChild hEq))
    · exact .inr ⟨hTo, hFrom.tail hChild⟩

theorem Acyclic.update (h : s.Acyclic)
    (hNew : ∀ t, s.get? id = some t → ∀ child ∈ (f t).form.children, ¬ s.Below child id) : (s.update id f).Acyclic := by
  intro other hCycle
  obtain hOld | ⟨hTo, hFrom⟩ := path_update_cases hCycle
  · exact h other hOld
  · obtain ⟨child, ⟨found, hFound, hMem⟩, hBelow⟩ :=
      Relation.TransGen.head'_iff.1 (Relation.TransGen.trans_right hFrom (hCycle.trans_left hTo))
    rw [get?_update_self] at hFound
    obtain ⟨t, hOld, rfl⟩ := Option.map_eq_some_iff.1 hFound
    exact hNew t hOld child hMem (below_of_below_update hBelow)

theorem below_push_of_has (h : s.Backed b)
    (hHas : s.Has first) (hBelow : (s.push t).Below first last) : s.Has last ∧ s.Below first last := by
  induction hBelow with
  | refl => exact ⟨hHas, .refl⟩
  | tail _ hChild ih =>
    obtain ⟨hMiddle, hPath⟩ := ih
    obtain ⟨found, hFound, hMem⟩ := hChild
    rw [get?_push_of_lt hMiddle] at hFound
    exact ⟨h.has_child hFound hMem, hPath.tail ⟨found, hFound, hMem⟩⟩

theorem Backed.push (h : s.Backed b) (hLinks : ∀ link ∈ t.links, s.Has link)
    (hReference : ∀ r, t.form.reference? = some r → (b.definitions.target? r).isSome)
    (hPlain : b.refers ∨ t.isPlain) : (s.push t).Backed b where
  links other found hFound link hLink := by
    obtain hOld | ⟨-, rfl⟩ := get?_push_cases hFound
    · exact (h.links other found hOld link hLink).push t
    · exact (hLinks link hLink).push found
  references other found r hFound hr := by
    obtain hOld | ⟨-, rfl⟩ := get?_push_cases hFound
    · exact h.references other found r hOld hr
    · exact hReference r hr
  bodies hRefers d hd template hTemplate := (h.bodies hRefers d hd template hTemplate).push t
  plain other found hFound := by
    obtain hOld | ⟨-, rfl⟩ := get?_push_cases hFound
    · exact h.plain other found hOld
    · exact hPlain
  acyclic other hCycle := by
    obtain ⟨child, hChild, hBelow⟩ := Relation.TransGen.head'_iff.1 hCycle
    obtain ⟨found, hFound, hMem⟩ := hChild
    have hLink : child ∈ found.links := by simp [Template.links, hMem]
    obtain hOld | ⟨rfl, rfl⟩ := get?_push_cases hFound
    · obtain ⟨-, hPath⟩ := below_push_of_has h (h.links other found hOld child hLink) hBelow
      exact h.acyclic other (.head' ⟨found, hOld, hMem⟩ hPath)
    · exact not_has_nextId s (below_push_of_has h (hLinks child hLink) hBelow).1

theorem Backed.update (h : s.Backed b) (hFound : s.get? id = some t) (hLinks : ∀ link ∈ (f t).links, s.Has link)
    (hReference : ∀ r, (f t).form.reference? = some r → (b.definitions.target? r).isSome)
    (hChildren : ∀ child ∈ (f t).form.children, ¬ s.Below child id) (hPlain : b.refers ∨ (f t).isPlain) :
    (s.update id f).Backed b where
  links other found hOther link hLink := by
    rw [has_update]
    obtain ⟨hOld, -⟩ | ⟨rfl, t', hFound', rfl⟩ := get?_update_cases hOther
    · exact h.links other found hOld link hLink
    · cases hFound.symm.trans hFound'
      exact hLinks link hLink
  references other found r hOther hr := by
    obtain ⟨hOld, -⟩ | ⟨rfl, t', hFound', rfl⟩ := get?_update_cases hOther
    · exact h.references other found r hOld hr
    · cases hFound.symm.trans hFound'
      exact hReference r hr
  bodies hRefers d hd template hTemplate := has_update.2 (h.bodies hRefers d hd template hTemplate)
  plain other found hOther := by
    obtain ⟨hOld, -⟩ | ⟨rfl, t', hFound', rfl⟩ := get?_update_cases hOther
    · exact h.plain other found hOld
    · cases hFound.symm.trans hFound'
      exact hPlain
  acyclic := h.acyclic.update fun t' hFound' child hMem => by
    cases hFound.symm.trans hFound'
    exact hChildren child hMem

structure Grows (before after : Store) : Prop where
  size_le : before.size ≤ after.size
  old {parent child : NodeId} : after.Child parent child → before.Has parent →
    before.Child parent child ∨ ¬ before.Has child
  new {parent child : NodeId} : after.Child parent child → ¬ before.Has parent → ¬ before.Has child

theorem Has.of_size_le (h : s.Has id) (hSize : s.size ≤ after.size) : after.Has id :=
  Nat.lt_of_lt_of_le h hSize

theorem Grows.below (h : before.Grows after) (hBelow : after.Below first last) (hLast : before.Has last) :
    before.Has first ∧ before.Below first last := by
  induction hBelow using Relation.ReflTransGen.head_induction_on with
  | refl => exact ⟨hLast, .refl⟩
  | @head parent child hChild _ ih =>
    obtain ⟨hHas, hPath⟩ := ih
    have hParent : before.Has parent := Decidable.not_not.1 fun hNew => h.new hChild hNew hHas
    obtain hOld | hNew := h.old hChild hParent
    · exact ⟨hParent, .head hOld hPath⟩
    · exact absurd hHas hNew

theorem Grows.not_has (h : before.Grows after) (hNew : ¬ after.Has id) : ¬ before.Has id :=
  fun hHas => hNew (hHas.of_size_le h.size_le)

instance : Course Grows where
  refl s := ⟨Nat.le_refl _, fun h _ => .inl h, fun ⟨_, h, _⟩ hNew => absurd (has_of_get? h) hNew⟩
  trans := by
    intro first second third hFirst hSecond
    refine ⟨Nat.le_trans hFirst.size_le hSecond.size_le, fun hChild hHas => ?_, fun hChild hNew => ?_⟩
    · obtain hOld | hNew := hSecond.old hChild (hHas.of_size_le hFirst.size_le)
      · exact hFirst.old hOld hHas
      · exact .inr (hFirst.not_has hNew)
    · rename_i parent child
      by_cases hHas : second.Has parent
      · obtain hOld | hNewChild := hSecond.old hChild hHas
        · exact hFirst.new hOld hNew
        · exact hFirst.not_has hNewChild
      · exact hFirst.not_has (hSecond.new hChild hHas)

theorem grows_push (h : origin.Grows s)
    (hNew : ∀ child ∈ t.form.children, ¬ origin.Has child) : origin.Grows (s.push t) where
  size_le := Nat.le_trans h.size_le (by simp)
  old := by
    rintro parent child ⟨found, hFound, hMem⟩ hHas
    obtain hOld | ⟨rfl, rfl⟩ := get?_push_cases hFound
    · exact h.old ⟨found, hOld, hMem⟩ hHas
    · exact absurd (hHas.of_size_le h.size_le) (not_has_nextId s)
  new := by
    rintro parent child ⟨found, hFound, hMem⟩ hHas
    obtain hOld | ⟨rfl, rfl⟩ := get?_push_cases hFound
    · exact h.new ⟨found, hOld, hMem⟩ hHas
    · exact hNew child hMem

theorem grows_update (h : origin.Grows s) (hFound : s.get? id = some t)
    (hNew : ∀ child ∈ (f t).form.children, child ∈ t.form.children ∨ ¬ origin.Has child) :
    origin.Grows (s.update id f) where
  size_le := by simpa using h.size_le
  old := by
    rintro parent child ⟨found, hOther, hMem⟩ hHas
    obtain ⟨hOld, -⟩ | ⟨rfl, t', hFound', rfl⟩ := get?_update_cases hOther
    · exact h.old ⟨found, hOld, hMem⟩ hHas
    · cases hFound.symm.trans hFound'
      obtain hMem | hNew := hNew child hMem
      · exact h.old ⟨t, hFound, hMem⟩ hHas
      · exact .inr hNew
  new := by
    rintro parent child ⟨found, hOther, hMem⟩ hHas
    obtain ⟨hOld, -⟩ | ⟨rfl, t', hFound', rfl⟩ := get?_update_cases hOther
    · exact h.new ⟨found, hOld, hMem⟩ hHas
    · cases hFound.symm.trans hFound'
      obtain hMem | hNew := hNew child hMem
      · exact h.new ⟨t, hFound, hMem⟩ hHas
      · exact hNew

end Store

section

variable {α : Type} {p : α → Bool} {a : α} {before after : List α}

def KeepsProperty (p : α → Bool) (before after : List α) : Prop :=
  ∀ (i : Nat) (a : α), before[i]? = some a → ∃ b, after[i]? = some b ∧ (p a → p b)

theorem KeepsProperty.cons (h : KeepsProperty p (a :: before) after) :
    ∃ b rest, after = b :: rest ∧ (p a → p b) ∧ KeepsProperty p before rest := by
  obtain ⟨b, hb, hp⟩ := h 0 a rfl
  cases after with
  | nil => simp at hb
  | cons b' rest =>
    obtain rfl : b' = b := by simpa using hb
    exact ⟨b', rest, rfl, hp, fun i => h (i + 1)⟩

theorem KeepsProperty.countP_le (h : KeepsProperty p before after) : before.countP p ≤ after.countP p := by
  induction before generalizing after with
  | nil => simp
  | cons a before ih =>
    obtain ⟨b, rest, rfl, hp, hRest⟩ := h.cons
    have hLe := ih hRest
    simp only [countP_cons]
    grind

theorem KeepsProperty.countP_lt {i : Nat} {b : α}
    (h : KeepsProperty p before after) (ha : before[i]? = some a) (hb : after[i]? = some b)
    (hNot : ¬ p a) (hp : p b) : before.countP p < after.countP p := by
  induction before generalizing after i with
  | nil => simp at ha
  | cons first before ih =>
    obtain ⟨second, rest, rfl, hHead, hRest⟩ := h.cons
    have hLe := hRest.countP_le
    simp only [countP_cons]
    cases i with
    | zero =>
      simp only [getElem?_cons_zero, Option.some.injEq] at ha hb
      subst ha hb
      grind
    | succ i =>
      have hLt := ih hRest ha hb
      grind

end

namespace Store

variable {after : Store}

def count (s : Store) (m : Mark) : Nat := s.nodes.countP (·.marks.has m)

def spent (s : Store) : Nat := s.count .checked + s.count .folded

theorem Evolves.keepsProperty (h : s.Evolves after) (m : Mark) :
    KeepsProperty (fun t : Template => t.marks.has m) s.nodes after.nodes := by
  intro i t hFound
  obtain ⟨t', hFound', hEvolves⟩ := h ⟨i⟩ t hFound
  exact ⟨t', hFound', hEvolves.marks m⟩

theorem Evolves.spent_le (h : s.Evolves after) : s.spent ≤ after.spent :=
  Nat.add_le_add (h.keepsProperty .checked).countP_le (h.keepsProperty .folded).countP_le

theorem Evolves.spent_lt {t' : Template} (h : s.Evolves after) {m : Mark}
    (hm : m = .checked ∨ m = .folded) (hFound : s.get? id = some t)
    (hFound' : after.get? id = some t') (hNot : ¬ t.marks.has m) (hMark : t'.marks.has m) : s.spent < after.spent := by
  have hChecked := (h.keepsProperty .checked).countP_le
  have hFolded := (h.keepsProperty .folded).countP_le
  have hLt := (h.keepsProperty m).countP_lt hFound hFound' hNot hMark
  unfold spent count
  rcases hm with rfl | rfl <;> omega

theorem spent_le_size (s : Store) : s.spent ≤ 2 * s.size := by
  have hChecked := s.nodes.countP_le_length (p := fun t => t.marks.has .checked)
  have hFolded := s.nodes.countP_le_length (p := fun t => t.marks.has .folded)
  unfold spent count size
  omega

def Ordered (s : Store) (defs : Definitions) : Prop :=
  (∀ node ∈ s.nodes.zipIdx, (∀ link ∈ node.1.links, s.Has link) ∧
    (∀ r ∈ node.1.form.reference?.toList, (defs.target? r).isSome) ∧
    ∀ child ∈ node.1.form.children, child.index < node.2) ∧
  ∀ d ∈ defs.entries, ∀ template ∈ d.kind.template?.toList, s.Has template.body

instance {defs : Definitions} : Decidable (s.Ordered defs) := inferInstanceAs (Decidable (_ ∧ _))

theorem Ordered.wellFormed (h : s.Ordered defs) : s.WellFormed defs := by
  have hNode : ∀ id t, s.get? id = some t → (t, id.index) ∈ s.nodes.zipIdx := fun id t hFound =>
    mem_zipIdx_iff_getElem?.2 hFound
  have hPath : ∀ first last, Relation.TransGen s.Child first last → last.index < first.index := by
    intro first last hPath
    induction hPath with
    | single hChild =>
      obtain ⟨t, hFound, hMem⟩ := hChild
      exact (h.1 _ (hNode _ t hFound)).2.2 _ hMem
    | tail _ hChild ih =>
      obtain ⟨t, hFound, hMem⟩ := hChild
      exact Nat.lt_trans ((h.1 _ (hNode _ t hFound)).2.2 _ hMem) ih
  refine ⟨fun id t hFound => (h.1 _ (hNode id t hFound)).1, fun id t r hFound hr => ?_,
    fun d hd template hTemplate => h.2 d hd template (by simp [hTemplate]),
    fun id hCycle => Nat.lt_irrefl _ (hPath id id hCycle)⟩
  exact (h.1 _ (hNode id t hFound)).2.1 r (by simp [hr])

end Store

end TemplateCheck
