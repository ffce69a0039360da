import TemplateCheck.Proofs.Lengths
import TemplateCheck.Proofs.Locality.Check
import TemplateCheck.Proofs.Slots.Splice

/-!
# Counting the elements of a list

A list without slots, whose permutations do not hold permutations, has a number of elements that every way of counting
agrees on. Checking the items one by one keeps that number: an item that was checked may be another form of template
then, but it is neither a slot nor a permutation if it was none before, and a permutation keeps its members.
-/

namespace TemplateCheck

open List Store

variable {s : Store} {id item : NodeId} {t : Template} {D : NodeId → Prop}

/-- A form that stands for one element, as far as it is counted: not a permutation, and not a slot unless these are
counted as well. -/
def Form.isSingle (slots : Bool) (form : Form) : Bool := (slots || !form.isSlot) && form.listShape? ≠ some .permutation

variable {slots : Bool}

theorem Form.Becomes.isSingle {f g : Form} (h : f.Becomes g) (hf : f.isSingle slots) : g.isSingle slots := by
  simp only [Form.isSingle, Bool.and_eq_true, Bool.or_eq_true, Bool.not_eq_true', decide_eq_true_eq] at hf ⊢
  exact ⟨hf.1.imp_right h.isSlot_eq_false, h.listShape?_ne hf.2⟩

def Form.elements : Form → Nat
  | .list .permutation members => members.length
  | _ => 1

variable {form : Form} {f : Template → Template}

theorem Form.elements_of_isSingle (h : form.isSingle slots) : form.elements = 1 := by
  cases form with
  | list shape items => cases shape <;> first | rfl | simp [isSingle, listShape?] at h
  | _ => rfl

namespace Store

def Single (slots : Bool) (s : Store) (id : NodeId) : Prop := ∃ t, s.get? id = some t ∧ t.form.isSingle slots

inductive Amounts (slots : Bool) (s : Store) : List NodeId → Nat → Prop where
  | nil : Amounts slots s [] 0
  | single {item : NodeId} {rest : List NodeId} {n : Nat} : s.Single slots item → Amounts slots s rest n →
      Amounts slots s (item :: rest) (1 + n)
  | permutation {item : NodeId} {t : Template} {members rest : List NodeId} {n : Nat} : s.get? item = some t →
      t.form = .list .permutation members → (∀ member ∈ members, s.Single slots member) → Amounts slots s rest n →
      Amounts slots s (item :: rest) (members.length + n)

instance : Course Template.SameSlots := ⟨fun _ => Template.Pursued.same.sameSlots, .trans⟩

abbrev OnlyAt : (NodeId → Prop) → Store → Store → Prop := Bounds Template.SameSlots

/-- What checking an item of a list may touch: a permutation itself stays as it is. -/
def Within (s : Store) (item other : NodeId) : Prop :=
  Relation.TransGen s.Child item other ∨ other = item ∧ s.NoPermutation item

variable {s' : Store} {items : List NodeId} {n : Nat} {shape : ListShape}

theorem Closed.within (h : s.Closed D) (item : NodeId) : s.Closed fun other => D other ∨ s.Within item other where
  new other hNew := .inl (h.new other hNew)
  child parent child hParent hChild := by
    obtain hIn | hBelow | ⟨rfl, -⟩ := hParent
    · exact .inl (h.child parent child hIn hChild)
    · exact .inr (.inl (hBelow.tail hChild))
    · exact .inr (.inl (.single hChild))

theorem Lists.mem_of_within {roots ids : List NodeId} {other : NodeId} (h : s.Lists roots ids) (hItem : item ∈ roots)
    (hWithin : s.Within item other) : other ∈ ids := by
  obtain hBelow | ⟨rfl, -⟩ := hWithin
  · exact h.mem_of_below (h.mem_of_root hItem) hBelow.to_reflTransGen
  · exact h.mem_of_root hItem

theorem Amounts.of_cons (h : s.Amounts slots (item :: items) n) :
    ∃ k m, s.Amounts slots [item] k ∧ s.Amounts slots items m ∧ n = k + m := by
  cases h with
  | single hItem hItems => exact ⟨_, _, .single hItem .nil, hItems, rfl⟩
  | permutation hNode hForm hMembers hItems => exact ⟨_, _, .permutation hNode hForm hMembers .nil, hItems, rfl⟩

theorem Single.noPermutation (h : s.Single slots id) : s.NoPermutation id := by
  obtain ⟨t, hNode, hForm⟩ := h
  simp only [Form.isSingle, Bool.and_eq_true, decide_eq_true_eq] at hForm
  exact ⟨t, hNode, hForm.2⟩

theorem Single.evolves (h : s.Single slots id) (hEvolves : s.Evolves s') : s'.Single slots id := by
  obtain ⟨t, hNode, hForm⟩ := h
  obtain ⟨t', hNode', ht⟩ := hEvolves id t hNode
  exact ⟨t', hNode', ht.form.isSingle hForm⟩

theorem OnlyAt.mono {E : NodeId → Prop} (h : s.OnlyAt D s') (hClosed : s.Closed D) (hSub : ∀ id, D id → E id) :
    s.OnlyAt E s' where
  size_le := h.size_le
  nodes id t hNode := by
    obtain ⟨t', hNode', ht⟩ := h.nodes id t hNode
    exact ⟨t', hNode', fun hOut => ht fun hIn => hOut (hSub id hIn)⟩
  closed hE := by
    have hClosed' := h.closed hClosed
    refine ⟨fun other hNew => hSub other (hClosed'.new other hNew), fun parent child hParent hChild => ?_⟩
    by_cases hIn : D parent
    · exact hSub child (hClosed'.child parent child hIn hChild)
    · obtain ⟨t', hNode', hMem⟩ := hChild
      obtain ⟨t, hNode⟩ := Has.exists_get? (not_imp_comm.1 (hClosed.new parent) hIn)
      obtain ⟨_, hFound, ht⟩ := h.nodes parent t hNode
      cases hNode'.symm.trans hFound
      exact hE.child parent child hParent ⟨t, hNode, (ht hIn).children ▸ hMem⟩

theorem OnlyAt.sameSlots {others : List NodeId} (h : s.OnlyAt D s') (hOut : ∀ id ∈ others, ¬ D id) :
    s.SameSlots others s' := by
  intro id hMem t hNode
  obtain ⟨t', hNode', ht⟩ := h.nodes id t hNode
  exact ⟨t', hNode', ht (hOut id hMem)⟩

theorem onlyAt_update (hf : ∀ t : Template, t.SameSlots (f t)) : s.OnlyAt D (s.update id f) where
  size_le := Nat.le_of_eq (size_update s id f).symm
  nodes other t hNode := by
    obtain ⟨t', hNode', ht⟩ := (turns_update (R := fun _ => Template.SameSlots) fun t _ => hf t).nodes other t hNode
    exact ⟨t', hNode', fun _ => ht⟩
  closed hClosed := by
    refine ⟨fun other hNew => hClosed.new other (by rwa [has_update] at hNew), fun parent child hParent hChild => ?_⟩
    obtain ⟨t', hNode', hMem⟩ := hChild
    obtain ⟨hOld, -⟩ | ⟨rfl, t, hOld, rfl⟩ := get?_update_cases hNode'
    · exact hClosed.child parent child hParent ⟨t', hOld, hMem⟩
    · exact hClosed.child parent child hParent ⟨t, hOld, (hf t).children ▸ hMem⟩

theorem Confined.onlyAt (h : s.Confined D s') : s.OnlyAt D s' :=
  h.mono fun _ _ => Template.Pursued.sameSlots

theorem not_noPermutation {members : List NodeId} (hNode : s.get? item = some t)
    (hForm : t.form = .list .permutation members) : ¬ s.NoPermutation item := by
  rintro ⟨_, hNode', hShape⟩
  cases hNode.symm.trans hNode'
  simp [hForm, Form.listShape?] at hShape

theorem OnlyAt.list (h : s.OnlyAt D s') (hNode : s.get? id = some t) (hOut : ¬ D id)
    (hForm : t.form = .list shape items) : ∃ t', s'.get? id = some t' ∧ t'.form = .list shape items ∧
      t'.marks.flattened = t.marks.flattened := by
  obtain ⟨t', hNode', ht⟩ := h.nodes id t hNode
  refine ⟨t', hNode', ?_, (ht hOut).flattened⟩
  have hShape := (ht hOut).listShape?
  have hChildren := (ht hOut).children
  rw [hForm] at hShape hChildren
  revert hShape hChildren
  cases t'.form <;> simp +contextual [Form.listShape?, Form.children]

theorem Amounts.after (h : s.Amounts slots items n) (hEvolves : s.Evolves s') (hOnly : s.OnlyAt D s')
    (hOut : ∀ item ∈ items, s.NoPermutation item ∨ ¬ D item) : s'.Amounts slots items n := by
  induction h with
  | nil => exact .nil
  | single hItem _ ih => exact .single (hItem.evolves hEvolves) (ih (forall_mem_cons.1 hOut).2)
  | permutation hNode hForm hMembers _ ih =>
    obtain ⟨hItem, hRest⟩ := forall_mem_cons.1 hOut
    have hNot := hItem.resolve_left (not_noPermutation hNode hForm)
    obtain ⟨t', hNode', hForm', -⟩ := hOnly.list hNode hNot hForm
    exact .permutation hNode' hForm' (fun member hMember => (hMembers member hMember).evolves hEvolves) (ih hRest)

theorem amounts_of_shallow (hItems : ∀ item ∈ items, s.Has item) (hShallow : ∀ item ∈ items, s.Shallow item)
    (hSlots : slots = true ∨ ∀ slot, ¬ s.SlotAmong items slot) : ∃ n, s.Amounts slots items n := by
  induction items with
  | nil => exact ⟨0, .nil⟩
  | cons item items ih =>
    obtain ⟨hItem, hItems⟩ := forall_mem_cons.1 hItems
    obtain ⟨hOwn, hShallow⟩ := forall_mem_cons.1 hShallow
    obtain ⟨n, hAmounts⟩ := ih hItems hShallow
      (hSlots.imp_right fun hNone slot hSlot => hNone slot (hSlot.mono fun _ => mem_cons_of_mem _))
    obtain ⟨t, hNode⟩ := hItem.exists_get?
    have hSingle : ∀ form : Form, form.listShape? ≠ some .permutation →
        (form.isSlot → ∃ slot, s.SlotAmong (item :: items) slot) → form.isSingle slots := by
      intro form hShape hIs
      obtain rfl | hNone := hSlots
      · simpa [Form.isSingle] using hShape
      · have hSlot : form.isSlot = false := Bool.eq_false_iff.2 fun h => (hIs h).elim hNone
        simp [Form.isSingle, hSlot, hShape]
    by_cases hShape : t.form.listShape? = some .permutation
    · obtain ⟨members, hForm⟩ : ∃ members, t.form = .list .permutation members := by
        revert hShape
        cases t.form <;> simp [Form.listShape?]
      refine ⟨_, .permutation hNode hForm (fun member hMember => ?_) hAmounts⟩
      have hChild : member ∈ t.form.children := by rwa [hForm]
      obtain ⟨u, hFound, hForm'⟩ := hOwn t hNode hShape member hChild
      refine ⟨u, hFound, hSingle u.form hForm' fun hIs => ⟨member, ?_⟩⟩
      exact .inside mem_cons_self hNode (by rw [hForm]; rfl) (.here hChild hFound hIs)
    · exact ⟨_, .single ⟨t, hNode, hSingle t.form hShape fun hIs => ⟨item, .here mem_cons_self hNode hIs⟩⟩ hAmounts⟩

def leavesOf (s : Store) (inside : List NodeId → Except Fault (List (NodeId × Form))) (item : NodeId) :
    Except Fault (List (NodeId × Form)) := do
  match ← s.formOf item with
  | .list .permutation members => inside members
  | form => return [(item, form)]

/-- The items of a list with their forms, and the members of permutations in the place of these. -/
def leavesWithin (s : Store) : Nat → List NodeId → Except Fault (List (NodeId × Form))
  | 0, _ => .error .endlessWalk
  | depth + 1, items => do return (← items.mapM (s.leavesOf (s.leavesWithin depth))).flatten

variable {α : Type} {measure : NodeId → Form → α} {add : α → α → α} {zero : α} {depth : Nat}
  {leaves : List (NodeId × Form)}

theorem leavesWithin_cons (s : Store) (depth : Nat) (item : NodeId) (items : List NodeId) :
    s.leavesWithin (depth + 1) (item :: items) = do
      let own ← s.leavesOf (s.leavesWithin depth) item
      return own ++ (← s.leavesWithin (depth + 1) items) := by
  rw [leavesWithin, mapM_cons, leavesWithin]
  cases s.leavesOf (s.leavesWithin depth) item with
  | error fault => rfl
  | ok own => cases items.mapM (s.leavesOf (s.leavesWithin depth)) <;> rfl

def sum (measure : NodeId → Form → α) (add : α → α → α) (zero : α) (leaves : List (NodeId × Form)) : α :=
  leaves.foldr (fun leaf => add (measure leaf.1 leaf.2)) zero

@[simp] theorem sum_cons (leaf : NodeId × Form) : sum measure add zero (leaf :: leaves) =
    add (measure leaf.1 leaf.2) (sum measure add zero leaves) := rfl

section

variable (hAssoc : ∀ a b c, add (add a b) c = add a (add b c)) (hLeft : ∀ a, add zero a = a)
  (hRight : ∀ a, add a zero = a)

include hAssoc hLeft

theorem sum_append (first second : List (NodeId × Form)) :
    sum measure add zero (first ++ second) = add (sum measure add zero first) (sum measure add zero second) := by
  induction first with
  | nil => exact (hLeft _).symm
  | cons leaf first ih =>
    rw [cons_append, sum_cons, ih, ← hAssoc, sum_cons]

include hRight

/-- Whatever is counted of a list is counted of its leaves. -/
theorem tallyWithin_eq_sum (depth : Nat) (items : List NodeId) :
    s.tallyWithin measure add zero depth items = (s.leavesWithin depth items).map (sum measure add zero) := by
  induction depth generalizing items with
  | zero => rfl
  | succ depth ih =>
    suffices h : ∀ total, items.foldlM (s.tallyStep measure add zero depth) total =
        (s.leavesWithin (depth + 1) items).map fun leaves => add total (sum measure add zero leaves) by
      refine (h zero).trans ?_
      simp only [hLeft]
    induction items with
    | nil => exact fun total => congrArg Except.ok (hRight total).symm
    | cons item items ihItems =>
      intro total
      have hItem : s.tallyStep measure add zero depth total item =
          (s.leavesOf (s.leavesWithin depth) item).map fun own => add total (sum measure add zero own) := by
        unfold tallyStep leavesOf
        cases s.formOf item with
        | error fault => rfl
        | ok form =>
          cases form with
          | list shape members =>
            cases shape with
            | permutation =>
              dsimp only [bind, Except.bind]
              rw [ih]
              cases s.leavesWithin depth members <;> rfl
            | _ => exact congrArg Except.ok (by simp [sum, hRight])
          | _ => exact congrArg Except.ok (by simp [sum, hRight])
      rw [foldlM_cons, hItem, leavesWithin_cons]
      cases s.leavesOf (s.leavesWithin depth) item with
      | error fault => rfl
      | ok own =>
        refine (ihItems _).trans ?_
        cases s.leavesWithin (depth + 1) items with
        | error fault => rfl
        | ok rest => exact congrArg Except.ok (by simp only [sum_append hAssoc hLeft, hAssoc])

end

theorem leavesOf_single (h : s.Single slots item) (inside : List NodeId → Except Fault (List (NodeId × Form))) :
    ∃ form : Form, form.isSingle slots ∧ s.leavesOf inside item = .ok [(item, form)] := by
  obtain ⟨t, hNode, hSingle⟩ := h
  refine ⟨t.form, hSingle, ?_⟩
  simp only [leavesOf, formOf, hNode, bind, Except.bind]
  split
  · rename_i hForm
    simp [hForm, Form.isSingle, Form.listShape?] at hSingle
  · rfl

theorem leavesWithin_singles (h : ∀ member ∈ items, s.Single slots member) (depth : Nat) :
    ∃ leaves, s.leavesWithin (depth + 1) items = .ok leaves ∧ leaves.length = items.length ∧
      ∀ leaf ∈ leaves, leaf.2.isSingle slots := by
  induction items with
  | nil => exact ⟨[], rfl, rfl, by simp⟩
  | cons item items ih =>
    obtain ⟨hItem, hItems⟩ := forall_mem_cons.1 h
    obtain ⟨form, hForm, hOwn⟩ := leavesOf_single hItem (s.leavesWithin depth)
    obtain ⟨leaves, hLeaves, hLength, hAll⟩ := ih hItems
    exact ⟨(item, form) :: leaves, by rw [leavesWithin_cons, hOwn, hLeaves]; rfl, by simp [hLength],
      forall_mem_cons.2 ⟨hForm, hAll⟩⟩

theorem Amounts.leavesWithin (h : s.Amounts slots items n) (depth : Nat) :
    ∃ leaves, s.leavesWithin (depth + 2) items = .ok leaves ∧ leaves.length = n ∧
      ∀ leaf ∈ leaves, leaf.2.isSingle slots := by
  induction h with
  | nil => exact ⟨[], rfl, rfl, by simp⟩
  | @single item _ _ hItem _ ih =>
    obtain ⟨form, hForm, hOwn⟩ := leavesOf_single hItem (s.leavesWithin (depth + 1))
    obtain ⟨leaves, hLeaves, rfl, hAll⟩ := ih
    exact ⟨(item, form) :: leaves, by rw [leavesWithin_cons, hOwn, hLeaves]; rfl, by simp [Nat.add_comm],
      forall_mem_cons.2 ⟨hForm, hAll⟩⟩
  | permutation hNode hForm hMembers _ ih =>
    obtain ⟨own, hOwn, hLength, hSingle⟩ := leavesWithin_singles hMembers depth
    obtain ⟨leaves, hLeaves, rfl, hAll⟩ := ih
    refine ⟨own ++ leaves, ?_, by simp [hLength], forall_mem_append.2 ⟨hSingle, hAll⟩⟩
    rw [leavesWithin_cons, hLeaves]
    simp only [leavesOf, formOf, hNode, hForm, bind, Except.bind, hOwn]
    rfl

theorem fixed_add_slots (leaves : List (NodeId × Form)) :
    (sum itemCardinality Cardinality.add {} leaves).fixed +
      (sum itemCardinality Cardinality.add {} leaves).slots.length = leaves.length := by
  induction leaves with
  | nil => rfl
  | cons leaf leaves ih =>
    have hOwn : (itemCardinality leaf.1 leaf.2).fixed + (itemCardinality leaf.1 leaf.2).slots.length = 1 := by
      unfold itemCardinality
      split <;> rfl
    simp only [sum_cons, Cardinality.add, length_append, length_cons]
    omega

theorem slots_eq_nil (h : ∀ leaf ∈ leaves, leaf.2.isSlot = false) :
    (sum itemCardinality Cardinality.add {} leaves).slots = [] := by
  induction leaves with
  | nil => rfl
  | cons leaf leaves ih =>
    obtain ⟨hLeaf, hLeaves⟩ := forall_mem_cons.1 h
    have hOwn : (itemCardinality leaf.1 leaf.2).slots = [] := by
      unfold itemCardinality
      split
      · simp_all [Form.isSlot]
      · rfl
    exact append_eq_nil_iff.2 ⟨hOwn, ih hLeaves⟩

theorem cardinality_eq_sum (hNode : s.get? id = some t) (hForm : t.form = .list shape items) :
    s.cardinality id = (s.leavesWithin (s.size + 1) items).map (sum itemCardinality Cardinality.add {}) := by
  simp only [cardinality, formOf, hNode, hForm, bind, Except.bind]
  apply tallyWithin_eq_sum
  · simp [Cardinality.add, Nat.add_assoc]
  · simp [Cardinality.add]
  · simp [Cardinality.add]

theorem Amounts.cardinality (h : s.Amounts slots items n) (hNode : s.get? id = some t)
    (hForm : t.form = .list shape items) :
    ∃ c, s.cardinality id = .ok c ∧ c.fixed + c.slots.length = n ∧ (slots = false → c.slots = []) := by
  obtain ⟨k, hSize⟩ : ∃ k, s.size = k + 1 := ⟨s.size - 1, by have := lt_size_of_get? hNode; omega⟩
  obtain ⟨leaves, hLeaves, rfl, hAll⟩ := h.leavesWithin k
  rw [cardinality_eq_sum hNode hForm, hSize, hLeaves]
  refine ⟨_, rfl, fixed_add_slots leaves, ?_⟩
  rintro rfl
  exact slots_eq_nil fun leaf hLeaf => by have := hAll leaf hLeaf; simp_all [Form.isSingle]

end Store

section

variable {env : Env} {first : Store} {check : ChildCheck} (hCheck : ∀ D, check.Confined D env) (g : ListType)
  (permitted : Completeness)

theorem moves_unseen {h : ∀ t : Template, t.Evolves (f t)} (hf : ∀ t : Template, t.SameSlots (f t)) :
    Moves (OnlyAt D) env s (onStore (modifyNode id f h)) fun _ s' => s.OnlyAt D s' := by
  apply (moves_modifyNode (Course.refl s) fun _ _ => onlyAt_update hf).mono
  rintro _ _ - ⟨-, rfl⟩
  exact onlyAt_update hf

include hCheck

theorem steps_checkPermutation_members {members : List NodeId} (hClosed : s.Closed D)
    (hMembers : ∀ member ∈ members, D member) :
    Steps (OnlyAt D) env s (checkPermutation check g id item members) := by
  unfold checkPermutation
  split
  · exact ((Still.illegalForm item g.decl).bind fun _ => .pure _).steps
  split
  · exact ((Still.problemAt item _).bind fun _ => .pure _).steps
  apply (moves_unseen (f := (·.mark .hasPermutation)) fun _ => ⟨rfl, rfl, rfl, rfl, rfl, rfl⟩).bind
  intro _ s1 _ hFirst
  apply (moves_unseen (f := (·.govern g.element)) fun _ => ⟨rfl, rfl, rfl, rfl, rfl, rfl⟩).bind
  intro _ s2 _ hSecond
  have hClosed2 : s2.Closed D := hSecond.closed (hFirst.closed hClosed)
  exact (steps_checkMembers (hCheck D) hClosed2 g.element "permutation" hMembers).weaken fun _ => Confined.onlyAt

theorem returns_checkItem (position : Nat) (hClosed : s.Closed D) (hNode : s.get? item = some t)
    (hChildren : ∀ child ∈ t.form.children, D child) (hItem : s.NoPermutation item → D item) :
    Returns false env s (checkItem check g id permitted item position) fun result s' =>
      result.1 = t.form.elements ∧ s.OnlyAt D s' := by
  apply Concludes.formIs_then hNode
  split
  · rename_i members hForm
    rw [hForm] at hChildren
    apply (Concludes.of_moves (steps_checkPermutation_members hCheck g hClosed hChildren)).bind
    rintro found s' ⟨hOnly, -⟩
    exact .pure ⟨by rw [hForm]; rfl, hOnly⟩
  · rename_i hForm
    apply Concludes.still_then ((remarks_checkNotUsed position permitted).still item)
    intro _
    exact .pure ⟨by rw [hForm]; rfl, Course.refl s⟩
  · rename_i hPermutation hNotUsed
    have hShape : t.form.listShape? ≠ some .permutation := by
      intro hShape
      revert hPermutation
      cases hForm : t.form <;> simp_all [Form.listShape?]
    have hElement := steps_checkElement (hCheck D) hClosed g permitted (hItem ⟨t, hNode, hShape⟩) position
    apply (Concludes.of_moves hElement).bind
    rintro found s' ⟨hConfined, -⟩
    refine .pure ⟨?_, hConfined.onlyAt⟩
    revert hPermutation
    cases hForm : t.form with
    | list shape items => cases shape <;> simp [Form.elements]
    | _ => simp [Form.elements]

section

variable (hClosed : first.Closed D) (hOnly : first.OnlyAt D s) (hEvolves : first.Evolves s)

include hClosed hOnly hEvolves

theorem returns_checkItem_counted (position : Nat) {k : Nat} (hItem : first.Amounts slots [item] k)
    (hOut : first.NoPermutation item ∨ ¬ D item) :
    Returns false env s (checkItem check g id permitted item position) fun result s' =>
      result.1 = k ∧ first.OnlyAt (fun other => D other ∨ first.Within item other) s' := by
  have hOnly' : first.OnlyAt (fun other => D other ∨ first.Within item other) s := hOnly.mono hClosed fun _ => .inl
  have hClosed' := hOnly'.closed (hClosed.within item)
  cases hItem with
  | single hSingle hNil =>
    cases hNil
    have hIn : D item ∨ first.Within item item := .inr (.inr ⟨rfl, hSingle.noPermutation⟩)
    obtain ⟨t, hNode, hForm⟩ := hSingle.evolves hEvolves
    apply (returns_checkItem hCheck g permitted position hClosed' hNode
      (fun child hChild => hClosed'.child item child hIn ⟨t, hNode, hChild⟩) fun _ => hIn).mono
    rintro result s' ⟨hCount, hLast⟩
    exact ⟨by rw [hCount, Form.elements_of_isSingle hForm], Course.trans hOnly' hLast⟩
  | permutation hNode hForm hMembers hNil =>
    cases hNil
    obtain ⟨t', hNode', hForm', -⟩ := hOnly.list hNode (hOut.resolve_left (not_noPermutation hNode hForm)) hForm
    apply (returns_checkItem hCheck g permitted position hClosed' hNode' ?_
      fun hNo => absurd hNo (not_noPermutation hNode' hForm')).mono
    · rintro result s' ⟨hCount, hLast⟩
      exact ⟨by rw [hCount, hForm']; rfl, Course.trans hOnly' hLast⟩
    · intro child hChild
      rw [hForm', ← hForm] at hChild
      exact .inr (.inl (.single ⟨_, hNode, hChild⟩))

theorem returns_checkItems_outside {items : List NodeId} {n : Nat} (hAmounts : first.Amounts slots items n)
    (hApart : items.Pairwise fun earlier later =>
      first.NoPermutation later ∨ ¬ Relation.TransGen first.Child earlier later)
    (hOut : ∀ item ∈ items, first.NoPermutation item ∨ ¬ D item) (position : Nat) (start : Nat × Bool) :
    Returns false env s (checkItems check g id permitted (items.zipIdx position) start) fun result s' =>
      result.1 = start.1 + n ∧ ∃ E, first.OnlyAt E s' ∧
        ∀ other, E other → D other ∨ ∃ item ∈ items, first.Within item other := by
  induction items generalizing s D position start n with
  | nil =>
    cases hAmounts
    exact .pure ⟨rfl, D, hOnly, fun _ => .inl⟩
  | cons item items ih =>
    obtain ⟨k, m, hItem, hItems, rfl⟩ := hAmounts.of_cons
    obtain ⟨hFar, hApart⟩ := pairwise_cons.1 hApart
    obtain ⟨hFirst, hOut⟩ := forall_mem_cons.1 hOut
    rw [zipIdx_cons, checkItems, foldlM_cons, bind_assoc]
    apply (returns_checkItem_counted hCheck g permitted hClosed hOnly hEvolves position hItem hFirst).and_evolves.bind
    rintro ⟨_, refersBack⟩ s1 ⟨⟨rfl, hOnly1⟩, hEvolves1⟩
    rw [pure_bind]
    have hLater : ∀ later ∈ items, first.NoPermutation later ∨ ¬ (D later ∨ first.Within item later) := by
      intro later hMem
      refine or_iff_not_imp_left.2 fun hIs => not_or.2 ⟨(hOut later hMem).resolve_left hIs, ?_⟩
      rintro (hBelow | ⟨rfl, hNo⟩)
      · exact (hFar later hMem).resolve_left hIs hBelow
      · exact hIs hNo
    apply (ih (hClosed.within item) hOnly1 (Course.trans hEvolves hEvolves1) hItems hApart hLater _ _).mono
    rintro result s2 ⟨hCount, E, hE, hSub⟩
    refine ⟨by rw [hCount, Nat.add_assoc], E, hE, fun other hOther => ?_⟩
    obtain (hIn | hWithin) | ⟨later, hMem, hWithin⟩ := hSub other hOther
    · exact .inl hIn
    · exact .inr ⟨item, mem_cons_self, hWithin⟩
    · exact .inr ⟨later, mem_cons_of_mem _ hMem, hWithin⟩

end

/-- What has been touched so far holds no permutation still to come, so the items are counted as they were at first. -/
theorem returns_checkItems {items : List NodeId} {n : Nat} (hAmounts : s.Amounts slots items n)
    (hHas : ∀ item ∈ items, s.Has item)
    (hApart : items.Pairwise fun earlier later => s.NoPermutation later ∨ ¬ Relation.TransGen s.Child earlier later) :
    Returns false env s (checkItems check g id permitted items.zipIdx (0, false)) fun result s' =>
      result.1 = n ∧ ∃ E, s.OnlyAt E s' ∧ ∀ other, E other → ¬ s.Has other ∨ ∃ item ∈ items, s.Within item other := by
  have hOut : ∀ item ∈ items, s.NoPermutation item ∨ ¬ ¬ s.Has item := fun item hItem =>
    .inr (not_not_intro (hHas item hItem))
  have hRefl : s.Evolves s := Course.refl s
  apply (returns_checkItems_outside hCheck g permitted (closed_new s) (Course.refl s) hRefl hAmounts hApart hOut 0
    (0, false)).mono
  rintro result s' ⟨hCount, hRest⟩
  exact ⟨hCount.trans (Nat.zero_add n), hRest⟩

end

end TemplateCheck
