import TemplateCheck.Template.Evolution
import TemplateCheck.Tracked

/-!
# The template store

Nodes are added at the end and never removed, so an id stays valid. A node changes its form only in
the ways that `Form.mayBecome` permits. Besides single nodes the store lists a whole tree and copies
it to fresh nodes; both walks end on every store without cycles, because a path visits each node at
most once.
-/

namespace TemplateCheck

structure Store where
  nodes : List Template := []
deriving Inhabited

namespace Store

def size (s : Store) : Nat := s.nodes.length

def get? (s : Store) (id : NodeId) : Option Template := s.nodes[id.index]?

def nextId (s : Store) : NodeId := ⟨s.size⟩

def push (s : Store) (t : Template) : Store := ⟨s.nodes ++ [t]⟩

def update (s : Store) (id : NodeId) (f : Template → Template) : Store :=
  ⟨s.nodes.modify id.index f⟩

@[simp] theorem size_push (s : Store) (t : Template) : (s.push t).size = s.size + 1 := by
  simp [size, push]

@[simp] theorem size_update (s : Store) (id : NodeId) (f : Template → Template) : (s.update id f).size = s.size := by
  simp [size, update]

theorem get?_eq_none_iff {s : Store} {id : NodeId} : s.get? id = none ↔ s.size ≤ id.index := by
  simp [get?, size]

theorem lt_size_of_get? {s : Store} {id : NodeId} {t : Template} (h : s.get? id = some t) : id.index < s.size :=
  (List.getElem?_eq_some_iff.1 h).1

theorem get?_push_of_lt {s : Store} {t : Template} {id : NodeId} (h : id.index < s.size) :
    (s.push t).get? id = s.get? id :=
  List.getElem?_append_left h

@[simp] theorem get?_push_nextId (s : Store) (t : Template) : (s.push t).get? s.nextId = some t := by
  simp [get?, push, nextId, size]

@[simp] theorem get?_update_self (s : Store) (id : NodeId) (f : Template → Template) :
    (s.update id f).get? id = (s.get? id).map f := by
  simp [get?, update, List.getElem?_modify_eq]

theorem get?_update_of_ne {s : Store} {id other : NodeId} {f : Template → Template}
    (h : other ≠ id) : (s.update id f).get? other = s.get? other := by
  have hIndex : id.index ≠ other.index := fun e => h (by cases id; cases other; simp_all)
  simp [get?, update, hIndex]

def Evolves (before after : Store) : Prop :=
  ∀ id t, before.get? id = some t → ∃ t', after.get? id = some t' ∧ t.Evolves t'

instance : Course Evolves where
  refl _ _ t h := ⟨t, h, .refl t⟩
  trans hFirst hSecond id t h := by
    obtain ⟨t', h', hEvolves⟩ := hFirst id t h
    obtain ⟨t'', h'', hEvolves'⟩ := hSecond id t' h'
    exact ⟨t'', h'', hEvolves.trans hEvolves'⟩

theorem evolves_push (s : Store) (t : Template) : s.Evolves (s.push t) := by
  intro id found h
  exact ⟨found, (get?_push_of_lt (lt_size_of_get? h)).trans h, .refl found⟩

theorem evolves_update {s : Store} {id : NodeId} {f : Template → Template}
    (h : ∀ t, s.get? id = some t → t.Evolves (f t)) : s.Evolves (s.update id f) := by
  intro other t hFound
  by_cases hEq : other = id
  · subst hEq
    exact ⟨f t, by simp [hFound], h t hFound⟩
  · exact ⟨t, (get?_update_of_ne hEq).trans hFound, .refl t⟩

end Store

/-- Computations that change the store and may fail. -/
abbrev StoreM := Tracked Store.Evolves

namespace Store

def get (id : NodeId) : StoreM Template :=
  .still fun s =>
    match s.get? id with
    | some t => .ok t
    | none => .error (.danglingTemplate id)

def alloc (t : Template) : StoreM NodeId := ⟨fun s => (.ok s.nextId, s.push t), (evolves_push · t)⟩

def modifyNode (id : NodeId) (f : Template → Template) (h : ∀ t : Template, t.Evolves (f t)) : StoreM Unit := do
  let _ ← get id
  ⟨fun s => (.ok (), s.update id f), fun _ => evolves_update fun t _ => h t⟩

def replace (id : NodeId) (form : Form) : StoreM Form where
  run s :=
    match s.get? id with
    | none => (.error (.danglingTemplate id), s)
    | some t =>
      if t.form.mayBecome form then (.ok t.form, s.update id fun t => { t with form })
      else (.error (.illegalTransition t.form.variant form.variant), s)
  along s := by
    split
    · exact Course.refl s
    · rename_i t hFound
      split
      · rename_i hMay
        refine evolves_update fun t' hFound' => ?_
        cases hFound.symm.trans hFound'
        exact Template.evolves_form hMay
      · exact Course.refl s

/-- Copy a tree that is at most `depth` levels deep. The copy is unchecked and shares base links
with the tree it was made from. -/
def copyWithin : Nat → NodeId → StoreM NodeId
  | 0, _ => throw .endlessWalk
  | depth + 1, id => do
    let t ← get id
    let form ← t.form.mapChildrenM (copyWithin depth)
    alloc { t with form, governor := none, marks := {} }

def deepCopy (id : NodeId) : StoreM NodeId := do
  copyWithin ((← Tracked.get).size + 1) id

/-- Take nodes from a stack and put their children there, until nothing is left. What was taken is
given in reverse. -/
def drain (s : Store) : Nat → List NodeId → List NodeId → Except Fault (List NodeId)
  | _, taken, [] => .ok taken.reverse
  | 0, _, _ :: _ => .error .endlessWalk
  | steps + 1, taken, id :: stack =>
    match s.get? id with
    | none => .error (.danglingTemplate id)
    | some t => s.drain steps (id :: taken) (t.form.children ++ stack)

/-- The number of links from a node to a child. -/
def links (s : Store) : Nat := (s.nodes.flatMap (·.form.children)).length

/-- The nodes of a tree, each before its children. -/
def subtree (s : Store) (id : NodeId) : Except Fault (List NodeId) :=
  s.drain (Nat.pow (s.links + 1) (s.size + 1)) [] [id]

end Store

end TemplateCheck
