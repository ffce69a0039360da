import TemplateCheck.Check.Monad

/-!
# Counting elements

How many elements a list has, as far as it is known before a test run. The members of a permutation
count as elements of the list around it. An `all from` that was not spliced stands for an unknown
number of elements, and for a length restriction so does `*`.
-/

namespace TemplateCheck

/-- Elements of a list: those that are known and the slots filled at run time. -/
structure Cardinality where
  fixed : Nat := 0
  slots : List NodeId := []
deriving DecidableEq, Repr, Inhabited

def Cardinality.isFixed (c : Cardinality) : Bool := c.slots.isEmpty

def Cardinality.add (a b : Cardinality) : Cardinality := ⟨a.fixed + b.fixed, a.slots ++ b.slots⟩

/-- Elements that are certain, and whether there may be any number of further ones. -/
structure Extent where
  count : Nat := 0
  unbounded : Bool := false
deriving DecidableEq, Repr, Inhabited

def Extent.add (a b : Extent) : Extent := ⟨a.count + b.count, a.unbounded || b.unbounded⟩

namespace Store

def formOf (s : Store) (id : NodeId) : Except Fault Form :=
  match s.get? id with
  | some t => .ok t.form
  | none => .error (.danglingTemplate id)

/-- Sum a measure over the items of a list and the members of its permutations, which nest at most
`depth` levels deep. -/
def tallyWithin {α : Type} (s : Store) (measure : NodeId → Form → α) (add : α → α → α) (zero : α) :
    Nat → List NodeId → Except Fault α
  | 0, _ => .error .endlessWalk
  | depth + 1, items =>
    items.foldlM (fun total item => do
      match ← s.formOf item with
      | .list .permutation members =>
        return add total (← s.tallyWithin measure add zero depth members)
      | form => return add total (measure item form)) zero

def itemCardinality (item : NodeId) : Form → Cardinality
  | .allFrom _ => ⟨0, [item]⟩
  | _ => ⟨1, []⟩

def cardinality (s : Store) (id : NodeId) : Except Fault Cardinality := do
  match ← s.formOf id with
  | .list _ items => s.tallyWithin itemCardinality Cardinality.add {} (s.size + 1) items
  | _ => return {}

def itemExtent (_item : NodeId) : Form → Extent
  | .anyOrOmit | .allFrom _ => ⟨0, true⟩
  | _ => ⟨1, false⟩

def extent (s : Store) (items : List NodeId) : Except Fault Extent :=
  s.tallyWithin itemExtent Extent.add {} (s.size + 1) items

end Store

def cardinality (id : NodeId) : CheckM Cardinality := do
  MonadExcept.ofExcept ((← currentStore).cardinality id)

def extent (items : List NodeId) : CheckM Extent := do
  MonadExcept.ofExcept ((← currentStore).extent items)

end TemplateCheck
