import TemplateCheck.Check.Modification
import TemplateCheck.Check.Splice

/-!
# Lists

Templates of `record of`, `set of` and array types. Elements are given by position, after splicing,
or by index. Permutations are legal in ordered lists, supersets and subsets in sets. An array that
cannot be sliced takes neither permutations nor index notation, and the number of its elements has
to be its size.
-/

namespace TemplateCheck

/-- Size and first index of an array. -/
structure ArrayBounds where
  size : Nat
  first : Int
deriving DecidableEq, Repr, Inhabited

def ArrayBounds.index (bounds : ArrayBounds) (position : Int) : Int := wrapIndex (bounds.first + position)

def ArrayBounds.last (bounds : ArrayBounds) : Int := bounds.index (bounds.size - 1)

/-- A list type as the checks of its elements see it. -/
structure ListType where
  decl : TypeDecl
  element : TypeKey
  isSet : Bool := false
  array : Option ArrayBounds := none
  /-- Permutations and index notation are legal. -/
  sliceable : Bool := true
deriving DecidableEq, Repr, Inhabited

def TypeDecl.listType? (decl : TypeDecl) (slicing : Bool) : Option ListType :=
  match decl.category with
  | .recordOf element => some { decl, element }
  | .setOf element => some { decl, element, isSet := true }
  | .array element size offset =>
    some { decl, element, array := some ⟨size, offset⟩, sliceable := slicing }
  | _ => none

def ListType.context (g : ListType) (position : Nat) : Context :=
  match g.array with
  | some bounds => .arrayElement (bounds.index position)
  | none => .component (position + 1)

def checkMembers (check : ChildCheck) (type : TypeKey) (list : String) (members : List NodeId) : CheckM Bool :=
  checkAny (fun (member, position) =>
    checkChild check (.listElement (position + 1) list) member type .element) members.zipIdx

def checkPermutation (check : ChildCheck) (g : ListType) (id item : NodeId) (members : List NodeId) : CheckM Bool := do
  if g.isSet then
    illegalForm item g.decl
    return false
  if !g.sliceable then
    problemAt item (.arrayNotSliceable .permutation g.decl.name)
    return false
  mark id .hasPermutation
  govern item g.element
  checkMembers check g.element "permutation" members

/-- A position that is not used must be one that the base supplies. -/
def checkNotUsed (item : NodeId) (position : Nat) : Completeness → CheckM Unit
  | .complete => problemAt item .notUsedSymbol
  | .incomplete => return
  | .asBase items => do
    if items.length ≤ position then problemAt item .notUsedWithoutBase

def inheritBase (id base : NodeId) : CheckM Unit :=
  onStore (Store.modifyNode id (·.inheritFrom base) (·.evolves_inheritFrom base))

/-- Check an element, which inherits from the base's element at the same position. -/
def checkElement (check : ChildCheck) (g : ListType) (permitted : Completeness)
    (item : NodeId) (position : Nat) : CheckM Bool := do
  let inherited := match permitted with
    | .asBase items => items[position]?
    | _ => none
  inherited.forM (inheritBase item)
  checkChild check (g.context position) item g.element
    { incomplete := permitted = .incomplete || inherited.isSome, allowOmit := false }

/-- Check one item of a list. The result counts the elements that it stands for and tells whether it
refers back. -/
def checkItem (check : ChildCheck) (g : ListType) (id : NodeId) (permitted : Completeness)
    (item : NodeId) (position : Nat) : CheckM (Nat × Bool) := do
  match ← formOf item with
  | .list .permutation members =>
    return (members.length, ← checkPermutation check g id item members)
  | .notUsed =>
    checkNotUsed item position permitted
    return (1, false)
  | _ => return (1, ← checkElement check g permitted item position)

def checkArraySize (id : NodeId) (bounds : ArrayBounds) (count : Nat) : CheckM Unit := do
  if (← node id).marks.flattened then
    if count ≠ bounds.size then problemAt id (.arraySize bounds.size count)
  else warnAt id .unknownArraySize

/-- The items of a list once everything that can be spliced is. -/
def flattenedItems (flatten : Flattening) (id : NodeId) : CheckM (List NodeId) := do
  let _ ← flatten id
  match ← formOf id with
  | .list _ items => return items
  | _ => return []

def checkItems (check : ChildCheck) (g : ListType) (id : NodeId) (permitted : Completeness)
    (items : List (NodeId × Nat)) (start : Nat × Bool) : CheckM (Nat × Bool) :=
  items.foldlM (fun (count, found) (item, position) => do
    let (one, refersBack) ← checkItem check g id permitted item position
    return (count + one, found || refersBack)) start

def checkPositional (check : ChildCheck) (flatten : Flattening) (g : ListType) (id : NodeId)
    (site : Site) : CheckM Bool := do
  let items ← flattenedItems flatten id
  let permitted ← completeness id site.incomplete (·.completenessOfList g.array.isSome)
  let (count, selfReference) ← checkItems check g id permitted items.zipIdx (0, false)
  g.array.forM fun bounds => checkArraySize id bounds count
  return selfReference

def checkInclusion (check : ChildCheck) (flatten : Flattening) (g : ListType) (id : NodeId)
    (list : String) (ineffective : Warning) : CheckM Bool := do
  let items ← flattenedItems flatten id
  checkAny (fun (item, position) => do
    let one ← checkChild check (.listElement (position + 1) list) item g.element .element
    let form ← formOf item
    onlyIf (form.variant = .anyOrOmit) (warnAt item ineffective)
    return one) items.zipIdx

/-- What is wrong with an index by itself. -/
def ListType.indexProblems (g : ListType) (index : Int) : List Problem :=
  match g.array with
  | none => if index < 0 then [.negativeIndex g.decl.name index] else []
  | some bounds =>
    if index < bounds.first then [.arrayIndexUnderflow bounds.first index]
    else if bounds.last < index then [.arrayIndexOverflow bounds.last index]
    else []

/-- The latest of the given folded indices that is the number `index`. -/
def latestIndex? (folded : List Folding) (index : Int) : Option Nat :=
  (folded.zipIdx.reverse.find? fun (f, _) =>
    f.toOption.bind Value.integer? = some index).map (·.2)

/-- What is wrong with a folded index after those before it. -/
def ListType.entryProblems (g : ListType) (before : List Folding) (folded : Folding) : List Problem :=
  match folded with
  | .ok (.integer index) =>
    g.indexProblems index ++
      ((latestIndex? before index).map fun previous =>
        .duplicateIndex index (previous + 1) (before.length + 1)).toList
  | .ok _ => [.valueKindMismatch "integer"]
  | .error .unknown => []
  | .error (.invalid fault) => [.constantFault fault]

def checkIndexed (check : ChildCheck) (g : ListType) (entries : List IndexedEntry) : CheckM Bool := do
  let env ← read
  let folded := entries.map fun entry => env.fold entry.index
  checkAny (fun (entry, position) => do
    (g.entryProblems (folded.take position) (env.fold entry.index)).forM (problem entry.span)
    checkChild check (.component (position + 1)) entry.template g.element
      { incomplete := true, allowOmit := false }) entries.zipIdx

def checkList (check : ChildCheck) (flatten : Flattening) (id : NodeId) (g : ListType) (site : Site) : CheckM Bool := do
  match ← formOf id with
  | .list .positional _ => checkPositional check flatten g id site
  | .list .superset _ =>
    if g.isSet then checkInclusion check flatten g id "superset" .supersetIgnoresAny else illegal
  | .list .subset _ =>
    if g.isSet then checkInclusion check flatten g id "subset" .subsetMatchesAll else illegal
  | .indexed entries =>
    if g.sliceable then checkIndexed check g entries
    else
      problemAt id (.arrayNotSliceable .index g.decl.name)
      return false
  | _ => illegal
where
  illegal : CheckM Bool := do
    illegalForm id g.decl
    return false

end TemplateCheck
