import TemplateCheck.Check.Cardinality
import TemplateCheck.Check.Resolution

/-!
# Length restrictions

The bounds of a length restriction have to be non-negative integers. Templates of strings, of
`record of` and of `set of` types are compared with the bounds by the number of elements they are
certain to have; an array has a fixed size, with which the bounds must agree.
-/

namespace TemplateCheck

/-- Folded bounds of a length restriction. An absent bound is unknown or infinite. -/
structure LengthBounds where
  exact : Bool
  lower : Option Int
  upper : Option Int
deriving DecidableEq, Repr, Inhabited

/-- The elements a template is certain to have. -/
structure CountedElements where
  count : Nat
  /-- There may be any number of further elements. -/
  unbounded : Bool := false
  /-- The template may match fewer elements, but no more. -/
  atMost : Bool := false
  counted : Counted
deriving DecidableEq, Repr, Inhabited

/-- Sizes are compared as 64-bit integers; a greater size counts as the greatest of them. -/
def comparableSize (size : Nat) : Int := min size 0x7FFFFFFFFFFFFFFF

/-- The only length that a restriction admits, if it is known. -/
def Definitions.onlyLength? (defs : Definitions) : LengthRestriction → Option Int
  | .single value => defs.foldInteger? value
  | .range lower (some upper) => do
    let low ← defs.foldInteger? lower
    let high ← defs.foldInteger? upper
    if high = low then some low else none
  | .range _ none => none

def foldBound (id : NodeId) (part : LengthPart) (value : Value) : CheckM (Option Int) := do
  let some number ← expectConstant (problemAt id) "integer" Value.integer? value | return none
  if number < 0 then
    problemAt id (.negativeLength part number)
    return none
  else return some number

def foldUpperBound (id : NodeId) : Option Value → CheckM (Option Int)
  | some value => foldBound id (.bound .upper) value
  | none => return none

def foldBounds (id : NodeId) : LengthRestriction → CheckM LengthBounds
  | .single value => do
    let number ← foldBound id .whole value
    return ⟨true, number, number⟩
  | .range low high => do
    let lower ← foldBound id (.bound .lower) low
    let upper ← foldUpperBound id high
    match lower, upper with
    | some l, some u =>
      if u < l then
        problemAt id (.lengthUpperBelowLower l u)
        return ⟨false, lower, none⟩
      else return ⟨false, lower, upper⟩
    | _, _ => return ⟨false, lower, upper⟩

def LengthBounds.arrayConflicts (bounds : LengthBounds) (size : Nat) : List Amount :=
  let actual := comparableSize size
  if bounds.exact then
    (bounds.lower.filter (· ≠ actual)).toList.map .exactly
  else
    (bounds.lower.filter (actual < ·)).toList.map .atLeast ++
      (bounds.upper.filter (· < actual)).toList.map .atMost

def compareWithArray (id : NodeId) (bounds : LengthBounds) (size : Nat) : CheckM Unit := do
  match bounds.arrayConflicts size with
  | [] => warnAt id .uselessArrayLength
  | conflicts => conflicts.forM fun allowed => problemAt id (.lengthContradictsArray allowed size)

def CountedElements.problems (found : CountedElements) (bounds : LengthBounds) : List Problem :=
  let count := comparableSize found.count
  let few := match bounds.lower with
    | some lower =>
      if !found.unbounded && count < lower then
        [.tooFewElements found.count found.counted
          (if bounds.exact then .exactly lower else .atLeast lower)]
      else []
    | none => []
  let many := match bounds.upper with
    | some upper =>
      if !found.atMost && upper < count then
        [.tooManyElements (if found.unbounded then .atLeast found.count else .exactly found.count)
          found.counted (if bounds.exact then .exactly upper else .atMost upper)]
      else []
    | none => []
  few ++ many

/-- Elements of a constant of a type with a length. -/
def constantElements? (category : Category) (value : Value) : Option CountedElements :=
  match category, value with
  | .string expected, value => do
    let family ← value.stringFamily?
    if expected.accepts family then
      some { count := ← value.stringLength?, counted := .string }
    else none
  | .recordOf _, .list items | .setOf _, .list items =>
    some { count := items.length, counted := .value }
  | _, _ => none

/-- Elements of a template of a type with a length, if that can be said at all. -/
def countedElements? (category : Category) : Form → CheckM (Option CountedElements)
  | .specific value => do
    return ((← read).definitions.fold? value).bind (constantElements? category)
  | .list shape items =>
    match category, shape with
    | .recordOf _, .positional | .setOf _, .positional => do
      let e ← extent items
      return some { count := e.count, unbounded := e.unbounded, counted := .template }
    | .setOf _, .superset => do
      let e ← extent items
      return some { count := e.count, unbounded := true, counted := .template }
    | .setOf _, .subset => do
      let e ← extent items
      return some { count := e.count, unbounded := e.unbounded, atMost := true, counted := .template }
    | _, _ => return none
  | .binaryPattern family text =>
    if category = .string (.binary family) then
      return some {
        count := family.minLength text.toList, unbounded := '*' ∈ text.toList, counted := .string }
    else return none
  | .charPattern _ _ =>
    match category with
    | .string (.character _) => return some { count := 0, unbounded := true, counted := .string }
    | _ => return none
  | _ => return none

def compareWithBounds (id : NodeId) (bounds : LengthBounds) (category : Category) : CheckM Unit := do
  let last ← lastTemplate id
  match ← formOf last with
  | .omitted | .specific .omitted => problemAt id .lengthWithOmit
  | form =>
    match ← countedElements? category form with
    | some found => (found.problems bounds).forM (problemAt id)
    | none => return

/-- Check the length restriction of a node, once. -/
def checkLengthRestriction (id : NodeId) (governor : TypeKey) : CheckM Unit := do
  let t ← node id
  if t.marks.lengthChecked then return
  mark id .lengthChecked
  let some length := t.length | return
  let bounds ← foldBounds id length
  let some decl := (← read).types.decl? governor | return
  match decl.category with
  | .erroneous | .port => return
  | .array _ size _ =>
    compareWithArray id bounds size
    compareWithBounds id bounds decl.category
  | .string _ | .recordOf _ | .setOf _ => compareWithBounds id bounds decl.category
  | _ => problemAt id (.lengthNotAllowed decl.name)

end TemplateCheck
