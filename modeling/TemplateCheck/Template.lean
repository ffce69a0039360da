import TemplateCheck.Pattern.Character
import TemplateCheck.TypeKey

/-!
# Template nodes

A template is a tree of nodes that live in a store and name their children by id. A node has a form,
which says what it matches, and modifiers: a length restriction, `ifpresent`, and the base template
that it modifies. Checking gives it a governor, the type it was checked against, and marks.
-/

namespace TemplateCheck

inductive ListShape where
  | positional
  | valueList
  | complemented
  | superset
  | subset
  | permutation
deriving DecidableEq, Repr, Inhabited

def ListShape.describe : ListShape → String
  | .positional => "value list notation"
  | .valueList => "value list match"
  | .complemented => "complemented list match"
  | .superset => "superset match"
  | .subset => "subset match"
  | .permutation => "permutation match"

/-- `name := template`. -/
structure NamedEntry where
  name : String
  template : NodeId
  span : Span
deriving Inhabited

/-- `[index] := template`. -/
structure IndexedEntry where
  index : Value
  template : NodeId
  span : Span
deriving Inhabited

/-- `(min .. max)`, where an absent bound is infinite. -/
structure ValueRange where
  min : Option Value := none
  max : Option Value := none
  minExclusive : Bool := false
  maxExclusive : Bool := false
deriving Inhabited

/-- `length(n)` or `length(lower .. upper)`, where an absent upper bound is infinite. -/
inductive LengthRestriction where
  | single (value : Value)
  | range (lower : Value) (upper : Option Value)
deriving Inhabited

/-- A template that brings its own type: it may name the type, modify another template, or rely on
its context. -/
structure InlineTemplate where
  type : Option TypeKey := none
  modifies : Option Reference := none
  body : NodeId
  span : Span := {}
deriving Inhabited

inductive Form where
  /-- A template that failed its checks. -/
  | erroneous
  /-- `-` -/
  | notUsed
  | omitted
  /-- `?` -/
  | anyValue
  /-- `*` -/
  | anyOrOmit
  | specific (value : Value)
  /-- A reference to a definition that yields a template, with the end of its reference chain once
  that is known. -/
  | referenced (reference : Reference) (resolved : Option NodeId)
  /-- `callee.apply(args)` -/
  | invoke (callee : Value) (args : List Value)
  | list (shape : ListShape) (items : List NodeId)
  | named (entries : List NamedEntry)
  | indexed (entries : List IndexedEntry)
  | range (bounds : ValueRange)
  /-- `all from target` -/
  | allFrom (target : NodeId)
  | binaryPattern (family : BinaryFamily) (text : String)
  | charPattern (family : CharFamily) (pattern : CharPattern)
  /-- `decmatch target` -/
  | decoded (encoding : Option Value) (target : InlineTemplate)
  /-- `left & right` -/
  | concat (left right : NodeId)
deriving Inhabited

/-- A form without its content. -/
inductive Variant where
  | erroneous
  | notUsed
  | omitted
  | anyValue
  | anyOrOmit
  | specific
  | referenced
  | invoke
  | list (shape : ListShape)
  | named
  | indexed
  | range
  | allFrom
  | binaryPattern (family : BinaryFamily)
  | charPattern (family : CharFamily)
  | decoded
  | concat
deriving DecidableEq, Repr, Inhabited

def Variant.describe : Variant → String
  | .erroneous => "erroneous template"
  | .notUsed => "not used symbol"
  | .omitted => "omit value"
  | .anyValue => "any value"
  | .anyOrOmit => "any or omit"
  | .specific => "specific value"
  | .referenced => "referenced template"
  | .invoke => "template returning invoke"
  | .list shape => shape.describe
  | .named => "assignment notation"
  | .indexed => "assignment notation with array indices"
  | .range => "value range match"
  | .allFrom => "template with 'all from'"
  | .binaryPattern family => family.typeName ++ " pattern"
  | .charPattern .basic => "character string pattern"
  | .charPattern .universal => "universal string pattern"
  | .decoded => "decoded content match"
  | .concat => "template concatenation"

namespace Form

def variant : Form → Variant
  | .erroneous => .erroneous
  | .notUsed => .notUsed
  | .omitted => .omitted
  | .anyValue => .anyValue
  | .anyOrOmit => .anyOrOmit
  | .specific _ => .specific
  | .referenced .. => .referenced
  | .invoke .. => .invoke
  | .list shape _ => .list shape
  | .named _ => .named
  | .indexed _ => .indexed
  | .range _ => .range
  | .allFrom _ => .allFrom
  | .binaryPattern family _ => .binaryPattern family
  | .charPattern family _ => .charPattern family
  | .decoded .. => .decoded
  | .concat .. => .concat

def describe (form : Form) : String := form.variant.describe

def isErroneous : Form → Bool
  | .erroneous => true
  | _ => false

def listShape? : Form → Option ListShape
  | .list shape _ => some shape
  | _ => none

def children : Form → List NodeId
  | .list _ items => items
  | .named entries => entries.map (·.template)
  | .indexed entries => entries.map (·.template)
  | .allFrom target => [target]
  | .decoded _ target => [target.body]
  | .concat left right => [left, right]
  | _ => []

def mapChildrenM {m : Type → Type} [Monad m] (f : NodeId → m NodeId) : Form → m Form
  | .list shape items => do return .list shape (← items.mapM f)
  | .named entries => do
    return .named (← entries.mapM fun e => do return { e with template := ← f e.template })
  | .indexed entries => do
    return .indexed (← entries.mapM fun e => do return { e with template := ← f e.template })
  | .allFrom target => do return .allFrom (← f target)
  | .decoded encoding target => do
    return .decoded encoding { target with body := ← f target.body }
  | .concat left right => do
    let left ← f left
    let right ← f right
    return .concat left right
  | form => pure form

/-- How a node may change its form. A form may change its content, anything may turn out erroneous,
and a few forms are refined once more is known about them. -/
def mayBecome (source target : Form) : Bool :=
  source.variant = target.variant || target.isErroneous ||
    match source, target with
    | .list .positional _, .named _ => true
    | .specific (.ref _), .referenced .. => true
    | .specific (.ref _), .invoke .. => true
    | .referenced .., .specific _ => true
    | .charPattern .basic _, .charPattern .universal _ => true
    | .concat .., .specific _ => true
    | .concat .., .anyValue => true
    | .concat .., .binaryPattern .. => true
    | .concat .., .charPattern .. => true
    | _, _ => false

end Form

/-- What checking found out about a node. -/
structure Marks where
  checked : Bool := false
  recursionsChecked : Bool := false
  valueChecked : Bool := false
  lengthChecked : Bool := false
  /-- No `all from` is left below this list. -/
  flattened : Bool := true
  /-- Flattening has run on this list. -/
  folded : Bool := false
  hasPermutation : Bool := false
  /-- The number of elements is only known at run time. -/
  needsExpansion : Bool := false
  /-- A restriction has to be verified at run time. -/
  needsRestrictionCheck : Bool := false
  /-- The node stands for an optional field that was left out. -/
  implicitOmit : Bool := false
deriving DecidableEq, Repr, Inhabited

/-- A mark that is set once and never taken back. Whether a list is flattened is no such mark. -/
inductive Mark where
  | checked
  | recursionsChecked
  | valueChecked
  | lengthChecked
  | folded
  | hasPermutation
  | needsExpansion
  | needsRestrictionCheck
  | implicitOmit
deriving DecidableEq, Repr, Inhabited

namespace Marks

def has (m : Marks) : Mark → Bool
  | .checked => m.checked
  | .recursionsChecked => m.recursionsChecked
  | .valueChecked => m.valueChecked
  | .lengthChecked => m.lengthChecked
  | .folded => m.folded
  | .hasPermutation => m.hasPermutation
  | .needsExpansion => m.needsExpansion
  | .needsRestrictionCheck => m.needsRestrictionCheck
  | .implicitOmit => m.implicitOmit

def set (m : Marks) : Mark → Marks
  | .checked => { m with checked := true }
  | .recursionsChecked => { m with recursionsChecked := true }
  | .valueChecked => { m with valueChecked := true }
  | .lengthChecked => { m with lengthChecked := true }
  | .folded => { m with folded := true }
  | .hasPermutation => { m with hasPermutation := true }
  | .needsExpansion => { m with needsExpansion := true }
  | .needsRestrictionCheck => { m with needsRestrictionCheck := true }
  | .implicitOmit => { m with implicitOmit := true }

/-- Tell whether slots are left in a list. Those that are left are expanded at run time. -/
def settle (m : Marks) (flattened : Bool) : Marks :=
  if flattened then { m with flattened := true }
  else { m with flattened := false, needsExpansion := true }

end Marks

structure Template where
  form : Form
  governor : Option TypeKey := none
  length : Option LengthRestriction := none
  ifPresent : Bool := false
  base : Option NodeId := none
  marks : Marks := {}
  span : Span := {}
deriving Inhabited

end TemplateCheck
