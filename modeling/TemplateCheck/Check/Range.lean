import TemplateCheck.Check.Monad

/-!
# Value ranges

Ranges are legal for numbers and for character strings. Bounds of a number range may be infinite,
though an infinite bound of an integer range cannot be excluded. Bounds of a character range are
single characters. A range must not be empty because of its order.
-/

namespace TemplateCheck

def Value.real? : Value → Option Binary64
  | .real number => some number
  | _ => none

/-- The text of a string that may stand where `expected` is required. -/
def Value.textAs? (expected : StringFamily) : Value → Option String
  | .string actual text => if expected.accepts actual then some text else none
  | _ => none

def ValueRange.excludedInfinities (r : ValueRange) : List Bound :=
  (if r.min.isNone && r.minExclusive then [.lower] else []) ++
    (if r.max.isNone && r.maxExclusive then [.upper] else [])

/-- Fold a bound of a number range. An infinite bound has no constant. -/
def numberBound {α : Type} (id : NodeId) (kind : String) (read? : Value → Option α) : Option Value → CheckM (Option α)
  | none => return none
  | some value => expectConstant (problemAt id) kind read? value

def checkIntegerRange (id : NodeId) (r : ValueRange) : CheckM Unit := do
  let lower ← numberBound id "integer" Value.integer? r.min
  let upper ← numberBound id "integer" Value.integer? r.max
  r.excludedInfinities.forM fun bound => problemAt id (.excludedInfinity bound)
  match lower, upper with
  | some l, some u => if u < l then problemAt id .rangeBounds
  | _, _ => return

def checkFloatRange (id : NodeId) (r : ValueRange) : CheckM Unit := do
  let lower ← numberBound id "float" Value.real? r.min
  let upper ← numberBound id "float" Value.real? r.max
  match lower, upper with
  | some l, some u => if u.less l then problemAt id .rangeBounds
  | _, _ => return

def characterBound (id : NodeId) (family : CharFamily) (which : Bound) : Option Value → CheckM (Option Char)
  | none => do
    problemAt id (.charBoundExpected which family)
    return none
  | some value => do
    let some text ←
        expectConstant (problemAt id) family.typeName (Value.textAs? (.character family)) value
      | return none
    match text.toList with
    | [c] => return some c
    | _ =>
      problemAt id (.charBoundLength which)
      return none

def checkCharacterRange (id : NodeId) (family : CharFamily) (r : ValueRange) : CheckM Unit := do
  let lower ← characterBound id family .lower r.min
  let upper ← characterBound id family .upper r.max
  match lower, upper with
  | some l, some u => if u < l then problemAt id .charRangeBounds
  | _, _ => return

end TemplateCheck
