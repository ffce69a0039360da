import TemplateCheck.Definition

/-!
# Constant folding

A value folds to a constant by chasing references through constant definitions, following their
paths into fields and elements, and folding every part of a structured literal. Folding fails when
the value depends on the test run, or when a path leads nowhere. Chains and nestings deeper than 64
count as unknown, which makes constants that refer to themselves unknown too.
-/

namespace TemplateCheck

/-- Why a path into a constant leads nowhere. -/
inductive FoldFault where
  | omittedField (name : String)
  | unboundField (name : String)
  | indexNotInteger
  | negativeIndex (index : Int)
  | unboundElement (index : Int)
  | indexOverflow (index : Int) (size : Nat)
  | noFields (name : String)
  | notIndexable
deriving DecidableEq, Repr, Inhabited

def FoldFault.message : FoldFault → String
  | .omittedField name => "Reference to field `" ++ name ++ "' which is omitted"
  | .unboundField name => "Reference to an unbound field `" ++ name ++ "'"
  | .indexNotInteger => "An integer value was expected as index"
  | .negativeIndex index =>
    "A non-negative integer value was expected as index instead of " ++ toString index
  | .unboundElement index =>
    "An unbound element is referenced with index " ++ toString index
  | .indexOverflow index size =>
    "Index overflow in a value: the index is " ++ toString index ++
      ", but the value has only " ++ toString size ++ " elements"
  | .noFields name =>
    "Invalid field reference `" ++ name ++ "': the value does not have fields"
  | .notIndexable => "Invalid array element reference: the value cannot be indexed"

/-- Why a value does not fold to a constant. -/
inductive Obstacle where
  /-- The value is only known at run time. -/
  | unknown
  | invalid (fault : FoldFault)
deriving DecidableEq, Repr, Inhabited

/-- A constant, or what stands in its way. -/
abbrev Folding := Except Obstacle Value

namespace Constant

def selectField (name : String) (entries : List (String × Value)) : Folding :=
  match entries.find? (·.1 = name) with
  | some (_, .omitted) => .error (.invalid (.omittedField name))
  | some (_, value) => .ok value
  | none => .error (.invalid (.unboundField name))

def selectElement (index : Int) (items : List Value) : Folding :=
  if index < 0 then .error (.invalid (.negativeIndex index))
  else
    match items[index.toNat]? with
    | some .notUsed => .error (.invalid (.unboundElement index))
    | some value => .ok value
    | none => .error (.invalid (.indexOverflow index items.length))

/-- Take one step of a path, folding its index by `fold`. -/
def select (fold : Value → Folding) (current : Value) (step : PathStep) : Folding :=
  match current, step with
  | .fields entries, .field name => selectField name entries
  | .list items, .index value =>
    match fold value with
    | .ok (.integer index) => selectElement index items
    | .ok _ => .error (.invalid .indexNotInteger)
    | .error obstacle => .error obstacle
  | _, .field name => .error (.invalid (.noFields name))
  | _, .index _ => .error (.invalid .notIndexable)

end Constant

namespace Definitions

/-- Fold through at most `depth` nested references and literals. -/
def foldWithin (defs : Definitions) : Nat → Value → Folding
  | 0, _ => .error .unknown
  | depth + 1, value =>
    match value with
    | .erroneous | .expr _ => .error .unknown
    | .ref r =>
      match (defs.target? r).bind (·.kind.constant?) with
      | none => .error .unknown
      | some initial => do
        let start ← defs.foldWithin depth initial
        r.path.foldlM (Constant.select (defs.foldWithin depth)) start
    | .list items => do return .list (← items.mapM (defs.foldWithin depth))
    | .fields entries => do
      return .fields (← entries.mapM fun (name, item) => do
        return (name, ← defs.foldWithin depth item))
    | literal => .ok literal

/-- How deep references and literals may nest below the value that is folded. -/
def foldLimit : Nat := 64

def fold (defs : Definitions) (value : Value) : Folding := defs.foldWithin (foldLimit + 1) value

def fold? (defs : Definitions) (value : Value) : Option Value := (defs.fold value).toOption

def foldInteger? (defs : Definitions) (value : Value) : Option Int :=
  (defs.fold? value).bind Value.integer?

end Definitions

end TemplateCheck
