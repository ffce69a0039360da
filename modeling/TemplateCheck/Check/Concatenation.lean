import TemplateCheck.Check.Conformance
import TemplateCheck.Check.Length

/-!
# Concatenation

Strings, `record of` and `set of` templates can be concatenated. Both operands are checked against
the governor of the whole. A concatenation of strings whose operands are known is folded: two
constants give a constant, anything else that a pattern can express gives that pattern. Literal text
inside a character pattern is escaped.
-/

namespace TemplateCheck

/-- Whether a length restriction is known to admit several lengths. -/
def Definitions.isVariableLength (defs : Definitions) : LengthRestriction → Bool
  | .single _ => false
  | .range _ none => true
  | .range lower (some upper) =>
    match defs.foldInteger? lower, defs.foldInteger? upper with
    | some low, some high => low ≠ high
    | _, _ => false

/-- Why a template cannot be an operand; `text` is the family of a character string. -/
def Definitions.operandFault? (defs : Definitions) (text : Option CharFamily) (t : Template) : Option OperandFault :=
  match t.form, text with
  | .anyValue, some family | .anyOrOmit, some family => some (.wildcardInText family)
  | .anyValue, none => spread? t.length
  | .anyOrOmit, none => if t.length.isNone then some .noLength else spread? t.length
  | .specific _, _ | .binaryPattern .., _ | .charPattern .., _ => none
  | .concat .., _ | .referenced .., _ | .list .positional _, _ | .indexed _, _ => none
  | _, _ => some .unsuitable
where
  spread? (length : Option LengthRestriction) : Option OperandFault :=
    if length.any defs.isVariableLength then some .variableLength else none

def checkOperand (check : ChildCheck) (operand : NodeId) (governor : TypeKey)
    (text : Option CharFamily) : CheckM Bool := do
  let outcome ← check operand governor { allowOmit := false }
  let last ← lastTemplate operand
  if (← isErroneous operand) || (← isErroneous last) then return outcome.selfReference
  let t ← node last
  ((← read).definitions.operandFault? text t).forM fun fault => do
    problemAt operand (.concatOperand t.form.variant fault)
    if fault.isFatal then markErroneous operand
  return outcome.selfReference

inductive Operand where
  | constant (family : StringFamily) (text : String)
  | binary (text : String)
  | character (pattern : CharPattern)
  /-- `?`, or `?` and `*` of a fixed length. -/
  | wildcard (length : Option Int)
  | unknown
deriving Inhabited

def Definitions.operand (defs : Definitions) (t : Template) : Operand :=
  if t.ifPresent then .unknown
  else
    match t.length with
    | none =>
      match t.form with
      | .specific value =>
        match defs.fold? value with
        | some (.string family text) => .constant family text
        | _ => .unknown
      | .binaryPattern _ text => .binary text
      | .charPattern _ pattern => .character pattern
      | .anyValue => .wildcard none
      | _ => .unknown
    | some length =>
      match defs.onlyLength? length, t.form with
      | some n, .anyValue | some n, .anyOrOmit => .wildcard (some n)
      | _, _ => .unknown

namespace Operand

def appendBinary? (text : String) : Operand → Option String
  | .constant _ more | .binary more => some (text ++ more)
  | .wildcard (some n) =>
    if n < 0 then none else some (text ++ String.ofList (List.replicate n.toNat '?'))
  | .wildcard none =>
    some (if text.toList.getLast? = some '*' then text else text.push '*')
  | .character _ | .unknown => none

def appendCharacter? (pattern : CharPattern) : Operand → Option CharPattern
  | .constant _ text => some (pattern.appendText (CharPattern.escape text))
  | .character more => some (pattern.append more)
  | _ => none

end Operand

/-- The concatenation of two operands under a string governor, if it can be told. -/
def concatForm? (governor : StringFamily) : Operand → Operand → Option Form
  | .constant f a, .constant g b =>
    let universal := StringFamily.character .universal
    let family := if f = universal || g = universal then universal else governor
    some (.specific (.string family (a ++ b)))
  | left, right =>
    match governor with
    | .character family => do
      let pattern ← left.appendCharacter? {}
      return .charPattern family (← right.appendCharacter? pattern)
    | .binary family =>
      match left, right with
      | .wildcard none, .wildcard none => some .anyValue
      | left, right => do
        let text ← left.appendBinary? ""
        return .binaryPattern family (← right.appendBinary? text)

def joinOperands (id left right : NodeId) (governor : TypeKey) (family : StringFamily) : CheckM Unit := do
  let defs := (← read).definitions
  let first := defs.operand (← node (← lastTemplate left))
  let second := defs.operand (← node (← lastTemplate right))
  match concatForm? family first second with
  | none => return
  | some form =>
    replaceForm id form
    match form with
    | .specific _ => checkConformance id governor false
    | _ => return

/-- The family of the governor of a concatenation, if that is a string; no result means that such
templates cannot be concatenated. -/
def Category.concatFamily? : Category → Option (Option StringFamily)
  | .string family => some (some family)
  | .recordOf _ | .setOf _ => some none
  | _ => none

def StringFamily.charFamily? : StringFamily → Option CharFamily
  | .character family => some family
  | .binary _ => none

/-- Give up a concatenation of erroneous operands, and join the operands of any other. -/
def settleConcatenation (id left right : NodeId) (governor : TypeKey) (family : Option StringFamily) : CheckM Unit := do
  if (← isErroneous left) || (← isErroneous right) then markErroneous id
  else family.forM (joinOperands id left right governor)

def checkConcatenation (check : ChildCheck) (id left right : NodeId) (governor : TypeKey)
    (decl : TypeDecl) : CheckM Bool := do
  let some family := decl.category.concatFamily?
    | do
      reject id (.concatGovernor decl.name)
      return false
  let text := family.bind StringFamily.charFamily?
  let selfReference ← inside .concatenation do
    let first ← inside .firstOperand (checkOperand check left governor text)
    let second ← inside .secondOperand (checkOperand check right governor text)
    return first || second
  settleConcatenation id left right governor family
  return selfReference

end TemplateCheck
