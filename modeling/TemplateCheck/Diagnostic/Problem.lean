import TemplateCheck.Constant
import TemplateCheck.Pattern.Grammar
import TemplateCheck.ReferenceChain
import TemplateCheck.Template

/-!
# Problems

What can be wrong with a template. Each problem is a cause with the parts its message mentions;
`Problem.message` is the only place that words it.
-/

namespace TemplateCheck

def quoted (name : String) : String := "`" ++ name ++ "'"

inductive Amount where
  | exactly (number : Int)
  | atLeast (number : Int)
  | atMost (number : Int)
deriving DecidableEq, Repr, Inhabited

def Amount.text : Amount → String
  | .exactly number => toString number
  | .atLeast number => "at least " ++ toString number
  | .atMost number => "at most " ++ toString number

inductive Bound where
  | lower
  | upper
deriving DecidableEq, Repr, Inhabited

def Bound.word : Bound → String
  | .lower => "lower"
  | .upper => "upper"

def Bound.infinity : Bound → String
  | .lower => "-infinity"
  | .upper => "infinity"

inductive LengthPart where
  | whole
  | bound (which : Bound)
deriving DecidableEq, Repr, Inhabited

def LengthPart.text : LengthPart → String
  | .whole => "length restriction"
  | .bound which => which.word ++ " boundary of the length restriction"

inductive Counted where
  | string
  | value
  | template
deriving DecidableEq, Repr, Inhabited

def Counted.word : Counted → String
  | .string => "string"
  | .value => "value"
  | .template => "template"

/-- Notations that need an array of which parts can be taken. -/
inductive SliceNotation where
  | index
  | permutation
deriving DecidableEq, Repr, Inhabited

def SliceNotation.text : SliceNotation → String
  | .index => "Index notation"
  | .permutation => "Permutation match"

/-- Why a template cannot be a concatenation operand. -/
inductive OperandFault where
  | noLength
  | variableLength
  | wildcardInText (family : CharFamily)
  | unsuitable
deriving DecidableEq, Repr, Inhabited

def OperandFault.text : OperandFault → String
  | .noLength => " with no length restriction is not a valid concatenation operand"
  | .variableLength => " with non-fixed length restriction is not a valid concatenation operand"
  | .wildcardInText family => " is not allowed in " ++ family.typeName ++ " template concatenation"
  | .unsuitable => " is not a valid concatenation operand"

/-- Whether a concatenation with such an operand is given up. -/
def OperandFault.isFatal : OperandFault → Bool
  | .variableLength => false
  | _ => true

/-- What a restriction forbids. -/
inductive Usage where
  | ifPresent
  | lengthRestriction
  | form (variant : Variant)
  | listWithoutOmit (variant : Variant)
deriving DecidableEq, Repr, Inhabited

def Usage.text : Usage → String
  | .ifPresent => "`ifpresent'"
  | .lengthRestriction => "length restriction"
  | .form variant => variant.describe
  | .listWithoutOmit variant =>
    variant.describe ++ " without omit or AnyValueOrNone in the list"

inductive PathFault where
  | fieldOfWildcard (field : String) (variant : Variant)
  | unknownField (field category type : String)
  | noFields (field type : String)
  | inactiveField (field type active : String)
  | unboundField (field : String)
  | notIndexable (type : String)
  | negativeIndex (index : Int) (category type : String)
  | indexOverflow (index : Int) (category type : String) (size : Nat)
  | notUsedElement
  | notInTemplateType (reference type : String)
  | notInValueType (reference type : String)
  | indexOnType (type : String)
  | noSuchField (type field : String)
  | fieldOnType (type : String)
  | constant (fault : FoldFault)
deriving DecidableEq, Repr, Inhabited

def PathFault.message : PathFault → String
  | .fieldOfWildcard field variant =>
    "Reference to field " ++ quoted field ++ " of " ++ variant.describe
  | .unknownField field category type =>
    "Reference to non-existent field " ++ quoted field ++ " in " ++ category ++
      " template for type " ++ quoted type
  | .noFields field type =>
    "Invalid field reference " ++ quoted field ++ ": type " ++ quoted type ++ " does not have fields"
  | .inactiveField field type active =>
    "Reference to inactive field " ++ quoted field ++ " in a template of union type " ++
      quoted type ++ ". The active field is " ++ quoted active
  | .unboundField field => "Reference to an unbound field " ++ quoted field
  | .notIndexable type =>
    "Invalid array element reference: type " ++ quoted type ++ " cannot be indexed"
  | .negativeIndex index category type =>
    "A non-negative integer value was expected instead of " ++ toString index ++
      " for indexing a template of " ++ quoted category ++ " type " ++ quoted type
  | .indexOverflow index category type size =>
    "Index overflow in a template of " ++ quoted category ++ " type " ++ quoted type ++
      ": the index is " ++ toString index ++ ", but the template has only " ++ toString size ++
      " elements"
  | .notUsedElement => "Not used symbol is not allowed in this context"
  | .notInTemplateType reference type =>
    "Invalid field or element reference " ++ quoted reference ++ " in a template of type " ++
      quoted type
  | .notInValueType reference type =>
    "Invalid field or element reference " ++ quoted reference ++ " in a value of type " ++
      quoted type
  | .indexOnType type => "Cannot apply an array index to type '" ++ type ++ "'"
  | .noSuchField type field =>
    "Type '" ++ type ++ "' does not have a field with name '" ++ field ++ "'"
  | .fieldOnType type => "Cannot apply a field name to type '" ++ type ++ "'"
  | .constant fault => fault.message

inductive Problem where
  | omitNotAllowed
  | anyOrOmitForMandatory
  | wildcardForSignature (symbol type : String)
  | ifPresentNotAllowed
  | illegalForm (variant : Variant) (type : String)
  | portTemplate (type : String)
  | explicitTypeMismatch (expected found : String)
  | notATemplate (found : String)
  | baseTypeMismatch (base expected found : String)
  | typeMismatch (expected found : String)
  | valueKindMismatch (expected : String)
  | unknownItem (item type : String)
  | valueExpected (found : String)
  | unresolvedReference (name : String)
  | circularReference (names : List String)
  | invalidPath (fault : PathFault)
  | constantFault (fault : FoldFault)
  | unknownGovernor
  | unknownField (field category type : String)
  | duplicateField (field : String)
  | missingField (field category type : String)
  | tooManyListElements (type : String) (expected found : Nat)
  | tooFewListElements (type : String) (expected found : Nat)
  | setValueListNotation (type : String)
  | emptySetTemplate (type : String)
  | unionFieldCount
  | notUsedSymbol
  | notUsedWithoutBase
  | negativeIndex (type : String) (index : Int)
  | arrayIndexUnderflow (first index : Int)
  | arrayIndexOverflow (last index : Int)
  | duplicateIndex (index : Int) (previous current : Nat)
  | arraySize (expected found : Nat)
  | arrayNotSliceable (what : SliceNotation) (type : String)
  | unknownParameter (param type : String)
  | duplicateParameter (param type : String)
  | unexpectedParameter (param : String)
  | missingInoutParameter (param : String)
  | missingInAndOutParameters (inputParam outputParam : String)
  | notAFunction (type : String)
  | functionExpected
  | rangeBounds
  | charRangeBounds
  | charBoundExpected (bound : Bound) (family : CharFamily)
  | charBoundLength (bound : Bound)
  | excludedInfinity (bound : Bound)
  | pattern (fault : PatternFault)
  | encodingNotAllowed
  | notDecodable (type : String)
  | concatNotSupported
  | decodeNotSupported
  | concatGovernor (type : String)
  | concatOperand (variant : Variant) (fault : OperandFault)
  | allFromMatching
  | allFromPermutation
  | allFromTarget (variant : Variant)
  | allFromKind (what type : String)
  | allFromBehaviour (kind : String)
  | allFromNotSpecific (type : String) (variant : Variant)
  | allFromUnboundElement
  | allFromUnboundField
  | allFromOmittedField
  | restrictionViolation (definition : String) (usage : Usage)
  | lengthNotAllowed (type : String)
  | lengthWithOmit
  | negativeLength (part : LengthPart) (number : Int)
  | lengthUpperBelowLower (lower upper : Int)
  | lengthContradictsArray (allowed : Amount) (size : Nat)
  | tooFewElements (count : Nat) (counted : Counted) (bound : Amount)
  | tooManyElements (count : Amount) (counted : Counted) (bound : Amount)
  /-- A problem found elsewhere, given by its text. -/
  | reported (text : String)
deriving DecidableEq, Repr, Inhabited

def Problem.message : Problem → String
  | .omitNotAllowed => "`omit' value is not allowed in this context"
  | .anyOrOmitForMandatory => "Using `*' for mandatory field"
  | .wildcardForSignature symbol type =>
    "Generic wildcard " ++ quoted symbol ++ " cannot be used for signature " ++ quoted type
  | .ifPresentNotAllowed => "`ifpresent' is not allowed here"
  | .illegalForm variant type =>
    variant.describe ++ " cannot be used for type " ++ quoted type
  | .portTemplate type => "Template cannot be defined for port type " ++ quoted type
  | .explicitTypeMismatch expected found =>
    "Incompatible explicit type specification: " ++ quoted expected ++
      " was expected instead of " ++ quoted found
  | .notATemplate found =>
    "Reference to a template was expected in the `modifies' definition instead of " ++ found
  | .baseTypeMismatch base expected found =>
    "Base template " ++ quoted base ++ " has incompatible type: " ++ quoted expected ++
      " was expected instead of " ++ quoted found
  | .typeMismatch expected found =>
    "Type mismatch: a value or template of type " ++ quoted expected ++
      " was expected instead of " ++ quoted found
  | .valueKindMismatch expected => expected ++ " value was expected"
  | .unknownItem item type =>
    "There is no enumerated value with name " ++ quoted item ++ " in type " ++ quoted type
  | .valueExpected found => "Reference to a value was expected instead of " ++ found
  | .unresolvedReference name =>
    "There is no local or imported definition with name " ++ quoted name
  | .circularReference names => "Circular reference: " ++ joinCycle names
  | .invalidPath fault => fault.message
  | .constantFault fault => fault.message
  | .unknownGovernor => "Cannot determine the type of the template"
  | .unknownField field category type =>
    "Reference to non-existent field " ++ quoted field ++ " in " ++ category ++
      " template for type " ++ quoted type
  | .duplicateField field => "Duplicate field " ++ quoted field ++ " in template"
  | .missingField field category type =>
    "Field " ++ quoted field ++ " is missing from template for " ++ category ++ " type " ++
      quoted type
  | .tooManyListElements type expected found =>
    "Too many elements in value list notation for type " ++ quoted type ++ ": " ++
      toString expected ++ " was expected instead of " ++ toString found
  | .tooFewListElements type expected found =>
    "Too few elements in value list notation for type " ++ quoted type ++ ": " ++
      toString expected ++ " was expected instead of " ++ toString found
  | .setValueListNotation type =>
    "Value list notation is not allowed for set type " ++ quoted type
  | .emptySetTemplate type => "A non-empty set template was expected for type " ++ quoted type
  | .unionFieldCount => "A template for union type must contain exactly one selected field"
  | .notUsedSymbol => "Not used symbol `-' is not allowed in this context"
  | .notUsedWithoutBase =>
    "Not used symbol `-' cannot be used here because there is no corresponding element " ++
      "in the base template"
  | .negativeIndex type index =>
    "A non-negative integer value was expected for indexing type " ++ quoted type ++
      " instead of " ++ quoted (toString index)
  | .arrayIndexUnderflow first index =>
    "Array index underflow: the index value must be at least " ++ quoted (toString first) ++
      " instead of " ++ quoted (toString index)
  | .arrayIndexOverflow last index =>
    "Array index overflow: the index value must be at most " ++ quoted (toString last) ++
      " instead of " ++ quoted (toString index)
  | .duplicateIndex index previous current =>
    "Duplicate index value " ++ quoted (toString index) ++ " for components " ++
      quoted (toString previous) ++ " and " ++ quoted (toString current)
  | .arraySize expected found =>
    "Too " ++ (if found < expected then "few" else "many") ++
      " elements in the array template: " ++ toString expected ++ " was expected instead of " ++
      toString found
  | .arrayNotSliceable what type =>
    what.text ++ " cannot be used for array type " ++ quoted type ++
      " in this context, because the array cannot be sliced"
  | .unknownParameter param type =>
    "Reference to non-existent parameter " ++ quoted param ++ " in template for signature " ++
      quoted type
  | .duplicateParameter param type =>
    "Duplicate parameter " ++ quoted param ++ " in template for signature " ++ quoted type
  | .unexpectedParameter param =>
    "Unexpected parameter " ++ quoted param ++ " in signature template"
  | .missingInoutParameter param =>
    "Signature template is incomplete, because the inout parameter " ++ quoted param ++
      " is missing"
  | .missingInAndOutParameters inputParam outputParam =>
    "Signature template is incomplete, because the in parameter " ++ quoted inputParam ++
      " and the out parameter " ++ quoted outputParam ++ " are missing"
  | .notAFunction type =>
    "A value of type function was expected in the argument instead of " ++ quoted type
  | .functionExpected => "A value of type function was expected in the argument"
  | .rangeBounds => "The lower boundary is higher than the upper boundary"
  | .charRangeBounds =>
    "The lower boundary has higher character code than the upper boundary"
  | .charBoundExpected bound family =>
    "The " ++ bound.word ++ " boundary must be a " ++ family.typeName ++ " value"
  | .charBoundLength bound =>
    "The " ++ bound.word ++ " boundary of the range must be a single character"
  | .excludedInfinity bound =>
    "invalid " ++ bound.word ++ " boundary, " ++ bound.infinity ++
      " cannot be excluded from an integer template range"
  | .pattern fault => fault.message
  | .encodingNotAllowed =>
    "The encoding format parameter is only available to universal charstring templates"
  | .notDecodable type =>
    "Type " ++ quoted type ++ " cannot be the target of a decoded content match"
  | .concatNotSupported => "Concatenation of templates is not supported"
  | .decodeNotSupported => "Decoded content match is not supported"
  | .concatGovernor type => "Templates of type " ++ quoted type ++ " cannot be concatenated"
  | .concatOperand variant fault => variant.describe ++ fault.text
  | .allFromMatching => "Matching mechanism can not be used as target of 'all from'"
  | .allFromPermutation => "'all from' can not refer to permutation or AnyElementsOrNone"
  | .allFromTarget variant =>
    "The target of an 'all from' must be a specific value template, not a " ++ variant.describe
  | .allFromKind what type =>
    "A " ++ what ++ " of type " ++ quoted type ++ " can not be used as target of 'all from'"
  | .allFromBehaviour kind => "A " ++ kind ++ " cannot be used as the target of `all from'"
  | .allFromNotSpecific type variant =>
    "Expected a specific value of type '" ++ type ++ "' instead of " ++ variant.describe
  | .allFromUnboundElement =>
    "An uninitialized list element can not be used as target of 'all from'"
  | .allFromUnboundField => "An uninitialized field can not be used as target of 'all from'"
  | .allFromOmittedField => "An omitted field can not be used as target of 'all from'"
  | .restrictionViolation definition usage =>
    "Restriction on " ++ definition ++ " does not allow usage of " ++ usage.text
  | .lengthNotAllowed type =>
    "Length restriction cannot be used in a template of type " ++ quoted type
  | .lengthWithOmit => "Length restriction cannot be used with omit value"
  | .negativeLength part number =>
    "The " ++ part.text ++ " must be a non-negative integer value instead of " ++ toString number
  | .lengthUpperBelowLower lower upper =>
    "The upper boundary of the length restriction (" ++ toString upper ++
      ") cannot be smaller than the lower boundary (" ++ toString lower ++ ")"
  | .lengthContradictsArray allowed size =>
    "The number of elements allowed by the length restriction (" ++ allowed.text ++
      ") contradicts the array size (" ++ toString size ++ ")"
  | .tooFewElements count counted bound =>
    "There are fewer (" ++ toString count ++ ") elements in the " ++ counted.word ++
      " than it is allowed by the length restriction (" ++ bound.text ++ ")"
  | .tooManyElements count counted bound =>
    "There are more (" ++ count.text ++ ") elements in the " ++ counted.word ++
      " than it is allowed by the length restriction (" ++ bound.text ++ ")"
  | .reported text => text

end TemplateCheck
