import TemplateCheck.Binary64
import TemplateCheck.Span
import TemplateCheck.StringFamily

/-!
# Values and references

Values are literals of every scalar and string family, structured literals, references to
definitions, and expressions that only a test run can evaluate. A reference names a definition and
may continue into its parts by field names and indices.
-/

namespace TemplateCheck

mutual

inductive Value where
  /-- A value that already failed its checks. -/
  | erroneous
  | omitted
  /-- The symbol `-` inside a partial value. -/
  | notUsed
  | null
  | boolean (flag : Bool)
  | integer (number : Int)
  | real (number : Binary64)
  /-- An enumerated item or a verdict. -/
  | enumerated (item : String)
  | string (family : StringFamily) (text : String)
  | list (items : List Value)
  | fields (entries : List (String × Value))
  | ref (reference : Reference)
  /-- An expression that is only known at run time. -/
  | expr (text : String)

/-- One step into a part of a definition. -/
inductive PathStep where
  | field (name : String)
  | index (value : Value)

/-- A use of a definition. `target` is absent when the name is undefined. Actual parameters may be
present and empty, which differs from their absence. -/
structure Reference where
  name : String
  target : Option DefId
  path : List PathStep
  args : Option (List Value)
  span : Span

end

instance : Inhabited Value := ⟨.erroneous⟩

instance : Inhabited Reference := ⟨⟨"", none, [], none, default⟩⟩

def Reference.plain (name : String) (target : Option DefId) (span : Span) : Reference :=
  ⟨name, target, [], none, span⟩

def Reference.isParameterized (r : Reference) : Bool := r.args.isSome

def Reference.hasPath (r : Reference) : Bool := !r.path.isEmpty

namespace Value

def stringFamily? : Value → Option StringFamily
  | .string family _ => some family
  | _ => none

def stringText? : Value → Option String
  | .string _ text => some text
  | _ => none

/-- Length of a string literal in elements. A bit or hexadecimal digit is one element, two
hexadecimal digits are one octet, and characters count by code point. -/
def stringLength? : Value → Option Nat
  | .string (.binary .octet) text => some (text.utf8ByteSize / 2)
  | .string (.binary _) text => some text.utf8ByteSize
  | .string (.character _) text => some text.length
  | _ => none

def integer? : Value → Option Int
  | .integer number => some number
  | _ => none

def reference? : Value → Option Reference
  | .ref reference => some reference
  | _ => none

def kindName : Value → String
  | .erroneous => "erroneous value"
  | .omitted => "omit value"
  | .notUsed => "not used symbol"
  | .null => "null value"
  | .boolean _ => "boolean value"
  | .integer _ => "integer value"
  | .real _ => "float value"
  | .enumerated _ => "enumerated value"
  | .string family _ => family.typeName ++ " value"
  | .list _ => "value list"
  | .fields _ => "assignment notation"
  | .ref _ => "reference"
  | .expr _ => "expression"

end Value

end TemplateCheck
