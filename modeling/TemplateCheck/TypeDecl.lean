import TemplateCheck.StringFamily
import TemplateCheck.TypeKey

/-!
# Declared types

A declaration names a type and gives its category. Component types are mentioned by key and need
not be registered.
-/

namespace TemplateCheck

structure FieldDecl where
  name : String
  type : TypeKey
  optional : Bool := false
  hasDefault : Bool := false
deriving DecidableEq, Repr, Inhabited

inductive Direction where
  | input
  | output
  | inout
deriving DecidableEq, Repr, Inhabited

def Direction.keyword : Direction → String
  | .input => "in"
  | .output => "out"
  | .inout => "inout"

structure ParamDecl where
  name : String
  type : TypeKey
  direction : Direction
deriving DecidableEq, Repr, Inhabited

inductive Category where
  | boolean
  | integer
  | float
  | verdict
  | enumerated (items : List String)
  | objectIdentifier
  | defaultReference
  | component
  | port
  /-- Functions, altsteps and testcases as values. -/
  | behaviour (returns : Option TypeKey)
  | string (family : StringFamily)
  | record (fields : List FieldDecl)
  | set (fields : List FieldDecl)
  | union (alternatives : List FieldDecl)
  | recordOf (element : TypeKey)
  | setOf (element : TypeKey)
  /-- A fixed number of elements, the first of which has index `offset`. -/
  | array (element : TypeKey) (size : Nat) (offset : Int)
  | signature (params : List ParamDecl) (returns : Option TypeKey) (exceptions : List TypeKey)
  /-- Another name for a type. -/
  | synonym (target : TypeKey)
  /-- A type that failed its own checks. -/
  | erroneous
deriving DecidableEq, Repr, Inhabited

structure TypeDecl where
  name : String
  category : Category
deriving DecidableEq, Repr, Inhabited

/-- Indices are 64-bit numbers, and what is computed of them wraps around. -/
def wrapIndex (n : Int) : Int := n.bmod Int64.size

theorem wrapIndex_eq {n : Int} (hLow : -0x8000000000000000 ≤ n) (hHigh : n < 0x8000000000000000) : wrapIndex n = n :=
  Int.bmod_eq_of_le hLow hHigh

namespace Category

def fields? : Category → Option (List FieldDecl)
  | .record fields => some fields
  | .set fields => some fields
  | .union alternatives => some alternatives
  | _ => none

def element? : Category → Option TypeKey
  | .recordOf element => some element
  | .setOf element => some element
  | .array element _ _ => some element
  | _ => none

def firstIndex : Category → Int
  | .array _ _ offset => offset
  | _ => 0

def position (c : Category) (index : Int) : Int := wrapIndex (index - c.firstIndex)

def stringFamily? : Category → Option StringFamily
  | .string family => some family
  | _ => none

/-- Whether values of this category can be the result of decoding. -/
def isDecodable : Category → Bool
  | .record _ | .set _ | .union _ | .recordOf _ | .setOf _ | .string _ => true
  | .integer | .float | .boolean | .enumerated _ => true
  | _ => false

def name : Category → String
  | .record _ => "record"
  | .set _ => "set"
  | .union _ => "union"
  | .recordOf _ => "record of"
  | .setOf _ => "set of"
  | .array .. => "array"
  | .signature .. => "signature"
  | _ => ""

def valueWord : Category → String
  | .boolean => "boolean"
  | .integer => "integer"
  | .float => "float"
  | .verdict => "verdict"
  | .enumerated _ => "enumerated"
  | .objectIdentifier => "objid"
  | .defaultReference => "default"
  | .component => "component reference"
  | .port => "port"
  | .behaviour _ => "function reference"
  | .string family => family.typeName
  | .synonym _ | .erroneous => "erroneous"
  | structured => structured.name

end Category

namespace TypeDecl

def key (decl : TypeDecl) : TypeKey := TypeKey.ofName decl.name

/-- The first field or alternative of the given name. -/
def field? (decl : TypeDecl) (name : String) : Option FieldDecl :=
  (decl.category.fields?.getD []).find? (·.name = name)

def fieldIndex? (decl : TypeDecl) (name : String) : Option Nat :=
  (decl.category.fields?.getD []).findIdx? (·.name = name)

def isList (decl : TypeDecl) : Bool := decl.category.element?.isSome

end TypeDecl

end TemplateCheck
