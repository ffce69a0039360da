import TemplateCheck.Restriction
import TemplateCheck.TypeDecl
import TemplateCheck.Value

/-!
# Definitions

Whatever a reference can name: constants, parameters, variables, templates and behaviours. A
definition either yields a template, or yields a value, or yields neither. Definitions are
identified by their position in the table; of several with one name, the name means the last.
-/

namespace TemplateCheck

inductive Returned where
  | value
  | template (restriction : Restriction)
deriving DecidableEq, Repr, Inhabited

structure TemplateDef where
  body : NodeId
  restriction : Restriction := .unrestricted
  modifies : Option Reference := none
  parameterized : Bool := false
deriving Inhabited

inductive DefKind where
  | const (value : Value)
  | externalConst
  | modulePar
  | moduleParTemplate
  | var
  | varTemplate (restriction : Restriction)
  | template (definition : TemplateDef)
  | valueParam (direction : Direction)
  | templateParam (direction : Direction) (restriction : Restriction)
  | function (returned : Option Returned)
  | externalFunction (returned : Option Returned)
  | altstep
  | testcase
deriving Inhabited

/-- `type` is the declared type, for a function that of its result. -/
structure Definition where
  name : String
  type : Option TypeKey
  kind : DefKind
  span : Span
deriving Inhabited

namespace DefKind

def word : DefKind → String
  | .const _ => "constant"
  | .externalConst => "external constant"
  | .modulePar => "module parameter"
  | .moduleParTemplate => "template module parameter"
  | .var => "variable"
  | .varTemplate _ => "template variable"
  | .template _ => "template"
  | .valueParam _ => "value parameter"
  | .templateParam .. => "template parameter"
  | .function _ => "function"
  | .externalFunction _ => "external function"
  | .altstep => "altstep"
  | .testcase => "testcase"

/-- The restriction declared on what a reference to such a definition yields; present exactly when
it yields a template. -/
def restriction? : DefKind → Option Restriction
  | .template definition => some definition.restriction
  | .varTemplate restriction => some restriction
  | .templateParam _ restriction => some restriction
  | .moduleParTemplate => some .unrestricted
  | .function (some (.template restriction)) => some restriction
  | .externalFunction (some (.template restriction)) => some restriction
  | _ => none

def yieldsTemplate (kind : DefKind) : Bool := kind.restriction?.isSome

def yieldsValue : DefKind → Bool
  | .const _ | .externalConst | .modulePar | .var | .valueParam _ => true
  | .function (some .value) | .externalFunction (some .value) => true
  | _ => false

/-- Altsteps and testcases run; they have no value. -/
def isBehaviour : DefKind → Bool
  | .altstep | .testcase => true
  | _ => false

def template? : DefKind → Option TemplateDef
  | .template definition => some definition
  | _ => none

def constant? : DefKind → Option Value
  | .const value => some value
  | _ => none

end DefKind

def Definition.description (d : Definition) : String := d.kind.word ++ " `" ++ d.name ++ "'"

structure Definitions where
  entries : List Definition := []
deriving Inhabited

namespace Definitions

def size (defs : Definitions) : Nat := defs.entries.length

def get? (defs : Definitions) (id : DefId) : Option Definition := defs.entries[id.index]?

def nextId (defs : Definitions) : DefId := ⟨defs.size⟩

def add (defs : Definitions) (d : Definition) : Definitions := ⟨defs.entries ++ [d]⟩

/-- The definition a name means: the last one that bears it. -/
def lookup? (defs : Definitions) (name : String) : Option DefId :=
  (defs.entries.zipIdx.reverse.find? (·.1.name = name)).map fun entry => ⟨entry.2⟩

def reference (defs : Definitions) (name : String) (span : Span) : Reference :=
  Reference.plain name (defs.lookup? name) span

def target? (defs : Definitions) (r : Reference) : Option Definition := r.target.bind defs.get?

end Definitions

end TemplateCheck
