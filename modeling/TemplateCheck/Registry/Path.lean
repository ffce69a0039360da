import TemplateCheck.Diagnostic.Problem
import TemplateCheck.Registry

/-!
# Paths through types

A path of field names and indices leads from a type to the type of a part. A field step may pass an
optional field, after which the part may be absent. A string is indexed by its own type. Where the
elements of a list are spliced into another list a path is stricter: it does not index strings, and
it says why it cannot go on.
-/

namespace TemplateCheck

structure PartType where
  type : TypeKey
  throughOptional : Bool := false
deriving DecidableEq, Repr, Inhabited

namespace Registry

def stepPart? (types : Registry) (part : PartType) (step : PathStep) : Option PartType := do
  let decl ← types.decl? part.type
  match step with
  | .field name =>
    let field ← decl.field? name
    return ⟨field.type, part.throughOptional || field.optional⟩
  | .index _ =>
    match decl.category with
    | .string _ => return part
    | category => return { part with type := ← category.element? }

def part? (types : Registry) (type : TypeKey) (path : List PathStep) : Option PartType :=
  path.foldlM types.stepPart? ⟨type, false⟩

/-- One step of the path to a list that is spliced. A type that cannot be resolved has no fault of
its own to report. -/
def spliceStep (types : Registry) (type : TypeKey) (step : PathStep) : Except (Option PathFault) TypeKey :=
  match types.decl? type with
  | none => .error none
  | some decl =>
    match step with
    | .index _ =>
      match decl.category.element? with
      | some element => .ok element
      | none => .error (some (.indexOnType decl.name))
    | .field name =>
      match decl.category.fields?, decl.field? name with
      | some _, some field => .ok field.type
      | some _, none => .error (some (.noSuchField decl.name name))
      | none, _ => .error (some (.fieldOnType decl.name))

end Registry

end TemplateCheck
