import TemplateCheck.Check.Resolution

/-!
# Governors of inline templates

An inline template takes its type from its own annotation, else from the template it modifies, else
from its context. A modified template is linked to its base.
-/

namespace TemplateCheck

def basePart (r : Reference) (template : TemplateDef) (type : TypeKey) : CheckM (Option NodeId) := do
  let depth := (← currentStore).size + 1
  let resolve := lastWithin depth ⟨"While searching for the base template", [], []⟩
  match ← narrow resolve r.span depth r.path template.body type with
  | .found base _ => return some base
  | .unknown | .invalid => return none

def linkBase (id base : NodeId) : CheckM Unit :=
  onStore (Store.modifyNode id (·.linkTo base) (·.evolves_linkTo base))

def baseGovernor (r : Reference) (expected : Option TypeKey) (base : TypeKey) : CheckM TypeKey := do
  let types := (← read).types
  match expected with
  | none => return base
  | some type =>
    if types.compatible type base then return type
    else
      problem r.span (.baseTypeMismatch r.text (types.typeName type) (types.typeName base))
      return base

/-- Link a template to the part of a definition that it modifies, if that is known. -/
def linkToPart (body : NodeId) (r : Reference) (kind : DefKind) (declared : TypeKey) : CheckM Unit := do
  match kind.template? with
  | some template => (← basePart r template declared).forM (linkBase body)
  | none => return

/-- Link an inline template to the template it modifies. The governor is the expected type, unless
there is none or the base has another type. -/
def attachBase (inline : InlineTemplate) (expected : Option TypeKey) : CheckM (Option TypeKey) := do
  let some r := inline.modifies | return expected
  let env ← read
  let some definition := env.definitions.target? r
    | do
      problem r.span (.unresolvedReference r.name)
      return expected
  if !definition.kind.yieldsTemplate then
    problem r.span (.notATemplate definition.description)
    return expected
  let some declared := definition.type | return expected
  let base := ((env.types.part? declared r.path).map (·.type)).getD declared
  let governor ← baseGovernor r expected base
  linkToPart inline.body r definition.kind declared
  return some governor

/-- The governor of an inline template in a context that expects the given type. -/
def bindGovernor (inline : InlineTemplate) (expected : Option TypeKey) : CheckM (Option TypeKey) := do
  match inline.type with
  | none => attachBase inline expected
  | some type =>
    let types := (← read).types
    expected.forM fun wanted => do
      if !types.compatible wanted type then
        problem inline.span (.explicitTypeMismatch (types.typeName wanted) (types.typeName type))
    let _ ← attachBase inline (some type)
    return some type

def InlineTemplate.site (inline : InlineTemplate) : Site := { incomplete := inline.modifies.isSome }

def checkDecoded (check : ChildCheck) (target : InlineTemplate) : CheckM Bool :=
  inside .decodingTarget do
    let some type ← bindGovernor target none
      | do
        problem target.span .unknownGovernor
        markErroneous target.body
        return false
    let types := (← read).types
    if ((types.decl? type).map (·.category.isDecodable)).getD false then
      return (← check target.body type target.site).selfReference
    else
      problem target.span (.notDecodable (types.typeName type))
      return false

def checkInline (check : ChildCheck) (inline : InlineTemplate) (expected : Option TypeKey) : CheckM Outcome := do
  match ← bindGovernor inline expected with
  | some governor => check inline.body governor inline.site
  | none =>
    problem inline.span .unknownGovernor
    markErroneous inline.body
    return { erroneous := true }

end TemplateCheck
