import TemplateCheck.Check.Node
import TemplateCheck.Check.Restricted

/-!
# Checking definitions

The body of a template definition is checked against its declared type, and then, unless it was given
up, against its declared restriction. Checking a module checks its template definitions in
declaration order.
-/

namespace TemplateCheck

def TemplateDef.inline (template : TemplateDef) (span : Span) : InlineTemplate where
  modifies := template.modifies
  body := template.body
  span := span

def restrictDefinition (depth : Nat) (definition : Definition) (template : TemplateDef) : CheckM Unit := do
  let use : RestrictedUse := ⟨definition.description, definition.span⟩
  let _ ← restrictWithin use depth template.body template.restriction

/-- Check a definition, whose template is at most `depth` levels deep. There is nothing to check
unless it defines a template. -/
def checkDefinition (depth : Nat) (id : DefId) : CheckM Outcome := do
  let some definition := (← read).definitions.get? id | throw (.noDefinition id)
  let some template := definition.kind.template? | return {}
  let outcome ← withReader ({ · with current := some id })
    (checkInline (checkWithin depth) (template.inline definition.span) definition.type)
  onlyIf (template.restriction ≠ .unrestricted && !outcome.erroneous)
    (restrictDefinition depth definition template)
  return outcome

def Definitions.templates (defs : Definitions) : List DefId :=
  (defs.entries.zipIdx.filter (·.1.kind.template?.isSome)).map fun entry => ⟨entry.2⟩

def checkModule (depth : Nat) : CheckM Nat := do
  let ids := (← read).definitions.templates
  ids.forM fun id => do
    let _ ← checkDefinition depth id
  return ids.length

end TemplateCheck
