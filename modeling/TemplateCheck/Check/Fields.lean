import TemplateCheck.Check.Modification

/-!
# Records, sets and unions

Fields are given by name. An entry is undeclared, or repeats an earlier one, or is the first of its
name; only the first is checked against the type of its field. A record may also be given by
position. Optional fields that a complete template leaves out are filled in as omitted.
-/

namespace TemplateCheck

/-- How an entry relates to the declared names and to the entries before it. -/
inductive EntryStatus (α : Type) where
  | undeclared
  /-- The latest entry of the same name stands at `previous`. -/
  | repeated (previous : Span)
  | first (declared : α)
deriving DecidableEq, Repr, Inhabited

/-- The status of an entry; `before` holds the earlier entries, the latest first. -/
def NamedEntry.status {α : Type} (lookup? : String → Option α) (before : List NamedEntry)
    (entry : NamedEntry) : EntryStatus α :=
  match lookup? entry.name, before.find? (·.name = entry.name) with
  | none, _ => .undeclared
  | some _, some previous => .repeated previous.span
  | some declared, none => .first declared

def classifyEntries {α : Type} (lookup? : String → Option α) :
    List NamedEntry → List NamedEntry → List (NamedEntry × EntryStatus α)
  | _, [] => []
  | before, entry :: entries =>
    (entry, entry.status lookup? before) :: classifyEntries lookup? (entry :: before) entries

def nameItems (names : List String) (items : List NodeId) : CheckM (List NamedEntry) :=
  (names.zip items).mapM fun (name, item) => do
    return { name, template := item, span := (← node item).span }

def reportRepeated (entry : NamedEntry) (previous : Span) : CheckM Unit := do
  problem entry.span (.duplicateField entry.name)
  note previous (.fieldGivenHere entry.name)

def reportUndeclared (decl : TypeDecl) (entry : NamedEntry) (hint : List String → Note) : CheckM Unit := do
  problem entry.span (.unknownField entry.name decl.category.name decl.name)
  note entry.span (hint ((decl.category.fields?.getD []).map (·.name)))

def checkField (check : ChildCheck) (decl : TypeDecl) (incomplete : Bool) :
    NamedEntry × EntryStatus FieldDecl → CheckM Bool
  | (entry, .undeclared) => do
    reportUndeclared decl entry .validFields
    return false
  | (entry, .repeated previous) => do
    reportRepeated entry previous
    return false
  | (entry, .first field) => do
    match incomplete, ← formOf entry.template with
    | false, .notUsed =>
      problemAt entry.template .notUsedSymbol
      return false
    | _, _ =>
      checkChild check (.field decl.category.name entry.name) entry.template field.type
        { incomplete, allowOmit := field.optional, allowAnyOrOmit := field.optional }

def missingFields (fields : List FieldDecl) (entries : List NamedEntry) : List FieldDecl :=
  fields.filter fun field => !entries.any (·.name = field.name)

/-- An omitted field that a template does not mention. -/
def implicitOmit (type : TypeKey) (span : Span) : Template where
  form := .omitted
  governor := some type
  marks := { checked := true, implicitOmit := true }
  span := span

/-- Append an omitted entry for each of the fields. -/
def fillOmitted (id : NodeId) (entries : List NamedEntry) (fields : List FieldDecl) : CheckM Unit := do
  if fields.isEmpty then return
  let span := (← node id).span
  let filled ← fields.mapM fun field => do
    let template ← onStore (Store.alloc (implicitOmit field.type span))
    return { name := field.name, template, span : NamedEntry }
  replaceForm id (.named (entries ++ filled))

def checkAssigned (check : ChildCheck) (id : NodeId) (decl : TypeDecl) (fields : List FieldDecl)
    (entries : List NamedEntry) (incomplete : Bool) : CheckM Bool := do
  let selfReference ←
    checkAny (checkField check decl incomplete) (classifyEntries decl.field? [] entries)
  let missing := missingFields fields entries
  let inherits := incomplete || (← node id).base.isSome
  onlyIf (!incomplete) ((missing.filter (!·.optional)).forM fun field =>
    problemAt id (.missingField field.name decl.category.name decl.name))
  onlyIf (!inherits) (fillOmitted id entries (missing.filter (·.optional)))
  return selfReference

def checkRecord (check : ChildCheck) (id : NodeId) (decl : TypeDecl) (fields : List FieldDecl)
    (site : Site) : CheckM Bool := do
  match ← formOf id with
  | .list .positional items =>
    onlyIf (fields.length < items.length)
      (problemAt id (.tooManyListElements decl.name fields.length items.length))
    let entries ← nameItems (fields.map (·.name)) items
    replaceForm id (.named entries)
    checkAssigned check id decl fields entries site.incomplete
  | .named entries => checkAssigned check id decl fields entries site.incomplete
  | _ =>
    illegalForm id decl
    return false

def checkSet (check : ChildCheck) (id : NodeId) (decl : TypeDecl) (fields : List FieldDecl)
    (site : Site) : CheckM Bool := do
  match ← formOf id with
  | .list .positional items =>
    if !items.isEmpty then
      problemAt id (.setValueListNotation decl.name)
      return false
    else if !fields.isEmpty then
      problemAt id (.emptySetTemplate decl.name)
      return false
    else
      replaceForm id (.named [])
      checkAssigned check id decl fields [] site.incomplete
  | .named entries => checkAssigned check id decl fields entries site.incomplete
  | _ =>
    illegalForm id decl
    return false

def checkAlternative (check : ChildCheck) (id : NodeId) (decl : TypeDecl) (incomplete : Bool) :
    NamedEntry × EntryStatus FieldDecl → CheckM Bool
  | (entry, .undeclared) => do
    reportUndeclared decl entry .validAlternatives
    return false
  | (entry, .repeated previous) => do
    reportRepeated entry previous
    return false
  | (entry, .first field) => do
    let permitted ← completeness id incomplete (·.completenessOfAlternative entry.name)
    checkChild check (.field decl.category.name entry.name) entry.template field.type
      { incomplete := permitted = .incomplete, allowOmit := false, allowAnyOrOmit := false }

def checkUnion (check : ChildCheck) (id : NodeId) (decl : TypeDecl) (site : Site) : CheckM Bool := do
  match ← formOf id with
  | .named entries =>
    onlyIf (entries.length ≠ 1) (problemAt id .unionFieldCount)
    checkAny (checkAlternative check id decl site.incomplete)
      (classifyEntries decl.field? [] entries)
  | _ =>
    illegalForm id decl
    return false

end TemplateCheck
