import TemplateCheck.Check.Fields

/-!
# Signatures

Parameters are given by name, in declaration order. The order is lost at the first entry that is
undeclared or out of place, and nothing is said about it afterwards. A complete signature template
gives every `inout` parameter, and either all `in` or all `out` parameters.
-/

namespace TemplateCheck

def parameter? (params : List ParamDecl) (name : String) : Option (ParamDecl × Nat) :=
  params.zipIdx.find? (·.1.name = name)

/-- The least position that the next entry may have; nothing once the order is lost. -/
abbrev EntryOrder := Option Nat

def EntryOrder.next (order : EntryOrder) : EntryStatus (ParamDecl × Nat) → EntryOrder
  | .undeclared => none
  | .repeated _ => order
  | .first (_, position) =>
    order.bind fun least => if least ≤ position then some (position + 1) else none

/-- Whether an entry is the one that breaks the order. -/
def EntryOrder.isBrokenBy (order : EntryOrder) : EntryStatus (ParamDecl × Nat) → Bool
  | .first (_, position) => order.any (position < ·)
  | _ => false

def checkParameter (check : ChildCheck) (decl : TypeDecl) (incomplete : Bool) (order : EntryOrder) :
    NamedEntry × EntryStatus (ParamDecl × Nat) → CheckM Bool
  | (entry, .undeclared) => do
    problem entry.span (.unknownParameter entry.name decl.name)
    return false
  | (entry, .repeated previous) => do
    problem entry.span (.duplicateParameter entry.name decl.name)
    note previous (.parameterGivenHere entry.name)
    return false
  | (entry, .first param) => do
    onlyIf (order.isBrokenBy (.first param)) (problem entry.span (.unexpectedParameter entry.name))
    checkChild check (.parameter param.1.name) entry.template param.1.type
      { incomplete, allowOmit := false, allowAnyOrOmit := false }

def checkParameters (check : ChildCheck) (decl : TypeDecl) (incomplete : Bool) :
    EntryOrder → List (NamedEntry × EntryStatus (ParamDecl × Nat)) → CheckM Bool
  | _, [] => return false
  | order, item :: items => do
    let one ← checkParameter check decl incomplete order item
    let others ← checkParameters check decl incomplete (order.next item.2) items
    return one || others

def givesParameter (entries : List NamedEntry) (name : String) : CheckM Bool := do
  match entries.find? (·.name = name) with
  | none => return false
  | some entry =>
    match ← formOf entry.template with
    | .notUsed => return false
    | _ => return true

def incompleteSignature (missing : List ParamDecl) : List Problem :=
  (missing.filter (·.direction = .inout)).map (fun param => .missingInoutParameter param.name) ++
    match missing.find? (·.direction = .input), missing.find? (·.direction = .output) with
    | some input, some output => [.missingInAndOutParameters input.name output.name]
    | _, _ => []

def checkCompleteSignature (id : NodeId) (params : List ParamDecl) (entries : List NamedEntry) : CheckM Unit := do
  let missing ← params.filterM fun param => do return !(← givesParameter entries param.name)
  (incompleteSignature missing).forM (problemAt id)

def checkGivenParameters (check : ChildCheck) (id : NodeId) (decl : TypeDecl)
    (params : List ParamDecl) (entries : List NamedEntry) (incomplete : Bool) : CheckM Bool := do
  let selfReference ←
    checkParameters check decl incomplete (some 0) (classifyEntries (parameter? params) [] entries)
  onlyIf (!incomplete) (checkCompleteSignature id params entries)
  return selfReference

def checkParameterCount (id : NodeId) (decl : TypeDecl) (params : List ParamDecl) (items : List NodeId) : CheckM Unit :=
  if params.length < items.length then
    problemAt id (.tooManyListElements decl.name params.length items.length)
  else if items.length < params.length then
    problemAt id (.tooFewListElements decl.name params.length items.length)
  else pure ()

def checkSignature (check : ChildCheck) (id : NodeId) (decl : TypeDecl) (params : List ParamDecl)
    (site : Site) : CheckM Bool := do
  match ← formOf id with
  | .list .positional items =>
    checkParameterCount id decl params items
    let entries ← nameItems (params.map (·.name)) items
    replaceForm id (.named entries)
    checkGivenParameters check id decl params entries site.incomplete
  | .named entries => checkGivenParameters check id decl params entries site.incomplete
  | _ =>
    illegalForm id decl
    return false

end TemplateCheck
