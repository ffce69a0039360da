import TemplateCheck.Check.Monad

/-!
# Values against types

Only the shape of a value is compared with a type: its kind with the category, the names of its
fields, the number of its elements, and the types of the definitions it refers to. `omit` is
accepted for optional fields, and for the whole value if its position accepts it.
-/

namespace TemplateCheck

def verdicts : List String := ["none", "pass", "inconc", "fail", "error"]

namespace Env

/-- What is wrong with a reference inside a value of the given type. -/
def referenceProblems (env : Env) (r : Reference) (type : TypeKey) : List Problem :=
  match env.definitions.target? r with
  | none => [.unresolvedReference r.name]
  | some definition =>
    if definition.kind.isBehaviour then [.valueExpected definition.description]
    else
      match definition.type with
      | none => []
      | some declared =>
        match env.types.part? declared r.path with
        | some part =>
          if env.types.compatible type part.type then []
          else [.typeMismatch (env.types.typeName type) (env.types.typeName part.type)]
        | none => [.invalidPath (.notInValueType r.text (env.types.typeName declared))]

def literalProblems (decl : TypeDecl) (value : Value) : List Problem :=
  let mismatch := Problem.valueKindMismatch decl.category.valueWord
  match value, decl.category with
  | .notUsed, _ => [.notUsedSymbol]
  | .boolean _, .boolean => []
  | .integer _, .integer => []
  | .real _, .float => []
  | .null, .defaultReference => []
  | .null, .component => []
  | .enumerated item, .enumerated items =>
    if item ∈ items then [] else [.unknownItem item decl.name]
  | .enumerated item, .verdict => if item ∈ verdicts then [] else [mismatch]
  | .string actual _, .string expected => if expected.accepts actual then [] else [mismatch]
  | _, _ => [mismatch]

mutual

def valueProblems (env : Env) (value : Value) (type : TypeKey) (allowOmit : Bool) : List Problem :=
  match env.types.decl? type with
  | none => []
  | some decl =>
    if decl.category = .erroneous then [] else
    match value with
    | .erroneous | .expr _ => []
    | .ref r => env.referenceProblems r type
    | .omitted => if allowOmit then [] else [.omitNotAllowed]
    | .list items =>
      match decl.category with
      | .objectIdentifier => []
      | .recordOf element | .setOf element => env.itemsProblems items element
      | .array element size _ =>
        (if items.length = size then [] else [.arraySize size items.length]) ++
          env.itemsProblems items element
      | .record fields =>
        (if items.length ≤ fields.length then []
          else [.tooManyListElements decl.name fields.length items.length]) ++
          env.positionalProblems items fields
      | category => [.valueKindMismatch category.valueWord]
    | .fields entries =>
      match decl.category with
      | .record _ | .set _ => env.entriesProblems entries decl
      | .union _ =>
        (if entries.length = 1 then [] else [.unionFieldCount]) ++ env.entriesProblems entries decl
      | category => [.valueKindMismatch category.valueWord]
    | literal => literalProblems decl literal

def itemsProblems (env : Env) (items : List Value) (element : TypeKey) : List Problem :=
  match items with
  | [] => []
  | item :: items => env.valueProblems item element false ++ env.itemsProblems items element

/-- Elements that stand for the fields of a record in declaration order. -/
def positionalProblems (env : Env) (items : List Value) (fields : List FieldDecl) : List Problem :=
  match items, fields with
  | item :: items, field :: fields =>
    env.valueProblems item field.type field.optional ++ env.positionalProblems items fields
  | _, _ => []

def entriesProblems (env : Env) (entries : List (String × Value)) (decl : TypeDecl) : List Problem :=
  match entries with
  | [] => []
  | (name, item) :: entries =>
    (match decl.field? name with
      | some field => env.valueProblems item field.type field.optional
      | none => [.unknownField name decl.category.name decl.name]) ++
      env.entriesProblems entries decl

end

/-- Nothing is known of a type that does not resolve. -/
theorem valueProblems_of_unresolved {env : Env} {type : TypeKey} (h : env.types.decl? type = none)
    (value : Value) (allowOmit : Bool) : env.valueProblems value type allowOmit = [] := by
  rw [valueProblems, h]

end Env

/-- Check the specific value of a node, once. -/
def checkConformance (id : NodeId) (governor : TypeKey) (allowOmit : Bool) : CheckM Unit := do
  let t ← node id
  if t.marks.valueChecked then return
  mark id .valueChecked
  match t.form with
  | .specific value =>
    ((← read).valueProblems value governor allowOmit).forM (problem t.span)
  | _ => return

end TemplateCheck
