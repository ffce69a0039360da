import TemplateCheck.Check.Monad

/-!
# Following references

A referenced template stands for the last template of its chain: the body of the definition it
names, narrowed by its path, and followed again if that is a reference. What only a test run can
tell, such as the content of a variable or the result of a function, ends the chain at the
reference itself. The end of a chain is stored in the reference.

A field or element that a modified template leaves out is looked up in its base. No chain visits a
node twice and no acyclic walk over base links does, so both are cut off at the size of the store.
-/

namespace TemplateCheck

/-- What a path into a template leads to. -/
inductive Part where
  | found (id : NodeId) (type : TypeKey)
  /-- Only a test run can tell. -/
  | unknown
  /-- The path leads nowhere, which has been reported. -/
  | invalid
deriving DecidableEq, Repr, Inhabited

def invalidPart (span : Span) (fault : PathFault) : CheckM Part := do
  problem span (.invalidPath fault)
  return .invalid

/-- A specific value that names a definition yielding a template is a referenced template. An
undefined name is reported. -/
def recognizeReference (id : NodeId) : CheckM Unit := do
  match ← formOf id with
  | .specific (.ref reference) =>
    match (← read).definitions.target? reference with
    | none => reject id (.unresolvedReference reference.name)
    | some definition =>
      if definition.kind.yieldsTemplate then replaceForm id (.referenced reference none)
  | _ => return

def Form.hidesFields : Form → Bool
  | .omitted | .anyValue | .anyOrOmit => true
  | .list .valueList _ | .list .complemented _ => true
  | _ => false

def TypeDecl.fieldFault (decl : TypeDecl) (name : String) : PathFault :=
  if decl.category.fields?.isSome then .unknownField name decl.category.name decl.name
  else .noFields name decl.name

/-- The entry for a field; `inBase` looks up what is left out. -/
def entryPart (name : String) (type : TypeKey) (span : Span) (entries : List NamedEntry)
    (base : Option NodeId) (inBase : NodeId → CheckM Part) : CheckM Part :=
  match entries.find? (·.name = name), base with
  | some entry, _ => return .found entry.template type
  | none, some base => inBase base
  | none, none => invalidPart span (.unboundField name)

/-- The field of a template, looked up in its bases if it is left out. -/
def fieldPart (resolve : NodeId → CheckM NodeId) (decl : TypeDecl) (name : String) (span : Span) :
    Nat → NodeId → CheckM Part
  | 0, _ => throw .endlessWalk
  | depth + 1, id => do
    let t ← node id
    if t.form.hidesFields then
      return ← invalidPart span (.fieldOfWildcard name t.form.variant)
    let some field := decl.field? name | invalidPart span (decl.fieldFault name)
    match decl.category, t.form with
    | .union _, .named entries =>
      match entries.head? with
      | some entry =>
        if entry.name = name then return .found entry.template field.type
        else invalidPart span (.inactiveField name decl.name entry.name)
      | none => invalidPart span (.unboundField name)
    | .record _, .named entries | .set _, .named entries =>
      entryPart name field.type span entries t.base fun base => do
        fieldPart resolve decl name span depth (← resolve base)
    | .record _, .list .positional items =>
      match (decl.fieldIndex? name).bind (items[·]?) with
      | some item => return .found item field.type
      | none => invalidPart span (.unboundField name)
    | _, _ => return .unknown

/-- The element of a template at an index, looked up in its bases if it is not used. -/
def elementPart (resolve : NodeId → CheckM NodeId) (decl : TypeDecl) (index : Value) (span : Span) :
    Nat → NodeId → CheckM Part
  | 0, _ => throw .endlessWalk
  | depth + 1, id => do
    let some element := decl.category.element?
      | invalidPart span (.notIndexable decl.name)
    let some number := (← read).definitions.foldInteger? index | return .unknown
    let position := decl.category.position number
    if position < 0 then
      return ← invalidPart span (.negativeIndex number decl.category.name decl.name)
    let t ← node id
    match t.form with
    | .list .positional items =>
      let some item := items[position.toNat]?
        | invalidPart span (.indexOverflow number decl.category.name decl.name items.length)
      match ← formOf item, t.base with
      | .notUsed, some base => elementPart resolve decl index span depth (← resolve base)
      | .notUsed, none => invalidPart span .notUsedElement
      | _, _ => return .found item element
    | _ => return .unknown

/-- Forms whose parts only a test run can tell. -/
def Form.hidesParts : Form → Bool
  | .referenced .. | .indexed _ | .specific _ | .invoke .. | .concat .. => true
  | _ => false

def partAt (resolve : NodeId → CheckM NodeId) (decl : TypeDecl) (span : Span) (depth : Nat)
    (id : NodeId) : PathStep → CheckM Part
  | .field name => fieldPart resolve decl name span depth id
  | .index index => elementPart resolve decl index span depth id

/-- Narrow a template by a path. A part that is erroneous ends the path early. -/
def narrow (resolve : NodeId → CheckM NodeId) (span : Span) (depth : Nat) :
    List PathStep → NodeId → TypeKey → CheckM Part
  | [], id, type => return .found id type
  | step :: path, id, type => do
    let id ← resolve id
    let form ← formOf id
    if form.isErroneous then return .found id type
    if form.hidesParts then return .unknown
    let some decl := (← read).types.decl? type | return .unknown
    match ← partAt resolve decl span depth id step with
    | .found id type => narrow resolve span depth path id type
    | other => return other

def rememberLast (id last : NodeId) : CheckM Unit :=
  onStore (Store.modifyNode id (·.remember last) (·.evolves_remember last))

/-- The end of the chain that starts at a reference to a template of the given type; `resolve` goes on
with a longer chain. A circular chain ends where it closes. -/
def chainEnd (resolve : ReferenceChain → NodeId → CheckM NodeId) (chain : ReferenceChain)
    (id : NodeId) (reference : Reference) (body : NodeId) (type : TypeKey) : CheckM NodeId := do
  match chain.add? id reference.text with
  | some longer =>
    let walk := (← currentStore).size + 1
    match ← narrow (resolve longer) reference.span walk reference.path body type with
    | .found part _ => resolve longer part
    | .unknown => return id
    | .invalid =>
      markErroneous id
      return id
  | none =>
    reject id (.circularReference (chain.cycleNames id))
    return id

/-- The last template of a chain that can still grow by `depth` references. -/
def lastWithin : Nat → ReferenceChain → NodeId → CheckM NodeId
  | 0, _, _ => throw .endlessWalk
  | depth + 1, chain, id => do
    match ← formOf id with
    | .referenced _ (some last) => return last
    | .referenced reference none =>
      let some definition := (← read).definitions.target? reference | return id
      match definition.kind.template?, definition.type, reference.args with
      | some template, some type, none =>
        let last ← chainEnd (lastWithin depth) chain id reference template.body type
        rememberLast id last
        mark id .recursionsChecked
        return last
      | _, _, _ =>
        rememberLast id id
        return id
    | _ => return id

def lastTemplate (id : NodeId) : CheckM NodeId := do
  lastWithin ((← currentStore).size + 1) ⟨"While searching for referenced template", [], []⟩ id

end TemplateCheck
