import TemplateCheck.Check.Resolution

/-!
# Splicing `all from`

A slot `all from t` in a list is replaced by copies of the elements of `t` where `t` is a template or
a constant whose content is known. A slot whose content only a test run can tell stays in place and
its list is marked. Spliced elements are expanded in turn; a definition that would be spliced into
itself is reported.
-/

namespace TemplateCheck

inductive SlotContent where
  /-- Copies of the target's elements, and whether no slot is left among them. -/
  | elements (items : List NodeId) (complete : Bool)
  /-- Only a test run can tell. -/
  | runtime
  /-- The slot is illegal. -/
  | invalid
deriving DecidableEq, Repr, Inhabited

/-- Expansion of the items of a list: whether they belong to a permutation, the definitions being
spliced, the items. The result tells whether no slot is left. -/
abbrev Expand := Bool → List DefId → List NodeId → CheckM (List NodeId × Bool)

abbrev Flattening := NodeId → CheckM Bool

def settle (id : NodeId) (flattened : Bool) : CheckM Unit :=
  onStore (Store.modifyNode id (·.settle flattened) (·.evolves_settle flattened))

def expandNode (expand : Expand) (inPermutation : Bool) (active : List DefId) (id : NodeId) : CheckM Bool := do
  let t ← node id
  if t.marks.folded then return t.marks.flattened
  match t.form with
  | .list shape items =>
    mark id .folded
    let (expanded, flattened) ← expand inPermutation active items
    replaceForm id (.list shape expanded)
    settle id flattened
    return flattened
  | _ => return true

/-- Whatever has a list type can be spliced at run time; anything else is reported. -/
def listTarget (type : TypeKey) (span : Span) (what : String) : CheckM SlotContent := do
  match (← read).types.decl? type with
  | some decl =>
    if decl.isList then return .runtime
    else
      problem span (.allFromKind what decl.name)
      return .invalid
  | none => return .invalid

def spliceStep (span : Span) (type : TypeKey) (step : PathStep) : CheckM (Option TypeKey) := do
  match (← read).types.spliceStep type step with
  | .ok next => return some next
  | .error fault? =>
    fault?.forM fun fault => problem span (.invalidPath fault)
    return none

def splicePath (span : Span) : TypeKey → List PathStep → CheckM (Option TypeKey)
  | type, [] => return some type
  | type, step :: path => do
    let some next ← spliceStep span type step | return none
    splicePath span next path

/-- How far the path to a target has been followed. Once the content is unknown only the type is
followed further. -/
structure TargetWalk where
  node : NodeId
  type : TypeKey
  known : Bool
deriving DecidableEq, Repr, Inhabited

def targetItem (span : Span) (owner : TypeDecl) (number : Int) (items : List NodeId)
    (walk : TargetWalk) : CheckM (Option TargetWalk) := do
  let position := owner.category.position number
  let some element := if position < 0 then none else items[position.toNat]?
    | do
      problem span
        (.invalidPath (.indexOverflow number owner.category.name owner.name items.length))
      return none
  match ← formOf element with
  | .notUsed =>
    problem span .allFromUnboundElement
    return none
  | _ => return some { walk with node := element }

def targetElement (span : Span) (owner : TypeDecl) (index : Value) (walk : TargetWalk) :
    CheckM (Option TargetWalk) := do
  let some number := (← read).definitions.foldInteger? index
    | return some { walk with known := false }
  match ← formOf walk.node with
  | .indexed _ | .referenced .. => return some { walk with known := false }
  | .list .positional items | .list .valueList items => targetItem span owner number items walk
  | form =>
    problem span (.allFromNotSpecific owner.name form.variant)
    return none

def targetField (span : Span) (owner : TypeDecl) (name : String) (walk : TargetWalk) : CheckM (Option TargetWalk) := do
  match ← formOf walk.node with
  | .named entries =>
    let some entry := entries.find? (·.name = name)
      | do
        problem span .allFromUnboundField
        return none
    match ← formOf entry.template with
    | .omitted =>
      problem span .allFromOmittedField
      return none
    | .notUsed =>
      problem span .allFromUnboundField
      return none
    | _ => return some { walk with node := entry.template }
  | .referenced .. => return some { walk with known := false }
  | form =>
    problem span (.allFromNotSpecific owner.name form.variant)
    return none

def moveTarget (span : Span) (owner : TypeDecl) (walk : TargetWalk) (step : PathStep) : CheckM (Option TargetWalk) := do
  if walk.known then
    let here := { walk with node := ← lastTemplate walk.node }
    match step with
    | .index index => targetElement span owner index here
    | .field name => targetField span owner name here
  else return some walk

def walkTarget (span : Span) : List PathStep → TargetWalk → CheckM (Option TargetWalk)
  | [], walk => return some walk
  | step :: path, walk => do
    let some owner := (← read).types.decl? walk.type | return none
    let some next ← spliceStep span walk.type step | return none
    match ← moveTarget span owner walk step with
    | some walk => walkTarget span path { walk with type := next }
    | none => return none

/-- Whether an element keeps its list from being spliced: `some false` defers it to the test run,
`some true` makes it illegal. -/
def elementObstacle (inPermutation : Bool) : Form → Option Bool
  | .specific (.ref r) | .referenced r _ => if r.isParameterized then some false else none
  | .anyOrOmit => if inPermutation then none else some true
  | .list .permutation _ => some true
  | _ => none

/-- Look for obstacles among the elements of a target. The first illegal one ends the search. -/
def elementsObstacle (inPermutation : Bool) : List NodeId → CheckM (Option Bool)
  | [] => return none
  | item :: items => do
    match elementObstacle inPermutation (← formOf item) with
    | some true => return some true
    | some false =>
      match ← elementsObstacle inPermutation items with
      | some true => return some true
      | _ => return some false
    | none => elementsObstacle inPermutation items

def spliceElements (expand : Expand) (inPermutation : Bool) (active : List DefId) (slot : NodeId)
    (items : List NodeId) : CheckM SlotContent := do
  match ← elementsObstacle inPermutation items with
  | some true =>
    problemAt slot .allFromPermutation
    return .invalid
  | some false => return .runtime
  | none =>
    let copies ← items.mapM fun item => onStore (Store.deepCopy item)
    let (expanded, complete) ← expand inPermutation active copies
    return .elements expanded complete

/-- A target in assignment notation is left to the test run, unless it holds a permutation. -/
def spliceNamed (slot : NodeId) : List NamedEntry → CheckM SlotContent
  | [] => return .runtime
  | entry :: entries => do
    match ← formOf entry.template with
    | .list .permutation _ =>
      problemAt slot .allFromPermutation
      return .invalid
    | _ => spliceNamed slot entries

def spliceFromTemplate (expand : Expand) (inPermutation : Bool) (active : List DefId) (slot : NodeId)
    (definition : Definition) (body : NodeId) (r : Reference) : CheckM SlotContent := do
  let some type := definition.type | return .invalid
  let some walk ← walkTarget r.span r.path ⟨body, type, !r.isParameterized⟩ | return .invalid
  if !walk.known then return ← listTarget walk.type r.span "template"
  let last ← lastTemplate walk.node
  match ← formOf last with
  | .referenced .. | .indexed _ => return .runtime
  | .list .positional items | .list .valueList items =>
    spliceElements expand inPermutation active slot items
  | .named entries => spliceNamed slot entries
  | .anyValue | .anyOrOmit =>
    problemAt last .allFromMatching
    return .invalid
  | .erroneous => return .invalid
  | _ =>
    problemAt last (.allFromKind "template" ((← read).types.typeName walk.type))
    return .invalid

def spliceFromConstant (slot : NodeId) (definition : Definition) (r : Reference) : CheckM SlotContent := do
  let some declared := definition.type | return .runtime
  let some type ← splicePath r.span declared r.path | return .invalid
  match ← listTarget type r.span "constant" with
  | .invalid => return .invalid
  | _ =>
    if r.isParameterized then return .runtime
    match (← read).fold (.ref r) with
    | .ok (.list values) =>
      let span := (← node slot).span
      let items ← values.mapM fun value =>
        onStore (Store.alloc { form := .specific value, span })
      return .elements items true
    | .ok _ | .error .unknown => return .runtime
    | .error (.invalid fault) =>
      problem r.span (.invalidPath (.constant fault))
      return .invalid

/-- The words for a target that is only known at run time. -/
def DefKind.targetWord (kind : DefKind) : String :=
  match kind with
  | .function (some returned) | .externalFunction (some returned) =>
    kind.word ++ (match returned with
      | .template _ => " returning a template"
      | .value => " returning a value")
  | kind => kind.word

def spliceAtRuntime (definition : Definition) (r : Reference) : CheckM SlotContent := do
  let some declared := definition.type | return .runtime
  let some type ← splicePath r.span declared r.path | return .invalid
  listTarget type r.span definition.kind.targetWord

/-- Turn the definition that a slot refers to into what the slot stands for. -/
def spliceDefinition (expand : Expand) (inPermutation : Bool) (active : List DefId) (slot : NodeId)
    (target : DefId) (definition : Definition) (r : Reference) : CheckM SlotContent := do
  match definition.kind with
  | .template template =>
    spliceFromTemplate expand inPermutation (active ++ [target]) slot definition template.body r
  | .const _ => spliceFromConstant slot definition r
  | .altstep | .testcase =>
    problemAt slot (.allFromBehaviour definition.kind.word)
    return .invalid
  | _ => spliceAtRuntime definition r

def rejectSlot (slot : NodeId) (p : Problem) : CheckM SlotContent := do
  reject slot p
  return .invalid

def spliceReference (expand : Expand) (inPermutation : Bool) (active : List DefId) (slot : NodeId)
    (r : Reference) : CheckM SlotContent := do
  let defs := (← read).definitions
  match r.target, defs.target? r with
  | some target, some definition =>
    if target ∈ active then
      let names := active.filterMap fun id => (defs.get? id).map (·.name)
      rejectSlot slot (.circularReference (names ++ [definition.name]))
    else
      match ← spliceDefinition expand inPermutation active slot target definition r with
      | .invalid =>
        onlyIf (!(← isErroneous slot)) (markErroneous slot)
        return .invalid
      | result => return result
  | _, _ => rejectSlot slot (.unresolvedReference r.name)

def spliceSlot (expand : Expand) (inPermutation : Bool) (active : List DefId)
    (slot target : NodeId) : CheckM SlotContent := do
  match ← formOf target with
  | .specific (.ref r) | .referenced r _ => spliceReference expand inPermutation active slot r
  | .erroneous =>
    markErroneous slot
    return .invalid
  | form => rejectSlot slot (.allFromTarget form.variant)

def expandItem (expand : Expand) (inPermutation : Bool) (active : List DefId)
    (done : List NodeId × Bool) (item : NodeId) : CheckM (List NodeId × Bool) := do
  let (items, flattened) := done
  match ← formOf item with
  | .allFrom target =>
    match ← spliceSlot expand inPermutation active item target with
    | .elements elements complete => return (items ++ elements, flattened && complete)
    | .runtime =>
      mark item .needsExpansion
      return (items ++ [item], false)
    | .invalid => return (items ++ [item], flattened)
  | .list .permutation _ =>
    let inner ← expandNode expand true active item
    return (items ++ [item], flattened && inner)
  | .list .positional _ | .list .valueList _ =>
    let inner ← expandNode expand false active item
    return (items ++ [item], flattened && inner)
  | _ => return (items ++ [item], flattened)

/-- Expand items whose lists and splices nest at most `depth` levels deep. -/
def expandWithin : Nat → Expand
  | 0, _, _, _ => throw .tooDeep
  | depth + 1, inPermutation, active, items =>
    items.foldlM (expandItem (expandWithin depth) inPermutation active) ([], true)

/-- Splice every slot of a list that can be spliced, where lists and splices nest at most `depth`
levels deep. The result tells whether none is left. -/
def flattenWithin (depth : Nat) (id : NodeId) : CheckM Bool := do
  expandNode (expandWithin depth) false (← read).current.toList id

end TemplateCheck
