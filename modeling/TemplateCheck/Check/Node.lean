import TemplateCheck.Check.Binding
import TemplateCheck.Check.Concatenation
import TemplateCheck.Check.Elements
import TemplateCheck.Check.Parameters
import TemplateCheck.Check.Pattern

/-!
# Checking a template

A node is checked once, against one governor. Wildcards, value lists, references and `all from` are
checked alike under every governor; the legality of all other forms depends on the category of the
governor. Length restriction and `ifpresent` are checked last.

Each check of a form takes the check of child templates and the splicing of lists as arguments.
`checkWithin` closes the recursion over a bounded number of levels.
-/

namespace TemplateCheck

def checkSupported (id : NodeId) : CheckM Unit := do
  if (← read).settings.concatenation then return
  match ← formOf id with
  | .concat .. => reject id .concatNotSupported
  | .decoded .. => reject id .decodeNotSupported
  | _ => return

/-- Report an omit or `*` that its position does not permit. -/
def checkPlacement (id : NodeId) (site : Site) : CheckM Unit := do
  match ← formOf (← lastTemplate id) with
  | .omitted => if !site.allowOmit then problemAt id .omitNotAllowed
  | .anyOrOmit => if !site.allowAnyOrOmit then problemAt id .anyOrOmitForMandatory
  | _ => return

def checkSymbol (id : NodeId) (symbol : String) (decl : TypeDecl) : CheckM Unit := do
  match decl.category with
  | .signature .. => problemAt id (.wildcardForSignature symbol decl.name)
  | .recordOf _ | .setOf _ | .array .. =>
    let t ← node id
    if t.form.variant = .omitted && t.length.isSome then warnAt id .redundantLength
  | _ => return

def checkAlternatives (check : ChildCheck) (flatten : Flattening) (id : NodeId) (shape : ListShape)
    (governor : TypeKey) (site : Site) : CheckM Bool := do
  let items ← flattenedItems flatten id
  let allowOmit := (← read).settings.omitInValueLists && site.allowOmit
  checkAny (fun (item, position) => do
    let one ← checkChild check (.listItem (position + 1)) item governor { allowOmit }
    let form ← formOf item
    onlyIf (shape = .complemented && form.variant = .anyOrOmit)
      (warnAt item .complementMatchesNothing)
    return one) items.zipIdx

/-- A reference whose last template is a plain constant becomes that constant. -/
def collapseReference (id last : NodeId) (governor : TypeKey) : CheckM Unit := do
  let t ← node last
  match t.form, t.length, t.ifPresent with
  | .specific value, none, false =>
    match (← read).definitions.fold? value with
    | some constant =>
      replaceForm id (.specific constant)
      checkConformance id governor false
    | none => return
  | _, _, _ => return

def Env.referenceTypeProblem? (env : Env) (r : Reference) (definition : Definition)
    (governor : TypeKey) : Option Problem := do
  let declared ← definition.type
  match env.types.part? declared r.path with
  | none => some (.invalidPath (.notInTemplateType r.text (env.types.typeName declared)))
  | some part =>
    if env.types.compatible governor part.type then none
    else some (.typeMismatch (env.types.typeName governor) (env.types.typeName part.type))

def checkTarget (id : NodeId) (r : Reference) (definition : Definition) (governor : TypeKey) : CheckM Unit := do
  match (← read).referenceTypeProblem? r definition governor with
  | some p => reject id p
  | none =>
    let last ← lastTemplate id
    if !(← isErroneous id) && last ≠ id && !r.isParameterized then
      collapseReference id last governor

def checkReference (id : NodeId) (r : Reference) (governor : TypeKey) : CheckM Bool := do
  let env ← read
  let some definition := env.definitions.target? r | throw (.undefinedReference r.text)
  checkTarget id r definition governor
  return env.isCurrent r

def Env.calleeType? (env : Env) (callee : Value) : Option TypeDecl := do
  let r ← callee.reference?
  let definition ← env.definitions.target? r
  let part ← env.types.part? (← definition.type) r.path
  env.types.decl? part.type

/-- What is wrong with an application whose result should have the type `governor`. -/
def Env.applicationProblem? (env : Env) (callee : Value) (governor : TypeKey) : Option Problem :=
  match env.calleeType? callee with
  | none => some .functionExpected
  | some decl =>
    match decl.category with
    | .behaviour none => none
    | .behaviour (some result) =>
      if env.types.compatible governor result then none
      else some (.typeMismatch (env.types.typeName governor) (env.types.typeName result))
    | _ => some (.notAFunction decl.name)

def checkApplication (id : NodeId) (callee : Value) (governor : TypeKey) : CheckM Unit := do
  inside .application (((← read).applicationProblem? callee governor).forM (reject id))

def checkSlotReference (id : NodeId) (r : Reference) : CheckM Bool := do
  let env ← read
  match env.definitions.target? r with
  | none =>
    reject id (.unresolvedReference r.name)
    return false
  | some definition =>
    if definition.kind.isBehaviour then
      reject id (.allFromBehaviour definition.kind.word)
      return false
    else return env.isCurrent r

def checkSlot (id target : NodeId) : CheckM Bool := do
  match ← formOf target with
  | .specific (.ref r) | .referenced r _ => checkSlotReference id r
  | .erroneous => return false
  | form =>
    reject id (.allFromTarget form.variant)
    return false

def checkNumber (id : NodeId) (decl : TypeDecl) (range : ValueRange → CheckM Unit) : CheckM Unit := do
  match ← formOf id with
  | .range bounds => range bounds
  | _ => illegalForm id decl

def checkStringForm (id : NodeId) (decl : TypeDecl) (family : StringFamily) (form : Form) : CheckM Unit :=
  match form, family with
  | .range bounds, .character chars => checkCharacterRange id chars bounds
  | .binaryPattern digits text, .binary binary =>
    if digits = binary then checkBinaryPattern id binary text else illegalForm id decl
  | .charPattern own pattern, .character chars =>
    if own = .universal && chars = .basic then illegalForm id decl
    else checkCharPattern id chars pattern
  | _, _ => illegalForm id decl

def checkString (check : ChildCheck) (id : NodeId) (decl : TypeDecl) (family : StringFamily) : CheckM Bool := do
  match ← formOf id with
  | .decoded encoding target =>
    onlyIf (encoding.isSome && family ≠ .character .universal) (problemAt id .encodingNotAllowed)
    checkDecoded check target
  | form =>
    checkStringForm id decl family form
    return false

/-- Check a form whose legality depends on the category of the governor. -/
def checkByCategory (check : ChildCheck) (flatten : Flattening) (id : NodeId) (decl : TypeDecl)
    (site : Site) : CheckM Bool := do
  match decl.category with
  | .integer =>
    checkNumber id decl (checkIntegerRange id)
    return false
  | .float =>
    checkNumber id decl (checkFloatRange id)
    return false
  | .string family => checkString check id decl family
  | .record fields => checkRecord check id decl fields site
  | .set fields => checkSet check id decl fields site
  | .union _ => checkUnion check id decl site
  | .signature params _ _ => checkSignature check id decl params site
  | _ =>
    match decl.listType? site.slicing with
    | some g => checkList check flatten id g site
    | none =>
      illegalForm id decl
      return false

/-- Check the form of a node; the result tells whether it refers back to the definition under
check. -/
def checkForm (check : ChildCheck) (flatten : Flattening) (id : NodeId) (governor : TypeKey)
    (decl : TypeDecl) (site : Site) : CheckM Bool := do
  match ← formOf id with
  | .erroneous => return false
  | .notUsed =>
    checkSymbol id "-" decl
    return false
  | .omitted =>
    checkSymbol id "omit" decl
    return false
  | .anyValue =>
    checkSymbol id "?" decl
    return false
  | .anyOrOmit =>
    checkSymbol id "*" decl
    return false
  | .allFrom target => checkSlot id target
  | .list .valueList _ => checkAlternatives check flatten id .valueList governor site
  | .list .complemented _ => checkAlternatives check flatten id .complemented governor site
  | .specific _ =>
    checkConformance id governor site.allowOmit
    return false
  | .referenced r _ => checkReference id r governor
  | .invoke callee _ =>
    checkApplication id callee governor
    return false
  | .concat left right => checkConcatenation check id left right governor decl
  | _ => checkByCategory check flatten id decl site

def checkModifiers (id : NodeId) (governor : TypeKey) (site : Site) : CheckM Unit := do
  let t ← node id
  onlyIf (t.length.isSome && !t.form.isErroneous) (checkLengthRestriction id governor)
  onlyIf (t.ifPresent && !site.allowOmit) (problemAt id .ifPresentNotAllowed)

def checkGoverned (check : ChildCheck) (flatten : Flattening) (id : NodeId) (governor : TypeKey)
    (decl : TypeDecl) (site : Site) : CheckM Outcome := do
  recognizeReference id
  checkSupported id
  checkPlacement id site
  let selfReference ← checkForm check flatten id governor decl site
  checkModifiers id governor site
  return { selfReference, erroneous := ← isErroneous id }

/-- Check a node whose children are checked by `check` and whose lists are spliced by `flatten`. -/
def checkStep (check : ChildCheck) (flatten : Flattening) : ChildCheck := fun id governor site => do
  let t ← node id
  if t.marks.checked then return { erroneous := t.form.isErroneous }
  govern id governor
  match (← read).types.decl? governor with
  | none =>
    reject id .unknownGovernor
    return { erroneous := true }
  | some decl =>
    match decl.category with
    | .erroneous => return {}
    | .port =>
      reject id (.portTemplate decl.name)
      return { erroneous := true }
    | _ => checkGoverned check flatten id governor decl site

/-- Check a template at most `depth` levels deep. -/
def checkWithin : Nat → ChildCheck
  | 0 => fun _ _ _ => throw .tooDeep
  | depth + 1 => checkStep (checkWithin depth) (flattenWithin depth)

end TemplateCheck
