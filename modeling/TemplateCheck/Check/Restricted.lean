import TemplateCheck.Check.Resolution

/-!
# Restricted definitions

What a definition declared with a restriction may match. `template(omit)` and `template(value)` admit
values and lists of values without length restriction, `template(present)` anything that cannot match
omit, and none of them admits `ifpresent`. Fields and elements are held to `template(omit)`, since an
absent field is an omitted one. A modified template also answers for the fields it inherits.

Where the content is only known at run time, the restriction has to be verified then. Every check
tells whether that is so and marks the node.
-/

namespace TemplateCheck

/-- The restricted definition, as diagnostics name it, and where it is used. -/
structure RestrictedUse where
  definition : String
  span : Span
deriving DecidableEq, Repr, Inhabited

/-- Check of a template against a restriction. The result tells whether a check at run time is
needed. -/
abbrev RestrictionCheck := NodeId → Restriction → CheckM Bool

def RestrictedUse.forbid (use : RestrictedUse) (usage : Usage) : CheckM Unit :=
  problem use.span (.restrictionViolation use.definition usage)

/-- Fields that a template with a base has to give before the base contributes none. -/
def Registry.fieldCount (types : Registry) (governor : TypeKey) : Nat :=
  match types.decl? governor with
  | none => 0
  | some decl =>
    match decl.category with
    | .record fields | .set fields => fields.length
    | .signature params _ _ => params.length
    | _ => 0

/-- Check the entries whose names are not among `seen`, and add their names. -/
def restrictInherited (restrict : RestrictionCheck) : List String → List NamedEntry → CheckM (List String × Bool)
  | seen, [] => return (seen, false)
  | seen, entry :: entries => do
    if entry.name ∈ seen then restrictInherited restrict seen entries
    else
      let one ← restrict entry.template .valueOrOmit
      let (names, others) ← restrictInherited restrict (entry.name :: seen) entries
      return (names, one || others)

/-- Check the fields that a chain of at most `depth` bases supplies, as long as fewer than `needed`
names are seen. -/
def restrictBases (restrict : RestrictionCheck) (use : RestrictedUse) (needed : Nat) :
    Nat → List String → NodeId → CheckM Bool
  | 0, _, _ => throw .endlessWalk
  | depth + 1, seen, id => do
    if needed ≤ seen.length then return false
    let last ← lastTemplate id
    let t ← node last
    match t.form with
    | .named entries =>
      let (names, inherited) ← restrictInherited restrict seen entries
      match t.base with
      | some base =>
        let further ← restrictBases restrict use needed depth names base
        return inherited || further
      | none => return inherited
    | .anyValue | .anyOrOmit =>
      problemAt last (.restrictionViolation use.definition (.form t.form.variant))
      return false
    | _ => return false

/-- Check the entries of a template and the fields it inherits. -/
def restrictNamed (restrict : RestrictionCheck) (use : RestrictedUse) (t : Template)
    (entries : List NamedEntry) : CheckM Bool := do
  let own ← checkAny (fun entry => restrict entry.template .valueOrOmit) entries
  match t.base, t.governor with
  | some base, some governor =>
    let needed := (← read).types.fieldCount governor
    if needed = 0 then return own
    let names := (entries.map (·.name)).eraseDups
    let inherited ← restrictBases restrict use needed ((← currentStore).size + 1) names base
    return own || inherited
  | _, _ => return own

/-- Check what a reference stands for. A template is checked itself; for everything else its declared
restriction must be strong enough. -/
def restrictReferenced (restrict : RestrictionCheck) (id : NodeId) (r : Reference)
    (required : Restriction) : CheckM Bool := do
  let env ← read
  let some definition := env.definitions.target? r | throw (.undefinedReference r.text)
  match definition.kind with
  | .template _ =>
    let last ← lastTemplate id
    if last = id then return false else restrict last required
  | .moduleParTemplate | .varTemplate _ | .templateParam .. | .function _ | .externalFunction _ =>
    let declared := definition.kind.restriction?.getD .unrestricted
    let throughOptional :=
      ((definition.type.bind (env.types.part? · r.path)).map (·.throughOptional)).getD false
    let inadequate := (declared.ofPart throughOptional).weakerThan required
    onlyIf inadequate do
      warnAt id (.inadequateRestriction definition.kind.word r.text)
      note definition.span (.definitionIsHere definition.kind.word)
    let external := match definition.kind with
      | .externalFunction _ => true
      | _ => false
    return external || inadequate
  | _ => return false

def Form.excludesOmit : Form → Bool
  | .omitted | .anyOrOmit => true
  | _ => false

/-- What a check of a form finds. -/
structure Verdict where
  /-- The restriction has to be verified at run time. -/
  runtime : Bool := false
  violation : Option Usage := none
deriving DecidableEq, Repr, Inhabited

def restrictToValues (restrict : RestrictionCheck) (use : RestrictedUse) (id : NodeId)
    (t : Template) (required : Restriction) : CheckM Verdict := do
  match t.form with
  | .erroneous | .specific _ | .invoke .. => return {}
  | .notUsed =>
    match t.base with
    | some base => return { runtime := ← restrict base required }
    | none => return { runtime := true }
  | .referenced r _ => return { runtime := ← restrictReferenced restrict id r required }
  | .list .positional items =>
    return { runtime := ← checkAny (restrict · .valueOrOmit) items }
  | .named entries => return { runtime := ← restrictNamed restrict use t entries }
  | .indexed entries =>
    let _ ← checkAny (fun entry => restrict entry.template .valueOrOmit) entries
    return { runtime := true }
  | .concat left right => return { runtime := ← checkAny (restrict · required) [left, right] }
  | form =>
    if form.variant = .omitted && required = .valueOrOmit then return {}
    else return { violation := some (.form form.variant) }

def excludesOmit (items : List NodeId) : CheckM Bool :=
  items.anyM fun item => do return (← formOf item).excludesOmit

def restrictToPresent (restrict : RestrictionCheck) (id : NodeId) (t : Template) : CheckM Verdict := do
  match t.form with
  | .referenced r _ => return { runtime := ← restrictReferenced restrict id r .present }
  | .list .valueList items => return { runtime := ← checkAny (restrict · .present) items }
  | .list .complemented items =>
    if !(← read).settings.omitInValueLists then return { runtime := true }
    else if ← excludesOmit items then return { runtime := true }
    else return { runtime := true, violation := some (.listWithoutOmit t.form.variant) }
  | .omitted | .anyOrOmit => return { violation := some (.form t.form.variant) }
  | .concat left right => return { runtime := ← checkAny (restrict · .present) [left, right] }
  | _ => return {}

def restrictForm (restrict : RestrictionCheck) (use : RestrictedUse) (id : NodeId) (t : Template)
    (required : Restriction) : CheckM Verdict :=
  if required = .present then restrictToPresent restrict id t
  else restrictToValues restrict use id t required

/-- Check a node whose parts are checked by `restrict`. -/
def restrictStep (restrict : RestrictionCheck) (use : RestrictedUse) : RestrictionCheck :=
  fun id required => do
    if required = .unrestricted then return false
    let t ← node id
    onlyIf t.ifPresent (use.forbid .ifPresent)
    let measured := t.length.isSome && required ≠ .present
    onlyIf measured (use.forbid .lengthRestriction)
    let verdict ← restrictForm restrict use id t required
    verdict.violation.forM use.forbid
    onlyIf ((t.ifPresent || measured || verdict.violation.isSome) && use.span ≠ t.span)
      (note t.span .templateIsHere)
    onlyIf verdict.runtime (mark id .needsRestrictionCheck)
    return verdict.runtime

/-- Check a template whose parts, bases and references nest at most `depth` levels deep. -/
def restrictWithin (use : RestrictedUse) : Nat → RestrictionCheck
  | 0 => fun _ _ => throw .tooDeep
  | depth + 1 => restrictStep (restrictWithin use depth) use

end TemplateCheck
