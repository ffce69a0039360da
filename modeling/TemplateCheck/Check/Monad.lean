import TemplateCheck.Diagnostic.Report
import TemplateCheck.Registry.Path
import TemplateCheck.Store
import TemplateCheck.Value.Text

/-!
# Checking

A check reads the settings, the types and the definitions, changes the store and adds to the
report. It may end in a fault, and then keeps what it changed and reported until that point. Nodes
only evolve and the report only grows, which every check carries along as a proof.
-/

namespace TemplateCheck

structure Settings where
  /-- Concatenation and decoded content matching are accepted. -/
  concatenation : Bool := true
  /-- `omit` is accepted as an element of value lists and complemented lists. -/
  omitInValueLists : Bool := false
deriving DecidableEq, Repr, Inhabited

/-- What a check reads. -/
structure Env where
  settings : Settings := {}
  types : Registry := {}
  definitions : Definitions := {}
  /-- The definition whose body is being checked. -/
  current : Option DefId := none
deriving Inhabited

/-- What a check changes. -/
structure CheckState where
  store : Store := {}
  report : Report := {}
deriving Inhabited

/-- How the store and the report may look after a check. -/
structure CheckState.Evolves (before after : CheckState) : Prop where
  store : before.store.Evolves after.store
  report : before.report.Extends after.report

instance : Course CheckState.Evolves where
  refl _ := ⟨Course.refl _, Course.refl _⟩
  trans hFirst hSecond :=
    ⟨Course.trans hFirst.store hSecond.store, Course.trans hFirst.report hSecond.report⟩

abbrev CheckM := ReaderT Env (Tracked CheckState.Evolves)

def Env.isCurrent (env : Env) (r : Reference) : Bool :=
  env.current.isSome && r.target = env.current

def Env.fold (env : Env) (value : Value) : Folding := env.definitions.fold value

def onStore {α : Type} (x : StoreM α) : CheckM α := fun _ =>
  { run := fun state => ((x.run state.store).1, { state with store := (x.run state.store).2 })
    along := fun state => ⟨x.along state.store, Course.refl _⟩ }

def currentStore : CheckM Store := fun _ => .still fun state => .ok state.store

def node (id : NodeId) : CheckM Template := onStore (Store.get id)

def formOf (id : NodeId) : CheckM Form := do return (← node id).form

def isErroneous (id : NodeId) : CheckM Bool := do return (← formOf id).isErroneous

def mark (id : NodeId) (m : Mark) : CheckM Unit :=
  onStore (Store.modifyNode id (·.mark m) (·.evolves_mark m))

def govern (id : NodeId) (type : TypeKey) : CheckM Unit :=
  onStore (Store.modifyNode id (·.govern type) (·.evolves_govern type))

def replaceForm (id : NodeId) (form : Form) : CheckM Unit := do
  let _ ← onStore (Store.replace id form)

def markErroneous (id : NodeId) : CheckM Unit := replaceForm id .erroneous

def tell (span : Span) (finding : Finding) : CheckM Unit := fun _ =>
  { run := fun state => (.ok (), { state with report := state.report.add span finding })
    along := fun state => ⟨Course.refl _, state.report.extends_add span finding⟩ }

def problem (span : Span) (p : Problem) : CheckM Unit := tell span (.error p)

def note (span : Span) (n : Note) : CheckM Unit := tell span (.note n)

def problemAt (id : NodeId) (p : Problem) : CheckM Unit := do
  problem (← node id).span p

def warnAt (id : NodeId) (w : Warning) : CheckM Unit := do
  tell (← node id).span (.warning w)

def reject (id : NodeId) (p : Problem) : CheckM Unit := do
  problemAt id p
  markErroneous id

/-- Run a check inside a context, which is left again even if the check ends in a fault. -/
def inside {α : Type} (c : Context) (x : CheckM α) : CheckM α := fun env =>
  { run := fun state =>
      let (result, after) := (x env).run { state with report := state.report.enter c }
      (result, { after with report := after.report.leave })
    along := fun state =>
      let h := (x env).along { state with report := state.report.enter c }
      ⟨h.store, h.report.leave⟩ }

def onlyIf (condition : Bool) (x : CheckM Unit) : CheckM Unit := if condition then x else pure ()

/-- Run a check on every item and tell whether it holds for one of them. No item is skipped. -/
def checkAny {α : Type} (check : α → CheckM Bool) (items : List α) : CheckM Bool :=
  items.foldlM (fun found item => do
    let one ← check item
    return found || one) false

/-- The constant that a value folds to, read by `read?`. A constant of another kind and a path that
leads nowhere are reported. -/
def expectConstant {α : Type} (report : Problem → CheckM Unit) (kind : String)
    (read? : Value → Option α) (value : Value) : CheckM (Option α) := do
  match (← read).fold value with
  | .ok constant =>
    match read? constant with
    | some a => return some a
    | none =>
      report (.valueKindMismatch kind)
      return none
  | .error .unknown => return none
  | .error (.invalid fault) =>
    report (.constantFault fault)
    return none

/-- What a position permits. -/
structure Site where
  /-- Mandatory parts may be left out. -/
  incomplete : Bool := false
  allowOmit : Bool := true
  allowAnyOrOmit : Bool := true
  /-- An array may use permutations and index notation. This concerns the node itself and never its
  elements. -/
  slicing : Bool := true
deriving DecidableEq, Repr, Inhabited

def Site.element : Site := { allowOmit := false }

structure Outcome where
  /-- The template refers back to the definition under check. -/
  selfReference : Bool := false
  /-- The node was given up. -/
  erroneous : Bool := false
deriving DecidableEq, Repr, Inhabited

abbrev ChildCheck := NodeId → TypeKey → Site → CheckM Outcome

/-- Check a child inside a context and tell whether it refers back to the definition under check. -/
def checkChild (check : ChildCheck) (c : Context) (id : NodeId) (type : TypeKey) (site : Site) : CheckM Bool := do
  return (← inside c (check id type site)).selfReference

def illegalForm (id : NodeId) (decl : TypeDecl) : CheckM Unit := do
  problemAt id (.illegalForm (← formOf id).variant decl.name)

end TemplateCheck
