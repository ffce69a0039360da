import TemplateCheck.Check.Module

/-!
# Sessions

A session holds the types, definitions and templates of a module and the report about them. Every
operation returns its result together with the session after it; an operation that ends in a fault
keeps what it changed and reported before.

A check descends from templates to children, bases and referenced templates, and splicing may add
children as it goes. How deep it may descend is bounded by `limit`.
-/

namespace TemplateCheck

structure Session where
  settings : Settings := {}
  types : Registry := .predefined
  definitions : Definitions := {}
  store : Store := {}
  report : Report := {}
deriving Inhabited

namespace Session

def limit (s : Session) : Nat :=
  let size := s.store.size + s.definitions.size + s.types.size + 8
  size * size

def env (s : Session) : Env where
  settings := s.settings
  types := s.types
  definitions := s.definitions

def run {α : Type} (s : Session) (x : CheckM α) : Except Fault α × Session :=
  let (result, after) := (x s.env).run ⟨s.store, s.report⟩
  (result, { s with store := after.store, report := after.report })

def check (s : Session) (id : NodeId) (governor : TypeKey) (site : Site) : Except Fault Outcome × Session :=
  s.run (checkWithin s.limit id governor site)

def checkInline (s : Session) (inline : InlineTemplate) (expected : Option TypeKey) : Except Fault Outcome × Session :=
  s.run (TemplateCheck.checkInline (checkWithin s.limit) inline expected)

def checkDefinition (s : Session) (id : DefId) : Except Fault Outcome × Session :=
  s.run (TemplateCheck.checkDefinition s.limit id)

def checkModule (s : Session) : Except Fault Nat × Session :=
  s.run (TemplateCheck.checkModule s.limit)

def bindGovernor (s : Session) (inline : InlineTemplate) (expected : Option TypeKey) :
    Except Fault (Option TypeKey) × Session :=
  s.run (TemplateCheck.bindGovernor inline expected)

def checkRestriction (s : Session) (use : RestrictedUse) (id : NodeId) (required : Restriction) :
    Except Fault Bool × Session :=
  s.run (restrictWithin use s.limit id required)

def flatten (s : Session) (id : NodeId) : Except Fault Bool × Session :=
  s.run (flattenWithin s.limit id)

def lastTemplate (s : Session) (id : NodeId) : Except Fault NodeId × Session :=
  s.run (TemplateCheck.lastTemplate id)

def cardinality (s : Session) (id : NodeId) : Except Fault Cardinality := s.store.cardinality id

def subtree (s : Session) (id : NodeId) : Except Fault (List NodeId) := s.store.subtree id

def addTemplate (s : Session) (t : Template) : NodeId × Session :=
  (s.store.nextId, { s with store := s.store.push t })

def copy (s : Session) (id : NodeId) : Except Fault NodeId × Session :=
  s.run (onStore (Store.deepCopy id))

def replaceForm (s : Session) (id : NodeId) (form : Form) : Except Fault Form × Session :=
  s.run (onStore (Store.replace id form))

def markErroneous (s : Session) (id : NodeId) : Except Fault Unit × Session :=
  s.run (TemplateCheck.markErroneous id)

def fold (s : Session) (value : Value) : Folding := s.definitions.fold value

def register (s : Session) (decl : TypeDecl) : Session :=
  { s with types := s.types.register decl }

def addDefinition (s : Session) (d : Definition) : DefId × Session :=
  (s.definitions.nextId, { s with definitions := s.definitions.add d })

def tell (s : Session) (span : Span) (finding : Finding) : Session :=
  { s with report := s.report.add span finding }

def enter (s : Session) (c : Context) : Session := { s with report := s.report.enter c }

def leave (s : Session) : Session := { s with report := s.report.leave }

def leaveAll (s : Session) : Session := { s with report := s.report.leaveAll }

end Session

end TemplateCheck
