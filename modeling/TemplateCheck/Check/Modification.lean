import TemplateCheck.Check.Resolution

/-!
# What a modified template may leave out

A complete template gives everything. An incomplete one may leave out whatever its base supplies: if
the base is a list of known elements, only positions that exist there; if its content is unknown,
anything.
-/

namespace TemplateCheck

inductive Completeness where
  | complete
  | incomplete
  /-- Only these elements of the base may be left out. -/
  | asBase (items : List NodeId)
deriving DecidableEq, Repr, Inhabited

def baseForm? (id : NodeId) : CheckM (Option Form) := do
  match (← node id).base with
  | some base => return some (← formOf (← lastTemplate base))
  | none => return none

def Form.isOpen : Form → Bool
  | .erroneous | .notUsed | .anyValue | .anyOrOmit | .referenced .. | .invoke .. => true
  | _ => false

/-- What a list over the given base may leave out. An array has a fixed size, so its elements need no
counterpart. -/
def Form.completenessOfList (base : Form) (isArray : Bool) : Completeness :=
  match base with
  | .list .positional items => if isArray then .incomplete else .asBase items
  | .named _ | .indexed _ => .incomplete
  | form => if form.isOpen then .incomplete else .complete

/-- What an alternative of a union over the given base may leave out. -/
def Form.completenessOfAlternative (base : Form) (name : String) : Completeness :=
  match base with
  | .named entries => if entries.any (·.name = name) then .incomplete else .complete
  | form => if form.isOpen then .incomplete else .complete

/-- What a node may leave out, given what its base form says about it. -/
def completeness (id : NodeId) (incomplete : Bool) (given : Form → Completeness) : CheckM Completeness := do
  if !incomplete then return .complete
  match ← baseForm? id with
  | some form => return given form
  | none => return .incomplete

end TemplateCheck
