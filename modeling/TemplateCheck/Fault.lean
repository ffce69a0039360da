import TemplateCheck.Template

/-!
# Faults

A fault is no statement about the template under check. It says that the check itself cannot go on:
an id leads nowhere, a node would change its form in an illegal way, a definition is missing where
one must exist, a walk does not end, or a check descends deeper than it may.
-/

namespace TemplateCheck

inductive Fault where
  | illegalTransition (source target : Variant)
  | danglingTemplate (id : NodeId)
  | noDefinition (id : DefId)
  /-- A referenced template whose definition does not exist. -/
  | undefinedReference (reference : String)
  /-- A walk over nodes went on longer than any walk that ends. -/
  | endlessWalk
  /-- A check descended deeper than it may. -/
  | tooDeep
deriving DecidableEq, Repr, Inhabited

def Fault.message : Fault → String
  | .illegalTransition source target =>
    "internal error: illegal template transition from " ++ source.describe ++ " to " ++
      target.describe
  | .danglingTemplate id => "internal error: no template node " ++ id.text
  | .noDefinition id => "internal error: no definition " ++ id.text
  | .undefinedReference reference =>
    "internal error: referenced template `" ++ reference ++ "' has no definition"
  | .endlessWalk => "internal error: the walk over the template does not end"
  | .tooDeep => "internal error: the check of the template descends too deep"

end TemplateCheck
