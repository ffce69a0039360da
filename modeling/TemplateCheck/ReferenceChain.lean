import TemplateCheck.Span

/-!
# Reference chains

The references followed so far, each with the text it is shown as. A node is refused when it is
already on the chain, which is how circular references are found. Marks restore an earlier length,
so that one branch does not see the references of another.
-/

namespace TemplateCheck

def joinCycle (names : List String) : String :=
  " -> ".intercalate (names.map fun name => "`" ++ name ++ "'")

structure ReferenceChain where
  /-- What the chain is followed for. -/
  purpose : String
  entries : List (NodeId × String) := []
  marks : List Nat := []
deriving DecidableEq, Repr, Inhabited

namespace ReferenceChain

def size (chain : ReferenceChain) : Nat := chain.entries.length

def contains (chain : ReferenceChain) (node : NodeId) : Bool :=
  chain.entries.any (·.1 = node)

/-- Add a node that is not on the chain yet. -/
def add? (chain : ReferenceChain) (node : NodeId) (name : String) : Option ReferenceChain :=
  if chain.contains node then none
  else some { chain with entries := chain.entries ++ [(node, name)] }

def mark (chain : ReferenceChain) : ReferenceChain :=
  { chain with marks := chain.size :: chain.marks }

/-- Drop what was added since the latest mark, if there is one. -/
def restore (chain : ReferenceChain) : ReferenceChain :=
  match chain.marks with
  | [] => chain
  | length :: marks => { chain with entries := chain.entries.take length, marks }

/-- The names from `node` to the end and back to `node`; from the start of the chain when it does
not hold `node`. -/
def cycleNames (chain : ReferenceChain) (node : NodeId) : List String :=
  let start := (chain.entries.findIdx? (·.1 = node)).getD 0
  let names := (chain.entries.drop start).map (·.2)
  names ++ [names.head?.getD "?"]

end ReferenceChain

end TemplateCheck
