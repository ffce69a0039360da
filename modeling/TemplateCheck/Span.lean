/-!
# Source locations and identities

A span locates a piece of source text. Line zero marks a node that was generated. Templates and
definitions are identified by their position in the store and in the definition table.
-/

namespace TemplateCheck

structure Span where
  line : Nat := 0
  column : Nat := 0
  length : Nat := 0
deriving DecidableEq, Repr, Inhabited

namespace Span

def isSynthetic (s : Span) : Bool := s.line = 0

def text (s : Span) : String :=
  if s.isSynthetic then "<generated>" else toString s.line ++ ":" ++ toString s.column

end Span

/-- Position of a definition in the definition table. -/
structure DefId where
  index : Nat
deriving DecidableEq, Repr, Inhabited

instance (n : Nat) : OfNat DefId n := ⟨⟨n⟩⟩

def DefId.text (id : DefId) : String := "def_" ++ toString id.index

/-- Position of a template node in the store. -/
structure NodeId where
  index : Nat
deriving DecidableEq, Repr, Inhabited

instance (n : Nat) : OfNat NodeId n := ⟨⟨n⟩⟩

def NodeId.text (id : NodeId) : String := "tpl_" ++ toString id.index

end TemplateCheck
