import TemplateCheck.Value

/-!
# Character patterns

A pattern is literal text interspersed with references whose string values are inserted. Appending
literal text to a pattern that ends in literal text extends that text, so that joining patterns
never leaves two literal segments side by side.
-/

namespace TemplateCheck

inductive PatternSegment where
  | literal (text : String)
  | ref (reference : Reference)
deriving Inhabited

structure CharPattern where
  segments : List PatternSegment := []
deriving Inhabited

namespace CharPattern

def appendText (p : CharPattern) (text : String) : CharPattern :=
  match p.segments.getLast? with
  | some (.literal last) => ⟨p.segments.dropLast ++ [.literal (last ++ text)]⟩
  | _ => ⟨p.segments ++ [.literal text]⟩

def appendRef (p : CharPattern) (reference : Reference) : CharPattern :=
  ⟨p.segments ++ [.ref reference]⟩

def push (p : CharPattern) : PatternSegment → CharPattern
  | .literal text => p.appendText text
  | .ref reference => p.appendRef reference

def append (p q : CharPattern) : CharPattern := q.segments.foldl push p

def literal? : PatternSegment → Option String
  | .literal text => some text
  | .ref _ => none

/-- The whole text of a pattern without references. -/
def text? (p : CharPattern) : Option String :=
  (p.segments.mapM literal?).map fun texts => texts.foldl (· ++ ·) ""

def hasReferences (p : CharPattern) : Bool := p.segments.any fun s => (literal? s).isNone

end CharPattern

end TemplateCheck
