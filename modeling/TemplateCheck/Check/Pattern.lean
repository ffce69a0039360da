import TemplateCheck.Check.Range

/-!
# String patterns

References inside a character pattern are replaced by the constant strings they stand for. Once no
reference is left the text is checked as a whole. Under a universal charstring every character
pattern is a universal one.
-/

namespace TemplateCheck

def checkBinaryPattern (id : NodeId) (family : BinaryFamily) (text : String) : CheckM Unit :=
  (family.patternFault? text).forM fun fault => problemAt id (.pattern fault)

def expandSegment (family : CharFamily) (done : CharPattern) : PatternSegment → CheckM CharPattern
  | .literal text => return done.appendText text
  | .ref r => do
    let text? ←
      expectConstant (problem r.span) family.typeName (Value.textAs? (.character family)) (.ref r)
    match text? with
    | some text => return done.appendText text
    | none => return done.appendRef r

def expandPattern (family : CharFamily) (p : CharPattern) : CheckM CharPattern :=
  p.segments.foldlM (expandSegment family) {}

def checkCharPattern (id : NodeId) (family : CharFamily) (p : CharPattern) : CheckM Unit := do
  let resolved ← expandPattern family p
  (resolved.text?.bind CharPattern.textFault?).forM fun fault => problemAt id (.pattern fault)
  replaceForm id (.charPattern family resolved)

end TemplateCheck
