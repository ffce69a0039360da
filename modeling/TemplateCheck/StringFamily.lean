/-!
# String families

TTCN-3 has three binary and two character string types. A charstring may stand wherever a universal
charstring is expected; no other family accepts strings of another.
-/

namespace TemplateCheck

inductive BinaryFamily where
  | bit
  | hex
  | octet
deriving DecidableEq, Repr, Inhabited

inductive CharFamily where
  | basic
  | universal
deriving DecidableEq, Repr, Inhabited

inductive StringFamily where
  | binary (family : BinaryFamily)
  | character (family : CharFamily)
deriving DecidableEq, Repr, Inhabited

def BinaryFamily.typeName : BinaryFamily → String
  | .bit => "bitstring"
  | .hex => "hexstring"
  | .octet => "octetstring"

def CharFamily.typeName : CharFamily → String
  | .basic => "charstring"
  | .universal => "universal charstring"

namespace StringFamily

def all : List StringFamily :=
  [.binary .bit, .binary .hex, .binary .octet, .character .basic, .character .universal]

def typeName : StringFamily → String
  | .binary family => family.typeName
  | .character family => family.typeName

def isCharacter : StringFamily → Bool
  | .binary _ => false
  | .character _ => true

/-- Whether a string of family `actual` may stand where `expected` is required. -/
def accepts (expected actual : StringFamily) : Bool :=
  expected = actual || (expected = .character .universal && actual = .character .basic)

theorem accepts_refl (family : StringFamily) : family.accepts family = true := by
  simp [accepts]

theorem accepts_trans {a b c : StringFamily} (hab : a.accepts b) (hbc : b.accepts c) : a.accepts c := by
  simp only [accepts, Bool.or_eq_true, Bool.and_eq_true, decide_eq_true_eq] at hab hbc ⊢
  rcases hab with rfl | ⟨rfl, rfl⟩
  · exact hbc
  · rcases hbc with rfl | ⟨h, _⟩
    · exact .inr ⟨rfl, rfl⟩
    · cases h

end StringFamily

end TemplateCheck
