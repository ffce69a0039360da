import TemplateCheck.Decimal.Shortest

/-!
# Floating point numbers by their bits

A float is the 64-bit pattern of a double. Comparison is total: every NaN equals every other and is
greater than all numbers, and the two zeros are equal. The text of a number is its shortest decimal
in positional notation.
-/

namespace TemplateCheck

structure Binary64 where
  bits : UInt64
deriving DecidableEq, Repr, Inhabited

namespace Binary64

def signBit : Nat := 0x8000000000000000

def isNegative (x : Binary64) : Bool := signBit ≤ x.bits.toNat

def magnitude (x : Binary64) : Nat := x.bits.toNat % signBit

def infinityMagnitude : Nat := 0x7FF0000000000000

def isNaN (x : Binary64) : Bool := infinityMagnitude < x.magnitude

/-- Position in the total order. All NaNs share the greatest position. -/
def rank (x : Binary64) : Int :=
  if x.isNaN then signBit else if x.isNegative then -x.magnitude else x.magnitude

def same (x y : Binary64) : Bool := x.rank = y.rank

def less (x y : Binary64) : Bool := x.rank < y.rank

def hiddenBit : Nat := 0x10000000000000

/-- The binary fraction of a positive finite magnitude. -/
def fraction (magnitude : Nat) : Decimal.Binary :=
  let biased : Nat := magnitude / hiddenBit
  let stored : Nat := magnitude % hiddenBit
  if biased = 0 then ⟨stored, -1074, false⟩
  else ⟨hiddenBit + stored, (biased : Int) - 1075, stored = 0 && 1 < biased⟩

def magnitudeText (magnitude : Nat) : String :=
  if magnitude = infinityMagnitude then "inf"
  else if magnitude = 0 then "0"
  else (fraction magnitude).shortest.positional

def text (x : Binary64) : String :=
  if x.isNaN then "NaN"
  else if x.isNegative then "-" ++ magnitudeText x.magnitude
  else magnitudeText x.magnitude

end Binary64

end TemplateCheck
