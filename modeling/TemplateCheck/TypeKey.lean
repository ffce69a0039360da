import TemplateCheck.Hash.Xxh64

/-!
# Type keys

A type is registered under a 64-bit key computed from its name. Component names extend a key, so
that anonymous inner types have keys of their own.
-/

namespace TemplateCheck

structure TypeKey where
  bits : UInt64
deriving DecidableEq, Repr, Inhabited

instance (n : Nat) : OfNat TypeKey n := ⟨⟨.ofNat n⟩⟩

namespace TypeKey

/-- Keeps the keys of types apart from other uses of the hash. -/
def typeSalt : UInt64 := 0x2fac10b63a6cc57c

/-- Separates a key from the component that extends it. -/
def separator : UInt64 := 0x4bc94d6bd06053ad

def ofName (name : String) : TypeKey :=
  ⟨typeSalt ^^^ Xxh64.hash 0 name.toUTF8.toList⟩

def nested (key : TypeKey) (component : String) : TypeKey :=
  ⟨Xxh64.rotate key.bits 5 ^^^ Xxh64.hash separator component.toUTF8.toList ^^^ separator⟩

def isEmpty (key : TypeKey) : Bool := key.bits = 0

def text (key : TypeKey) : String :=
  let digits := Nat.toDigits 16 key.bits.toNat
  "0x" ++ String.ofList (List.replicate (16 - digits.length) '0' ++ digits)

end TypeKey

end TemplateCheck
