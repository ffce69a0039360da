import TemplateCheck.Value

/-!
# Equality of values

Two values are the same when they are built alike from the same parts, where floats compare as
numbers: the zeros are the same and so are all NaNs. References compare with their location.
-/

namespace TemplateCheck

mutual

def Value.same : Value → Value → Bool
  | .erroneous, .erroneous => true
  | .omitted, .omitted => true
  | .notUsed, .notUsed => true
  | .null, .null => true
  | .boolean a, .boolean b => a = b
  | .integer a, .integer b => a = b
  | .real a, .real b => a.same b
  | .enumerated a, .enumerated b => a = b
  | .string f a, .string g b => f = g && a = b
  | .list a, .list b => Value.sameList a b
  | .fields a, .fields b => Value.sameEntries a b
  | .ref a, .ref b => a.same b
  | .expr a, .expr b => a = b
  | _, _ => false

def Value.sameList : List Value → List Value → Bool
  | [], [] => true
  | a :: as, b :: bs => a.same b && Value.sameList as bs
  | _, _ => false

def Value.sameEntries : List (String × Value) → List (String × Value) → Bool
  | [], [] => true
  | (m, a) :: as, (n, b) :: bs => m = n && a.same b && Value.sameEntries as bs
  | _, _ => false

def Reference.same : Reference → Reference → Bool
  | ⟨name, target, path, args, span⟩, other =>
    name = other.name && target = other.target && span = other.span &&
      Reference.samePath path other.path && Reference.sameArgs args other.args

def Reference.samePath : List PathStep → List PathStep → Bool
  | [], [] => true
  | .field m :: as, .field n :: bs => m = n && Reference.samePath as bs
  | .index a :: as, .index b :: bs => a.same b && Reference.samePath as bs
  | _, _ => false

def Reference.sameArgs : Option (List Value) → Option (List Value) → Bool
  | none, none => true
  | some a, some b => Value.sameList a b
  | _, _ => false

end

end TemplateCheck
