import TemplateCheck.TypeDecl

/-!
# Type registry

Declarations by key. Registering a name again replaces the earlier declaration. Synonyms are
followed to the type they finally stand for; a chain of 64 or more synonyms, and hence every cycle,
stands for nothing. Two types are compatible when they are finally the same, when they are lists of
one kind with compatible elements, when a charstring stands for a universal charstring, or when
either of them is erroneous.
-/

namespace TemplateCheck

structure Registry where
  entries : List (TypeKey × TypeDecl) := []
deriving Repr, Inhabited

namespace Registry

def size (types : Registry) : Nat := types.entries.length

def get? (types : Registry) (key : TypeKey) : Option TypeDecl :=
  (types.entries.find? (·.1 = key)).map (·.2)

def register (types : Registry) (decl : TypeDecl) : Registry :=
  ⟨types.entries.filter (·.1 ≠ decl.key) ++ [(decl.key, decl)]⟩

def predefined : Registry :=
  let scalars : List TypeDecl :=
    [⟨"boolean", .boolean⟩, ⟨"integer", .integer⟩, ⟨"float", .float⟩, ⟨"verdicttype", .verdict⟩,
      ⟨"objid", .objectIdentifier⟩, ⟨"default", .defaultReference⟩]
  let strings := StringFamily.all.map fun family => TypeDecl.mk family.typeName (.string family)
  (scalars ++ strings).foldl register {}

def typeName (types : Registry) (key : TypeKey) : String :=
  ((types.get? key).map (·.name)).getD "<unknown>"

/-- Synonyms followed before a type counts as unresolvable. -/
def synonymLimit : Nat := 64

/-- Follow at most `steps` declarations. -/
def follow (types : Registry) : Nat → TypeKey → Option (TypeKey × TypeDecl)
  | 0, _ => none
  | steps + 1, key =>
    match types.get? key with
    | none => none
    | some decl =>
      match decl.category with
      | .synonym target => types.follow steps target
      | _ => some (key, decl)

def resolve? (types : Registry) (key : TypeKey) : Option (TypeKey × TypeDecl) :=
  types.follow synonymLimit key

def decl? (types : Registry) (key : TypeKey) : Option TypeDecl :=
  (types.resolve? key).map (·.2)

/-- Compatibility of two types whose elements nest at most `depth` lists deep. -/
def compatibleWithin (types : Registry) : Nat → TypeKey → TypeKey → Bool
  | 0, _, _ => false
  | depth + 1, expected, actual =>
    match types.resolve? expected, types.resolve? actual with
    | some (expectedKey, expectedDecl), some (actualKey, actualDecl) =>
      expectedKey = actualKey ||
        match expectedDecl.category, actualDecl.category with
        | .erroneous, _ => true
        | _, .erroneous => true
        | .string e, .string a => e.accepts a
        | .recordOf e, .recordOf a => types.compatibleWithin depth e a
        | .setOf e, .setOf a => types.compatibleWithin depth e a
        | .array e m _, .array a n _ => m = n && types.compatibleWithin depth e a
        | _, _ => false
    | _, _ => false

/-- Whether a template of type `actual` may stand where `expected` is required. Lists that do not
contain themselves nest at most as deep as there are types. -/
def compatible (types : Registry) (expected actual : TypeKey) : Bool :=
  types.compatibleWithin (types.size + 1) expected actual

end Registry

end TemplateCheck
