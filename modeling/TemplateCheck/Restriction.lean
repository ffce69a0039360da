/-!
# Template restrictions

`template(omit)` admits a value or omit, `template(value)` a value only, `template(present)` anything
but omit. Strength is a lattice with `value` strongest and no restriction weakest; the other two are
incomparable.
-/

namespace TemplateCheck

inductive Restriction where
  | unrestricted
  | valueOrOmit
  | value
  | present
deriving DecidableEq, Repr, Inhabited

namespace Restriction

def keyword : Restriction → String
  | .unrestricted => ""
  | .valueOrOmit => "omit"
  | .value => "value"
  | .present => "present"

def text : Restriction → String
  | .unrestricted => "template"
  | r => "template(" ++ r.keyword ++ ")"

/-- Whether something declared `actual` may break the requirement `required`. -/
def weakerThan (actual required : Restriction) : Bool :=
  match required with
  | .unrestricted => false
  | .value => actual != .value
  | .valueOrOmit => actual != .value && actual != .valueOrOmit
  | .present => actual != .value && actual != .present

/-- What is known of a part reached from something declared `r`: an optional field on the way may
be omitted. -/
def ofPart (r : Restriction) (throughOptional : Bool) : Restriction :=
  if throughOptional then
    match r with
    | .value => .valueOrOmit
    | .present => .unrestricted
    | r => r
  else r

theorem weakerThan_eq_false_iff {actual required : Restriction} : actual.weakerThan required = false ↔
      required = actual ∨ required = .unrestricted ∨ actual = .value := by
  cases required <;> cases actual <;> decide

end Restriction

end TemplateCheck
