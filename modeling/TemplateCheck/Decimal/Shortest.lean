/-!
# Shortest decimal of a binary fraction

A positive number `mantissa * 2 ^ exponent` stands for every real that rounds to it: the interval
between the midpoints to its two neighbours. `shortest` finds the decimal `digits * 10 ^ power` in
that interval with the fewest digits, and among those the one nearest to the number itself. All
comparisons are between natural numbers.
-/

namespace TemplateCheck.Decimal

/-- The number `digits * 10 ^ power`. -/
structure Scaled where
  digits : Nat
  power : Int
deriving DecidableEq, Repr

/-- A positive binary fraction `mantissa * 2 ^ exponent`. When `lowerGapHalved` holds, the next
smaller number is only half as far away as the next larger one. -/
structure Binary where
  mantissa : Nat
  exponent : Int
  lowerGapHalved : Bool
deriving DecidableEq, Repr

/-- Common scale on which the grid of multiples of `10 ^ power` and quarter units of the binary
number are both whole: one grid step is `grid`, one quarter unit is `quarter`. -/
structure Scale where
  grid : Nat
  quarter : Nat
deriving DecidableEq, Repr

def Binary.scale (x : Binary) (power : Int) : Scale where
  grid := Nat.pow 10 power.toNat * Nat.pow 2 (2 - x.exponent).toNat
  quarter := Nat.pow 10 (-power).toNat * Nat.pow 2 (x.exponent - 2).toNat

/-- The decimal power of the leading digit of `x`. -/
def Binary.leadingPower (x : Binary) : Int :=
  let guess := (x.exponent + Nat.log2 x.mantissa) * 30103 / 100000
  let reaches (power : Int) : Bool :=
    let s := x.scale power
    s.grid ≤ 4 * x.mantissa * s.quarter
  if reaches (guess + 1) then guess + 1 else if reaches guess then guess else guess - 1

/-- Whether `digits` grid steps lie in the interval of reals that round to `x`. An interval end
belongs to the even one of the two numbers that share it. -/
def Binary.rounds (x : Binary) (s : Scale) (digits : Nat) : Bool :=
  let low := (4 * x.mantissa - if x.lowerGapHalved then 1 else 2) * s.quarter
  let high := (4 * x.mantissa + 2) * s.quarter
  let point := digits * s.grid
  if x.mantissa % 2 = 0 then low ≤ point && point ≤ high else low < point && point < high

/-- The nearest decimal on the grid of `10 ^ power` that rounds to `x`, if there is one. -/
def Binary.onGrid? (x : Binary) (power : Int) : Option Scaled :=
  let s := x.scale power
  let exact := 4 * x.mantissa * s.quarter
  let below := exact / s.grid
  let above := below + 1
  match x.rounds s below, x.rounds s above with
  | true, true =>
    some ⟨if exact - below * s.grid < above * s.grid - exact then below else above, power⟩
  | true, false => some ⟨below, power⟩
  | false, true => some ⟨above, power⟩
  | false, false => none

/-- Search grids from coarse to fine, `fuel` of them. -/
def Binary.search (x : Binary) (power : Int) : Nat → Option Scaled
  | 0 => none
  | fuel + 1 => (x.onGrid? power).or (x.search (power - 1) fuel)

/-- Seventeen digits always suffice for a double; a number for which they do not is written
exactly as its mantissa. -/
def Binary.shortest (x : Binary) : Scaled :=
  (x.search x.leadingPower 17).getD ⟨x.mantissa, 0⟩

/-- Digits without trailing zeros, the power raised to match. -/
def Scaled.normalize (d : Scaled) : Scaled :=
  let written := (Nat.toDigits 10 d.digits).reverse
  let zeros := (written.takeWhile (· = '0')).length
  ⟨d.digits / Nat.pow 10 zeros, d.power + zeros⟩

/-- Positional notation without an exponent: zeros pad whole numbers, and a fraction has at least
one digit before the point. -/
def Scaled.positional (d : Scaled) : String :=
  let n := d.normalize
  let written := Nat.toDigits 10 n.digits
  if 0 ≤ n.power then
    String.ofList (written ++ List.replicate n.power.toNat '0')
  else
    let places := (-n.power).toNat
    let padded := List.replicate (places + 1 - written.length) '0' ++ written
    let whole := padded.length - places
    String.ofList (padded.take whole ++ '.' :: padded.drop whole)

end TemplateCheck.Decimal
