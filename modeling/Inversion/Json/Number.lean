import Inversion.Json.Basic
import Inversion.Single.Decimal

/-!
The value of a JSON number. A number without point and exponent is an integer, except for minus zero.
Any other is taken through double precision: as many leading digits as fit a 64-bit word are kept,
scaled by one rounded power of ten, and only then rounded to single precision. A double that would
overflow is refused; a single that overflows is infinite.
-/

namespace Inversion.Numeral

/-- The integer written by a numeral, if it is written as one. -/
def toInt? (n : Numeral) : Option Int :=
  if n.fraction = [] ∧ n.exponent = none ∧ ¬(n.negative ∧ n.whole = 0) then
    some (if n.negative then -(n.whole : Int) else n.whole)
  else none

/-- The natural number written by a numeral, if it is written as one and lies below `bound`. -/
def toNat? (bound : Nat) (n : Numeral) : Option Nat :=
  match n.toInt? with
  | some (.ofNat value) => if value < bound then some value else none
  | _ => none

/-- Appends leading digits to a significand for as long as it stays below `2 ^ 64`: the significand
    and the number of digits taken. -/
def takeDigits (significand : Nat) : List Char → Nat × Nat
  | [] => (significand, 0)
  | c :: rest =>
    let next := significand * 10 + digitValue c
    if next < UInt64.size then
      let (s, taken) := takeDigits next rest
      (s, taken + 1)
    else (significand, 0)

/-- The digits of a numeral that are kept, as a decimal. Digits dropped from the whole part count in
    the exponent. -/
def kept (n : Numeral) : Decimal :=
  let whole := digitsOf n.whole
  let (significand, taken) := takeDigits 0 whole
  let (significand, behind) := takeDigits significand n.fraction
  ⟨significand, (whole.length - taken : Nat) - (behind : Int) + n.exponent.getD 0⟩

/-- The double nearest to `10 ^ k`, in units. -/
def powerUnits (k : Nat) : Nat :=
  Format.double.units (Format.double.nearest (Nat.pow 10 k * Format.double.unitsPerOne) 1)

/-- A double scaled by a power of ten, all in units; `none` when it overflows. Exponents beyond the
    table of powers are reduced in steps of 308. -/
def scale? (value : Nat) (exponent : Int) : Option Nat :=
  if exponent.natAbs ≤ 308 then
    let code :=
      if 0 ≤ exponent then
        Format.double.nearest (value * powerUnits exponent.natAbs) Format.double.unitsPerOne
      else Format.double.nearest (value * Format.double.unitsPerOne) (powerUnits exponent.natAbs)
    if code < Format.double.limit then some (Format.double.units code) else none
  else if value = 0 then some 0
  else if 0 ≤ exponent then none
  else
    scale? (Format.double.units
      (Format.double.nearest (value * Format.double.unitsPerOne) (powerUnits 308))) (exponent + 308)
termination_by exponent.natAbs

/-- The number in single precision; `none` when it is too large even for double precision. -/
def toSingle? (n : Numeral) : Option Single :=
  match n.toInt? with
  | some i =>
    if Int64.minValue.toInt ≤ i ∧ i < UInt64.size then some (.ofInt i) else throughDouble
  | none => throughDouble
where
  /-- The number by way of its double. -/
  throughDouble : Option Single :=
    let d := n.kept
    let start := Format.double.units
      (Format.double.nearest (d.digits * Format.double.unitsPerOne) 1)
    (scale? start d.exponent).map fun value =>
      Single.ofUnits n.negative (value * Format.single.unitsPerOne) Format.double.unitsPerOne

end Inversion.Numeral
