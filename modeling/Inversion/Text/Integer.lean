import Inversion.Numeral

/-!
Integers in text. An integer is a run of ASCII digits, leading zeros allowed, behind an optional plus
sign, or behind a minus sign where the type has negative values; it must fit the type.
-/

namespace Inversion.Text

/-- The number written by a non-empty run of digits. -/
def digits? (cs : List Char) : Option Nat :=
  if cs ≠ [] ∧ cs.all Char.isDigit then some (valueOf cs) else none

/-- Reads a natural number below `bound`. -/
def natural? (bound : Nat) (cs : List Char) : Option Nat :=
  let body := match cs with
    | '+' :: rest => rest
    | _ => cs
  (digits? body).filter (· < bound)

/-- Reads an integer of 64 bits. -/
def integer? (cs : List Char) : Option Int64 :=
  let value : Option Int := match cs with
    | '-' :: rest => (digits? rest).map fun n => -(n : Int)
    | '+' :: rest => (digits? rest).map Int.ofNat
    | _ => (digits? cs).map Int.ofNat
  (value.filter fun i => Int64.minValue.toInt ≤ i ∧ i ≤ Int64.maxValue.toInt).map Int64.ofInt

/-- The digits of a number behind zeros, at least `width` characters in all. -/
def zeroPadded (width n : Nat) : List Char :=
  List.replicate (width - (digitsOf n).length) '0' ++ digitsOf n

/-- The text with blanks behind it, at least `width` characters in all. -/
def padRight (width : Nat) (s : String) : String :=
  s ++ String.ofList (List.replicate (width - s.length) ' ')

/-- The text with blanks in front of it, at least `width` characters in all. -/
def padLeft (width : Nat) (s : String) : String :=
  String.ofList (List.replicate (width - s.length) ' ') ++ s

end Inversion.Text
