/-!
Written numbers. A `Decimal` is a whole number of powers of ten; a `Numeral` is one way of writing
it, with or without a point and an exponent. A `Layout` says which of the ways is used.
-/

namespace Inversion

/-- The number `digits * 10 ^ exponent`. -/
structure Decimal where
  digits : Nat
  exponent : Int
  deriving DecidableEq

/-- A signed number in writing: whole part, the digits behind the point (none: no point), and the
    exponent if one is written. -/
structure Numeral where
  negative : Bool
  whole : Nat
  fraction : List Char
  exponent : Option Int
  deriving DecidableEq

/-- The digits of a number, most significant first. -/
def digitsOf (n : Nat) : List Char := Nat.toDigits 10 n

/-- The value of a digit. -/
def digitValue (c : Char) : Nat := c.toNat - '0'.toNat

/-- The number written by a list of digits. -/
def valueOf (digits : List Char) : Nat := digits.foldl (fun n c => 10 * n + digitValue c) 0

namespace Decimal

/-- The place of the leading digit: a positive decimal lies from `10 ^ (place - 1)` up to, and not
    including, `10 ^ place`. -/
def place (d : Decimal) : Int := (digitsOf d.digits).length + d.exponent

/-- The same number with no zero at the end of its digits; at most `bound` are dropped. -/
def trimmed (d : Decimal) : Nat → Decimal
  | 0 => d
  | bound + 1 =>
    if d.digits ≠ 0 ∧ d.digits % 10 = 0 then trimmed ⟨d.digits / 10, d.exponent + 1⟩ bound else d

end Decimal

namespace Numeral

/-- A natural number in writing. -/
def ofNat (n : Nat) : Numeral := ⟨false, n, [], none⟩

/-- An integer in writing. -/
def ofInt (i : Int) : Numeral := ⟨decide (i < 0), i.natAbs, [], none⟩

/-- The number written, its sign aside. -/
def decimal (n : Numeral) : Decimal :=
  ⟨valueOf (digitsOf n.whole ++ n.fraction), n.exponent.getD 0 - n.fraction.length⟩

/-- The text of an exponent; `plus` asks for a sign also where it is not negative. -/
def exponentText (plus : Bool) (e : Int) : List Char :=
  'e' :: ((if e < 0 then ['-'] else if plus then ['+'] else []) ++ digitsOf e.natAbs)

/-- The text of a numeral. -/
def text (plus : Bool) (n : Numeral) : List Char :=
  (if n.negative then ['-'] else []) ++ digitsOf n.whole
    ++ (if n.fraction = [] then [] else '.' :: n.fraction)
    ++ (n.exponent.map (exponentText plus)).getD []

end Numeral

/-- How a decimal is written. It gets no exponent when the place of its leading digit lies from
    `least` to `most`; `point` asks for a digit behind the point even of a whole number. -/
structure Layout where
  least : Int
  most : Int
  point : Bool

namespace Layout

/-- A decimal written without exponent. -/
def plain (l : Layout) (negative : Bool) (d : Decimal) : Numeral :=
  let digits := digitsOf d.digits
  let bare : List Char := if l.point then ['0'] else []
  if 0 ≤ d.exponent then ⟨negative, d.digits * Nat.pow 10 d.exponent.toNat, bare, none⟩
  else
    let behind := d.exponent.natAbs
    ⟨negative, valueOf (digits.take (digits.length - behind)),
      List.replicate (behind - digits.length) '0' ++ digits.drop (digits.length - behind), none⟩

/-- A decimal written with one digit in front of the point and an exponent. -/
def scientific (negative : Bool) (d : Decimal) : Numeral :=
  let digits := digitsOf d.digits
  ⟨negative, valueOf (digits.take 1), digits.drop 1, some (d.place - 1)⟩

/-- A decimal in writing. -/
def write (l : Layout) (negative : Bool) (d : Decimal) : Numeral :=
  if d.digits = 0 ∨ (l.least ≤ d.place ∧ d.place ≤ l.most) then l.plain negative d
  else scientific negative d

end Layout

end Inversion
