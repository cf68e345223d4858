import Inversion.Single
import Inversion.Numeral

/-!
Single precision numbers and decimals: the number nearest to a decimal, and the shortest decimal from
which a number is read back. The shortest one is searched for directly, with one digit, two digits and
so on, in exact arithmetic; what is found has been read back before it is returned.
-/

namespace Inversion

namespace Single

/-- The number nearest to a decimal. The place of the leading digit settles the huge and the tiny
    ones, so that the power of ten that is left is small. -/
def ofDecimal (negative : Bool) (d : Decimal) : Single :=
  if d.digits = 0 ∨ d.place < -45 then zero negative
  else if 39 < d.place then infinite negative
  else if 0 ≤ d.exponent then
    ofUnits negative (d.digits * Nat.pow 10 d.exponent.toNat * Format.single.unitsPerOne) 1
  else ofUnits negative (d.digits * Format.single.unitsPerOne) (Nat.pow 10 d.exponent.natAbs)

/-- Which of two equally near decimals is taken. -/
inductive Tie where
  | up
  | even

/-- Whether a decimal reads back as the number with this code. -/
def readsBack (code : Fin Format.single.limit) (d : Decimal) : Bool :=
  decide (ofDecimal false d = finite false code)

/-- The decimal with every digit of the number. -/
def exactDecimal (code : Fin Format.single.limit) : Decimal :=
  ⟨magnitude code * Nat.pow 5 149, -149⟩

/-- The place of the leading digit of a positive number. -/
def leadingPlace (code : Fin Format.single.limit) : Int :=
  (digitsOf (magnitude code * Nat.pow 10 60 / Format.single.unitsPerOne)).length - 60

/-- The decimal next to the number, among those that are whole multiples of `10 ^ exponent`: of the
    one below and the one above, that which reads back, and the nearer if both do. -/
def onGrid? (tie : Tie) (code : Fin Format.single.limit) (exponent : Int) : Option Decimal :=
  let num := if 0 ≤ exponent then magnitude code else magnitude code * Nat.pow 10 exponent.natAbs
  let den := if 0 ≤ exponent then Format.single.unitsPerOne * Nat.pow 10 exponent.toNat
    else Format.single.unitsPerOne
  let lower : Decimal := ⟨num / den, exponent⟩
  let upper : Decimal := ⟨num / den + 1, exponent⟩
  let remainder := num % den
  match readsBack code lower, readsBack code upper with
  | false, false => none
  | true, false => some lower
  | false, true => some upper
  | true, true =>
    if 2 * remainder < den then some lower
    else if den < 2 * remainder then some upper
    else match tie with
      | .up => some upper
      | .even => if lower.digits % 2 = 0 then some lower else some upper

/-- The shortest decimal that reads back as the number with this code. Nine digits always suffice;
    the full expansion stands behind them. -/
def shortest (tie : Tie) (code : Fin Format.single.limit) : Decimal :=
  if code.val = 0 then ⟨0, 0⟩
  else
    let found := (List.range 9).findSome? fun n => onGrid? tie code (leadingPlace code - (n + 1 : Nat))
    (found.getD (exactDecimal code)).trimmed 160

/-- The layout of floating values as they are displayed: an exponent from `1e16` on and below
    `1e-4`, and a digit behind the point otherwise. -/
def displayLayout : Layout := ⟨-3, 16, true⟩

/-- The layout of floating numbers in JSON: an exponent from `1e13` on and below `1e-6`. -/
def jsonLayout : Layout := ⟨-5, 13, true⟩

/-- A layout that never uses an exponent; whole numbers have no point. -/
def plainLayout : Layout := ⟨-100, 100, false⟩

/-- The text of a number in a layout. -/
def textIn (l : Layout) : Single → List Char
  | finite s c => (l.write s (shortest .up c)).text false
  | infinite s => if s then ['-', 'i', 'n', 'f'] else ['i', 'n', 'f']
  | nan => ['N', 'a', 'N']

/-- The text of a number as part of a displayed value. -/
def display (x : Single) : List Char := x.textIn displayLayout

/-- The text of a number without an exponent. -/
def plain (x : Single) : List Char := x.textIn plainLayout

/-- The numeral of a number in JSON, which has none for infinities and what is not a number. -/
def jsonNumeral? : Single → Option Numeral
  | finite s c => some (jsonLayout.write s (shortest .even c))
  | infinite _ => none
  | nan => none

/-! ### Literals -/

/-- The optional sign in front of a literal: whether it is a minus, and what follows. -/
def splitSign : List Char → Bool × List Char
  | '-' :: rest => (true, rest)
  | '+' :: rest => (false, rest)
  | rest => (false, rest)

/-- An exponent with its optional sign; at least one digit. -/
def exponent? (cs : List Char) : Option Int :=
  let (negative, digits) := splitSign cs
  if digits ≠ [] ∧ digits.all Char.isDigit then
    some (if negative then -(valueOf digits : Int) else valueOf digits)
  else none

/-- An unsigned decimal literal: digits with at most one point, at least one digit, and an optional
    exponent. -/
def decimal? (cs : List Char) : Option Decimal :=
  let whole := cs.takeWhile Char.isDigit
  let rest := cs.dropWhile Char.isDigit
  let (fraction, rest) := match rest with
    | '.' :: r => (r.takeWhile Char.isDigit, r.dropWhile Char.isDigit)
    | r => ([], r)
  if whole = [] ∧ fraction = [] then none
  else
    let mantissa (e : Int) : Decimal := ⟨valueOf (whole ++ fraction), e - fraction.length⟩
    match rest with
    | [] => some (mantissa 0)
    | c :: r => if c = 'e' ∨ c = 'E' then (exponent? r).map mantissa else none

/-- Reads a floating literal: an optional sign, then a decimal literal or, in any case, `inf`,
    `infinity` or `nan`. -/
def ofLiteral? (cs : List Char) : Option Single :=
  let (negative, body) := splitSign cs
  let word := body.map Char.toLower
  if word = ['i', 'n', 'f'] ∨ word = ['i', 'n', 'f', 'i', 'n', 'i', 't', 'y'] then
    some (infinite negative)
  else if word = ['n', 'a', 'n'] then some nan
  else (decimal? body).map (ofDecimal negative)

end Single

end Inversion
