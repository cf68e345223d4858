import Inversion.Value
import Inversion.Single.Decimal
import Inversion.Text.Blank
import Inversion.Text.Integer

/-!
The text of values. A float always shows a point, an exponent or a word, so that its text reads back
as a float; a vector is two floats in parentheses.
-/

namespace Inversion

/-- The text of a vector. -/
def Vec2.text (v : Vec2) : List Char := '(' :: (v.x.display ++ ',' :: ' ' :: (v.y.display ++ [')']))

namespace Value

/-- The text of an integer. -/
def intText (i : Int64) : List Char :=
  (if i.toInt < 0 then ['-'] else []) ++ digitsOf i.toInt.natAbs

/-- The text of a value. -/
def text : Value → List Char
  | int i => intText i
  | float x => x.display
  | vector v => v.text
  | bool true => ['t', 'r', 'u', 'e']
  | bool false => ['f', 'a', 'l', 's', 'e']

/-- What stands between an opening parenthesis in front and a closing one behind. -/
def parenthesized? : List Char → Option (List Char)
  | '(' :: rest => if rest.getLast? = some ')' then some rest.dropLast else none
  | _ => none

/-- The two parts of a vector, cut at the first comma. -/
def vector? (inner : List Char) : Option Value := do
  let (x, y) ← Text.cutAt? (· == ',') inner
  return vector ⟨← Single.ofLiteral? (Text.trim x), ← Single.ofLiteral? (Text.trim y)⟩

/-- Whether a literal is meant as a float: it has a point or an exponent, or ends in `inf`, or is
    `NaN`. -/
def meansFloat (cs : List Char) : Bool :=
  cs.any (fun c => c == '.' || c == 'e' || c == 'E')
    || ['i', 'n', 'f'].isSuffixOf cs || cs == ['N', 'a', 'N']

/-- Reads a value; white space around it does not count. -/
def ofText? (cs : List Char) : Option Value :=
  let literal := Text.trim cs
  match parenthesized? literal with
  | some inner => vector? inner
  | none =>
    if literal = ['t', 'r', 'u', 'e'] then some (bool true)
    else if literal = ['f', 'a', 'l', 's', 'e'] then some (bool false)
    else if meansFloat literal then (Single.ofLiteral? literal).map float
    else (Text.integer? literal).map int

/-- The text of a value as a string. -/
def display (v : Value) : String := String.ofList v.text

/-- The text of a value with its type, as it is shown in traces. -/
def trace : Value → String
  | int i => s!"Int({i})"
  | float x => s!"Float({String.ofList x.display})"
  | vector v =>
    s!"Vector(Vec2 \x7b x: {String.ofList v.x.display}, y: {String.ofList v.y.display} \x7d)"
  | bool b => s!"Bool({b})"

end Value

end Inversion
