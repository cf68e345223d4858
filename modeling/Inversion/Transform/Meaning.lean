import Inversion.Orientation
import Inversion.Error

/-!
What the transforms compute. Each looks up the orientation when it is called, so a body that calls it
keeps following gravity. Under normal gravity every transform is the plain operation.
-/

namespace Inversion

namespace Integer

/-- The lesser of two integers. -/
def least (a b : Int64) : Int64 := if b < a then b else a

/-- The greater of two integers. -/
def greatest (a b : Int64) : Int64 := if a < b then b else a

/-- Minus one, zero or one, as the integer is negative, zero or positive. -/
def signum (a : Int64) : Int64 := if a < 0 then -1 else if a = 0 then 0 else 1

end Integer

namespace Orientation

/-- A vector, upside down when gravity is inverted. -/
def vector (g : Orientation) (v : Vec2) : Vec2 := if g.isInverted then v.flipped else v

/-- The sum of a vector and a displacement that follows gravity. -/
def vecAdd (g : Orientation) (a b : Vec2) : Vec2 := a.add (g.vector b)

/-- The difference of a vector and a displacement that follows gravity. -/
def vecSub (g : Orientation) (a b : Vec2) : Vec2 := a.sub (g.vector b)

/-- The lesser of two numbers, the greater when gravity is inverted. -/
def floatMin (g : Orientation) (a b : Single) : Single :=
  if g.isInverted then a.greatest b else a.least b

/-- The greater of two numbers, the lesser when gravity is inverted. -/
def floatMax (g : Orientation) (a b : Single) : Single :=
  if g.isInverted then a.least b else a.greatest b

/-- The lesser of two integers, the greater when gravity is inverted. -/
def intMin (g : Orientation) (a b : Int64) : Int64 :=
  if g.isInverted then Integer.greatest a b else Integer.least a b

/-- The greater of two integers, the lesser when gravity is inverted. -/
def intMax (g : Orientation) (a b : Int64) : Int64 :=
  if g.isInverted then Integer.least a b else Integer.greatest a b

/-- The sign of a number, the opposite when gravity is inverted. -/
def sign (g : Orientation) (a : Single) : Single :=
  if g.isInverted then a.signum.negate else a.signum

/-- The sign of an integer, the opposite when gravity is inverted. -/
def signInt (g : Orientation) (a : Int64) : Int64 :=
  if g.isInverted then -(Integer.signum a) else Integer.signum a

/-- A number, the opposite when gravity is inverted. -/
def float (g : Orientation) (a : Single) : Single := if g.isInverted then a.negate else a

/-- An integer, the opposite when gravity is inverted; the least integer is its own opposite. -/
def int (g : Orientation) (a : Int64) : Int64 := if g.isInverted then -a else a

end Orientation

namespace Transform

/-- Whether a value may be an operand of a transform of two operands. -/
def fits (t : Transform) : Value → Bool
  | .vector _ => t = vecAdd || t = vecSub
  | .int _ | .float _ => !(t = vecAdd || t = vecSub)
  | .bool _ => false

/-- The error for operands of the wrong type: it names the first that does not fit, or the second if
    each would fit by itself. -/
def operandError (t : Transform) : List Value → Error
  | [a] => .wrongOperand t a.kind
  | [a, b] => .wrongOperand t (if t.fits a then b.kind else a.kind)
  | args => .wrongArity t args.length

/-- Computes a transform on its operands, in the order in which they were pushed. -/
def compute (t : Transform) (g : Orientation) (args : List Value) : Except Error Value :=
  if args.length = t.arity then
    match t, args with
    | vecAdd, [.vector a, .vector b] => .ok (.vector (g.vecAdd a b))
    | vecSub, [.vector a, .vector b] => .ok (.vector (g.vecSub a b))
    | floatMin, [.float a, .float b] => .ok (.float (g.floatMin a b))
    | floatMax, [.float a, .float b] => .ok (.float (g.floatMax a b))
    | floatMin, [.int a, .int b] => .ok (.int (g.intMin a b))
    | floatMax, [.int a, .int b] => .ok (.int (g.intMax a b))
    | sign, [.float a] => .ok (.float (g.sign a))
    | sign, [.int a] => .ok (.int (g.signInt a))
    | negateY, [.vector v] => .ok (.vector (g.vector v))
    | negateFloat, [.float a] => .ok (.float (g.float a))
    | negateInt, [.int a] => .ok (.int (g.int a))
    | t, args => .error (t.operandError args)
  else .error (.wrongArity t args.length)

end Transform

end Inversion
