import Inversion.Single

/-!
The values that a method body computes with: integers of 64 bits, single precision numbers, vectors
of two of them, and truth values.
-/

namespace Inversion

/-- A vector; `y` points up or down, as gravity has it. -/
structure Vec2 where
  x : Single
  y : Single
  deriving DecidableEq

namespace Vec2

/-- The sum, taken part by part. -/
def add (a b : Vec2) : Vec2 := ⟨a.x.add b.x, a.y.add b.y⟩

/-- The difference, taken part by part. -/
def sub (a b : Vec2) : Vec2 := ⟨a.x.sub b.x, a.y.sub b.y⟩

/-- The opposite vector. -/
def negate (v : Vec2) : Vec2 := ⟨v.x.negate, v.y.negate⟩

/-- The vector with up and down exchanged. -/
def flipped (v : Vec2) : Vec2 := ⟨v.x, v.y.negate⟩

/-- Whether this is the unit vector straight up or straight down. -/
def isUnitY (v : Vec2) : Bool := v.x.same (.zero false) && v.y.abs.same (.one false)

/-- Equality of both parts as numbers. -/
def same (a b : Vec2) : Bool := a.x.same b.x && a.y.same b.y

end Vec2

/-- The type of a value. -/
inductive Kind where
  | int
  | float
  | vector
  | bool
  deriving DecidableEq

/-- The name of a type in messages. -/
def Kind.name : Kind → String
  | .int => "int"
  | .float => "float"
  | .vector => "vector"
  | .bool => "bool"

/-- A value. -/
inductive Value where
  | int (i : Int64)
  | float (x : Single)
  | vector (v : Vec2)
  | bool (b : Bool)
  deriving DecidableEq

namespace Value

/-- The type of a value. -/
def kind : Value → Kind
  | int _ => .int
  | float _ => .float
  | vector _ => .vector
  | bool _ => .bool

/-- Equality of values of one type; numbers are compared as numbers, so that a value that holds a
    not-a-number is not the same as itself. -/
def same : Value → Value → Bool
  | int a, int b => a == b
  | float a, float b => a.same b
  | vector a, vector b => a.same b
  | bool a, bool b => a == b
  | _, _ => false

end Value

end Inversion
