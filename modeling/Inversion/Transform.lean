/-!
The transforms that a patched body calls in place of its arithmetic: their names and how many
operands they take. What they compute depends on gravity and stands with the gravity.
-/

namespace Inversion

/-- A transform that follows the orientation of gravity. -/
inductive Transform where
  | vecAdd
  | vecSub
  | floatMin
  | floatMax
  | sign
  | negateY
  | negateFloat
  | negateInt
  deriving DecidableEq

namespace Transform

/-- The transforms in their order. -/
def all : List Transform :=
  [vecAdd, vecSub, floatMin, floatMax, sign, negateY, negateFloat, negateInt]

/-- The name of a transform. -/
def name : Transform → String
  | vecAdd => "VecAdd"
  | vecSub => "VecSub"
  | floatMin => "FloatMin"
  | floatMax => "FloatMax"
  | sign => "Sign"
  | negateY => "NegateY"
  | negateFloat => "NegateFloat"
  | negateInt => "NegateInt"

/-- How many operands a transform takes from the stack. -/
def arity : Transform → Nat
  | vecAdd | vecSub | floatMin | floatMax => 2
  | sign | negateY | negateFloat | negateInt => 1

/-- The transform of a name. -/
def ofName? (name : String) : Option Transform := all.find? (·.name = name)

theorem ofName?_name (t : Transform) : ofName? t.name = some t := by
  cases t <;> decide

end Transform

end Inversion
