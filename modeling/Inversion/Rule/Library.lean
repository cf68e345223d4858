import Inversion.Rule

/-!
Rules for the computations that usually depend on which way is up. Each patches the first match.
-/

namespace Inversion.Rule

/-- Replaces an opcode by a transform. -/
def replacing (name : String) (op : Opcode) (t : Transform) : Rule :=
  substitute name (.single name (.op op)) t

/-- Additions of vectors. -/
def vectorAddition : Rule := replacing "vector addition" .add .vecAdd

/-- Subtractions of vectors. -/
def vectorSubtraction : Rule := replacing "vector subtraction" .subtract .vecSub

/-- Lower bounds. -/
def minimum : Rule := replacing "min" .min .floatMin

/-- Upper bounds. -/
def maximum : Rule := replacing "max" .max .floatMax

/-- Signs. -/
def signs : Rule := replacing "sign" .sign .sign

/-- An addition whose right operand has just been loaded and is the unit vector up or down. Only the
    addition is replaced. -/
def unitYAddition : Rule :=
  substitute "unit-y addition"
    ((Pattern.window "unit-y addition" [.unitY, .op .add]).withAnchor 1) .vecAdd

/-- Loaded float constants, negated behind the load. -/
def floatConstant : Rule :=
  append "float constant"
    (.single "ldc float" (.constantWhere "ldc float" fun v => v.kind = .float)) .negateFloat

/-- The result of every call of a method, passed through a transform. -/
def callResult (method : String) (t : Transform) : Rule :=
  append s!"{method} result" (.single s!"{method} result" (.callTo method)) t

end Inversion.Rule

namespace Inversion.RuleSet

/-- All arithmetic: every match from the start of the body, and none is needed. -/
def arithmetic (name : String) : RuleSet :=
  ⟨name, [Rule.vectorAddition, Rule.vectorSubtraction, Rule.minimum, Rule.maximum, Rule.signs].map
    fun rule => { rule with occurrence := .all true, reset := true }⟩

end Inversion.RuleSet
