import Inversion.Instruction

/-!
What can be wrong with a body, with an edit of one, or with the text of one.
-/

namespace Inversion

/-- What is wrong with an assembly text or one of its lines. -/
inductive LineFault where
  | emptyText
  | noInstructions
  | missingLabel
  | invalidLabel
  | missingMnemonic
  | unknownMnemonic
  | unexpectedOperand
  | invalidConstant
  | invalidTarget
  | missingCallee
  | missingArity
  | invalidArity
  | unexpectedSuffix
  | unknownTransform
  | invalidSlot
  deriving DecidableEq

/-- The description of a fault in messages. -/
def LineFault.message : LineFault → String
  | .emptyText => "empty assembly"
  | .noInstructions => "no instructions"
  | .missingLabel => "missing id"
  | .invalidLabel => "invalid id"
  | .missingMnemonic => "missing mnemonic"
  | .unknownMnemonic => "unknown mnemonic"
  | .unexpectedOperand => "unexpected operand"
  | .invalidConstant => "invalid constant"
  | .invalidTarget => "invalid branch target"
  | .missingCallee => "missing callee"
  | .missingArity => "missing arity"
  | .invalidArity => "invalid arity"
  | .unexpectedSuffix => "unexpected call suffix"
  | .unknownTransform => "unknown transform"
  | .invalidSlot => "invalid slot"

/-- Why a body is refused or cannot be edited. -/
inductive BodyError where
  /-- A move or a removal reaches past the end. -/
  | outOfBounds (index length : Nat)
  /-- A removal would leave a branch without its target. -/
  | dangling (removed branch : Label)
  /-- Two instructions have one label. -/
  | repeatedLabel (l : Label)
  /-- A branch names a label that no instruction has. -/
  | missingTarget (branch target : Label)
  /-- Every label has been given out. -/
  | labelsExhausted
  /-- A text is not the literal of a value. -/
  | invalidLiteral (text : String)
  /-- A text is not the name of a transform. -/
  | invalidTransform (text : String)
  /-- A branch has no target operand. -/
  | noTarget (branch : Label)
  /-- An assembly text cannot be read. -/
  | unreadable (line : Nat) (fault : LineFault) (raw : String)
  /-- No instruction has this label. -/
  | unknownLabel (l : Label)
  deriving DecidableEq

/-- The message of an error. -/
def BodyError.message : BodyError → String
  | .outOfBounds index length =>
    s!"cursor index {index} out of bounds for stream of length {length}"
  | .dangling removed branch => s!"removing {removed} would leave branch {branch} without a target"
  | .repeatedLabel l => s!"duplicate instruction id {l}"
  | .missingTarget branch target => s!"branch {branch} targets unknown instruction {target}"
  | .labelsExhausted => "instruction id space exhausted"
  | .invalidLiteral text => s!"invalid value literal: {text}"
  | .invalidTransform text => s!"invalid value literal: unknown transform `{text}`"
  | .noTarget branch => s!"malformed instruction {branch}: branch without target"
  | .unreadable line fault raw =>
    s!"assembly parse error at line {line}: {fault.message} ⇒ `{raw}`"
  | .unknownLabel l => s!"unknown instruction {l}"

end Inversion
