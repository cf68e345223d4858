import Inversion.Body.Error

/-!
What can go wrong when bodies are patched, installed and run. Every error states its cause; the
wording stands in `message`.
-/

namespace Inversion

/-- A method of the host program. -/
structure Method where
  owner : String
  signature : String
  deriving DecidableEq

/-- The text of a method. -/
def Method.display (m : Method) : String := s!"{m.owner}::{m.signature}"

/-- Where a registration is in its life. -/
inductive Stage where
  | unregistered
  | registered
  | applied
  | disposed
  deriving DecidableEq

namespace Stage

/-- The name of a stage. -/
def name : Stage → String
  | unregistered => "Unregistered"
  | registered => "Registered"
  | applied => "Applied"
  | disposed => "Disposed"

/-- The stages in their order. -/
def all : List Stage := [unregistered, registered, applied, disposed]

/-- Whether a registration may go from one stage to another. -/
def canMoveTo : Stage → Stage → Bool
  | unregistered, registered | registered, applied | registered, disposed | applied, disposed => true
  | _, _ => false

end Stage

/-- What stops a run at an instruction. -/
inductive RunFault where
  | stackUnderflow
  | undefinedFor (op : Opcode) (left right : Kind)
  | signOf (k : Kind)
  | noConstant
  | notCondition (k : Kind)
  | noTarget
  | unknownTarget (l : Label)
  | returnedNothing (method : String)
  | noCallee
  | noSlot
  | noArgument (slot : UInt16)
  | unsetLocal (slot : UInt16)
  | negatedBool
  | incomparable (left right : Kind)
  deriving DecidableEq

/-- The description of a fault. -/
def RunFault.message : RunFault → String
  | .stackUnderflow => "stack underflow"
  | .undefinedFor op left right => s!"{op.name} on {left.name} and {right.name}"
  | .signOf k => s!"sign of {k.name}"
  | .noConstant => "ldc without constant"
  | .notCondition k => s!"{k.name} is not a condition"
  | .noTarget => "branch without target"
  | .unknownTarget l => s!"unknown branch target {l}"
  | .returnedNothing method => s!"{method} returned nothing"
  | .noCallee => "call without callee"
  | .noSlot => "missing slot operand"
  | .noArgument slot => s!"no argument {slot}"
  | .unsetLocal slot => s!"local {slot} is unset"
  | .negatedBool => "cannot negate bool"
  | .incomparable left right => s!"cannot compare {left.name} and {right.name}"

/-- Why a rule document is refused. -/
inductive DocumentFault where
  | unknownMnemonic (mnemonic : String)
  | invalidConstant (literal : String)
  | emptyPattern (rule : String)
  | anchorOutside (rule : String) (anchor width : Nat)
  | consumesNothing (rule : String)
  | consumesTooMuch (rule : String)
  deriving DecidableEq

/-- The description of a fault. -/
def DocumentFault.message : DocumentFault → String
  | .unknownMnemonic mnemonic => s!"unknown mnemonic `{mnemonic}`"
  | .invalidConstant literal => s!"invalid constant `{literal}`"
  | .emptyPattern rule => s!"rule `{rule}` has an empty pattern"
  | .anchorOutside rule anchor width =>
    s!"rule `{rule}`: anchor {anchor} outside a {width}-instruction pattern"
  | .consumesNothing rule => s!"rule `{rule}` substitutes without consuming an instruction"
  | .consumesTooMuch rule => s!"rule `{rule}`: consumes past the end of the pattern"

/-- Why a patch, an installation or a run fails. -/
inductive Error where
  /-- A body is faulty or could not be edited. -/
  | body (e : BodyError)
  /-- A rule that needs a match has none. -/
  | noMatch (rule : String) (target : Method)
  /-- A rule has more or fewer matches than it asks for. -/
  | wrongCount (rule : String) (target : Method) (expected : String) (found : Nat)
  /-- A method has rules already. -/
  | alreadyRegistered (target : Method)
  /-- The host refuses a body. -/
  | refused (target : Method) (reason : String)
  /-- An activation failed, and so did taking it back. -/
  | rollbackFailed (cause rollback : Error)
  /-- A registration cannot go from one stage to another. -/
  | wrongStage (target : Method) (current next : Stage)
  /-- There is no such method. -/
  | noMethod (name : String)
  /-- The host has no body to offer. -/
  | undecodable (target : Method) (reason : String)
  /-- A transform is given too many or too few operands. -/
  | wrongArity (t : Transform) (found : Nat)
  /-- A transform is given an operand of the wrong type. -/
  | wrongOperand (t : Transform) (found : Kind)
  /-- A run stopped at an instruction. -/
  | stopped (label : Label) (fault : RunFault)
  /-- A run did not end in time. -/
  | outOfSteps (limit : Nat)
  /-- A rule document is refused. -/
  | document (fault : DocumentFault)
  /-- A JSON text is not of the form asked for. -/
  | json
  deriving DecidableEq

/-- The message of an error. -/
def Error.message : Error → String
  | .body e => s!"core operation failed: {e.message}"
  | .noMatch rule target => s!"rule `{rule}` found no match in {target.display}"
  | .wrongCount rule target expected found =>
    s!"rule `{rule}` expected {expected} match(es) in {target.display}, found {found}"
  | .alreadyRegistered target => s!"{target.display} is already registered"
  | .refused target reason => s!"installing patched body for {target.display} failed: {reason}"
  | .rollbackFailed cause rollback => s!"{cause.message}; rollback failed: {rollback.message}"
  | .wrongStage target current next =>
    s!"{target.display}: cannot move from {current.name} to {next.name}"
  | .noMethod name => s!"method not found: {name}"
  | .undecodable target reason => s!"decoding {target.display} failed: {reason}"
  | .wrongArity t found => s!"transform {t.name} expects {t.arity} operand(s), got {found}"
  | .wrongOperand t found => s!"transform {t.name} cannot take {found.name} operands"
  | .stopped label fault => s!"evaluation failed at {label}: {fault.message}"
  | .outOfSteps limit => s!"evaluation exceeded {limit} steps"
  | .document fault => s!"rule document error: {fault.message}"
  | .json => "json error"

/-- A result about bodies as a result of this library. -/
def Error.ofBody {α : Type} (x : Except BodyError α) : Except Error α := x.mapError Error.body

end Inversion
