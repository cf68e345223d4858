import Inversion.Value
import Inversion.Transform
import Inversion.Text.Integer

/-!
The instructions of a method body. Every instruction has a label of its own, and a branch names the
label of its target, so that instructions can come and go elsewhere without touching it.
-/

namespace Inversion

/-- What identifies an instruction inside its body. -/
structure Label where
  number : UInt32
  deriving DecidableEq

namespace Label

/-- The text of a label: at least four digits. -/
def text (l : Label) : List Char := Text.zeroPadded 4 l.number.toNat

/-- The text of a label as a string. -/
def display (l : Label) : String := String.ofList l.text

instance : ToString Label := ⟨display⟩

/-- A label as it is shown in traces. -/
def trace (l : Label) : String := s!"InstrId({l.number})"

end Label

/-- Operations of the host's stack machine that are carried along but never patched. -/
inductive StackOp where
  | loadArg
  | loadLocal
  | storeLocal
  | dup
  | pop
  | negate
  | less
  | greater
  | equal
  | leave
  | nop
  deriving DecidableEq

/-- Whether an operation names a slot. -/
def StackOp.takesSlot : StackOp → Bool
  | .loadArg | .loadLocal | .storeLocal => true
  | _ => false

/-- The name of an operation. -/
def StackOp.name : StackOp → String
  | .loadArg => "LoadArg"
  | .loadLocal => "LoadLocal"
  | .storeLocal => "StoreLocal"
  | .dup => "Dup"
  | .pop => "Pop"
  | .negate => "Negate"
  | .less => "CompareLt"
  | .greater => "CompareGt"
  | .equal => "CompareEq"
  | .leave => "Return"
  | .nop => "Nop"

/-- The kinds of instruction that patching tells apart. -/
inductive Opcode where
  | add
  | subtract
  | min
  | max
  | sign
  | loadConstant
  | branch
  | call
  | other (op : StackOp)
  deriving DecidableEq

namespace Opcode

/-- The name of an opcode. -/
def name : Opcode → String
  | add => "Add"
  | subtract => "Subtract"
  | min => "Min"
  | max => "Max"
  | sign => "Sign"
  | loadConstant => "LoadConstant"
  | branch => "Branch"
  | call => "Call"
  | other op => s!"Other({op.name})"

/-- Whether an opcode is arithmetic that depends on which way is up. -/
def isArithmetic : Opcode → Bool
  | add | subtract | min | max | sign => true
  | _ => false

end Opcode

/-- When a branch is taken. -/
inductive Condition where
  | always
  | ifTrue
  | ifFalse
  deriving DecidableEq

/-- The name of a condition. -/
def Condition.name : Condition → String
  | .always => "Always"
  | .ifTrue => "IfTrue"
  | .ifFalse => "IfFalse"

/-- What a call calls: a method of the host, found by its name at run time, or a transform. -/
inductive Callee where
  | method (name : String) (arity : UInt8) (returns : Bool)
  | transform (t : Transform)
  deriving DecidableEq

/-- An operand of an instruction. -/
inductive Operand where
  | value (v : Value)
  | target (l : Label)
  | condition (c : Condition)
  | callee (c : Callee)
  | slot (n : UInt16)
  deriving DecidableEq

namespace Operand

/-- The value of an operand that is one. -/
def value? : Operand → Option Value
  | value v => some v
  | _ => none

/-- The target of an operand that is one. -/
def target? : Operand → Option Label
  | target l => some l
  | _ => none

/-- The condition of an operand that is one. -/
def condition? : Operand → Option Condition
  | condition c => some c
  | _ => none

/-- The callee of an operand that is one. -/
def callee? : Operand → Option Callee
  | callee c => some c
  | _ => none

/-- The slot of an operand that is one. -/
def slot? : Operand → Option UInt16
  | slot n => some n
  | _ => none

/-- Equality of operands, values being compared as values. -/
def same : Operand → Operand → Bool
  | value a, value b => a.same b
  | a, b => a == b

end Operand

/-- An instruction: its label, what it does, and its operands in order. -/
structure Instruction where
  label : Label
  op : Opcode
  operands : List Operand
  deriving DecidableEq

namespace Instruction

/-- Whether this is a branch. -/
def isBranch (i : Instruction) : Bool := i.op = .branch

/-- Whether execution ends here. -/
def isTerminal (i : Instruction) : Bool := i.op = .other .leave

/-- The target of a branch: its first operand that is one. -/
def target? (i : Instruction) : Option Label :=
  if i.isBranch then i.operands.findSome? Operand.target? else none

/-- The condition of a branch; without such an operand it is always taken. -/
def condition? (i : Instruction) : Option Condition :=
  if i.isBranch then some ((i.operands.findSome? Operand.condition?).getD .always) else none

/-- The constant that is loaded. -/
def constant? (i : Instruction) : Option Value :=
  if i.op = .loadConstant then i.operands.findSome? Operand.value? else none

/-- What a call calls. -/
def callee? (i : Instruction) : Option Callee :=
  if i.op = .call then i.operands.findSome? Operand.callee? else none

/-- The first operand that is a slot, whatever the opcode. -/
def slot? (i : Instruction) : Option UInt16 := i.operands.findSome? Operand.slot?

/-- The instruction with every target operand replaced. -/
def retargeted (i : Instruction) (target : Label) : Instruction :=
  { i with operands := i.operands.map fun
      | .target _ => .target target
      | other => other }

/-- Equality of lists of operands, one by one. -/
def sameOperands : List Operand → List Operand → Bool
  | [], [] => true
  | a :: as, b :: bs => a.same b && sameOperands as bs
  | _, _ => false

/-- Equality of instructions, constants being compared as values. -/
def same (a b : Instruction) : Bool :=
  a.label == b.label && a.op == b.op && sameOperands a.operands b.operands

/-- A call of a transform. -/
def transformCall (l : Label) (t : Transform) : Instruction := ⟨l, .call, [.callee (.transform t)]⟩

end Instruction

end Inversion
