import Inversion.Assembly.Mnemonic
import Inversion.Body
import Inversion.Value.Literal

/-!
The assembly text of a body: one instruction a line, its label, a colon, its mnemonic and its operand.
An operand that is missing shows as a question mark; operands that the opcode has no use for do not
show.
-/

namespace Inversion

namespace Condition

/-- The mnemonic of a branch with this condition. -/
def mnemonic : Condition → String
  | always => "br"
  | ifTrue => "brtrue"
  | ifFalse => "brfalse"

end Condition

namespace Callee

/-- The text of a call. -/
def text : Callee → List Char
  | method name arity returns =>
    "call ".toList ++ name.toList ++ ' ' :: digitsOf arity.toNat
      ++ (if returns then [] else " void".toList)
  | transform t => "call.transform ".toList ++ t.name.toList

end Callee

namespace Instruction

/-- The mnemonic and operand of an instruction. -/
def operation (i : Instruction) : List Char :=
  match i.op with
  | .add => "add".toList
  | .subtract => "sub".toList
  | .min => "min".toList
  | .max => "max".toList
  | .sign => "sign".toList
  | .loadConstant => "ldc ".toList ++ ((i.constant?.map Value.text).getD ['?'])
  | .branch =>
    (i.condition?.getD .always).mnemonic.toList ++ ' ' :: ((i.target?.map Label.text).getD ['?'])
  | .call => (i.callee?.map Callee.text).getD "call ?".toList
  | .other op =>
    op.mnemonic.toList ++
      match i.slot? with
      | some slot => if op.takesSlot then ' ' :: digitsOf slot.toNat else []
      | none => []

/-- The line of an instruction. -/
def text (i : Instruction) : List Char := i.label.text ++ ':' :: ' ' :: i.operation

/-- The line of an instruction as a string. -/
def display (i : Instruction) : String := String.ofList i.text

end Instruction

/-- The assembly text of a body. Every line ends with a line feed. -/
def Body.render (b : Body) : String :=
  String.ofList (b.instructions.flatMap fun i => i.text ++ ['\n'])

end Inversion
