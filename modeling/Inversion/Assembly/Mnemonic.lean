import Inversion.Instruction

/-!
Mnemonics: the words that stand for opcodes in assembly text.
-/

namespace Inversion

/-- The mnemonic of a host operation. -/
def StackOp.mnemonic : StackOp → String
  | .loadArg => "ldarg"
  | .loadLocal => "ldloc"
  | .storeLocal => "stloc"
  | .dup => "dup"
  | .pop => "pop"
  | .negate => "neg"
  | .less => "clt"
  | .greater => "cgt"
  | .equal => "ceq"
  | .leave => "ret"
  | .nop => "nop"

namespace Mnemonic

/-- What the operand text of a mnemonic must be. -/
inductive Shape where
  /-- Nothing. -/
  | plain (op : Opcode)
  /-- A value. -/
  | constant
  /-- A label. -/
  | branch (c : Condition)
  /-- A name, an arity, and `void` if nothing is returned. -/
  | methodCall
  /-- The name of a transform. -/
  | transformCall
  /-- A slot number. -/
  | slot (op : StackOp)
  deriving DecidableEq

/-- The mnemonics and the shapes of their operand texts. -/
def table : List (String × Shape) :=
  [("add", .plain .add), ("sub", .plain .subtract), ("min", .plain .min), ("max", .plain .max),
    ("sign", .plain .sign), ("ldc", .constant), ("br", .branch .always),
    ("brtrue", .branch .ifTrue), ("brfalse", .branch .ifFalse), ("call", .methodCall),
    ("call.transform", .transformCall), ("ldarg", .slot .loadArg), ("ldloc", .slot .loadLocal),
    ("stloc", .slot .storeLocal), ("dup", .plain (.other .dup)), ("pop", .plain (.other .pop)),
    ("neg", .plain (.other .negate)), ("clt", .plain (.other .less)),
    ("cgt", .plain (.other .greater)), ("ceq", .plain (.other .equal)),
    ("ret", .plain (.other .leave)), ("nop", .plain (.other .nop))]

/-- The shape that goes with a mnemonic. -/
def shape? (mnemonic : String) : Option Shape := table.lookup mnemonic

/-- The opcode of every instruction of a shape. -/
def Shape.opcode : Shape → Opcode
  | plain op => op
  | constant => .loadConstant
  | branch _ => .branch
  | methodCall => .call
  | transformCall => .call
  | slot op => .other op

end Mnemonic

/-- The opcode that a mnemonic stands for. -/
def Opcode.ofMnemonic? (mnemonic : String) : Option Opcode :=
  (Mnemonic.shape? mnemonic).map (·.opcode)

end Inversion
