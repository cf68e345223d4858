import Inversion.Assembly.Mnemonic
import Inversion.Body
import Inversion.Value.Literal

/-!
Reading assembly text. A hash starts a comment; blank lines are skipped. What is left of a line is a
label, a colon, a mnemonic and an operand text of the mnemonic's shape, with white space around any of
them. The first faulty line is reported with its number, counted from zero.
-/

namespace Inversion

namespace Assembly

open Text Mnemonic

/-- A line without its comment and the white space around it. -/
def content (raw : List Char) : List Char := trim (raw.takeWhile (· ≠ '#'))

/-- Reads a label. -/
def label? (cs : List Char) : Option Label :=
  (natural? UInt32.size cs).map fun n => ⟨UInt32.ofNat n⟩

/-- Reads what follows the mnemonic of a method call. The name and the arity are the first two words;
    a third one must be `void`. -/
def methodCall (operand : List Char) : Except LineFault Callee :=
  match words operand with
  | [] => .error .missingCallee
  | [_] => .error .missingArity
  | name :: arity :: suffix =>
    match natural? UInt8.size arity with
    | none => .error .invalidArity
    | some n =>
      match suffix with
      | [] => .ok (.method (String.ofList name) (UInt8.ofNat n) true)
      | word :: _ =>
        if word = "void".toList then .ok (.method (String.ofList name) (UInt8.ofNat n) false)
        else .error .unexpectedSuffix

/-- Reads an optional result, or gives the fault that its absence is. -/
def orFault {α : Type} (fault : LineFault) : Option α → Except LineFault α
  | some a => .ok a
  | none => .error fault

/-- Reads an operand text of a shape. -/
def operands (shape : Shape) (operand : List Char) : Except LineFault (List Operand) :=
  match shape with
  | .plain _ => if operand = [] then .ok [] else .error .unexpectedOperand
  | .constant => do return [.value (← orFault .invalidConstant (Value.ofText? operand))]
  | .branch c => do return [.condition c, .target (← orFault .invalidTarget (label? operand))]
  | .methodCall => do return [.callee (← methodCall operand)]
  | .transformCall => do
    let t ← orFault .unknownTransform (Transform.ofName? (String.ofList operand))
    return [.callee (.transform t)]
  | .slot _ => do
    let n ← orFault .invalidSlot (natural? UInt16.size operand)
    return [.slot (UInt16.ofNat n)]

/-- A mnemonic and the text behind it. -/
def splitMnemonic (cs : List Char) : List Char × List Char :=
  match cutAt? isBlank cs with
  | some (mnemonic, rest) => (mnemonic, trim rest)
  | none => (cs, [])

/-- Reads the content of a line. -/
def instruction (line : List Char) : Except LineFault Instruction := do
  let (before, after) ← orFault .missingLabel (cutAt? (· == ':') line)
  let label ← orFault .invalidLabel (label? (trim before))
  let (mnemonic, operand) := splitMnemonic (trim after)
  if mnemonic = [] then throw .missingMnemonic
  let shape ← orFault .unknownMnemonic (shape? (String.ofList mnemonic))
  return ⟨label, shape.opcode, ← operands shape operand⟩

/-- Reads the lines of a text, the first of which has a given number. -/
def instructions : Nat → List (List Char) → Except BodyError (List Instruction)
  | _, [] => .ok []
  | number, raw :: rest =>
    let line := content raw
    if line = [] then instructions (number + 1) rest
    else
      match instruction line with
      | .error fault => .error (.unreadable number fault (String.ofList raw))
      | .ok i => (instructions (number + 1) rest).map (i :: ·)

end Assembly

/-- Reads the assembly text of a body. -/
def Body.parse (text : String) : Except BodyError Body :=
  if Text.trim text.toList = [] then .error (.unreadable 0 .emptyText text)
  else
    match Assembly.instructions 0 (Text.lines text.toList) with
    | .error e => .error e
    | .ok [] => .error (.unreadable 0 .noInstructions text)
    | .ok is => Body.ofInstructions is

/-- Reads a value. -/
def Value.parse (text : String) : Except BodyError Value :=
  match Value.ofText? text.toList with
  | some v => .ok v
  | none => .error (.invalidLiteral text)

/-- Reads the name of a transform. -/
def Transform.parse (text : String) : Except BodyError Transform :=
  match Transform.ofName? text with
  | some t => .ok t
  | none => .error (.invalidTransform text)

end Inversion
