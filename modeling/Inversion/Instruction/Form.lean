import Inversion.Instruction
import Inversion.Value.Form

/-!
The JSON form of instructions. Cases without content are their names, cases with content objects with
one key.
-/

namespace Inversion

instance : JsonForm Transform where
  write t := .text t.name
  read? := Json.named? (Transform.all.map fun t => (t.name, t))

instance : JsonForm Label where
  write l := JsonForm.write l.number
  read? budget j := (JsonForm.read? budget j).map Label.mk

/-- The host operations in their order. -/
def StackOp.all : List StackOp :=
  [.loadArg, .loadLocal, .storeLocal, .dup, .pop, .negate, .less, .greater, .equal, .leave, .nop]

instance : JsonForm StackOp where
  write op := .text op.name
  read? := Json.named? (StackOp.all.map fun op => (op.name, op))

/-- The opcodes that carry no operation of the host. -/
def Opcode.plain : List Opcode :=
  [.add, .subtract, .min, .max, .sign, .loadConstant, .branch, .call]

instance : JsonForm Opcode where
  write
    | .other op => .record [("Other", JsonForm.write op)]
    | op => .text op.name
  read? budget j := Json.case? budget (fun name content =>
    if name = "Other" then Json.holding Opcode.other content
    else ((Opcode.plain.map fun op => (op.name, op)).lookup name).bind fun op =>
      Json.bare op content) j

instance : JsonForm Condition where
  write c := .text c.name
  read? := Json.named? ([.always, .ifTrue, .ifFalse].map fun c => (c.name, c))

/-- Reads the description of a host method. -/
def Callee.readMethod? : Option (Nat × Json) → Option Callee
  | some (budget, content) => Json.enter budget fun budget => do
    match ← Json.fields? ["name", "arity", "returns"] content with
    | [name, arity, returns] =>
      return .method (← Json.required budget name) (← Json.required budget arity)
        (← Json.required budget returns)
    | _ => none
  | none => none

instance : JsonForm Callee where
  write
    | .method name arity returns => .record [("Method", .record
        [("name", .text name), ("arity", JsonForm.write arity), ("returns", .bool returns)])]
    | .transform t => .record [("Transform", JsonForm.write t)]
  read? budget j := Json.case? budget (fun name content =>
    match name with
    | "Method" => Callee.readMethod? content
    | "Transform" => Json.holding Callee.transform content
    | _ => none) j

instance : JsonForm Operand where
  write
    | .value v => .record [("Value", JsonForm.write v)]
    | .target l => .record [("Target", JsonForm.write l)]
    | .condition c => .record [("Condition", JsonForm.write c)]
    | .callee c => .record [("Callee", JsonForm.write c)]
    | .slot n => .record [("Slot", JsonForm.write n)]
  read? budget j := Json.case? budget (fun name content =>
    match name with
    | "Value" => Json.holding Operand.value content
    | "Target" => Json.holding Operand.target content
    | "Condition" => Json.holding Operand.condition content
    | "Callee" => Json.holding Operand.callee content
    | "Slot" => Json.holding Operand.slot content
    | _ => none) j

instance : JsonForm Instruction where
  write i := .record [("id", JsonForm.write i.label), ("op", JsonForm.write i.op),
    ("operands", JsonForm.write i.operands)]
  read? budget j := Json.enter budget fun budget => do
    match ← Json.fields? ["id", "op", "operands"] j with
    | [label, op, operands] =>
      return ⟨← Json.required budget label, ← Json.required budget op,
        ← Json.required budget operands⟩
    | _ => none

end Inversion
