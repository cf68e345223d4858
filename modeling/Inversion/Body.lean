import Inversion.Body.Error

/-!
The body of a method: its instructions in order, and the number from which new labels are taken. That
number lies above every label that the body has ever had, so no label is given out twice. Labels are
32-bit numbers; when they are used up no instruction can be added.
-/

namespace Inversion

/-- How many labels there are. -/
def labelCount : Nat := UInt32.size

/-- A method body. -/
structure Body where
  instructions : List Instruction
  next : Nat
  deriving DecidableEq

namespace Body

/-- The body without instructions. -/
def empty : Body := ⟨[], 0⟩

/-- The number of instructions. -/
def length (b : Body) : Nat := b.instructions.length

/-- The labels in order. -/
def labels (b : Body) : List Label := b.instructions.map (·.label)

/-- The instruction at an index. -/
def get? (b : Body) (index : Nat) : Option Instruction := b.instructions[index]?

/-- The first element of a list that has been seen before, at the start or earlier in the list. -/
def firstRepeated (seen : List Label) : List Label → Option Label
  | [] => none
  | l :: rest => if l ∈ seen then some l else firstRepeated (l :: seen) rest

/-- One past the highest label. -/
def nextAfter (instructions : List Instruction) : Nat :=
  instructions.foldr (fun i n => max (i.label.number.toNat + 1) n) 0

/-- The body of some instructions, whose labels must differ. -/
def ofInstructions (instructions : List Instruction) : Except BodyError Body :=
  match firstRepeated [] (instructions.map (·.label)) with
  | some l => .error (.repeatedLabel l)
  | none => .ok ⟨instructions, nextAfter instructions⟩

/-- Takes a label that the body has never used. -/
def freshLabel (b : Body) : Except BodyError (Label × Body) :=
  if b.next < labelCount then .ok (⟨UInt32.ofNat b.next⟩, { b with next := b.next + 1 })
  else .error .labelsExhausted

/-- How many labels are left to give out. -/
def unused (b : Body) : Nat := labelCount - b.next

/-- Adds an instruction at the end. -/
def push (b : Body) (op : Opcode) (operands : List Operand) : Except BodyError (Label × Body) := do
  let (l, b) ← b.freshLabel
  return (l, { b with instructions := b.instructions ++ [⟨l, op, operands⟩] })

/-- The index of the instruction with a label. -/
def position? (b : Body) (l : Label) : Option Nat := b.instructions.findIdx? (·.label = l)

/-- Whether an instruction has this label. -/
def contains (b : Body) (l : Label) : Bool := (b.position? l).isSome

/-- Indices of the branches that target a label. -/
def branchesTo (b : Body) (l : Label) : List Nat :=
  (b.instructions.zipIdx.filter fun (i, _) => i.target? = some l).map (·.2)

/-- Puts an instruction in front of the one at an index. -/
def insertAt (b : Body) (index : Nat) (i : Instruction) : Body :=
  { b with instructions := b.instructions.take index ++ i :: b.instructions.drop index }

/-- The instructions of a span. -/
def span (b : Body) (index count : Nat) : List Instruction :=
  (b.instructions.drop index).take count

/-- Takes a span out. -/
def removeSpan (b : Body) (index count : Nat) : Body :=
  { b with instructions := b.instructions.take index ++ b.instructions.drop (index + count) }

/-- Points the branches that target one label to another. -/
def retarget (b : Body) (old new : Label) : Body :=
  { b with instructions := b.instructions.map fun i =>
      if i.target? = some old then i.retargeted new else i }

/-- Equality of the instructions, the next label aside. -/
def same (a b : Body) : Bool := go a.instructions b.instructions
where
  /-- Equality of lists of instructions, one by one. -/
  go : List Instruction → List Instruction → Bool
    | [], [] => true
    | i :: is, j :: js => i.same j && go is js
    | _, _ => false

end Body

end Inversion
