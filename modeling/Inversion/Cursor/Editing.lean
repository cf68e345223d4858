import Inversion.Cursor

/-!
Editing in place. The operations of a cursor as changes of it that are made one after the other: the
next label, the instructions, the place, and the memory of what was inserted last. What has been
changed before an operation fails stays changed, so that a failing operation has to look before it
changes anything.
-/

namespace Inversion

/-- Work at a cursor, which stays as it has become by then if the work fails. -/
abbrev Editing (α : Type) := EStateM BodyError Cursor α

namespace Editing

/-- Takes a label that the body has never used. -/
def freshLabel : Editing Label := do
  let c ← get
  if c.body.next < labelCount then
    set { c with body := { c.body with next := c.body.next + 1 } }
    return ⟨UInt32.ofNat c.body.next⟩
  else throw .labelsExhausted

/-- Moves and forgets what was inserted. -/
def moveTo (index : Nat) : Editing Unit := do
  modify fun c => { c with index }
  modify fun c => { c with inserted := none }

/-- Moves to an index; the end is allowed. -/
def goto (index : Nat) : Editing Unit := do
  let c ← get
  if c.body.length < index then throw (.outOfBounds index c.body.length)
  moveTo index

/-- Moves to the end. -/
def gotoEnd : Editing Unit := do
  let c ← get
  moveTo c.body.length

/-- Moves in front of the instruction with a label. -/
def gotoLabel (l : Label) : Editing Unit := do
  let c ← get
  match c.body.position? l with
  | some index => goto index
  | none => throw (.unknownLabel l)

/-- Moves to the start of the next match, and tells whether there is one. -/
def seek (p : Pattern) (d : Direction) : Editing Bool := do
  let c ← get
  match p.findNext c.body.instructions c.index d with
  | some index =>
    moveTo index
    return true
  | none => return false

/-- Inserts an instruction under a fresh label and moves behind it. -/
def insert (op : Opcode) (operands : List Operand) : Editing Label := do
  let l ← freshLabel
  modify fun c => { c with body := c.body.insertAt c.index ⟨l, op, operands⟩ }
  modify fun c => { c with index := c.index + 1 }
  modify fun c => { c with inserted := some l }
  return l

/-- Inserts a call of a transform. -/
def insertCall (t : Transform) : Editing Label := insert .call [.callee (.transform t)]

/-- Inserts a branch to an instruction of the body. -/
def insertBranch (condition : Condition) (target : Label) : Editing Label := do
  let c ← get
  if c.body.contains target then insert .branch [.condition condition, .target target]
  else throw (.unknownLabel target)

/-- The labels of a span that branches outside it target. -/
def targeted (count : Nat) : List Label → Editing (List Label)
  | [] => return []
  | l :: rest => do
    let c ← get
    match (c.outsideReferrer? count l).bind c.body.get? with
    | none => targeted count rest
    | some branch =>
      if c.standIn? = none then throw (.dangling l branch.label)
      let others ← targeted count rest
      return l :: others

/-- Points the branches to some labels elsewhere, one label after the other, and counts them. -/
def redirect (target : Label) : List Label → Editing (List (Nat × Label))
  | [] => return []
  | l :: rest => do
    let c ← get
    set { c with body := c.body.retarget l target }
    let moved ← redirect target rest
    return ((c.body.branchesTo l).length, l) :: moved

/-- Takes the instructions behind the cursor out. -/
def drain (count : Nat) : Editing (List Instruction) := do
  let c ← get
  set { c with body := c.body.removeSpan c.index count }
  return c.body.span c.index count

/-- Removes some instructions behind the cursor. The end of the span is a sum of natural numbers, and
    meant for sums that fit a machine word. -/
def remove (count : Nat) : Editing Removal := do
  let c ← get
  if c.body.length < c.index + count then
    throw (.outOfBounds (c.index + count) c.body.length)
  if count = 0 then return ⟨[], [], none⟩
  let labels ← targeted count ((c.body.span c.index count).map (·.label))
  let moved ← match c.standIn? with
    | some l => redirect l labels
    | none => pure []
  let removed ← drain count
  return ⟨removed, moved, c.standIn?⟩

end Editing

namespace Cursor

/-- What can be done at a cursor. -/
inductive Operation where
  | goto (index : Nat)
  | reset
  | gotoEnd
  | gotoLabel (l : Label)
  | seek (p : Pattern) (d : Direction)
  | insert (op : Opcode) (operands : List Operand)
  | insertCall (t : Transform)
  | insertBranch (condition : Condition) (target : Label)
  | remove (count : Nat)

/-- What an operation answers. -/
inductive Answer where
  | moved
  | sought (found : Bool)
  | inserted (l : Label)
  | removed (r : Removal)

namespace Operation

/-- Does an operation in place. -/
def perform : Operation → Editing Answer
  | goto index => do
    Editing.goto index
    return .moved
  | reset => do
    Editing.moveTo 0
    return .moved
  | gotoEnd => do
    Editing.gotoEnd
    return .moved
  | gotoLabel l => do
    Editing.gotoLabel l
    return .moved
  | seek p d => return .sought (← Editing.seek p d)
  | insert op operands => return .inserted (← Editing.insert op operands)
  | insertCall t => return .inserted (← Editing.insertCall t)
  | insertBranch condition target => return .inserted (← Editing.insertBranch condition target)
  | remove count => return .removed (← Editing.remove count)

end Operation

end Cursor

end Inversion
