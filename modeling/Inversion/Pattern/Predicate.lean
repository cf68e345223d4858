import Inversion.Instruction
import Inversion.Value.Literal

/-!
Named tests of one instruction and its neighbours. A test is only ever put to a place inside the
instructions: the place carries the proof.
-/

namespace Inversion

/-- A place inside a list of instructions. -/
structure Site where
  instructions : List Instruction
  index : Nat
  inside : index < instructions.length

namespace Site

/-- The place with an index, if it is inside. -/
def at? (instructions : List Instruction) (index : Nat) : Option Site :=
  if h : index < instructions.length then some ⟨instructions, index, h⟩ else none

/-- The instruction at a place. -/
def instruction (s : Site) : Instruction := s.instructions.get ⟨s.index, s.inside⟩

/-- The instruction some steps away, backward if negative. -/
def peek? (s : Site) (offset : Int) : Option Instruction :=
  match (s.index : Int) + offset with
  | .ofNat target => s.instructions[target]?
  | .negSucc _ => none

/-- The next place. -/
def next? (s : Site) : Option Site := at? s.instructions (s.index + 1)

/-- The place before. -/
def previous? (s : Site) : Option Site :=
  if s.index = 0 then none else at? s.instructions (s.index - 1)

end Site

/-- A test with a name. -/
structure Predicate where
  name : String
  test : Site → Bool

namespace Predicate

/-- A test of the instruction alone. -/
def ofInstruction (name : String) (test : Instruction → Bool) : Predicate :=
  ⟨name, fun s => test s.instruction⟩

/-- Every instruction. -/
def any : Predicate := ofInstruction "any" fun _ => true

/-- An opcode. -/
def op (opcode : Opcode) : Predicate := ofInstruction opcode.name fun i => i.op = opcode

/-- Any branch. -/
def branch : Predicate := ofInstruction "branch" Instruction.isBranch

/-- Any of the opcodes that depend on which way is up. -/
def rewritable : Predicate := ofInstruction "rewritable" fun i => i.op.isArithmetic

/-- A call of the host method with exactly this name. -/
def callTo (name : String) : Predicate :=
  ofInstruction s!"call {name}" fun i =>
    match i.callee? with
    | some (.method callee _ _) => callee = name
    | _ => false

/-- A call of a transform. -/
def callTransform (t : Transform) : Predicate :=
  ofInstruction s!"call.transform {t.name}" fun i => i.callee? = some (.transform t)

/-- A load of a constant that passes a test. -/
def constantWhere (name : String) (test : Value → Bool) : Predicate :=
  ofInstruction name fun i => i.constant?.any test

/-- A load of exactly this value. -/
def constant (v : Value) : Predicate := constantWhere s!"ldc {v.display}" v.same

/-- A load of the unit vector straight up or straight down. -/
def unitY : Predicate :=
  constantWhere "ldc unit-y" fun v =>
    match v with
    | .vector v => v.isUnitY
    | _ => false

/-- Both tests. -/
def and (p q : Predicate) : Predicate := ⟨s!"({p.name} & {q.name})", fun s => p.test s && q.test s⟩

/-- Either test. -/
def or (p q : Predicate) : Predicate := ⟨s!"({p.name} | {q.name})", fun s => p.test s || q.test s⟩

/-- The opposite test. -/
def not (p : Predicate) : Predicate := ⟨s!"!{p.name}", fun s => !p.test s⟩

/-- A test of the instruction and another of the one behind it. -/
def followedBy (p q : Predicate) : Predicate :=
  ⟨s!"{p.name} >> {q.name}", fun s => p.test s && s.next?.any q.test⟩

/-- A test of the instruction and another of the one in front of it. -/
def precededBy (p q : Predicate) : Predicate :=
  ⟨s!"{p.name} << {q.name}", fun s => p.test s && s.previous?.any q.test⟩

end Predicate

end Inversion
