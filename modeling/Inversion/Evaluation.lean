import Inversion.Transform.Meaning
import Inversion.Assembly.Printer
import Inversion.Body
import Inversion.Event

/-!
Running a body as its host would: a stack machine with slots for arguments and locals, in which calls
of transforms look up the orientation of gravity and calls of methods go to the host. The machine is a
function of one step; a run repeats it as often as its budget of steps allows. What the arithmetic
opcodes mean is a parameter of the step, so that runs with different arithmetic can be compared.
-/

namespace Inversion

/-- A call of a method of the host. -/
structure HostCall where
  method : String
  args : List Value
  deriving DecidableEq

/-- The answer to a call: the host after it, the value if there is one, and what was reported. -/
structure Reply (σ : Type) where
  host : σ
  result : Except Error (Option Value)
  events : List Event

/-- What surrounds a run: the orientation, and the methods of the host. Both may depend on a state that
    the calls change. -/
structure Environment (σ : Type) where
  orientation : σ → Orientation
  call : σ → HostCall → Reply σ

/-- Surroundings with a fixed orientation and without methods. -/
def Environment.bare (g : Orientation) : Environment Unit :=
  ⟨fun _ => g, fun s c => ⟨s, .error (.noMethod c.method), []⟩⟩

/-- The meaning of the arithmetic opcodes on operands in the order in which they were pushed. -/
abbrev Arithmetic := Orientation → Label → Opcode → List Value → Except Error Value

/-- A machine in the middle of a run. The top of the stack and the latest call come first. -/
structure Machine (σ : Type) where
  index : Nat
  stack : List Value
  locals : List (UInt16 × Value)
  steps : Nat
  calls : List HostCall
  host : σ

/-- What a step leads to. -/
inductive Progress (σ : Type) where
  | running (m : Machine σ)
  | halted (m : Machine σ) (result : Except Error (Option Value))

/-! ### Arithmetic -/

/-- How many operands an arithmetic opcode takes. -/
def Opcode.operandCount : Opcode → Nat
  | .sign => 1
  | _ => 2

/-- The plain meaning of an arithmetic opcode. -/
def Opcode.compute (op : Opcode) (args : List Value) : Except RunFault Value :=
  match op, args with
  | .add, [.int a, .int b] => .ok (.int (a + b))
  | .add, [.float a, .float b] => .ok (.float (a.add b))
  | .add, [.vector a, .vector b] => .ok (.vector (a.add b))
  | .subtract, [.int a, .int b] => .ok (.int (a - b))
  | .subtract, [.float a, .float b] => .ok (.float (a.sub b))
  | .subtract, [.vector a, .vector b] => .ok (.vector (a.sub b))
  | .min, [.int a, .int b] => .ok (.int (Integer.least a b))
  | .min, [.float a, .float b] => .ok (.float (a.least b))
  | .max, [.int a, .int b] => .ok (.int (Integer.greatest a b))
  | .max, [.float a, .float b] => .ok (.float (a.greatest b))
  | .sign, [.float a] => .ok (.float a.signum)
  | .sign, [.int a] => .ok (.int (Integer.signum a))
  | .sign, [a] => .error (.signOf a.kind)
  | op, [a, b] => .error (.undefinedFor op a.kind b.kind)
  | _, _ => .error .stackUnderflow

/-- Arithmetic as the opcodes have it, whatever the orientation. -/
def Arithmetic.plain : Arithmetic := fun _ label op args =>
  (op.compute args).mapError (.stopped label)

/-! ### One step -/

namespace Machine

variable {σ : Type}

/-- A machine at the start of a body. -/
def start (host : σ) : Machine σ := ⟨0, [], [], 0, [], host⟩

/-- The value of a local slot. -/
def local? (m : Machine σ) (slot : UInt16) : Option Value := m.locals.lookup slot

/-- The machine with a local slot set. -/
def setLocal (m : Machine σ) (slot : UInt16) (v : Value) : Machine σ :=
  { m with locals := (slot, v) :: m.locals.filter (·.1 ≠ slot) }

/-- The machine with a value pushed. -/
def push (m : Machine σ) (v : Value) : Machine σ := { m with stack := v :: m.stack }

/-- The top value, and the machine without it. -/
def pop (m : Machine σ) : Except RunFault (Value × Machine σ) :=
  match m.stack with
  | v :: rest => .ok (v, { m with stack := rest })
  | [] => .error .stackUnderflow

/-- Some values from the top in the order in which they were pushed, and the machine without them. -/
def take (m : Machine σ) (count : Nat) : Except RunFault (List Value × Machine σ) :=
  if m.stack.length < count then .error .stackUnderflow
  else .ok ((m.stack.take count).reverse, { m with stack := m.stack.drop count })

/-- Whether a value stands for true. -/
def truth : Value → Except RunFault Bool
  | .bool b => .ok b
  | .int i => .ok (i != 0)
  | v => .error (.notCondition v.kind)

/-- Whether a branch with this condition is taken, and the machine after the test. -/
def decideBranch (m : Machine σ) : Condition → Except RunFault (Bool × Machine σ)
  | .always => .ok (true, m)
  | .ifTrue => do
    let (v, m) ← m.pop
    return (← truth v, m)
  | .ifFalse => do
    let (v, m) ← m.pop
    return (!(← truth v), m)

/-- Carries out a branch. -/
def branch (m : Machine σ) (b : Body) (i : Instruction) : Except RunFault (Machine σ) := do
  let (taken, m) ← m.decideBranch (i.condition?.getD .always)
  if taken then
    match i.target? with
    | none => throw .noTarget
    | some target =>
      match b.position? target with
      | none => throw (.unknownTarget target)
      | some index => return { m with index }
  else return { m with index := m.index + 1 }

/-- The slot of an instruction that needs one. -/
def slotOf (i : Instruction) : Except RunFault UInt16 :=
  match i.slot? with
  | some slot => .ok slot
  | none => .error .noSlot

/-- The opposite of a value. -/
def negated : Value → Except RunFault Value
  | .int i => .ok (.int (-i))
  | .float x => .ok (.float x.negate)
  | .vector v => .ok (.vector v.negate)
  | .bool _ => .error .negatedBool

/-- The two operands of a comparison in order, and the machine without them. -/
def pair (m : Machine σ) : Except RunFault (Value × Value × Machine σ) := do
  let (right, m) ← m.pop
  let (left, m) ← m.pop
  return (left, right, m)

/-- Whether the first value is less than the second, and whether it is greater. -/
def order : Value → Value → Except RunFault (Bool × Bool)
  | .int a, .int b => .ok (decide (a < b), decide (b < a))
  | .float a, .float b => .ok (a.below b, b.below a)
  | a, b => .error (.incomparable a.kind b.kind)

/-- Carries out an operation of the host's stack machine. -/
def stackOp (m : Machine σ) (args : List Value) (i : Instruction) :
    StackOp → Except RunFault (Machine σ)
  | .loadArg => do
    let slot ← slotOf i
    match args[slot.toNat]? with
    | some v => return m.push v
    | none => throw (.noArgument slot)
  | .loadLocal => do
    let slot ← slotOf i
    match m.local? slot with
    | some v => return m.push v
    | none => throw (.unsetLocal slot)
  | .storeLocal => do
    let slot ← slotOf i
    let (v, m) ← m.pop
    return m.setLocal slot v
  | .dup => do
    let (v, _) ← m.pop
    return m.push v
  | .pop => do
    let (_, m) ← m.pop
    return m
  | .negate => do
    let (v, m) ← m.pop
    return m.push (← negated v)
  | .less => do
    let (a, b, m) ← m.pair
    return m.push (.bool (← order a b).1)
  | .greater => do
    let (a, b, m) ← m.pair
    return m.push (.bool (← order a b).2)
  | .equal => do
    let (a, b, m) ← m.pair
    return m.push (.bool (a.same b))
  | .leave => return m
  | .nop => return m

/-- The machine at the next instruction. -/
def advance (m : Machine σ) : Machine σ := { m with index := m.index + 1 }

/-- A result that may stop the run at an instruction. -/
def stopAt {α : Type} (label : Label) (x : Except RunFault α) : Except Error α :=
  x.mapError (.stopped label)

/-- Carries out an instruction that the host has no part in. -/
def execute (arithmetic : Arithmetic) (g : Orientation) (b : Body) (args : List Value)
    (m : Machine σ) (i : Instruction) : Except Error (Machine σ) :=
  match i.op with
  | .add | .subtract | .min | .max | .sign => do
    let (operands, m) ← stopAt i.label (m.take i.op.operandCount)
    let v ← arithmetic g i.label i.op operands
    return (m.push v).advance
  | .loadConstant =>
    match i.constant? with
    | some v => .ok (m.push v).advance
    | none => .error (.stopped i.label .noConstant)
  | .branch => stopAt i.label (m.branch b i)
  | .call =>
    match i.callee? with
    | some (.transform t) => do
      let (operands, m) ← stopAt i.label (m.take t.arity)
      let v ← t.compute g operands
      return (m.push v).advance
    | _ => .error (.stopped i.label .noCallee)
  | .other op => do
    let m ← stopAt i.label (m.stackOp args i op)
    return m.advance

/-- Calls a method of the host. -/
def callHost (env : Environment σ) (m : Machine σ) (label : Label) (name : String) (arity : UInt8)
    (returns : Bool) : Progress σ × List Event :=
  match m.take arity.toNat with
  | .error fault => (.halted m (.error (.stopped label fault)), [])
  | .ok (args, m) =>
    let call : HostCall := ⟨name, args⟩
    let reply := env.call m.host call
    let m := { m with calls := call :: m.calls, host := reply.host }
    match reply.result with
    | .error e => (.halted m (.error e), reply.events)
    | .ok result =>
      if returns then
        match result with
        | some v => (.running (m.push v).advance, reply.events)
        | none => (.halted m (.error (.stopped label (.returnedNothing name))), reply.events)
      else (.running m.advance, reply.events)

/-- Carries out an instruction that is not the end of the body. -/
def step (arithmetic : Arithmetic) (env : Environment σ) (b : Body) (args : List Value)
    (m : Machine σ) (i : Instruction) : Progress σ × List Event :=
  let m := { m with steps := m.steps + 1 }
  match i.callee? with
  | some (.method name arity returns) => callHost env m i.label name arity returns
  | _ =>
    match m.execute arithmetic (env.orientation m.host) b args i with
    | .ok m => (.running m, [])
    | .error e => (.halted m (.error e), [])

end Machine

/-! ### Runs -/

/-- A finished run: what it came to, how many instructions were begun, the calls that were made in
    order, and the host after them. -/
structure Run (σ : Type) where
  result : Except Error (Option Value)
  steps : Nat
  calls : List HostCall
  host : σ

namespace Machine

variable {σ : Type}

/-- The run that ends with a machine. -/
def finish (m : Machine σ) (result : Except Error (Option Value)) : Run σ :=
  ⟨result, m.steps, m.calls.reverse, m.host⟩

/-- Goes on for as many steps as are left. A run ends with the top of the stack at the end of the body
    or at an instruction that ends it; that instruction counts as a step. -/
def runFor (arithmetic : Arithmetic) (env : Environment σ) (b : Body) (args : List Value)
    (limit : Nat) : Nat → Machine σ → Run σ
  | left, m =>
    match b.get? m.index with
    | none => m.finish (.ok m.stack.head?)
    | some i =>
      match left with
      | 0 => { m with steps := m.steps + 1 }.finish (.error (.outOfSteps limit))
      | left + 1 =>
        if i.isTerminal then { m with steps := m.steps + 1 }.finish (.ok m.stack.head?)
        else
          match (m.step arithmetic env b args i).1 with
          | .running m => runFor arithmetic env b args limit left m
          | .halted m result => m.finish result

/-- What is reported of an instruction before it is carried out. -/
def traceEvent (m : Machine σ) (i : Instruction) : Event :=
  let stack := String.intercalate ", " (m.stack.reverse.map Value.trace)
  ⟨.trace, s!"{Text.padLeft 5 (toString (m.steps + 1))} {i.display} [{stack}]"⟩

/-- What is reported of a run, latest first, in front of what was reported before it: what the host
    reports and, if the run is traced, each instruction that is carried out. -/
def eventsFor (traced : Bool) (arithmetic : Arithmetic) (env : Environment σ) (b : Body)
    (args : List Value) (before : List Event) : Nat → Machine σ → List Event
  | 0, _ => before
  | left + 1, m =>
    match b.get? m.index with
    | none => before
    | some i =>
      if i.isTerminal then before
      else
        let (progress, events) := m.step arithmetic env b args i
        let after := events.reverse ++ (if traced then m.traceEvent i :: before else before)
        match progress with
        | .running m => eventsFor traced arithmetic env b args after left m
        | .halted .. => after

end Machine

namespace Body

variable {σ : Type}

/-- Runs a body with a given arithmetic. -/
def runWith (arithmetic : Arithmetic) (env : Environment σ) (limit : Nat) (b : Body)
    (args : List Value) (host : σ) : Run σ :=
  Machine.runFor arithmetic env b args limit limit (.start host)

/-- Runs a body for at most `limit` steps. -/
def run (env : Environment σ) (limit : Nat) (b : Body) (args : List Value) (host : σ) : Run σ :=
  b.runWith Arithmetic.plain env limit args host

/-- What is reported of a run. The texts of a trace are long, so there is one only if it is asked for. -/
def runEvents (traced : Bool) (env : Environment σ) (limit : Nat) (b : Body) (args : List Value)
    (host : σ) : List Event :=
  (Machine.eventsFor traced Arithmetic.plain env b args [] limit (.start host)).reverse

end Body

end Inversion
