import Inversion.Body
import Inversion.Event

/-!
Valid bodies: labels differ, and every branch has a target that is the label of an instruction. The
check reports every faulty branch and answers with the first fault.
-/

namespace Inversion

namespace Body

/-- What is wrong with a branch, if it is one and anything is. -/
def branchFault? (labels : List Label) (i : Instruction) : Option BodyError :=
  if i.isBranch then
    match i.target? with
    | none => some (.noTarget i.label)
    | some target => if target ∈ labels then none else some (.missingTarget i.label target)
  else none

/-- What is wrong with the branches of a body, in order. -/
def branchFaults (b : Body) : List BodyError := b.instructions.filterMap (branchFault? b.labels)

/-- Checks a body. -/
def validate (b : Body) : Except BodyError Unit :=
  match firstRepeated [] b.labels with
  | some l => .error (.repeatedLabel l)
  | none =>
    match b.branchFaults with
    | [] => .ok ()
    | fault :: _ => .error fault

/-- What is reported of a faulty branch. -/
def faultEvent : BodyError → Event
  | .noTarget branch => ⟨.debug, s!"branch {branch} has no target operand"⟩
  | .missingTarget branch target =>
    ⟨.debug, s!"branch {branch} targets missing instruction {target}"⟩
  | other => ⟨.debug, other.message⟩

/-- What is reported of a body that is checked: each faulty branch, then their number. -/
def validityEvents (b : Body) : List Event :=
  match firstRepeated [] b.labels, b.branchFaults with
  | some _, _ => []
  | none, [] => []
  | none, faults => faults.map faultEvent ++ [⟨.debug, s!"found {faults.length} invalid branch(es)"⟩]

/-- Checks a body and reports its faults. -/
def check (b : Body) : Attempt BodyError Unit := do
  Attempt.tellAll b.validityEvents
  Attempt.of b.validate

end Body

end Inversion
