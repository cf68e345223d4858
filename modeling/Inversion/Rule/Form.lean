import Inversion.Rule
import Inversion.Instruction.Form

/-!
The JSON form of what rules are made of.
-/

namespace Inversion

instance : JsonForm Direction where
  write
    | .forward => .text "forward"
    | .backward => .text "backward"
  read? := Json.named? [("forward", .forward), ("backward", .backward)]

/-- Reads whether no match is enough; not unless it is said. -/
def Occurrence.readAll? : Option (Nat × Json) → Option Occurrence
  | some (budget, content) => Json.enter budget fun budget => do
    match ← Json.fields? ["allow_zero"] content with
    | [allowZero] => return .all (← Json.optional budget false allowZero)
    | _ => none
  | none => none

instance : JsonForm Occurrence where
  write
    | .first => .text "first"
    | .all allowZero => .record [("all", .record [("allow_zero", .bool allowZero)])]
    | .exactly n => .record [("exactly", .nat n)]
    | .atMost n => .record [("at_most", .nat n)]
  read? budget j := Json.case? budget (fun name content =>
    match name with
    | "first" => Json.bare Occurrence.first content
    | "all" => Occurrence.readAll? content
    | "exactly" => Json.holding Occurrence.exactly content
    | "at_most" => Json.holding Occurrence.atMost content
    | _ => none) j

instance : JsonForm Replacement where
  write
    | .substitute t => .record [("substitute", JsonForm.write t)]
    | .append t => .record [("append", JsonForm.write t)]
  read? budget j := Json.case? budget (fun name content =>
    match name with
    | "substitute" => Json.holding Replacement.substitute content
    | "append" => Json.holding Replacement.append content
    | _ => none) j

end Inversion
