import Inversion.Json.Form

/-!
Settings of patching, of activation and of runs.
-/

namespace Inversion

/-- What becomes of the targets that were patched before one failed. -/
inductive LoadPolicy where
  /-- They are restored: all targets are patched, or none. -/
  | transactional
  /-- They stay patched. -/
  | keepPatched
  deriving DecidableEq

/-- The settings: what happens on a failure, whether patched bodies are validated, and how many
    steps a run may take. -/
structure Config where
  loadPolicy : LoadPolicy
  validates : Bool
  maxSteps : Nat
  deriving DecidableEq

/-- The settings that hold when nothing else is said. -/
def Config.default : Config := ⟨.transactional, true, 10000⟩

instance : JsonForm LoadPolicy where
  write
    | .transactional => .text "transactional"
    | .keepPatched => .text "partial"
  read? := Json.named? [("transactional", .transactional), ("partial", .keepPatched)]

/-- Every setting may be left out. -/
instance : JsonForm Config where
  write c := .record [("load_policy", JsonForm.write c.loadPolicy),
    ("validate_branches", .bool c.validates), ("max_eval_steps", .nat c.maxSteps)]
  read? budget j := Json.enter budget fun budget => do
    match ← Json.fields? ["load_policy", "validate_branches", "max_eval_steps"] j with
    | [policy, validates, steps] =>
      return ⟨← Json.optional budget Config.default.loadPolicy policy,
        ← Json.optional budget Config.default.validates validates,
        ← Json.optional budget Config.default.maxSteps steps⟩
    | _ => none

end Inversion
