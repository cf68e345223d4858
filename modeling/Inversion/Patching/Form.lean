import Inversion.Patching
import Inversion.Instruction.Form

/-!
The JSON form of reports.
-/

namespace Inversion

instance : JsonForm RuleOutcome where
  write o := .record [("rule", .text o.rule), ("replaced", .nat o.replaced),
    ("sites", JsonForm.write o.sites)]
  read? budget j := Json.enter budget fun budget => do
    match ← Json.fields? ["rule", "replaced", "sites"] j with
    | [rule, replaced, sites] =>
      return ⟨← Json.required budget rule, ← Json.required budget replaced,
        ← Json.required budget sites⟩
    | _ => none

instance : JsonForm Report where
  write r := .record [("target", .text r.target), ("rule_set", .text r.ruleSet),
    ("rules", JsonForm.write r.rules)]
  read? budget j := Json.enter budget fun budget => do
    match ← Json.fields? ["target", "rule_set", "rules"] j with
    | [target, ruleSet, rules] =>
      return ⟨← Json.required budget target, ← Json.required budget ruleSet,
        ← Json.required budget rules⟩
    | _ => none

/-- The text of a report. -/
def Report.render (r : Report) : String := (JsonForm.write r).pretty

end Inversion
