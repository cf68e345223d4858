import Inversion.Proofs.Course
import Inversion.Proofs.Soundness

/-!
What a patch leaves as it was. A patched body is what one series of exchanges makes of the given one,
so its old instructions keep their order and differ at most in where a branch leads whose target is
gone, its new ones are calls of the rules' transforms, and its length follows from the report.
-/

namespace Inversion

namespace Body

/-- An instruction as a patch leaves it: just as it was if its target is still there, or a branch to
    one of the calls that were put in if its target is gone. -/
inductive Kept (b p : Body) (i : Instruction) : Instruction → Prop where
  | same : (∀ t, i.target? = some t → t ∈ p.labels) → Kept b p i i
  | redirected {t : Label} {call : Instruction} : i.target? = some t → t ∉ p.labels →
      call ∈ p.instructions → call.label ∉ b.labels → Kept b p i (i.retargeted call.label)

theorem Series.kept {b p : Body} {es : List Exchange} (h : Series b es p) (hb : b.Sound)
    {i j : Instruction} (hi : i ∈ b.instructions) (hj : j ∈ p.instructions)
    (hji : j.label = i.label) : Kept b p i j := by
  have hp := h.exchanges.sound hb
  rcases h.survives hb hi (hji ▸ mem_labels hj) with hm | ⟨t, l, ht, hgone, hnew, hm⟩
  · obtain rfl : j = i := hp.eq_of_label_eq hj hm hji
    exact .same fun t ht => hp.target_mem hj ht
  · obtain rfl : j = i.retargeted l := hp.eq_of_label_eq hj hm hji
    have hl : l ∈ p.labels := hp.target_mem hj (by rw [Instruction.target?_retargeted, ht]; rfl)
    obtain ⟨call, hcall, rfl⟩ := List.mem_map.1 hl
    refine .redirected ht hgone hcall fun hold => ?_
    have := hb.below _ hold
    omega

end Body

/-- How many instructions more a body has for each match of a rule. -/
def Rule.growth (rule : Rule) : Int :=
  match rule.replacement with
  | .substitute _ => 1 - rule.pattern.consume
  | .append _ => 1

theorem Rule.growth_exchangeAt (rule : Rule) (w : Cursor) :
    (rule.exchangeAt w).growth = rule.growth := by
  unfold Exchange.growth exchangeAt growth displaced
  cases rule.replacement <;> rfl

namespace RuleSet

/-- How many instructions more a body has for what some rules report. -/
def growth : List Rule → List RuleOutcome → Int
  | rule :: rules, outcome :: outcomes => outcome.replaced * rule.growth + growth rules outcomes
  | _, _ => 0

theorem growthAll_windows (rule : Rule) : ∀ windows : List Cursor,
    Exchange.growthAll (windows.map rule.exchangeAt) = windows.length * rule.growth
  | [] => (Int.zero_mul _).symm
  | w :: rest => by
    rw [List.map_cons, Exchange.growthAll, growthAll_windows rule rest, Rule.growth_exchangeAt,
      List.length_cons, Int.natCast_succ, Int.add_mul, Int.one_mul, Int.add_comm]

/-- The exchanges of some passes make a body longer by what the rules' matches come to. -/
theorem growthAll_passes {passes : List (Rule × Cursor)} {outcomes : List RuleOutcome}
    (h : List.Forall₂ Reports passes outcomes) :
    Exchange.growthAll (passes.flatMap fun pass => (pass.1.windows pass.2).map pass.1.exchangeAt)
      = growth (passes.map Prod.fst) outcomes := by
  induction h with
  | nil => rfl
  | cons hr _ ih =>
    rw [List.flatMap_cons, Exchange.growthAll_append, ih, growthAll_windows, ← hr.replaced,
      List.map_cons, growth]

theorem names_reported {passes : List (Rule × Cursor)} {outcomes : List RuleOutcome}
    (h : List.Forall₂ Reports passes outcomes) :
    outcomes.map (·.rule) = (passes.map Prod.fst).map (·.name) := by
  induction h with
  | nil => rfl
  | cons hr _ ih => rw [List.map_cons, ih, hr.rule, List.map_cons, List.map_cons]

end RuleSet

namespace Engine

/-- The frame of a patch, from what its rules report. -/
structure Frame (rules : List Rule) (outcomes : List RuleOutcome) (b p : Body) : Prop where
  order : (p.labels.filter (· ∈ b.labels)).Sublist b.labels
  kept : ∀ i ∈ b.instructions, ∀ j ∈ p.instructions, j.label = i.label → b.Kept p i j
  added : ∀ j ∈ p.instructions, j.label ∉ b.labels → b.next ≤ j.label.number.toNat ∧
    ∃ rule ∈ rules, j = .transformCall j.label rule.replacement.transform
  reported : outcomes.map (·.rule) = rules.map (·.name)
  length : (p.length : Int) = b.length + RuleSet.growth rules outcomes

/-- A patch of a valid body that succeeds touches nothing but what its rules ask for. -/
theorem patch_frame {engine : Engine} {target : Method} {rules : RuleSet} {b p : Body}
    {report : Report} (hb : b.Numbered) (hv : b.validate = .ok ())
    (h : (engine.patch target rules b).outcome = .ok (p, report)) :
    Frame rules.rules report.rules b p := by
  obtain ⟨outcomes, c, hr, -, rfl, rfl⟩ := patch_eq_ok h
  obtain ⟨hrules, hreports, hseries⟩ := RuleSet.applyRules_passes hb hr
  refine ⟨hseries.order hb, fun i hi j hj hji => hseries.kept (hb.sound hv) hi hj hji, ?_, ?_, ?_⟩
  · intro j hj hl
    obtain ⟨e, he, hcall⟩ := hseries.mem_new hj hl
    obtain ⟨⟨rule, start⟩, hpass, he⟩ := List.mem_flatMap.1 he
    obtain ⟨w, -, rfl⟩ := List.mem_map.1 he
    refine ⟨?_, rule, hrules ▸ List.mem_map_of_mem hpass, hcall⟩
    exact ((hseries.exchanges.mem_labels (Body.mem_labels hj)).resolve_left hl).1
  · rw [← hrules]
    exact RuleSet.names_reported hreports
  · rw [hseries.length_eq, RuleSet.growthAll_passes hreports, hrules]
    rfl

/-- Takes out an addition and the load in front of it, and then the call that stands for them. -/
def retracingRules : RuleSet :=
  ⟨"retracing", [
    Rule.substitute "sum" ((Pattern.window "sum" [.op (.other .loadArg), .op .add]).withDirection
      .backward) .vecAdd,
    { Rule.substitute "again" (.single "again" (.callTransform .vecAdd)) .vecSub with
      reset := true }]⟩

/-- The branch leads to the call that is left, by way of the one that is not. -/
def retraced : Body :=
  ⟨[⟨⟨0⟩, .other .loadArg, [.slot 0]⟩, .transformCall ⟨7⟩ .vecSub, ⟨⟨3⟩, .other .dup, []⟩,
    ⟨⟨4⟩, .branch, [.condition .ifTrue, .target ⟨7⟩]⟩, ⟨⟨5⟩, .other .leave, []⟩], 8⟩

theorem patch_frame_retracing : ∃ report, turningBody.Numbered ∧
    turningBody.validate = .ok () ∧ ((⟨true⟩ : Engine).patch ⟨"Player", "Turn"⟩ retracingRules
      turningBody).outcome = .ok (retraced, report) ∧
    Frame retracingRules.rules report.rules turningBody retraced := by
  have hb : turningBody.Numbered := ⟨by decide, by decide⟩
  have hv : turningBody.validate = .ok () := by decide
  obtain ⟨report, h⟩ : ∃ report, ((⟨true⟩ : Engine).patch ⟨"Player", "Turn"⟩ retracingRules
      turningBody).outcome = .ok (retraced, report) := ⟨_, by cbv⟩
  exact ⟨report, hb, hv, h, patch_frame hb hv h⟩

end Engine

end Inversion
