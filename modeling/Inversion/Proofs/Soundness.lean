import Mathlib.Data.List.Permutation
import Inversion.Proofs.Pass

/-!
Patching a valid body. No rule set can break it: whatever its rules replace, in whatever order and
direction, the result is valid again. So the check behind a patch never finds anything, and a patch
fails only because of the matches that its rules ask for or because the labels are used up.
-/

namespace Inversion

namespace RuleSet

variable {target : Method} {rules : List Rule} {fresh : Bool} {c c' : Cursor}
  {outcomes : List RuleOutcome}

/-- One rule alone: its pass, and the check of how much it has patched. -/
theorem applyRules_singleton {rule : Rule} {sites : List Label}
    (h : (rule.applyFrom [] (entry fresh rule c)).outcome = .ok (sites, c')) :
    (applyRules target fresh [rule] c).outcome = (rule.checkCount target sites.length).map
      fun _ => ([⟨rule.name, sites.length, sites⟩], c') := by
  unfold applyRules
  rw [Attempt.outcome_bind, Attempt.outcome_adapt]
  unfold entry at h
  rw [h]
  show Attempt.outcome _ = _
  rw [Attempt.outcome_bind, Attempt.outcome_of]
  cases rule.checkCount target sites.length <;> rfl

theorem applyRules_sound (hc : c.body.Sound)
    (h : (applyRules target fresh rules c).outcome = .ok (outcomes, c')) : c'.body.Sound :=
  (applyRules_exchanges hc.toNumbered h).sound hc

end RuleSet

/-- The check of a sound body has nothing to say. -/
theorem Body.Sound.check_adapt {b : Body} (h : b.Sound) :
    b.check.adapt Error.body = (pure () : Attempt Error Unit) := by
  have hr : firstRepeated [] b.labels = none := (firstRepeated_eq_none _ _).2 ⟨h.nodup, by simp⟩
  have hf : b.branchFaults = [] := by
    simpa only [branchFaults, List.filterMap_eq_nil_iff, branchFault?_eq_none] using h.resolves
  have he : b.validityEvents = [] := by
    unfold validityEvents
    rw [hr, hf]
  unfold Body.check
  rw [he, h.validate]
  rfl

namespace Engine

/-- One rule alone patches a valid body if its pass succeeds and has as many matches as it asks for. -/
theorem patch_singleton {engine : Engine} {target : Method} {name : String} {rule : Rule} {b : Body}
    {sites : List Label} {c : Cursor} (hb : b.Sound)
    (h : (rule.applyFrom [] (rule.start (.ofBody b))).outcome = .ok (sites, c)) :
    (engine.patch target ⟨name, [rule]⟩ b).outcome = (rule.checkCount target sites.length).map
      fun _ => (c.body, ⟨target.display, name, [⟨rule.name, sites.length, sites⟩]⟩) := by
  have hrules : (RuleSet.applyRules target true [rule] (.ofBody b)).outcome = _ :=
    RuleSet.applyRules_singleton h
  unfold patch
  rw [Attempt.outcome_bind, hrules]
  cases hcheck : rule.checkCount target sites.length with
  | error e => rfl
  | ok _ =>
    rw [hcheck] at hrules
    have hsound : c.body.Sound := RuleSet.applyRules_sound (c := .ofBody b) hb hrules
    cases hval : engine.validates with
    | false => rfl
    | true =>
      show Attempt.outcome _ = _
      simp only [if_true, hsound.check_adapt]
      rfl

/-- Patching a valid body with rules that act inside their windows: what the rules make of it is
    valid, checking it makes no difference, and every error is one of the matches or of the labels. -/
theorem patch_of_valid {b : Body} (hb : b.Numbered) (hv : b.validate = .ok ()) (target : Method)
    (rules : RuleSet) (hfit : ∀ rule ∈ rules.rules, rule.Fits) :
    (∀ outcomes c,
        (RuleSet.applyRules target true rules.rules (.ofBody b)).outcome = .ok (outcomes, c) →
          c.body.validate = .ok ()) ∧
      (⟨true⟩ : Engine).patch target rules b = (⟨false⟩ : Engine).patch target rules b ∧
      ∀ (engine : Engine) (e : Error), (engine.patch target rules b).outcome = .error e →
        RuleSet.Failure target rules.rules e := by
  have hs : b.Sound := hb.sound hv
  have hsound : ∀ outcomes c,
      (RuleSet.applyRules target true rules.rules (.ofBody b)).outcome = .ok (outcomes, c) →
      c.body.Sound := fun outcomes c h => RuleSet.applyRules_sound hs h
  refine ⟨fun outcomes c h => (hsound outcomes c h).validate, ?_, ?_⟩
  · refine Attempt.bind_congr_of_ok fun ⟨outcomes, c⟩ h => ?_
    simp only [if_true, (hsound outcomes c h).check_adapt]
    rfl
  · intro engine e h
    rcases patch_eq_error h with hr | ⟨outcomes, c, e', hr, he⟩
    · exact RuleSet.applyRules_failure hb hfit hr
    · rw [(hsound outcomes c hr).validate] at he
      cases he

/-- A branch back into what the first of the rules below takes out. -/
def turningBody : Body :=
  ⟨[⟨⟨0⟩, .other .loadArg, [.slot 0]⟩, ⟨⟨1⟩, .other .loadArg, [.slot 1]⟩, ⟨⟨2⟩, .add, []⟩,
    ⟨⟨3⟩, .other .dup, []⟩, ⟨⟨4⟩, .branch, [.condition .ifTrue, .target ⟨2⟩]⟩,
    ⟨⟨5⟩, .other .leave, []⟩], 6⟩

/-- Takes out an addition and the load in front of it, searching backward, and puts another call
    behind the one that stands for them. -/
def turningRules : RuleSet :=
  ⟨"turning", [
    Rule.substitute "sum" ((Pattern.window "sum" [.op (.other .loadArg), .op .add]).withDirection
      .backward) .vecAdd,
    { Rule.append "turn" (.single "turn" (.callTransform .vecAdd)) .negateY with
      occurrence := .exactly 1, reset := true }]⟩

/-- The branch leads to the first of the calls. -/
def turned : Body :=
  ⟨[⟨⟨0⟩, .other .loadArg, [.slot 0]⟩, .transformCall ⟨6⟩ .vecAdd, .transformCall ⟨7⟩ .negateY,
    ⟨⟨3⟩, .other .dup, []⟩, ⟨⟨4⟩, .branch, [.condition .ifTrue, .target ⟨6⟩]⟩,
    ⟨⟨5⟩, .other .leave, []⟩], 8⟩

theorem patch_of_valid_turning : turningBody.Numbered ∧ turningBody.validate = .ok () ∧
    (∀ rule ∈ turningRules.rules, rule.Fits) ∧
    (∃ outcomes index, (RuleSet.applyRules ⟨"Player", "Turn"⟩ true turningRules.rules
      (.ofBody turningBody)).outcome = .ok (outcomes, ⟨turned, index, some ⟨7⟩⟩)) ∧
    turned.validate = .ok () ∧
    (⟨true⟩ : Engine).patch ⟨"Player", "Turn"⟩ turningRules turningBody
      = (⟨false⟩ : Engine).patch ⟨"Player", "Turn"⟩ turningRules turningBody ∧
    ∀ (engine : Engine) (e : Error),
      (engine.patch ⟨"Player", "Turn"⟩ turningRules turningBody).outcome = .error e →
        RuleSet.Failure ⟨"Player", "Turn"⟩ turningRules.rules e := by
  have hb : turningBody.Numbered := ⟨by decide, by decide⟩
  have hv : turningBody.validate = .ok () := by decide
  have hfit : ∀ rule ∈ turningRules.rules, rule.Fits := by decide
  obtain ⟨outcomes, index, h⟩ : ∃ outcomes index, (RuleSet.applyRules ⟨"Player", "Turn"⟩ true
      turningRules.rules (.ofBody turningBody)).outcome
        = .ok (outcomes, ⟨turned, index, some ⟨7⟩⟩) := ⟨_, _, by cbv⟩
  obtain ⟨hvalid, hsame, herror⟩ := patch_of_valid hb hv ⟨"Player", "Turn"⟩ turningRules hfit
  exact ⟨hb, hv, hfit, ⟨outcomes, index, h⟩, hvalid _ _ h, hsame, herror⟩

end Engine

end Inversion
