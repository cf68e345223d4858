import Inversion.Proofs.Soundness

/-!
Rule sets in parts. Rules hand on a cursor, and a rule that resets takes nothing from it but the body.
So a rule set can be cut in front of such a rule: patching a valid body with the whole set is patching
it with the first part and patching the result with the second one. The check between the two makes no
difference, as it never finds anything.
-/

namespace Inversion

namespace RuleSet

variable {target : Method} {fresh : Bool} {rule : Rule} {rest : List Rule} {c : Cursor}

/-- One rule and then the others, each with what it comes to. -/
theorem applyRules_cons_outcome_eq (target : Method) (fresh : Bool) (rule : Rule) (rest : List Rule)
    (c : Cursor) : (applyRules target fresh (rule :: rest) c).outcome = (do
      let (sites, after) ← (rule.applyFrom [] (entry fresh rule c)).outcome.mapError Error.body
      rule.checkCount target sites.length
      let (others, last) ← (applyRules target false rest after).outcome
      return (⟨rule.name, sites.length, sites⟩ :: others, last)) := by
  rw [applyRules]
  simp only [Attempt.outcome_bind, Attempt.outcome_adapt, Attempt.outcome_of, Attempt.outcome_tell,
    Attempt.outcome_pure]
  rfl

/-- Rules that are applied after others go on where those have stopped. -/
theorem applyRules_append (target : Method) (later : List Rule) : ∀ (rules : List Rule) (fresh : Bool)
    (c : Cursor), (applyRules target fresh (rules ++ later) c).outcome = (do
      let (first, between) ← (applyRules target fresh rules c).outcome
      let (second, last) ← (applyRules target (fresh && rules.isEmpty) later between).outcome
      return (first ++ second, last))
  | [], fresh, c => by
    have hnone : (applyRules target fresh [] c).outcome = .ok ([], c) := rfl
    rw [hnone, List.isEmpty_nil, Bool.and_true, List.nil_append]
    show _ = (applyRules target fresh later c).outcome >>= pure
    rw [bind_pure]
  | rule :: rest, fresh, c => by
    rw [List.cons_append, applyRules_cons_outcome_eq, applyRules_cons_outcome_eq, List.isEmpty_cons,
      Bool.and_false]
    simp only [applyRules_append target later rest false, Bool.false_and, bind_assoc, pure_bind,
      List.cons_append]

/-- A rule that resets starts anew, wherever the rules before it have stopped. -/
theorem applyRules_of_reset (hreset : rule.reset = true) :
    applyRules target false (rule :: rest) c
      = applyRules target true (rule :: rest) (.ofBody c.body) := by
  have hstart : rule.start c = rule.start (.ofBody c.body) := by
    unfold Rule.start
    cases rule.pattern.direction <;> rfl
  unfold applyRules
  rw [hreset, hstart]
  rfl

end RuleSet

namespace Engine

variable {engine : Engine} {target : Method} {b : Body} {rules later : List Rule} {rule : Rule}

/-- What the rules make of a valid body is the result of the patch, whether it is checked or not. -/
theorem patch_outcome (hb : b.Sound) (engine : Engine) (target : Method) (rules : RuleSet) :
    (engine.patch target rules b).outcome = (do
      let (outcomes, c) ← (RuleSet.applyRules target true rules.rules (.ofBody b)).outcome
      return (c.body, ⟨target.display, rules.name, outcomes⟩)) := by
  unfold patch
  rw [Attempt.outcome_bind]
  cases hr : (RuleSet.applyRules target true rules.rules (.ofBody b)).outcome with
  | error e => rfl
  | ok x =>
    obtain ⟨outcomes, c⟩ := x
    have hsound : c.body.Sound := RuleSet.applyRules_sound (c := .ofBody b) hb hr
    show Attempt.outcome _ = _
    cases hval : engine.validates with
    | false => rfl
    | true =>
      simp only [if_true, hsound.check_adapt]
      rfl

/-- A rule set is cut in front of a rule that resets. -/
theorem patch_append (hb : b.Sound) (hreset : rule.reset = true) (name first second : String) :
    (engine.patch target ⟨name, rules ++ rule :: later⟩ b).outcome = (do
      let (b₁, r₁) ← (engine.patch target ⟨first, rules⟩ b).outcome
      let (b₂, r₂) ← (engine.patch target ⟨second, rule :: later⟩ b₁).outcome
      return (b₂, ⟨target.display, name, r₁.rules ++ r₂.rules⟩)) := by
  rw [patch_outcome hb, patch_outcome hb, RuleSet.applyRules_append]
  cases hr : (RuleSet.applyRules target true rules (.ofBody b)).outcome with
  | error e => rfl
  | ok x =>
    obtain ⟨outcomes, c⟩ := x
    have hsound : c.body.Sound := RuleSet.applyRules_sound (c := .ofBody b) hb hr
    -- the second part starts anew whether or not there are rules in front of it
    have hanew : RuleSet.applyRules target (true && rules.isEmpty) (rule :: later) c
        = RuleSet.applyRules target true (rule :: later) (.ofBody c.body) := by
      cases rules with
      | nil =>
        cases hr
        rfl
      | cons _ _ => exact RuleSet.applyRules_of_reset hreset
    have hok : (Except.ok (outcomes, c) : Except Error _) = pure (outcomes, c) := rfl
    simp only [hok, pure_bind, bind_assoc, hanew, patch_outcome hsound]

theorem patchInPlace_run (engine : Engine) (target : Method) (rules : RuleSet) (b : Body) :
    (engine.patchInPlace target rules).run b = match (engine.patch target rules b).outcome with
      | .error e => .error e b
      | .ok (p, report) => .ok report p := by
  unfold patchInPlace
  simp only [EStateM.run_bind, EStateM.run_get]
  cases (engine.patch target rules b).outcome <;> rfl

/-- Patching a valid body in place with a rule set that is cut in front of a rule that resets. It fails
    as the first part does on the body or as the second one does on what the first has made of it, and
    then the body is left as it was. Otherwise it comes to the same body, with the same labels given out,
    and to what the first part reports followed by what the second one does. -/
theorem patchInPlace_append (hb : b.Numbered) (hv : b.validate = .ok ()) (hreset : rule.reset = true)
    (name first second : String) :
    (engine.patchInPlace target ⟨name, rules ++ rule :: later⟩).run b =
      match (engine.patchInPlace target ⟨first, rules⟩).run b with
      | .error e _ => .error e b
      | .ok r₁ b₁ =>
        match (engine.patchInPlace target ⟨second, rule :: later⟩).run b₁ with
        | .error e _ => .error e b
        | .ok r₂ b₂ => .ok ⟨target.display, name, r₁.rules ++ r₂.rules⟩ b₂ := by
  rw [patchInPlace_run, patchInPlace_run, patch_append (hb.sound hv) hreset name first second]
  cases (engine.patch target ⟨first, rules⟩ b).outcome with
  | error e => rfl
  | ok x =>
    obtain ⟨b₁, r₁⟩ := x
    have hok : (Except.ok (b₁, r₁) : Except Error _) = pure (b₁, r₁) := rfl
    simp only [hok, pure_bind, patchInPlace_run]
    cases (engine.patch target ⟨second, rule :: later⟩ b₁).outcome <;> rfl

/-- Takes out an addition and the load in front of it, searching backward. -/
def sumBackward : Rule :=
  Rule.substitute "sum" ((Pattern.window "sum" [.op (.other .loadArg), .op .add]).withDirection
    .backward) .vecAdd

/-- Puts another call behind each one of so many that stand for a sum. -/
def turnAgain (count : Nat) : Rule :=
  { Rule.append "turn" (.single "turn" (.callTransform .vecAdd)) .negateY with
    occurrence := .exactly count, reset := true }

/-- The first part searches backward and leaves the cursor behind the call that the second part is
    looking for. If the second part asks for two calls it fails, and the body is not the one that the
    first part has made. -/
theorem patchInPlace_append_turning : turningBody.Numbered ∧ turningBody.validate = .ok () ∧
    (∀ count, (turnAgain count).reset = true) ∧
    ∃ b₁ r₁ r₂, b₁ ≠ turningBody ∧
      ((⟨true⟩ : Engine).patchInPlace ⟨"Player", "Turn"⟩ ⟨"sum", [sumBackward]⟩).run turningBody
        = .ok r₁ b₁ ∧
      ((⟨true⟩ : Engine).patchInPlace ⟨"Player", "Turn"⟩ ⟨"turn", [turnAgain 1]⟩).run b₁
        = .ok r₂ turned ∧
      ((⟨true⟩ : Engine).patchInPlace ⟨"Player", "Turn"⟩ ⟨"both", [sumBackward, turnAgain 1]⟩).run
        turningBody = .ok ⟨"Player::Turn", "both", r₁.rules ++ r₂.rules⟩ turned ∧
      ((⟨true⟩ : Engine).patchInPlace ⟨"Player", "Turn"⟩ ⟨"both", [sumBackward, turnAgain 2]⟩).run
        turningBody = .error (.wrongCount "turn" ⟨"Player", "Turn"⟩ "exactly 2" 1) turningBody := by
  have hb : turningBody.Numbered := ⟨by decide, by decide⟩
  have hv : turningBody.validate = .ok () := by decide
  obtain ⟨b₁, r₁, hne, hfirst, ⟨r₂, hsecond⟩, htwo⟩ : ∃ b₁ r₁, b₁ ≠ turningBody ∧
      ((⟨true⟩ : Engine).patchInPlace ⟨"Player", "Turn"⟩ ⟨"sum", [sumBackward]⟩).run turningBody
        = .ok r₁ b₁ ∧
      (∃ r₂, ((⟨true⟩ : Engine).patchInPlace ⟨"Player", "Turn"⟩ ⟨"turn", [turnAgain 1]⟩).run b₁
        = .ok r₂ turned) ∧
      ((⟨true⟩ : Engine).patchInPlace ⟨"Player", "Turn"⟩ ⟨"turn", [turnAgain 2]⟩).run b₁
        = .error (.wrongCount "turn" ⟨"Player", "Turn"⟩ "exactly 2" 1) b₁ :=
    ⟨⟨[⟨⟨0⟩, .other .loadArg, [.slot 0]⟩, .transformCall ⟨6⟩ .vecAdd, ⟨⟨3⟩, .other .dup, []⟩,
      ⟨⟨4⟩, .branch, [.condition .ifTrue, .target ⟨6⟩]⟩, ⟨⟨5⟩, .other .leave, []⟩], 7⟩, _,
      by decide, by rw [patchInPlace_run]; cbv, ⟨_, by rw [patchInPlace_run]; cbv⟩,
      by rw [patchInPlace_run]; cbv⟩
  refine ⟨hb, hv, fun _ => rfl, b₁, r₁, r₂, hne, hfirst, hsecond, ?_, ?_⟩
  · have h : ((⟨true⟩ : Engine).patchInPlace ⟨"Player", "Turn"⟩
        ⟨"both", [sumBackward] ++ [turnAgain 1]⟩).run turningBody = _ :=
      patchInPlace_append hb hv rfl "both" "sum" "turn"
    rw [hfirst] at h
    dsimp only at h
    rw [hsecond] at h
    exact h
  · have h : ((⟨true⟩ : Engine).patchInPlace ⟨"Player", "Turn"⟩
        ⟨"both", [sumBackward] ++ [turnAgain 2]⟩).run turningBody = _ :=
      patchInPlace_append hb hv rfl "both" "sum" "turn"
    rw [hfirst] at h
    dsimp only at h
    rw [htwo] at h
    exact h

end Engine

end Inversion
