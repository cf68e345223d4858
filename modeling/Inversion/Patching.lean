import Inversion.Cursor
import Inversion.Rule
import Inversion.Error
import Inversion.Body.Validity
import Inversion.Config

/-!
Applying rules to a body. The rules work on one cursor, each from where the one before it stopped or,
with `reset`, from the start. A rule that searches forward never returns to what it has inserted
itself. The result is a new body together with a report of what was patched, or an error; the body
that was given stays as it was.
-/

namespace Inversion

/-- What one rule has done. A site is the instruction that stood at the anchor. -/
structure RuleOutcome where
  rule : String
  replaced : Nat
  sites : List Label
  deriving DecidableEq

/-- What a rule set has done to a target. -/
structure Report where
  target : String
  ruleSet : String
  rules : List RuleOutcome
  deriving DecidableEq

/-- How many matches were patched in all. -/
def Report.total (r : Report) : Nat := r.rules.foldr (fun outcome n => outcome.replaced + n) 0

namespace Rule

/-- Patches the window that starts at the cursor. -/
def patchWindow (rule : Rule) (c : Cursor) : Except BodyError (List Event × Cursor) :=
  match rule.replacement with
  | .substitute t => do
    let c ← c.goto (c.index + rule.pattern.anchor)
    let (_, c) ← c.insertCall t
    let (removal, c) ← c.remove rule.pattern.consume
    return (removal.events, c)
  | .append t => do
    let c ← c.goto (c.index + rule.pattern.anchor + 1)
    let (_, c) ← c.insertCall t
    return ([], c)

/-- Whether so many patches are as many as the rule may do. -/
def isSated (rule : Rule) (count : Nat) : Bool := rule.occurrence.limit?.any (· ≤ count)

end Rule

/-- Patching a window uses up a label. -/
theorem Rule.patchWindow_unused {rule : Rule} {c c' : Cursor} {events : List Event}
    (h : rule.patchWindow c = .ok (events, c')) : c'.body.unused < c.body.unused := by
  unfold Rule.patchWindow at h
  split at h
  · cases hg : c.goto (c.index + rule.pattern.anchor) with
    | error e => rw [hg] at h; cases h
    | ok c₁ =>
      rename_i t _
      rw [hg] at h
      simp only [bind, Except.bind] at h
      cases hi : c₁.insertCall t with
      | error e => rw [hi] at h; cases h
      | ok p =>
        rw [hi] at h
        simp only at h
        cases hr : p.2.remove rule.pattern.consume with
        | error e => rw [hr] at h; cases h
        | ok q =>
          rw [hr] at h
          cases h
          have h₁ := Cursor.insert_unused hi
          have h₂ := Cursor.remove_next hr
          rw [Cursor.goto_body hg] at h₁
          simpa only [Body.unused, h₂] using h₁
  · cases hg : c.goto (c.index + rule.pattern.anchor + 1) with
    | error e => rw [hg] at h; cases h
    | ok c₁ =>
      rename_i t _
      rw [hg] at h
      simp only [bind, Except.bind] at h
      cases hi : c₁.insertCall t with
      | error e => rw [hi] at h; cases h
      | ok p =>
        rw [hi] at h
        cases h
        have h₁ := Cursor.insert_unused hi
        rwa [Cursor.goto_body hg] at h₁

namespace Rule

/-- Patches match after match from the cursor on, in the direction of the pattern, until there is no
    further one or the rule is sated. A backward search goes on in front of the window. -/
def applyFrom (rule : Rule) (sites : List Label) (c : Cursor) :
    Attempt BodyError (List Label × Cursor) :=
  if rule.isSated sites.length then pure (sites, c)
  else
    match _hs : c.seek? rule.pattern rule.pattern.direction with
    | none => pure (sites, c)
    | some found => do
      Attempt.tell (Cursor.foundEvent rule.pattern rule.pattern.direction found)
      match found.body.get? (found.index + rule.pattern.anchor) with
      | none => pure (sites, found)
      | some site =>
        match _hw : rule.patchWindow found with
        | .error e => throw e
        | .ok (events, after) => do
          Attempt.tellAll events
          let sites := sites ++ [site.label]
          match rule.pattern.direction with
          | .forward => rule.applyFrom sites after
          | .backward =>
            if found.index = 0 then pure (sites, after)
            else
              match _hg : after.goto (found.index - 1) with
              | .error e => throw e
              | .ok next => rule.applyFrom sites next
termination_by c.body.unused
decreasing_by
  all_goals
    have hu := patchWindow_unused _hw
    rw [Cursor.seek?_body _hs] at hu
  · exact hu
  · rw [Cursor.goto_body _hg]
    exact hu

/-- The cursor where the search of a rule begins. -/
def start (rule : Rule) (c : Cursor) : Cursor :=
  match rule.pattern.direction with
  | .forward => c.reset
  | .backward => c.gotoEnd

/-- Checks the number of matches. -/
def checkCount (rule : Rule) (target : Method) (found : Nat) : Except Error Unit :=
  if rule.occurrence.accepts found then .ok ()
  else
    match rule.occurrence with
    | .first | .all _ => .error (.noMatch rule.name target)
    | .exactly _ | .atMost _ =>
      .error (.wrongCount rule.name target rule.occurrence.display found)

end Rule

namespace RuleOutcome

/-- What is reported of a rule. -/
def event (o : RuleOutcome) : Event :=
  let sites := String.intercalate ", " (o.sites.map Label.trace)
  ⟨.debug, s!"  {Text.padRight 28 o.rule} {o.replaced} site(s) [{sites}]"⟩

end RuleOutcome

namespace RuleSet

/-- Applies rules one after the other. `fresh` says that no rule has been applied yet. -/
def applyRules (target : Method) : Bool → List Rule → Cursor →
    Attempt Error (List RuleOutcome × Cursor)
  | _, [], c => pure ([], c)
  | fresh, rule :: rest, c => do
    let c := if fresh || rule.reset then rule.start c else c
    let (sites, c) ← (rule.applyFrom [] c).adapt Error.body
    Attempt.of (rule.checkCount target sites.length)
    let outcome : RuleOutcome := ⟨rule.name, sites.length, sites⟩
    Attempt.tell outcome.event
    let (outcomes, c) ← applyRules target false rest c
    return (outcome :: outcomes, c)

end RuleSet

/-- The way bodies are patched: whether the result is validated. -/
structure Engine where
  validates : Bool
  deriving DecidableEq

namespace Engine

/-- An engine as the settings want it. -/
def ofConfig (config : Config) : Engine := ⟨config.validates⟩

/-- Patches a body. -/
def patch (e : Engine) (target : Method) (rules : RuleSet) (b : Body) :
    Attempt Error (Body × Report) := do
  let (outcomes, c) ← RuleSet.applyRules target true rules.rules (.ofBody b)
  if e.validates then c.body.check.adapt Error.body
  let report : Report := ⟨target.display, rules.name, outcomes⟩
  Attempt.tell ⟨.info, s!"rewrote {target.display} with `{rules.name}`: {report.total} site(s), {b.length} -> {c.body.length} instructions"⟩
  return (c.body, report)

/-- Patches a body in place. The work is done on a copy, which takes the place of the body in the end. -/
def patchInPlace (e : Engine) (target : Method) (rules : RuleSet) : EStateM Error Body Report := do
  let b ← get
  let (p, report) ← MonadExcept.ofExcept (e.patch target rules b).outcome
  set p
  return report

end Engine

end Inversion
