import Inversion.Pattern

/-!
Patch rules: what is searched for, what is done with it, and how often it must be found.
-/

namespace Inversion

/-- How many matches a rule asks for. -/
inductive Occurrence where
  /-- The first match is patched; there must be one. -/
  | first
  /-- Every match is patched; unless `allowZero` is set there must be one. -/
  | all (allowZero : Bool)
  /-- Every match is patched; there must be exactly so many. -/
  | exactly (n : Nat)
  /-- Every match is patched; there must not be more. -/
  | atMost (n : Nat)
  deriving DecidableEq

namespace Occurrence

/-- The most matches that are patched, if there is a bound. -/
def limit? : Occurrence → Option Nat
  | first => some 1
  | _ => none

/-- Whether so many patched matches are what is asked for. -/
def accepts : Occurrence → Nat → Bool
  | first, found => found = 1
  | all allowZero, found => allowZero || decide (0 < found)
  | exactly n, found => found = n
  | atMost n, found => decide (found ≤ n)

/-- The text of a requirement. -/
def display : Occurrence → String
  | first => "1"
  | all true => "any number of"
  | all false => "at least 1"
  | exactly n => s!"exactly {n}"
  | atMost n => s!"at most {n}"

end Occurrence

/-- What is done with a match. -/
inductive Replacement where
  /-- What the pattern consumes gives way to a call of the transform. -/
  | substitute (t : Transform)
  /-- A call of the transform is put behind the anchor. -/
  | append (t : Transform)
  deriving DecidableEq

namespace Replacement

/-- The transform that is called. -/
def transform : Replacement → Transform
  | substitute t => t
  | append t => t

/-- A replacement as it is shown in descriptions. -/
def trace : Replacement → String
  | substitute t => s!"Substitute({t.name})"
  | append t => s!"Append({t.name})"

end Replacement

/-- A patch rule. A rule with `reset` starts its search at the end of the body where its pattern
    begins, any other where the rule before it stopped. -/
structure Rule where
  name : String
  pattern : Pattern
  replacement : Replacement
  occurrence : Occurrence
  reset : Bool

namespace Rule

/-- A rule that substitutes the first match. -/
def substitute (name : String) (pattern : Pattern) (t : Transform) : Rule :=
  ⟨name, pattern, .substitute t, .first, false⟩

/-- A rule that puts a call behind the first match. -/
def append (name : String) (pattern : Pattern) (t : Transform) : Rule :=
  ⟨name, pattern, .append t, .first, false⟩

end Rule

/-- Rules that are applied in order. -/
structure RuleSet where
  name : String
  rules : List Rule

end Inversion
