import Inversion.Pattern

/-!
Searching for windows. A search reports where the window starts, the same way in either direction.
-/

namespace Inversion.Pattern

/-- The candidates of a search in order: places where the window fits, from `start` on. -/
def candidates (p : Pattern) (length start : Nat) : Direction → List Nat
  | .forward => List.range' start (length + 1 - p.length - start)
  | .backward => (List.range (min start (length - p.length) + 1)).reverse

/-- The first match from `start` on, that place included. -/
def findNext (p : Pattern) (instructions : List Instruction) (start : Nat) (d : Direction) :
    Option Nat :=
  if p.length = 0 ∨ instructions.length < p.length then none
  else (p.candidates instructions.length start d).find? (p.matchesAt instructions)

/-- A match found forward lies at or behind the start of the search, and inside. -/
theorem findNext_forward_bounds {p : Pattern} {instructions : List Instruction} {start i : Nat}
    (h : p.findNext instructions start .forward = some i) :
    0 < p.length ∧ start ≤ i ∧ i + p.length ≤ instructions.length := by
  unfold findNext at h
  split at h
  · exact absurd h (by simp)
  · rename_i hw
    have hi := List.mem_of_find?_eq_some h
    simp only [candidates, List.mem_range'_1] at hi
    omega

/-- Matches from `start` on that do not overlap, each the first behind the one before. -/
def findAllFrom (p : Pattern) (instructions : List Instruction) (start : Nat) : List Nat :=
  match _h : p.findNext instructions start .forward with
  | none => []
  | some i => i :: findAllFrom p instructions (i + p.length)
termination_by instructions.length - start
decreasing_by
  have := findNext_forward_bounds _h
  omega

/-- Matches that do not overlap, front to back. -/
def findAll (p : Pattern) (instructions : List Instruction) : List Nat :=
  p.findAllFrom instructions 0

/-- How many matches there are that do not overlap. -/
def countMatches (p : Pattern) (instructions : List Instruction) : Nat :=
  (p.findAll instructions).length

end Inversion.Pattern
