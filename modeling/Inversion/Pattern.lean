import Inversion.Pattern.Predicate

/-!
Patterns: windows of predicates, one for each of some consecutive instructions. A pattern also says
which part of its window a rule acts on, from the *anchor* on for as many instructions as it
*consumes*, and in which direction the windows are searched.
-/

namespace Inversion

/-- The direction of a search. -/
inductive Direction where
  | forward
  | backward
  deriving DecidableEq

/-- The name of a direction. -/
def Direction.name : Direction → String
  | .forward => "Forward"
  | .backward => "Backward"

/-- A window of predicates and the part of it that a rule acts on. -/
structure Pattern where
  name : String
  predicates : List Predicate
  direction : Direction
  anchor : Nat
  consume : Nat

namespace Pattern

/-- A window that is searched forward and consumed whole. -/
def window (name : String) (predicates : List Predicate) : Pattern :=
  ⟨name, predicates, .forward, 0, predicates.length⟩

/-- A window of one instruction. -/
def single (name : String) (p : Predicate) : Pattern := window name [p]

/-- The width of the window. -/
def length (p : Pattern) : Nat := p.predicates.length

/-- Puts another window behind this one; what is patched stays. -/
def append (p q : Pattern) : Pattern :=
  { p with name := s!"{p.name} + {q.name}", predicates := p.predicates ++ q.predicates }

/-- Moves the anchor, at most to the last instruction; what is consumed ends with the window. -/
def withAnchor (p : Pattern) (anchor : Nat) : Pattern :=
  let anchor := min anchor (p.length - 1)
  { p with anchor, consume := min p.consume (p.length - anchor) }

/-- Sets what is consumed: at least the anchor, at most to the end of the window. -/
def withConsume (p : Pattern) (consume : Nat) : Pattern :=
  { p with consume := min (max consume 1) (p.length - p.anchor) }

/-- Sets the direction of the search. -/
def withDirection (p : Pattern) (direction : Direction) : Pattern := { p with direction }

/-- Whether consecutive instructions from an index on pass the predicates one by one. -/
def passesFrom (instructions : List Instruction) : Nat → List Predicate → Bool
  | _, [] => true
  | index, p :: rest =>
    (Site.at? instructions index).any p.test && passesFrom instructions (index + 1) rest

/-- Whether the window that starts at an index matches. The empty window never does. -/
def matchesAt (p : Pattern) (instructions : List Instruction) (index : Nat) : Bool :=
  !p.predicates.isEmpty && decide (index + p.length ≤ instructions.length)
    && passesFrom instructions index p.predicates

end Pattern

end Inversion
