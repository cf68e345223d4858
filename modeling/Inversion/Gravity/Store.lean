import Inversion.Gravity.Transition

/-!
Saved states of gravity: a snapshot is the orientation together with the changes that still wait, and
a store keeps texts under keys.
-/

namespace Inversion

/-- Why a state of gravity is not saved or restored. -/
inductive GravityError where
  /-- Listeners are being told of a transition. -/
  | duringFanOut
  /-- A store takes nothing under the empty key. -/
  | emptyKey
  /-- A saved text is not the JSON of a snapshot. -/
  | json
  deriving DecidableEq

/-- The message of an error. -/
def GravityError.message : GravityError → String
  | .duringFanOut => "cannot restore gravity state during listener fan-out"
  | .emptyKey => "state store error: empty key"
  | .json => "serialization error"

/-- What is saved of gravity. -/
structure Snapshot where
  orientation : Orientation
  pending : List Change
  deriving DecidableEq

/-- The waiting changes may be left out. -/
instance : JsonForm Snapshot where
  write s := .record [("orientation", JsonForm.write s.orientation),
    ("pending", JsonForm.write s.pending)]
  read? budget j := Json.enter budget fun budget => do
    match ← Json.fields? ["orientation", "pending"] j with
    | [orientation, pending] =>
      return ⟨← Json.required budget orientation, ← Json.optional budget [] pending⟩
    | _ => none

namespace Snapshot

/-- The text of a snapshot. -/
def render (s : Snapshot) : String := (JsonForm.write s).line

/-- Reads a snapshot. -/
def parse (text : String) : Except GravityError Snapshot :=
  match Json.read? text with
  | some s => .ok s
  | none => .error .json

/-- Equality of lists of changes, one by one. -/
def sameChanges : List Change → List Change → Bool
  | [], [] => true
  | a :: as, b :: bs => a.same b && sameChanges as bs
  | _, _ => false

/-- Equality of snapshots, with momenta compared as numbers. -/
def same (a b : Snapshot) : Bool :=
  decide (a.orientation = b.orientation) && sameChanges a.pending b.pending

end Snapshot

/-- Texts under keys; no key stands twice. -/
structure Store where
  entries : List (String × String)

namespace Store

/-- A store without texts. -/
def empty : Store := ⟨[]⟩

/-- The key under which the state of gravity is kept. -/
def gravityKey : String := "gravity.state"

/-- The text under a key. -/
def get? (s : Store) (key : String) : Option String := s.entries.lookup key

/-- How many texts there are. -/
def size (s : Store) : Nat := s.entries.length

/-- Puts a text under a key, in place of what stood there. -/
def put (s : Store) (key text : String) : Except GravityError Store :=
  if key = "" then .error .emptyKey
  else .ok ⟨(key, text) :: s.entries.filter (·.1 ≠ key)⟩

end Store

end Inversion
