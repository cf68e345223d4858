import Inversion.Json.Form

/-!
Which way is up, and requests to change it. A toggle is resolved against the orientation at the moment
the request is carried out.
-/

namespace Inversion

/-- The orientation of gravity. -/
inductive Orientation where
  | normal
  | inverted
  deriving DecidableEq

namespace Orientation

/-- The other orientation. -/
def opposite : Orientation → Orientation
  | normal => inverted
  | inverted => normal

/-- Whether up and down are exchanged. -/
def isInverted : Orientation → Bool
  | normal => false
  | inverted => true

/-- The text of an orientation. -/
def display : Orientation → String
  | normal => "normal"
  | inverted => "inverted"

/-- The name of an orientation. -/
def name : Orientation → String
  | normal => "Normal"
  | inverted => "Inverted"

instance : ToString Orientation := ⟨display⟩

end Orientation

/-- A wish for an orientation. -/
inductive Request where
  | normal
  | inverted
  | toggle
  deriving DecidableEq

namespace Request

/-- The orientation that a request leads to. -/
def resolve (r : Request) (current : Orientation) : Orientation :=
  match r with
  | normal => .normal
  | inverted => .inverted
  | toggle => current.opposite

/-- The request for a given orientation. -/
def ofOrientation : Orientation → Request
  | .normal => normal
  | .inverted => inverted

/-- The name of a request. -/
def name : Request → String
  | normal => "Normal"
  | inverted => "Inverted"
  | toggle => "Toggle"

end Request

instance : JsonForm Orientation where
  write o := .text o.name
  read? := Json.named? ([.normal, .inverted].map fun o => (o.name, o))

instance : JsonForm Request where
  write r := .text r.name
  read? := Json.named? ([.normal, .inverted, .toggle].map fun r => (r.name, r))

end Inversion
