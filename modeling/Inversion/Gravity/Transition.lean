import Inversion.Orientation

/-!
Changes of gravity: the wish for one, and the transition that it leads to when its turn has come. A
transition may leave the orientation as it was.
-/

namespace Inversion

/-- A change that is wished for: the orientation, how much of the momentum is kept, and whether the
    player has caused it. -/
structure Change where
  request : Request
  momentum : Single
  byPlayer : Bool
  deriving DecidableEq

/-- A change that has been carried out. -/
structure Transition where
  previous : Orientation
  next : Orientation
  momentum : Single
  byPlayer : Bool
  toggled : Bool
  deriving DecidableEq

/-- What a change leads to from an orientation. -/
def Change.transitionFrom (c : Change) (previous : Orientation) : Transition :=
  ⟨previous, c.request.resolve previous, c.momentum, c.byPlayer, c.request = .toggle⟩

/-- Equality of changes, with momenta compared as numbers. -/
def Change.same (a b : Change) : Bool :=
  decide (a.request = b.request) && a.momentum.same b.momentum && a.byPlayer == b.byPlayer

/-- Whether up and down have been exchanged. -/
def Transition.changed (t : Transition) : Bool := t.previous ≠ t.next

instance : JsonForm Change where
  write c := .record [("request", JsonForm.write c.request),
    ("momentum_multiplier", JsonForm.write c.momentum), ("player_triggered", .bool c.byPlayer)]
  read? budget j := Json.enter budget fun budget => do
    match ← Json.fields? ["request", "momentum_multiplier", "player_triggered"] j with
    | [request, momentum, byPlayer] =>
      return ⟨← Json.required budget request, ← Json.required budget momentum,
        ← Json.required budget byPlayer⟩
    | _ => none

instance : JsonForm Transition where
  write t := .record [("previous", JsonForm.write t.previous), ("next", JsonForm.write t.next),
    ("momentum_multiplier", JsonForm.write t.momentum), ("player_triggered", .bool t.byPlayer),
    ("was_toggle_request", .bool t.toggled)]
  read? budget j := Json.enter budget fun budget => do
    match ← Json.fields? ["previous", "next", "momentum_multiplier", "player_triggered",
        "was_toggle_request"] j with
    | [previous, next, momentum, byPlayer, toggled] =>
      return ⟨← Json.required budget previous, ← Json.required budget next,
        ← Json.required budget momentum, ← Json.required budget byPlayer,
        ← Json.required budget toggled⟩
    | _ => none

end Inversion
