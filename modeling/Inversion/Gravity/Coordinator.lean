import Inversion.Gravity.Store

/-!
The coordinator of gravity: it alone knows the orientation, who has subscribed to transitions, and
which changes wait for their turn. It does not keep its listeners: a subscription whose listener
nothing else keeps is dead, and is taken out when the next transition starts.
-/

namespace Inversion

/-- A subscription. Its handle is issued once. -/
structure Subscription (ι : Type) where
  handle : Nat
  listener : ι
  deriving DecidableEq

/-- The text of a handle. -/
def Subscription.label (handle : Nat) : String := s!"sub#{handle}"

/-- The state of a coordinator. While listeners are told of a transition it holds the one that is being
    told and those that are still to be told. -/
structure Coordinator (ι : Type) where
  current : Orientation
  subscriptions : List (Subscription ι)
  issued : Nat
  pending : List Change
  dispatching : Bool
  held : List ι

namespace Coordinator

variable {ι : Type}

/-- A coordinator without subscriptions. -/
def start (initial : Orientation) : Coordinator ι := ⟨initial, [], 0, [], false, []⟩

/-- Adds a subscription under a new handle. -/
def subscribe (c : Coordinator ι) (listener : ι) : Nat × Coordinator ι :=
  (c.issued,
    { c with subscriptions := c.subscriptions ++ [⟨c.issued, listener⟩], issued := c.issued + 1 })

/-- Takes a subscription out; whether there was one. -/
def unsubscribe (c : Coordinator ι) (handle : Nat) : Bool × Coordinator ι :=
  (c.subscriptions.any (·.handle = handle),
    { c with subscriptions := c.subscriptions.filter (·.handle ≠ handle) })

/-- The subscriptions whose listeners are alive: kept elsewhere, or held. -/
def live [DecidableEq ι] (c : Coordinator ι) (keeps : ι → Bool) : List (Subscription ι) :=
  c.subscriptions.filter fun s => keeps s.listener || decide (s.listener ∈ c.held)

/-- How many subscriptions are alive. -/
def listenerCount [DecidableEq ι] (c : Coordinator ι) (keeps : ι → Bool) : Nat :=
  (c.live keeps).length

/-- What is saved of a coordinator. -/
def snapshot (c : Coordinator ι) : Snapshot := ⟨c.current, c.pending⟩

/-- Saves the state of gravity to a store. -/
def save (c : Coordinator ι) (store : Store) : Except GravityError Store :=
  store.put Store.gravityKey c.snapshot.render

end Coordinator

end Inversion
