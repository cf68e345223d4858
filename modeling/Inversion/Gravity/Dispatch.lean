import Inversion.Gravity.Coordinator
import Inversion.Event

/-!
Carrying out changes of gravity. A transition tells every listener that is subscribed and alive when it
starts, in the order of subscription. What a listener does in turn is a `Reaction`, a finite program
that may ask the coordinator for anything a caller may ask for. Changes it wishes for wait until
everyone has been told; they are then carried out in the order in which they were wished for, at most
256 of them. Everything that happens is recorded as a list of moments, and the log is read off it.
-/

namespace Inversion

/-- Something that happens to a coordinator. -/
inductive Moment (ι : Type) where
  /-- A transition starts. -/
  | turned (t : Transition)
  /-- A listener is told of it. -/
  | heard (s : Subscription ι) (t : Transition)
  /-- A listener fails. -/
  | failed (name : String) (handle : Nat) (reason : String)
  /-- A change has to wait. -/
  | queued (change : Change)
  /-- A listener subscribes. -/
  | subscribed (name : String) (handle : Nat)
  /-- The state is saved. -/
  | saved (snapshot : Snapshot)
  /-- An orientation is restored. -/
  | restored (o : Orientation)
  /-- Changes are given up. -/
  | dropped (count : Nat)
  deriving DecidableEq

/-- How many waiting changes are carried out before the others are given up. -/
def maxChained : Nat := 256

/-- What is logged of a moment. -/
def Moment.event? {ι : Type} : Moment ι → Option Event
  | turned t =>
    if t.changed then
      some ⟨.info, s!"gravity: {t.previous} -> {t.next} (momentum {String.ofList t.momentum.plain}, player {t.byPlayer})"⟩
    else some ⟨.debug, s!"gravity: {t.next} unchanged"⟩
  | heard _ _ => none
  | failed name handle reason =>
    some ⟨.warn, s!"gravity: listener {name} ({Subscription.label handle}) failed: {reason}"⟩
  | queued change => some ⟨.debug, s!"gravity: queued {change.request.name} raised during fan-out"⟩
  | subscribed name handle =>
    some ⟨.debug, s!"gravity: {name} subscribed as {Subscription.label handle}"⟩
  | saved s => some ⟨.debug, s!"gravity: saved {s.orientation} with {s.pending.length} pending"⟩
  | restored o => some ⟨.info, s!"gravity: restored {o}"⟩
  | dropped count =>
    some ⟨.warn, s!"gravity: dropped {count} chained request(s) after {maxChained} transitions"⟩

/-- What is logged of some moments. -/
def Moment.log {ι : Type} (moments : List (Moment ι)) : List Event := moments.filterMap event?

/-- What a listener does when it is told of a transition, step by step. It ends well, or with the
    reason of a failure. -/
inductive Reaction (ι ω : Type) where
  | finish (failure : Option String)
  /-- Looks at the coordinator and the world. -/
  | look (next : Coordinator ι → ω → Reaction ι ω)
  /-- Changes the world. -/
  | update (f : ω → ω) (next : Reaction ι ω)
  | request (change : Change) (next : Reaction ι ω)
  | subscribe (listener : ι) (next : Nat → Reaction ι ω)
  | unsubscribe (handle : Nat) (next : Bool → Reaction ι ω)
  | save (store : Store) (next : Except GravityError Store → Reaction ι ω)
  | restore (store : Store) (next : Except GravityError Bool → Reaction ι ω)

/-- All possible listeners: their names, which of them the world keeps alive, and what they do. -/
structure Audience (ι ω : Type) where
  name : ι → String
  keeps : ω → ι → Bool
  react : ι → Transition → Reaction ι ω

/-- No listeners at all. -/
def Audience.nobody : Audience Empty Unit := ⟨nofun, fun _ _ => false, nofun⟩

/-- A coordinator in the world around it. -/
structure Scene (ι ω : Type) where
  coordinator : Coordinator ι
  world : ω

/-! ### Requests -/

namespace Scene

variable {ι ω : Type}

/-- Lets a change wait. -/
def queue (change : Change) (s : Scene ι ω) : Account (Moment ι) (Scene ι ω) := do
  Account.tell (.queued change)
  return { s with coordinator.pending := s.coordinator.pending ++ [change] }

/-- Subscribes a listener. -/
def subscribe (a : Audience ι ω) (listener : ι) (s : Scene ι ω) :
    Account (Moment ι) (Nat × Scene ι ω) := do
  let (handle, c) := s.coordinator.subscribe listener
  Account.tell (.subscribed (a.name listener) handle)
  return (handle, { s with coordinator := c })

/-- Takes a subscription out; whether there was one. -/
def unsubscribe (handle : Nat) (s : Scene ι ω) : Bool × Scene ι ω :=
  let (found, c) := s.coordinator.unsubscribe handle
  (found, { s with coordinator := c })

/-- Saves the state of gravity to a store. -/
def save (store : Store) (s : Scene ι ω) : Account (Moment ι) (Except GravityError Store) :=
  match s.coordinator.save store with
  | .ok store => do
    Account.tell (.saved s.coordinator.snapshot)
    return .ok store
  | .error e => return .error e

/-- How many subscriptions are alive. -/
def listenerCount [DecidableEq ι] (a : Audience ι ω) (s : Scene ι ω) : Nat :=
  s.coordinator.listenerCount (a.keeps s.world)

end Scene

/-! ### Transitions -/

/-- Runs a reaction, while listeners are being told of a transition: a change has to wait, and nothing
    is restored. -/
def Reaction.run {ι ω : Type} (a : Audience ι ω) :
    Reaction ι ω → Scene ι ω → Account (Moment ι) (Option String × Scene ι ω)
  | finish failure, s => pure (failure, s)
  | look next, s => run a (next s.coordinator s.world) s
  | update f next, s => run a next { s with world := f s.world }
  | request change next, s => do run a next (← s.queue change)
  | subscribe listener next, s => do
    let (handle, s) ← s.subscribe a listener
    run a (next handle) s
  | unsubscribe handle next, s =>
    let (found, s) := s.unsubscribe handle
    run a (next found) s
  | save store next, s => do run a (next (← s.save store)) s
  | restore _ next, s => run a (next (.error .duringFanOut)) s

namespace Scene

variable {ι ω : Type}

/-- The scene in which the listeners of some subscriptions are held. -/
def hold (subscriptions : List (Subscription ι)) (s : Scene ι ω) : Scene ι ω :=
  { s with coordinator.held := subscriptions.map (·.listener) }

/-- Tells one subscriber after the other of a transition. A failure is noted and does not keep the
    others from being told. -/
def fanOut (a : Audience ι ω) (t : Transition) :
    List (Subscription ι) → Scene ι ω → Account (Moment ι) (Scene ι ω)
  | [], s => pure (s.hold [])
  | subscription :: rest, s => do
    Account.tell (.heard subscription t)
    let (failure, s) ← (a.react subscription.listener t).run a (s.hold (subscription :: rest))
    match failure with
    | none => pure ()
    | some reason =>
      Account.tell (.failed (a.name subscription.listener) subscription.handle reason)
    fanOut a t rest s

variable [DecidableEq ι]

/-- Carries out a change. Dead subscriptions are taken out on the way. -/
def turn (a : Audience ι ω) (change : Change) (s : Scene ι ω) : Account (Moment ι) (Scene ι ω) := do
  let t := change.transitionFrom s.coordinator.current
  let live := s.coordinator.live (a.keeps s.world)
  Account.tell (.turned t)
  fanOut a t live
    { s with coordinator := { s.coordinator with current := t.next, subscriptions := live } }

/-- Carries out what waits, at most so many changes, and gives up the others. -/
def drain (a : Audience ι ω) : Nat → Scene ι ω → Account (Moment ι) (Scene ι ω)
  | left, s =>
    match s.coordinator.pending with
    | [] => pure s
    | change :: rest =>
      match left with
      | 0 => do
        Account.tell (.dropped (rest.length + 1))
        return { s with coordinator.pending := [] }
      | left + 1 => do
        drain a left (← turn a change { s with coordinator.pending := rest })

/-- Marks whether changes are being carried out. -/
def marked (dispatching : Bool) (s : Scene ι ω) : Scene ι ω :=
  { s with coordinator.dispatching := dispatching }

/-- Asks for a change. It is carried out at once, and so is what the listeners ask for in turn, unless
    listeners are being told of a transition. -/
def setGravity (a : Audience ι ω) (change : Change) (s : Scene ι ω) :
    Account (Moment ι) (Scene ι ω) :=
  if s.coordinator.dispatching then s.queue change
  else do
    let s ← turn a change (s.marked true)
    let s ← drain a maxChained s
    return s.marked false

/-- Goes back to a snapshot. Nobody is told of its orientation; the changes that waited are carried
    out. -/
def resume (a : Audience ι ω) (snapshot : Snapshot) (s : Scene ι ω) :
    Account (Moment ι) (Scene ι ω) := do
  Account.tell (.restored snapshot.orientation)
  let s := { s with coordinator.current := snapshot.orientation }
  if snapshot.pending.isEmpty then return s
  else
    let s := { s with coordinator.pending := s.coordinator.pending ++ snapshot.pending }
    let s ← drain a maxChained (s.marked true)
    return s.marked false

/-- Goes back to what a store answers with; whether there was anything. The answer may be an error. -/
def restoreFrom (a : Audience ι ω) (answer : Except GravityError (Option String)) (s : Scene ι ω) :
    Account (Moment ι) (Except GravityError Bool × Scene ι ω) :=
  if s.coordinator.dispatching then return (.error .duringFanOut, s)
  else
    match answer with
    | .error e => return (.error e, s)
    | .ok none => return (.ok false, s)
    | .ok (some text) =>
      match Snapshot.parse text with
      | .error e => return (.error e, s)
      | .ok snapshot => do return (.ok true, ← resume a snapshot s)

/-- Goes back to what is saved in a store; whether there was anything. -/
def restore (a : Audience ι ω) (store : Store) (s : Scene ι ω) :
    Account (Moment ι) (Except GravityError Bool × Scene ι ω) :=
  restoreFrom a (.ok (store.get? Store.gravityKey)) s

end Scene

end Inversion
