import Inversion.Gravity.Dispatch

/-!
What a listener can do while it is being told of a transition. A reaction goes step by step, and each
step is a call that any caller may make. None of them turns anything, tells anybody or gives anything
up: a change that is asked for is put behind those that wait already, and nothing is restored. Every
change that is asked for is noted, in order.
-/

namespace Inversion

/-! ### What moments tell -/

namespace Moment

variable {ι : Type}

def turned? : Moment ι → Option Transition
  | turned t => some t
  | _ => none

def heard? : Moment ι → Option (Subscription ι × Transition)
  | heard s t => some (s, t)
  | _ => none

def queued? : Moment ι → Option Change
  | queued change => some change
  | _ => none

def dropped? : Moment ι → Option Nat
  | dropped count => some count
  | _ => none

/-- The transitions among some moments. -/
def transitions (moments : List (Moment ι)) : List Transition := moments.filterMap turned?

/-- Who is told of what. -/
def deliveries (moments : List (Moment ι)) : List (Subscription ι × Transition) :=
  moments.filterMap heard?

/-- The changes that have to wait. -/
def requests (moments : List (Moment ι)) : List Change := moments.filterMap queued?

/-- How many changes are given up at a time. -/
def losses (moments : List (Moment ι)) : List Nat := moments.filterMap dropped?

variable (xs ys : List (Moment ι))

@[simp] theorem transitions_append : transitions (xs ++ ys) = transitions xs ++ transitions ys :=
  List.filterMap_append

@[simp] theorem deliveries_append : deliveries (xs ++ ys) = deliveries xs ++ deliveries ys :=
  List.filterMap_append

@[simp] theorem requests_append : requests (xs ++ ys) = requests xs ++ requests ys :=
  List.filterMap_append

@[simp] theorem losses_append : losses (xs ++ ys) = losses xs ++ losses ys :=
  List.filterMap_append

end Moment

/-! ### Telling -/

variable {ι ω : Type}

/-- What is the case while a transition is told: the orientation stays, changes are still being carried
    out, and those that are asked for are put behind the others; these have been told of it, and nothing
    else happens. -/
structure Scene.Telling (s : Scene ι ω) (moments : List (Moment ι)) (s' : Scene ι ω)
    (told : List (Subscription ι × Transition)) : Prop where
  current : s'.coordinator.current = s.coordinator.current
  dispatching : s'.coordinator.dispatching = true
  pending : s'.coordinator.pending = s.coordinator.pending ++ Moment.requests moments
  transitions : Moment.transitions moments = []
  deliveries : Moment.deliveries moments = told
  losses : Moment.losses moments = []

namespace Scene.Telling

variable {s s₁ s₂ : Scene ι ω} {xs ys : List (Moment ι)} {told told' : List (Subscription ι × Transition)}

theorem refl (hs : s.coordinator.dispatching = true) : s.Telling [] s [] :=
  ⟨rfl, hs, (List.append_nil _).symm, rfl, rfl, rfl⟩

theorem trans (h : s.Telling xs s₁ told) (h' : s₁.Telling ys s₂ told') :
    s.Telling (xs ++ ys) s₂ (told ++ told') where
  current := h'.current.trans h.current
  dispatching := h'.dispatching
  pending := by rw [h'.pending, h.pending, Moment.requests_append, List.append_assoc]
  transitions := by rw [Moment.transitions_append, h.transitions, h'.transitions, List.append_nil]
  deliveries := by rw [Moment.deliveries_append, h.deliveries, h'.deliveries]
  losses := by rw [Moment.losses_append, h.losses, h'.losses, List.append_nil]

end Scene.Telling

/-! ### Requests -/

/-- The changes that a reaction asks for, in order. -/
def Reaction.raised (a : Audience ι ω) : Reaction ι ω → Scene ι ω → List Change
  | finish _, _ => []
  | look next, s => (next s.coordinator s.world).raised a s
  | update f next, s => next.raised a { s with world := f s.world }
  | request change next, s => change :: next.raised a (s.queue change).value
  | subscribe listener next, s =>
    let (handle, s') := (s.subscribe a listener).value
    (next handle).raised a s'
  | unsubscribe handle next, s =>
    let (found, s') := s.unsubscribe handle
    (next found).raised a s'
  | save store next, s => (next (s.save store).value).raised a s
  | restore _ next, s => (next (.error .duringFanOut)).raised a s

/-- What is noted as waiting while a reaction runs is what it asks for. -/
theorem Reaction.requests_run {a : Audience ι ω} (r : Reaction ι ω) (s : Scene ι ω) :
    Moment.requests (r.run a s).events = r.raised a s := by
  induction r generalizing s with
  | finish failure => rfl
  | look next ih => exact ih _ _ s
  | update f next ih => exact ih _
  | request change next ih => exact congrArg (change :: ·) (ih _)
  | subscribe listener next ih => exact ih _ _
  | unsubscribe handle next ih => exact ih _ _
  | save store next ih =>
    have hsave : Moment.requests (s.save store).events = [] := by
      unfold Scene.save
      split <;> rfl
    simp only [run, Account.events_bind, Moment.requests_append, hsave, List.nil_append]
    exact ih _ s
  | restore store next ih => exact ih _ s

/-! ### Reactions -/

section Reactions

variable [DecidableEq ι] {a : Audience ι ω} {s s' : Scene ι ω}

theorem Scene.setGravity_of_dispatching (hs : s.coordinator.dispatching = true) (change : Change) :
    s.setGravity a change = s.queue change := by
  rw [setGravity, if_pos hs]

theorem Scene.restoreFrom_of_dispatching (hs : s.coordinator.dispatching = true)
    (answer : Except GravityError (Option String)) :
    s.restoreFrom a answer = pure (.error .duringFanOut, s) := by
  simp only [restoreFrom, hs, if_true]

namespace Reaction

/-- The next step of a reaction, and what is left of it. Every call is the one that any caller makes. -/
def step (a : Audience ι ω) :
    Reaction ι ω → Scene ι ω → Account (Moment ι) (Reaction ι ω × Scene ι ω)
  | finish failure, s => pure (finish failure, s)
  | look next, s => pure (next s.coordinator s.world, s)
  | update f next, s => pure (next, { s with world := f s.world })
  | request change next, s => do return (next, ← s.setGravity a change)
  | subscribe listener next, s => do
    let (handle, s) ← s.subscribe a listener
    return (next handle, s)
  | unsubscribe handle next, s =>
    let (found, s) := s.unsubscribe handle
    pure (next found, s)
  | save store next, s => do return (next (← s.save store), s)
  | restore store next, s => do
    let (found, s) ← s.restore a store
    return (next found, s)

/-- Where a reaction gets to after some steps, and what happens on the way. -/
inductive Reaches (a : Audience ι ω) : Reaction ι ω → Scene ι ω → List (Moment ι) → Reaction ι ω →
    Scene ι ω → Prop where
  | refl (r : Reaction ι ω) (s : Scene ι ω) : Reaches a r s [] r s
  | step {r r' : Reaction ι ω} {s s' : Scene ι ω} {moments : List (Moment ι)} :
      Reaches a (r.step a s).value.1 (r.step a s).value.2 moments r' s' →
      Reaches a r s ((r.step a s).events ++ moments) r' s'

/-- What one step preserves. -/
theorem step_telling (r : Reaction ι ω) (hs : s.coordinator.dispatching = true) :
    s.Telling (r.step a s).events (r.step a s).value.2 [] := by
  cases r with
  | finish failure => exact .refl hs
  | look next => exact .refl hs
  | update f next => exact ⟨rfl, hs, (List.append_nil _).symm, rfl, rfl, rfl⟩
  | request change next =>
    simp only [step, Scene.setGravity_of_dispatching hs]
    exact ⟨rfl, hs, rfl, rfl, rfl, rfl⟩
  | subscribe listener next => exact ⟨rfl, hs, (List.append_nil _).symm, rfl, rfl, rfl⟩
  | unsubscribe handle next => exact ⟨rfl, hs, (List.append_nil _).symm, rfl, rfl, rfl⟩
  | save store next =>
    have hsave : (s.save store).events = [] ∨
        (s.save store).events = [.saved s.coordinator.snapshot] := by
      unfold Scene.save
      split
      · exact Or.inr rfl
      · exact Or.inl rfl
    simp only [step, Account.events_bind, Account.value_bind, Account.events_pure,
      Account.value_pure, List.append_nil]
    rcases hsave with hsave | hsave
    · rw [hsave]
      exact .refl hs
    · rw [hsave]
      exact ⟨rfl, hs, (List.append_nil _).symm, rfl, rfl, rfl⟩
  | restore store next =>
    simp only [step, Scene.restore, Scene.restoreFrom_of_dispatching hs]
    exact .refl hs

/-- What any number of steps preserves. -/
theorem Reaches.telling {r r' : Reaction ι ω} {moments : List (Moment ι)}
    (h : r.Reaches a s moments r' s') (hs : s.coordinator.dispatching = true) :
    s.Telling moments s' [] := by
  induction h with
  | refl r s => exact .refl hs
  | @step r r' s s' moments _ ih =>
    have hstep := r.step_telling (a := a) hs
    exact hstep.trans (ih hstep.dispatching)

/-- While changes are being carried out, running a reaction goes on from its next step. -/
theorem run_step (r : Reaction ι ω) (hs : s.coordinator.dispatching = true) :
    (r.run a s).value = ((r.step a s).value.1.run a (r.step a s).value.2).value ∧
      (r.run a s).events
        = (r.step a s).events ++ ((r.step a s).value.1.run a (r.step a s).value.2).events := by
  cases r with
  | finish failure => exact ⟨rfl, rfl⟩
  | look next => exact ⟨rfl, rfl⟩
  | update f next => exact ⟨rfl, rfl⟩
  | request change next =>
    simp only [step, Scene.setGravity_of_dispatching hs]
    exact ⟨rfl, rfl⟩
  | subscribe listener next => exact ⟨rfl, rfl⟩
  | unsubscribe handle next => exact ⟨rfl, rfl⟩
  | save store next =>
    simp only [step, run, Account.value_bind, Account.events_bind, Account.value_pure,
      Account.events_pure, List.append_nil]
    trivial
  | restore store next =>
    simp only [step, Scene.restore, Scene.restoreFrom_of_dispatching hs]
    exact ⟨rfl, rfl⟩

theorem Reaches.of_step {r : Reaction ι ω} (hs : s.coordinator.dispatching = true)
    (h : (r.step a s).value.1.Reaches a (r.step a s).value.2
      ((r.step a s).value.1.run a (r.step a s).value.2).events
      (.finish ((r.step a s).value.1.run a (r.step a s).value.2).value.1)
      ((r.step a s).value.1.run a (r.step a s).value.2).value.2) :
    r.Reaches a s (r.run a s).events (.finish (r.run a s).value.1) (r.run a s).value.2 := by
  obtain ⟨hvalue, hevents⟩ := run_step (a := a) r hs
  rw [hvalue, hevents]
  exact .step h

/-- Running a reaction takes its steps to the end. -/
theorem run_reaches (r : Reaction ι ω) (hs : s.coordinator.dispatching = true) :
    r.Reaches a s (r.run a s).events (.finish (r.run a s).value.1) (r.run a s).value.2 := by
  -- a reaction is a tree, and each step leads to one of its branches in a scene of the same kind
  induction r generalizing s with
  | finish failure => exact .refl _ _
  | look next ih => exact .of_step hs (ih _ _ (step_telling (.look next) hs).dispatching)
  | update f next ih => exact .of_step hs (ih (step_telling (.update f next) hs).dispatching)
  | request change next ih => exact .of_step hs (ih (step_telling (.request change next) hs).dispatching)
  | subscribe listener next ih => exact .of_step hs (ih _ (step_telling (.subscribe listener next) hs).dispatching)
  | unsubscribe handle next ih => exact .of_step hs (ih _ (step_telling (.unsubscribe handle next) hs).dispatching)
  | save store next ih => exact .of_step hs (ih _ (step_telling (.save store next) hs).dispatching)
  | restore store next ih => exact .of_step hs (ih _ (step_telling (.restore store next) hs).dispatching)

theorem run_telling (r : Reaction ι ω) (hs : s.coordinator.dispatching = true) :
    s.Telling (r.run a s).events (r.run a s).value.2 [] :=
  (r.run_reaches hs).telling hs

end Reaction

end Reactions

end Inversion
