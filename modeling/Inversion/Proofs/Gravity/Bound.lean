import Inversion.Proofs.Gravity.Round

/-!
How long a chain of transitions can get. A listener may ask for another change whenever it is told of
one; still every call ends, with at most so many transitions as it may chain, and whatever is then left
is given up. So each call finds the coordinator as a fresh one: nothing waits from the calls before. What
counts is what the reactions of the listeners ask for, round by round.
-/

namespace Inversion

variable {ι ω : Type}

/-- What may be asked of a coordinator from outside; in between the world may change. A store answers in
    any way when something is restored. -/
inductive Call (ι ω : Type) where
  | setGravity (change : Change)
  | restore (answer : Except GravityError (Option String))
  | subscribe (listener : ι)
  | unsubscribe (handle : Nat)
  | save (store : Store)
  | update (f : ω → ω)

variable [DecidableEq ι]

/-- The scene after a call. -/
def Call.perform (a : Audience ι ω) : Call ι ω → Scene ι ω → Scene ι ω
  | setGravity change, s => (s.setGravity a change).value
  | restore answer, s => (s.restoreFrom a answer).value.2
  | subscribe listener, s => (s.subscribe a listener).value.2
  | unsubscribe handle, s => (s.unsubscribe handle).2
  | save _, s => s
  | update f, s => { s with world := f s.world }

/-- The scene after some calls. -/
def Call.performAll (a : Audience ι ω) (calls : List (Call ι ω)) (s : Scene ι ω) : Scene ι ω :=
  calls.foldl (fun s call => call.perform a s) s

/-- The rounds of a call, when no changes are being carried out. -/
def Call.rounds (a : Audience ι ω) : Call ι ω → Scene ι ω → List (Round ι ω)
  | setGravity change, s =>
    let r : Round ι ω := ⟨change, s.marked true⟩
    r :: Scene.rounds a maxChained (r.after a)
  | restore (.ok (some text)), s =>
    match Snapshot.parse text with
    | .ok snapshot => Scene.rounds a maxChained ((s.resumed snapshot).marked true)
    | .error _ => []
  | _, _ => []

/-- The changes that listeners ask for in the course of a call, in the order in which they ask. -/
def Call.raised (a : Audience ι ω) (call : Call ι ω) (s : Scene ι ω) : List Change :=
  (call.rounds a s).flatMap (Round.raised a)

namespace Scene

variable {s s' : Scene ι ω} {a : Audience ι ω}

/-- Draining a queue carries out as many changes as there are rounds for, in order, and gives up the
    others. -/
theorem Drains.bounded {left : Nat} {rounds : List (Round ι ω)} {moments : List (Moment ι)}
    (h : Drains a left s rounds moments s') (hs : s.Between) :
    let requests := rounds.flatMap (Round.raised a)
    let queue := s.coordinator.pending ++ requests
    Moment.requests moments = requests ∧
      Moment.transitions moments = rounds.map Round.transition ∧
      Moment.transitions moments = Change.carryOut s.coordinator.current (queue.take left) ∧
      Moment.losses moments = (if queue.length ≤ left then [] else [queue.length - left]) ∧
      (s'.marked false).Idle := by
  intro requests queue
  have hrequests : Moment.requests moments = requests := h.requests hs
  obtain ⟨hchanges, hlosses⟩ := h.carried_out hs
  obtain ⟨hturned, hcarried⟩ := h.transitions hs
  rw [hrequests] at hchanges hlosses
  refine ⟨hrequests, hturned, ?_, hlosses, h.idle hs⟩
  rw [hturned, hcarried, hchanges]

theorem setGravity_bounded (hs : s.Idle) (a : Audience ι ω) (change : Change) :
    let ended := s.setGravity a change
    let requests := (Call.setGravity change).raised a s
    Moment.requests ended.events = requests ∧
      Moment.transitions ended.events = ((Call.setGravity change).rounds a s).map Round.transition ∧
      Moment.transitions ended.events
        = Change.carryOut s.coordinator.current (change :: requests.take maxChained) ∧
      Moment.losses ended.events
        = (if requests.length ≤ maxChained then [] else [requests.length - maxChained]) ∧
      ended.value.Idle := by
  intro ended requests
  obtain ⟨s', hdrains, hvalue⟩ := setGravity_drains hs a change
  obtain ⟨hrequests, hrounds, hturned, hlosses, hidle⟩ :=
    hdrains.bounded (hs.marked_between.waiting [change])
  -- the change itself is the first in the queue, and not one of those that are chained
  have hqueue : Moment.losses ended.events = if requests.length + 1 ≤ maxChained + 1 then []
      else [requests.length + 1 - (maxChained + 1)] := hlosses
  simp only [Nat.add_le_add_iff_right, Nat.add_sub_add_right] at hqueue
  rw [← hvalue] at hidle
  exact ⟨hrequests, hrounds, hturned, hqueue, hidle⟩

theorem resume_bounded (hs : s.Idle) (a : Audience ι ω) (snapshot : Snapshot) :
    let ended := resume a snapshot s
    let made := rounds a maxChained ((s.resumed snapshot).marked true)
    let requests := made.flatMap (Round.raised a)
    let queue := snapshot.pending ++ requests
    Moment.requests ended.events = requests ∧
      Moment.transitions ended.events = made.map Round.transition ∧
      Moment.transitions ended.events
        = Change.carryOut snapshot.orientation (queue.take maxChained) ∧
      Moment.losses ended.events
        = (if queue.length ≤ maxChained then [] else [queue.length - maxChained]) ∧
      ended.value.Idle := by
  intro ended made requests queue
  obtain ⟨moments, s', hdrains, hevents, hvalue⟩ := resume_drains hs a snapshot
  obtain ⟨hrequests, hrounds, hturned, hlosses, hidle⟩ := hdrains.bounded ⟨rfl, hs.held⟩
  rw [← hvalue] at hidle
  rw [hevents]
  exact ⟨hrequests, hrounds, hturned, hlosses, hidle⟩

/-- What a store answers with is a snapshot. -/
def Restores (answer : Except GravityError (Option String)) (snapshot : Snapshot) : Prop :=
  ∃ text, answer = .ok (some text) ∧ Snapshot.parse text = .ok snapshot

theorem restoreFrom_of_restores {answer : Except GravityError (Option String)} {snapshot : Snapshot}
    (hs : s.Idle) (a : Audience ι ω) (h : Restores answer snapshot) :
    s.restoreFrom a answer = (do return (.ok true, ← resume a snapshot s)) := by
  obtain ⟨text, rfl, hparse⟩ := h
  simp only [restoreFrom, hs.dispatching, Bool.false_eq_true, if_false, hparse]

theorem restoreFrom_of_not_restores {answer : Except GravityError (Option String)} (hs : s.Idle)
    (a : Audience ι ω) (h : ∀ snapshot, ¬ Restores answer snapshot) :
    ∃ result, result ≠ .ok true ∧ s.restoreFrom a answer = pure (result, s) := by
  simp only [restoreFrom, hs.dispatching, Bool.false_eq_true, if_false]
  rcases answer with e | _ | text
  · exact ⟨.error e, by simp, rfl⟩
  · exact ⟨.ok false, by simp, rfl⟩
  · cases hparse : Snapshot.parse text with
    | error e => exact ⟨.error e, by simp, by simp only [hparse]⟩
    | ok snapshot => exact absurd ⟨text, rfl, hparse⟩ (h snapshot)

end Scene

/-- What one call preserves. -/
theorem Call.perform_idle (a : Audience ι ω) (call : Call ι ω) {s : Scene ι ω} (hs : s.Idle) :
    (call.perform a s).Idle := by
  cases call with
  | setGravity change => exact (Scene.setGravity_bounded hs a change).2.2.2.2
  | restore answer =>
    by_cases h : ∃ snapshot, Scene.Restores answer snapshot
    · obtain ⟨snapshot, hrestores⟩ := h
      rw [perform, Scene.restoreFrom_of_restores hs a hrestores]
      exact (Scene.resume_bounded hs a snapshot).2.2.2.2
    · obtain ⟨result, -, hsame⟩ := Scene.restoreFrom_of_not_restores hs a (not_exists.1 h)
      rw [perform, hsame]
      exact hs
  | subscribe listener => exact ⟨hs.dispatching, hs.pending, hs.held⟩
  | unsubscribe handle => exact ⟨hs.dispatching, hs.pending, hs.held⟩
  | save store => exact hs
  | update f => exact ⟨hs.dispatching, hs.pending, hs.held⟩

/-- What any number of calls preserves. -/
theorem Call.performAll_idle (a : Audience ι ω) : ∀ (calls : List (Call ι ω)) {s : Scene ι ω},
    s.Idle → (performAll a calls s).Idle
  | [], _, hs => hs
  | call :: rest, _, hs => performAll_idle a rest (call.perform_idle a hs)

/-- Restoring a snapshot makes the rounds that its changes lead to. -/
theorem Call.rounds_restore {answer : Except GravityError (Option String)} {snapshot : Snapshot}
    (a : Audience ι ω) (s : Scene ι ω) (h : Scene.Restores answer snapshot) :
    (restore answer).rounds a s = Scene.rounds a maxChained ((s.resumed snapshot).marked true) := by
  obtain ⟨text, rfl, hparse⟩ := h
  rw [rounds, hparse]

/-- After any calls nothing waits and nothing is being carried out, whatever the listeners do. Asking for
    a change then carries it out, and after it the first 256 of the changes that the listeners ask for
    meanwhile; the others are given up. Restoring carries out the first 256 of the changes of the
    snapshot followed by those that are asked for meanwhile; or it fails or finds nothing, and then
    nothing happens. What the listeners ask for is what their reactions ask for in the rounds that are
    made. -/
theorem Call.chains_bounded (a : Audience ι ω) (o : Orientation) (w : ω) (calls : List (Call ι ω)) :
    let s := performAll a calls ⟨.start o, w⟩
    s.Idle ∧
      (∀ change,
        let ended := s.setGravity a change
        let requests := (setGravity change).raised a s
        Moment.requests ended.events = requests ∧
          Moment.transitions ended.events = ((setGravity change).rounds a s).map Round.transition ∧
          Moment.transitions ended.events
            = Change.carryOut s.coordinator.current (change :: requests.take 256) ∧
          (Moment.transitions ended.events).length ≤ 257 ∧
          Moment.losses ended.events
            = (if requests.length ≤ 256 then [] else [requests.length - 256]) ∧
          ended.value.Idle) ∧
      ∀ answer,
        let ended := s.restoreFrom a answer
        ended.value.2.Idle ∧
          (∀ snapshot, Scene.Restores answer snapshot →
            let requests := (restore answer).raised a s
            let queue := snapshot.pending ++ requests
            ended.value.1 = .ok true ∧
              Moment.requests ended.events = requests ∧
              Moment.transitions ended.events = ((restore answer).rounds a s).map Round.transition ∧
              Moment.transitions ended.events
                = Change.carryOut snapshot.orientation (queue.take 256) ∧
              (Moment.transitions ended.events).length ≤ 256 ∧
              Moment.losses ended.events
                = if queue.length ≤ 256 then [] else [queue.length - 256]) ∧
          ((∀ snapshot, ¬ Scene.Restores answer snapshot) →
            ended.value.1 ≠ .ok true ∧ ended.value.2 = s ∧ ended.events = []) := by
  intro s
  have hs : s.Idle := performAll_idle a calls ⟨rfl, rfl, rfl⟩
  refine ⟨hs, ?_, ?_⟩
  · intro change ended requests
    obtain ⟨hrequests, hrounds, hturned, hlosses, hidle⟩ := Scene.setGravity_bounded hs a change
    refine ⟨hrequests, hrounds, hturned, ?_, hlosses, hidle⟩
    rw [hturned, Change.carryOut_length, List.length_cons]
    exact Nat.succ_le_succ (List.length_take_le _ _)
  · intro answer ended
    refine ⟨(restore answer).perform_idle a hs, ?_, ?_⟩
    · intro snapshot hrestores
      have hended : ended = (do return (.ok true, ← Scene.resume a snapshot s)) :=
        Scene.restoreFrom_of_restores hs a hrestores
      have hevents : ended.events = (Scene.resume a snapshot s).events := by
        rw [hended, Account.events_bind, Account.events_pure, List.append_nil]
      obtain ⟨hrequests, hrounds, hturned, hlosses, -⟩ := Scene.resume_bounded hs a snapshot
      rw [hevents, raised, rounds_restore a s hrestores]
      refine ⟨by rw [hended]; rfl, hrequests, hrounds, hturned, ?_, hlosses⟩
      rw [hturned, Change.carryOut_length]
      exact List.length_take_le _ _
    · intro hnothing
      obtain ⟨result, hresult, hsame⟩ := Scene.restoreFrom_of_not_restores hs a hnothing
      have hended : ended = pure (result, s) := hsame
      rw [hended]
      exact ⟨hresult, rfl, rfl⟩

/-- A listener that asks for a toggle whenever it is told of anything. -/
def Audience.restless : Audience Unit Unit where
  name _ := "listener"
  keeps _ _ := true
  react _ _ := .request ⟨.toggle, .one false, false⟩ (.finish none)

/-- It asks 257 times: for each of the transitions that are made, the last one included. Its last wish is
    given up. -/
theorem Call.chains_bounded_restless :
    let s := performAll .restless [.subscribe ()] ⟨.start .normal, ()⟩
    let change : Change := ⟨.inverted, .one false, true⟩
    let wish : Change := ⟨.toggle, .one false, false⟩
    let ended := s.setGravity .restless change
    (setGravity change).raised .restless s = List.replicate 257 wish ∧
      Moment.transitions ended.events
        = Change.carryOut .normal (change :: List.replicate 256 wish) ∧
      Moment.losses ended.events = [1] ∧ ended.value.Idle := by
  intro s change wish ended
  have hraised : (setGravity change).raised .restless s = List.replicate 257 wish := by
    decide +kernel
  obtain ⟨-, hbounded, -⟩ := chains_bounded .restless .normal () [.subscribe ()]
  obtain ⟨-, -, hturned, -, hlosses, hidle⟩ := hbounded change
  have hchain : Moment.transitions ended.events = Change.carryOut .normal
      (change :: ((setGravity change).raised .restless s).take 256) := hturned
  have hlost : Moment.losses ended.events = if ((setGravity change).raised .restless s).length ≤ 256
      then [] else [((setGravity change).raised .restless s).length - 256] := hlosses
  rw [hraised, List.take_replicate] at hchain
  rw [hraised, List.length_replicate] at hlost
  exact ⟨hraised, hchain, hlost, hidle⟩

end Inversion
