import Mathlib.Data.List.Chain
import Inversion.Proofs.Gravity.Callback

/-!
Transitions one after the other. A round is one transition with the scene in which it starts: it is told
to everyone who is subscribed and alive there, and what is asked for meanwhile goes to the end of the
queue. Draining the queue is a sequence of rounds, each for the change that has waited longest, until
nothing waits or the bound is reached.
-/

namespace Inversion

variable {ι ω : Type}

/-! ### Telling everyone -/

/-- Whom a transition is told, with the scene in which the reaction of each starts. -/
def Scene.callbacks (a : Audience ι ω) (t : Transition) :
    List (Subscription ι) → Scene ι ω → List (Subscription ι × Scene ι ω)
  | [], _ => []
  | subscription :: rest, s =>
    let started := s.hold (subscription :: rest)
    (subscription, started) ::
      callbacks a t rest ((a.react subscription.listener t).run a started).value.2

/-- What is noted of how a reaction has ended. -/
def Audience.noted (a : Audience ι ω) (subscription : Subscription ι) :
    Option String → List (Moment ι)
  | none => []
  | some reason => [.failed (a.name subscription.listener) subscription.handle reason]

namespace Scene

section Telling

variable {a : Audience ι ω} {t : Transition}

theorem callbacks_map_fst : ∀ (subscriptions : List (Subscription ι)) (s : Scene ι ω),
    (callbacks a t subscriptions s).map Prod.fst = subscriptions
  | [], _ => rfl
  | subscription :: rest, s => by
    rw [callbacks, List.map_cons, callbacks_map_fst rest]

theorem fanOut_cons (subscription : Subscription ι) (rest : List (Subscription ι)) (s : Scene ι ω) :
    let ended := (a.react subscription.listener t).run a (s.hold (subscription :: rest))
    (fanOut a t (subscription :: rest) s).value = (fanOut a t rest ended.value.2).value ∧
      (fanOut a t (subscription :: rest) s).events
        = .heard subscription t :: (ended.events ++ (a.noted subscription ended.value.1
          ++ (fanOut a t rest ended.value.2).events)) := by
  intro ended
  have hended : (a.react subscription.listener t).run a (s.hold (subscription :: rest)) = ended := rfl
  simp only [fanOut, Account.value_bind, Account.events_bind, Account.events_tell, hended]
  cases ended.value.1 with
  | none => exact ⟨rfl, rfl⟩
  | some reason => exact ⟨rfl, rfl⟩

theorem fanOut_held : ∀ (subscriptions : List (Subscription ι)) (s : Scene ι ω),
    (fanOut a t subscriptions s).value.coordinator.held = []
  | [], _ => rfl
  | subscription :: rest, s => by
    rw [(fanOut_cons subscription rest s).1]
    exact fanOut_held rest _

theorem noted_telling {s : Scene ι ω} (subscription : Subscription ι) (failure : Option String)
    (hs : s.coordinator.dispatching = true) : s.Telling (a.noted subscription failure) s [] := by
  cases failure with
  | none => exact .refl hs
  | some reason => exact ⟨rfl, hs, (List.append_nil _).symm, rfl, rfl, rfl⟩

/-- What is noted as waiting while everyone is told is what the reactions ask for, one after the other. -/
theorem fanOut_requests : ∀ (subscriptions : List (Subscription ι)) (s : Scene ι ω),
    Moment.requests (fanOut a t subscriptions s).events
      = (callbacks a t subscriptions s).flatMap fun c => (a.react c.1.listener t).raised a c.2
  | [], _ => rfl
  | subscription :: rest, s => by
    have hnoted : ∀ failure, Moment.requests (a.noted subscription failure) = [] := by
      rintro (_ | reason) <;> rfl
    have hheard : ∀ moments : List (Moment ι),
        Moment.requests (.heard subscription t :: moments) = Moment.requests moments := fun _ => rfl
    rw [(fanOut_cons subscription rest s).2, callbacks, List.flatMap_cons, hheard,
      Moment.requests_append, Moment.requests_append, hnoted, List.nil_append, fanOut_requests rest,
      Reaction.requests_run]

variable [DecidableEq ι]

/-- Everyone is told once, in order, however the reactions of the others end. -/
theorem fanOut_telling : ∀ (subscriptions : List (Subscription ι)) {s : Scene ι ω},
    s.coordinator.dispatching = true →
      s.Telling (fanOut a t subscriptions s).events (fanOut a t subscriptions s).value
        (subscriptions.map fun subscription => (subscription, t))
  | [], s, hs => ⟨rfl, hs, (List.append_nil _).symm, rfl, rfl, rfl⟩
  | subscription :: rest, s, hs => by
    obtain ⟨hvalue, hevents⟩ := fanOut_cons (a := a) (t := t) subscription rest s
    have hheard : s.Telling [.heard subscription t] (s.hold (subscription :: rest))
        [(subscription, t)] := ⟨rfl, hs, (List.append_nil _).symm, rfl, rfl, rfl⟩
    have hrun := (a.react subscription.listener t).run_telling (a := a) hheard.dispatching
    have hnoted := noted_telling (a := a) subscription
      ((a.react subscription.listener t).run a (s.hold (subscription :: rest))).value.1
      hrun.dispatching
    rw [hvalue, hevents]
    exact hheard.trans (hrun.trans (hnoted.trans (fanOut_telling rest hrun.dispatching)))

/-- Every reaction starts with the orientation that all are told of. -/
theorem callbacks_started : ∀ (subscriptions : List (Subscription ι)) {s s₀ : Scene ι ω}
    {subscription : Subscription ι}, s.coordinator.dispatching = true →
    (subscription, s₀) ∈ callbacks a t subscriptions s →
    s₀.coordinator.current = s.coordinator.current ∧ s₀.coordinator.dispatching = true
  | first :: rest, s, s₀, subscription, hs, hmem => by
    have hfirst : (s.hold (first :: rest)).coordinator.dispatching = true := hs
    rcases List.mem_cons.1 hmem with heq | hmem
    · cases heq
      exact ⟨rfl, hs⟩
    · have hrun := (a.react first.listener t).run_telling (a := a) hfirst
      obtain ⟨hcurrent, hdispatching⟩ := callbacks_started rest hrun.dispatching hmem
      exact ⟨hcurrent.trans hrun.current, hdispatching⟩

end Telling

end Scene

/-! ### Rounds -/

/-- A transition that is made: the change that is carried out, and the scene in which it starts. -/
structure Round (ι ω : Type) where
  change : Change
  start : Scene ι ω

/-- A scene in which changes are being carried out, and nobody is being told of a transition. -/
structure Scene.Between (s : Scene ι ω) : Prop where
  dispatching : s.coordinator.dispatching = true
  held : s.coordinator.held = []

/-- A scene with other changes waiting. -/
def Scene.waiting (pending : List Change) (s : Scene ι ω) : Scene ι ω :=
  { s with coordinator.pending := pending }

namespace Scene.Between

variable {s : Scene ι ω}

theorem waiting (hs : s.Between) (pending : List Change) : (s.waiting pending).Between :=
  ⟨hs.dispatching, hs.held⟩

/-- A round starts where the one before it has ended, apart from what waits. -/
theorem start {r : Round ι ω} (hs : s.Between)
    (hstart : r.start = s.waiting r.start.coordinator.pending) : r.start.Between := by
  rw [hstart]
  exact hs.waiting _

end Scene.Between

section Rounds

variable [DecidableEq ι]

namespace Round

/-- What the change leads to. -/
def transition (r : Round ι ω) : Transition := r.change.transitionFrom r.start.coordinator.current

/-- Who is subscribed and alive when the transition starts. -/
def listeners (a : Audience ι ω) (r : Round ι ω) : List (Subscription ι) :=
  r.start.coordinator.subscriptions.filter fun s => a.keeps r.start.world s.listener

/-- What happens in a round. -/
def events (a : Audience ι ω) (r : Round ι ω) : List (Moment ι) := (r.start.turn a r.change).events

/-- The scene after a round. -/
def after (a : Audience ι ω) (r : Round ι ω) : Scene ι ω := (r.start.turn a r.change).value

/-- The scene in which the transition has been made and is told. -/
def turned (a : Audience ι ω) (r : Round ι ω) : Scene ι ω :=
  { r.start with coordinator := { r.start.coordinator with
      current := r.transition.next, subscriptions := r.listeners a } }

/-- Whom the transition is told, with the scene in which the reaction of each starts. -/
def callbacks (a : Audience ι ω) (r : Round ι ω) : List (Subscription ι × Scene ι ω) :=
  Scene.callbacks a r.transition (r.listeners a) (r.turned a)

/-- The changes that listeners ask for in a round, in the order in which they ask. -/
def raised (a : Audience ι ω) (r : Round ι ω) : List Change :=
  (r.callbacks a).flatMap fun c => (a.react c.1.listener r.transition).raised a c.2

/-- One round right after another: it carries out the change that has waited longest. -/
def Next (a : Audience ι ω) (r r' : Round ι ω) : Prop :=
  ∃ rest, (r.after a).coordinator.pending = r'.change :: rest ∧ r'.start = (r.after a).waiting rest

variable {a : Audience ι ω} {r : Round ι ω}

/-- Nobody is held before a transition starts, so only the world keeps listeners alive. -/
theorem live_eq_listeners (hr : r.start.Between) :
    r.start.coordinator.live (a.keeps r.start.world) = r.listeners a := by
  simp [Coordinator.live, listeners, hr.held]

theorem turn_eq (hr : r.start.Between) :
    r.after a = (Scene.fanOut a r.transition (r.listeners a) (r.turned a)).value ∧
      r.events a = .turned r.transition ::
        (Scene.fanOut a r.transition (r.listeners a) (r.turned a)).events := by
  simp only [after, events, Scene.turn, live_eq_listeners hr]
  exact ⟨rfl, rfl⟩

theorem telling (hr : r.start.Between) :
    (r.turned a).Telling (Scene.fanOut a r.transition (r.listeners a) (r.turned a)).events
      (r.after a) ((r.listeners a).map fun s => (s, r.transition)) := by
  rw [(turn_eq hr).1]
  exact Scene.fanOut_telling (r.listeners a) hr.dispatching

theorem after_between (hr : r.start.Between) : (r.after a).Between where
  dispatching := (telling hr).dispatching
  held := by
    rw [(turn_eq hr).1]
    exact Scene.fanOut_held ..

theorem after_current (hr : r.start.Between) :
    (r.after a).coordinator.current = r.transition.next := (telling hr).current

theorem transitions_events (hr : r.start.Between) :
    Moment.transitions (r.events a) = [r.transition] := by
  rw [(turn_eq hr).2]
  exact congrArg (r.transition :: ·) (telling hr).transitions

theorem deliveries_events (hr : r.start.Between) :
    Moment.deliveries (r.events a) = (r.listeners a).map fun s => (s, r.transition) := by
  rw [(turn_eq hr).2]
  exact (telling hr).deliveries

theorem losses_events (hr : r.start.Between) : Moment.losses (r.events a) = [] := by
  rw [(turn_eq hr).2]
  exact (telling hr).losses

theorem requests_events (hr : r.start.Between) : Moment.requests (r.events a) = r.raised a := by
  rw [(turn_eq hr).2]
  exact Scene.fanOut_requests (r.listeners a) (r.turned a)

theorem after_pending (hr : r.start.Between) :
    (r.after a).coordinator.pending
      = r.start.coordinator.pending ++ Moment.requests (r.events a) := by
  rw [(turn_eq hr).2]
  exact (telling hr).pending

/-- Within a reaction the orientation is the one that is told, and changes are being carried out. -/
theorem within {subscription : Subscription ι} {s₀ s' : Scene ι ω} {reaction rest : Reaction ι ω}
    {moments : List (Moment ι)} (hr : r.start.Between)
    (hmem : (subscription, s₀) ∈ r.callbacks a) (hreach : reaction.Reaches a s₀ moments rest s') :
    s'.coordinator.current = r.transition.next ∧ s'.coordinator.dispatching = true := by
  obtain ⟨hcurrent, hdispatching⟩ := Scene.callbacks_started (r.listeners a)
    (s := r.turned a) hr.dispatching hmem
  have htelling := hreach.telling hdispatching
  exact ⟨htelling.current.trans hcurrent, htelling.dispatching⟩

end Round

/-! ### Draining the queue -/

namespace Scene

/-- How a queue is drained, with so many rounds left: the rounds, what happens, and the scene after it. -/
inductive Drains (a : Audience ι ω) : Nat → Scene ι ω → List (Round ι ω) → List (Moment ι) →
    Scene ι ω → Prop where
  | done {left : Nat} {s : Scene ι ω} : s.coordinator.pending = [] → Drains a left s [] [] s
  | spent {s : Scene ι ω} {change : Change} {rest : List Change} :
      s.coordinator.pending = change :: rest →
      Drains a 0 s [] [.dropped (rest.length + 1)] (s.waiting [])
  | turn {left : Nat} {s s' : Scene ι ω} {r : Round ι ω} {rounds : List (Round ι ω)}
      {moments : List (Moment ι)} :
      s.coordinator.pending = r.change :: r.start.coordinator.pending →
      r.start = s.waiting r.start.coordinator.pending → Drains a left (r.after a) rounds moments s' →
      Drains a (left + 1) s (r :: rounds) (r.events a ++ moments) s'

theorem drain_of_nil {s : Scene ι ω} (a : Audience ι ω) (left : Nat)
    (hp : s.coordinator.pending = []) : drain a left s = pure s := by
  unfold drain
  rw [hp]

theorem drain_zero {s : Scene ι ω} {change : Change} {rest : List Change} (a : Audience ι ω)
    (hp : s.coordinator.pending = change :: rest) :
    drain a 0 s = (do Account.tell (.dropped (rest.length + 1)); return s.waiting []) := by
  unfold drain
  rw [hp]
  rfl

theorem drain_succ {s : Scene ι ω} {change : Change} {rest : List Change} (a : Audience ι ω)
    (left : Nat) (hp : s.coordinator.pending = change :: rest) :
    drain a (left + 1) s = (do drain a left (← turn a change (s.waiting rest))) := by
  rw [drain, hp]
  rfl

/-- The rounds in which a queue is drained, with so many left. -/
def rounds (a : Audience ι ω) : Nat → Scene ι ω → List (Round ι ω)
  | 0, _ => []
  | left + 1, s =>
    match s.coordinator.pending with
    | [] => []
    | change :: rest =>
      let r : Round ι ω := ⟨change, s.waiting rest⟩
      r :: rounds a left (r.after a)

theorem rounds_of_nil {s : Scene ι ω} (a : Audience ι ω) (left : Nat)
    (hp : s.coordinator.pending = []) : rounds a left s = [] := by
  cases left with
  | zero => rfl
  | succ left => rw [rounds, hp]

theorem rounds_succ {s : Scene ι ω} {change : Change} {rest : List Change} (a : Audience ι ω)
    (left : Nat) (hp : s.coordinator.pending = change :: rest) :
    rounds a (left + 1) s = ⟨change, s.waiting rest⟩ ::
      rounds a left (Round.after a ⟨change, s.waiting rest⟩) := by
  rw [rounds, hp]

theorem drain_drains (a : Audience ι ω) (left : Nat) (s : Scene ι ω) :
    Drains a left s (rounds a left s) (drain a left s).events (drain a left s).value := by
  induction left generalizing s with
  | zero =>
    cases hp : s.coordinator.pending with
    | nil =>
      rw [drain_of_nil a 0 hp]
      exact .done hp
    | cons change rest =>
      rw [drain_zero a hp]
      exact .spent hp
  | succ left ih =>
    cases hp : s.coordinator.pending with
    | nil =>
      rw [drain_of_nil a _ hp, rounds_of_nil a _ hp]
      exact .done hp
    | cons change rest =>
      rw [drain_succ a left hp, rounds_succ a left hp]
      let r : Round ι ω := ⟨change, s.waiting rest⟩
      exact .turn hp rfl (ih (r.after a))

variable {a : Audience ι ω} {left : Nat} {s s' : Scene ι ω} {rounds : List (Round ι ω)}
  {moments : List (Moment ι)}

theorem Drains.between (h : Drains a left s rounds moments s') (hs : s.Between) :
    (∀ r ∈ rounds, r.start.Between) ∧ s'.Between := by
  induction h with
  | done _ => exact ⟨by simp, hs⟩
  | spent _ => exact ⟨by simp, hs.waiting []⟩
  | turn _ hstart _ ih =>
    have hr := hs.start hstart
    obtain ⟨hrounds, hended⟩ := ih (Round.after_between hr)
    exact ⟨List.forall_mem_cons.2 ⟨hr, hrounds⟩, hended⟩

theorem Drains.head_next {r : Round ι ω} (h : Drains a left (r.after a) rounds moments s') :
    ∀ r' ∈ rounds.head?, r.Next a r' := by
  cases h with
  | done _ => simp
  | spent _ => simp
  | @turn _ _ _ r' _ _ hpending hstart _ =>
    rintro _ ⟨⟩
    exact ⟨_, hpending, hstart⟩

/-- Each round comes right after the one before it. -/
theorem Drains.chain (h : Drains a left s rounds moments s') : rounds.IsChain (Round.Next a) := by
  induction h with
  | done _ => exact .nil
  | spent _ => exact .nil
  | turn _ _ hrest ih => exact List.isChain_cons.2 ⟨hrest.head_next, ih⟩

/-- What happens is what happens in the rounds, and a loss at most. -/
theorem Drains.moments_eq (h : Drains a left s rounds moments s') :
    ∃ lost, moments = rounds.flatMap (Round.events a) ++ lost ∧
      (lost = [] ∨ ∃ count, lost = [.dropped count]) := by
  induction h with
  | done _ => exact ⟨[], rfl, Or.inl rfl⟩
  | spent _ => exact ⟨_, rfl, Or.inr ⟨_, rfl⟩⟩
  | turn _ _ _ ih =>
    obtain ⟨lost, rfl, hlost⟩ := ih
    exact ⟨lost, by rw [List.flatMap_cons, List.append_assoc], hlost⟩

/-- At the start of a round the changes that have been asked for are those carried out before, the one
    that is carried out now, and those that wait. -/
theorem Drains.queue (h : Drains a left s rounds moments s') (hs : s.Between)
    {before after : List (Round ι ω)} {r : Round ι ω} (hr : rounds = before ++ r :: after) :
    s.coordinator.pending ++ Moment.requests (before.flatMap (Round.events a))
      = before.map Round.change ++ r.change :: r.start.coordinator.pending := by
  induction h generalizing before with
  | done _ => simp at hr
  | spent _ => simp at hr
  | turn hpending hstart _ ih =>
    have hfirst := hs.start hstart
    cases before with
    | nil =>
      obtain ⟨rfl, -⟩ := List.cons.inj hr
      simpa [Moment.requests] using hpending
    | cons first before =>
      obtain ⟨rfl, hrest⟩ := List.cons.inj hr
      -- what is asked for in the first round waits behind the others when the second one starts
      have hqueue := ih (Round.after_between hfirst) hrest
      rw [Round.after_pending hfirst, List.append_assoc, ← Moment.requests_append] at hqueue
      rw [hpending, List.cons_append, List.flatMap_cons, hqueue, List.map_cons, List.cons_append]

/-- What is noted as waiting is what the listeners ask for, round by round. -/
theorem Drains.requests (h : Drains a left s rounds moments s') (hs : s.Between) :
    Moment.requests moments = rounds.flatMap (Round.raised a) := by
  induction h with
  | done _ => rfl
  | spent _ => rfl
  | turn _ hstart _ ih =>
    have hr := hs.start hstart
    rw [Moment.requests_append, Round.requests_events hr, ih (Round.after_between hr),
      List.flatMap_cons]

/-- The changes that have waited longest are carried out, as many as there are rounds left, and the
    others are given up. -/
theorem Drains.carried_out (h : Drains a left s rounds moments s') (hs : s.Between) :
    let queue := s.coordinator.pending ++ Moment.requests moments
    rounds.map Round.change = queue.take left ∧
      Moment.losses moments = if queue.length ≤ left then [] else [queue.length - left] := by
  induction h with
  | done hp => simp [hp, Moment.requests, Moment.losses]
  | spent hp => simp [hp, Moment.requests, Moment.losses, Moment.queued?, Moment.dropped?]
  | @turn left s s' r rounds moments hpending hstart _ ih =>
    intro queue
    have hr := hs.start hstart
    obtain ⟨hchanges, hlosses⟩ := ih (Round.after_between hr)
    have hqueue : queue = r.change :: ((r.after a).coordinator.pending ++ Moment.requests moments) := by
      simp only [queue, hpending, Moment.requests_append, Round.after_pending hr, List.cons_append,
        List.append_assoc]
    refine ⟨?_, ?_⟩
    · rw [hqueue, List.take_succ_cons, List.map_cons, hchanges]
    · rw [Moment.losses_append, Round.losses_events hr, List.nil_append, hlosses, hqueue]
      simp only [List.length_cons, Nat.add_le_add_iff_right, Nat.add_sub_add_right]

end Scene

/-- The transitions that some changes lead to, one after the other. -/
def Change.carryOut : Orientation → List Change → List Transition
  | _, [] => []
  | o, change :: rest =>
    let t := change.transitionFrom o
    t :: carryOut t.next rest

theorem Change.carryOut_head : ∀ (o : Orientation) (changes : List Change),
    ∀ t ∈ (carryOut o changes).head?, t.previous = o
  | _, [] => by simp [carryOut]
  | _, _ :: _ => by
    rintro _ ⟨⟩
    rfl

/-- Each transition starts from the orientation that the one before it has led to. -/
theorem Change.carryOut_chain : ∀ (o : Orientation) (changes : List Change),
    (carryOut o changes).IsChain fun t t' => t'.previous = t.next
  | _, [] => .nil
  | _, _ :: rest => List.isChain_cons.2 ⟨carryOut_head _ rest, carryOut_chain _ rest⟩

theorem Change.carryOut_length : ∀ (o : Orientation) (changes : List Change),
    (carryOut o changes).length = changes.length
  | _, [] => rfl
  | _, _ :: rest => congrArg (· + 1) (carryOut_length _ rest)

namespace Scene

variable {a : Audience ι ω} {left : Nat} {s s' : Scene ι ω} {rounds : List (Round ι ω)}
  {moments : List (Moment ι)}

theorem Drains.transitions (h : Drains a left s rounds moments s') (hs : s.Between) :
    Moment.transitions moments = rounds.map Round.transition ∧
      rounds.map Round.transition
        = Change.carryOut s.coordinator.current (rounds.map Round.change) := by
  induction h with
  | done _ => exact ⟨rfl, rfl⟩
  | spent _ => exact ⟨rfl, rfl⟩
  | @turn left s s' r rounds moments _ hstart _ ih =>
    have hr := hs.start hstart
    obtain ⟨hturned, hcarried⟩ := ih (Round.after_between hr)
    have hcurrent : r.start.coordinator.current = s.coordinator.current := by
      rw [hstart]
      rfl
    refine ⟨?_, ?_⟩
    · rw [Moment.transitions_append, Round.transitions_events hr, hturned]
      rfl
    · rw [List.map_cons, List.map_cons, Change.carryOut, hcarried, Round.after_current hr,
        Round.transition, hcurrent]

/-- Nothing waits any more in the end, and the orientation is the one that the last transition has led
    to. -/
theorem Drains.ended (h : Drains a left s rounds moments s') (hs : s.Between) :
    s'.coordinator.pending = [] ∧ s'.coordinator.current
      = ((rounds.map Round.transition).getLast?.map Transition.next).getD s.coordinator.current := by
  induction h with
  | done hp => exact ⟨hp, rfl⟩
  | spent _ => exact ⟨rfl, rfl⟩
  | @turn left s s' r rounds moments _ hstart _ ih =>
    have hr := hs.start hstart
    obtain ⟨hpending, hcurrent⟩ := ih (Round.after_between hr)
    refine ⟨hpending, ?_⟩
    rw [hcurrent, Round.after_current hr, List.map_cons, List.getLast?_cons]
    cases (rounds.map Round.transition).getLast? with
    | none => rfl
    | some t => rfl

end Scene

/-! ### Calls from outside -/

namespace Scene

/-- A scene in which no changes are being carried out: none waits, and nobody is told of anything. -/
structure Idle (s : Scene ι ω) : Prop where
  dispatching : s.coordinator.dispatching = false
  pending : s.coordinator.pending = []
  held : s.coordinator.held = []

variable {s s' : Scene ι ω}

omit [DecidableEq ι] in
theorem Idle.marked_between (hs : s.Idle) : (s.marked true).Between := ⟨rfl, hs.held⟩

omit [DecidableEq ι] in
theorem Idle.waiting_nil (hs : s.Idle) (dispatching : Bool) :
    (s.marked dispatching).waiting [] = s.marked dispatching := by
  rw [waiting, marked, ← hs.pending]

/-- A change that is asked for from outside is the only one that waits, and has a round of its own. -/
theorem setGravity_drains (hs : s.Idle) (a : Audience ι ω) (change : Change) :
    let r : Round ι ω := ⟨change, s.marked true⟩
    ∃ s', Drains a (maxChained + 1) ((s.marked true).waiting [change])
        (r :: rounds a maxChained (r.after a)) (s.setGravity a change).events s' ∧
      (s.setGravity a change).value = s'.marked false := by
  intro r
  -- the change itself is not chained, so it makes for one round more
  have hrounds := drain_drains a maxChained (r.after a)
  have hset : s.setGravity a change
      = (do return (← drain a maxChained (← turn a change (s.marked true))).marked false) := by
    simp only [setGravity, hs.dispatching, Bool.false_eq_true, if_false]
  have hpending : (s.marked true).coordinator.pending = [] := hs.pending
  refine ⟨(drain a maxChained (r.after a)).value, ?_, ?_⟩
  · rw [hset]
    have hturn : Drains a (maxChained + 1) ((s.marked true).waiting [change])
        (r :: rounds a maxChained (r.after a)) (r.events a ++ (drain a maxChained (r.after a)).events)
        (drain a maxChained (r.after a)).value := by
      refine .turn ?_ ?_ hrounds
      · rw [hpending]
        rfl
      · rw [hpending]
        exact (hs.waiting_nil true).symm
    simp only [Account.events_bind, Account.events_pure, List.append_nil]
    exact hturn
  · rw [hset]
    rfl

/-- The scene with the orientation and the changes of a snapshot. -/
def resumed (snapshot : Snapshot) (s : Scene ι ω) : Scene ι ω :=
  { s with coordinator :=
    { s.coordinator with current := snapshot.orientation, pending := snapshot.pending } }

/-- Going back to a snapshot drains its changes, after the orientation has been restored. -/
theorem resume_drains (hs : s.Idle) (a : Audience ι ω) (snapshot : Snapshot) :
    let started := (s.resumed snapshot).marked true
    ∃ moments s', Drains a maxChained started (rounds a maxChained started) moments s' ∧
      (resume a snapshot s).events = .restored snapshot.orientation :: moments ∧
      (resume a snapshot s).value = s'.marked false := by
  intro started
  cases hp : snapshot.pending with
  | nil =>
    have hnone : rounds a maxChained started = [] := rounds_of_nil a maxChained hp
    refine ⟨[], started, by rw [hnone]; exact .done hp, ?_, ?_⟩
    · simp only [resume, hp]
      rfl
    · have hvalue : (resume a snapshot s).value
          = ⟨{ s.coordinator with current := snapshot.orientation }, s.world⟩ := by
        simp only [resume, hp]
        rfl
      rw [hvalue]
      simp only [started, resumed, marked, hp, ← hs.pending, ← hs.dispatching]
  | cons change rest =>
    refine ⟨_, _, drain_drains a maxChained started, ?_, ?_⟩
    · simp only [started, resume, hp, resumed, marked, hs.pending]
      simp
    · simp only [started, resume, hp, resumed, marked, hs.pending]
      simp

theorem Drains.idle {a : Audience ι ω} {left : Nat} {rounds : List (Round ι ω)}
    {moments : List (Moment ι)} (h : Drains a left s rounds moments s') (hs : s.Between) :
    (s'.marked false).Idle :=
  ⟨rfl, (h.ended hs).1, (h.between hs).2.held⟩

end Scene

end Rounds

end Inversion
