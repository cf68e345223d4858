import Inversion.Proofs.Gravity.Round

/-!
Who is told of what, and when. A change that is asked for from outside is carried out in rounds: its own
one, and one for each change that listeners ask for meanwhile, in the order in which they ask. Each round
goes on from the orientation that the one before it has led to, and tells those who are subscribed and
alive when it starts; what a listener changes or how it fails makes no difference to whom the same round
tells.
-/

namespace Inversion

variable {ι ω : Type}

/-! ### Failures -/

/-- Whether a listener fails. -/
def Moment.isFailure : Moment ι → Bool
  | failed _ _ _ => true
  | _ => false

/-- What happens apart from the failures of listeners. -/
def Moment.withoutFailures (moments : List (Moment ι)) : List (Moment ι) :=
  moments.filter fun m => !m.isFailure

theorem Moment.withoutFailures_append (xs ys : List (Moment ι)) :
    withoutFailures (xs ++ ys) = withoutFailures xs ++ withoutFailures ys := List.filter_append ..

/-- A reaction that does the same, and never fails. -/
def Reaction.forgiving : Reaction ι ω → Reaction ι ω
  | finish _ => finish none
  | look next => look fun c w => (next c w).forgiving
  | update f next => update f next.forgiving
  | request change next => request change next.forgiving
  | subscribe listener next => subscribe listener fun handle => (next handle).forgiving
  | unsubscribe handle next => unsubscribe handle fun found => (next found).forgiving
  | save store next => save store fun result => (next result).forgiving
  | restore store next => restore store fun result => (next result).forgiving

/-- Listeners that do the same, and never fail. -/
def Audience.forgiving (a : Audience ι ω) : Audience ι ω :=
  { a with react := fun listener t => (a.react listener t).forgiving }

theorem Reaction.forgiving_forgiving (r : Reaction ι ω) : r.forgiving.forgiving = r.forgiving := by
  induction r with
  | finish failure => rfl
  | look next ih => exact congrArg look (funext fun c => funext fun w => ih c w)
  | update f next ih => exact congrArg (update f) ih
  | request change next ih => exact congrArg (request change) ih
  | subscribe listener next ih => exact congrArg (subscribe listener) (funext ih)
  | unsubscribe handle next ih => exact congrArg (unsubscribe handle) (funext ih)
  | save store next ih => exact congrArg (save store) (funext ih)
  | restore store next ih => exact congrArg (restore store) (funext ih)

theorem Audience.forgiving_forgiving (a : Audience ι ω) : a.forgiving.forgiving = a.forgiving := by
  have hreact (listener : ι) (t : Transition) :
      (a.react listener t).forgiving.forgiving = (a.react listener t).forgiving :=
    (a.react listener t).forgiving_forgiving
  simp only [forgiving, hreact]

section Failures

variable {a : Audience ι ω}

theorem Reaction.run_forgiving (r : Reaction ι ω) (s : Scene ι ω) :
    (r.forgiving.run a.forgiving s).value = (none, (r.run a s).value.2) ∧
      (r.forgiving.run a.forgiving s).events = Moment.withoutFailures (r.run a s).events := by
  induction r generalizing s with
  | finish failure => exact ⟨rfl, rfl⟩
  | look next ih => exact ih _ _ s
  | update f next ih => exact ih _
  | request change next ih =>
    obtain ⟨hvalue, hevents⟩ := ih (s.queue change).value
    exact ⟨hvalue, congrArg (Moment.queued change :: ·) hevents⟩
  | subscribe listener next ih =>
    obtain ⟨hvalue, hevents⟩ := ih s.coordinator.issued (s.subscribe a listener).value.2
    exact ⟨hvalue, congrArg (Moment.subscribed (a.name listener) s.coordinator.issued :: ·) hevents⟩
  | unsubscribe handle next ih => exact ih _ _
  | save store next ih =>
    obtain ⟨hvalue, hevents⟩ := ih (s.save store).value s
    have hsave : Moment.withoutFailures (s.save store).events = (s.save store).events := by
      unfold Scene.save
      split <;> rfl
    refine ⟨hvalue, ?_⟩
    simp only [forgiving, run, Account.events_bind, hevents, Moment.withoutFailures_append, hsave]
  | restore store next ih => exact ih _ s

theorem Audience.withoutFailures_noted (subscription : Subscription ι) (failure : Option String) :
    Moment.withoutFailures (a.noted subscription failure) = [] := by
  cases failure with
  | none => rfl
  | some reason => rfl

namespace Scene

theorem fanOut_forgiving {t : Transition} : ∀ (subscriptions : List (Subscription ι)) (s : Scene ι ω),
    (fanOut a.forgiving t subscriptions s).value = (fanOut a t subscriptions s).value ∧
      (fanOut a.forgiving t subscriptions s).events
        = Moment.withoutFailures (fanOut a t subscriptions s).events
  | [], _ => ⟨rfl, rfl⟩
  | subscription :: rest, s => by
    obtain ⟨hvalue, hevents⟩ := fanOut_cons (a := a) (t := t) subscription rest s
    obtain ⟨hvalue', hevents'⟩ := fanOut_cons (a := a.forgiving) (t := t) subscription rest s
    have hreact : a.forgiving.react subscription.listener t
        = (a.react subscription.listener t).forgiving := rfl
    obtain ⟨hran, hmoments⟩ :=
      (a.react subscription.listener t).run_forgiving (a := a) (s.hold (subscription :: rest))
    obtain ⟨hrest, hothers⟩ := fanOut_forgiving (t := t) rest
      ((a.react subscription.listener t).run a (s.hold (subscription :: rest))).value.2
    rw [hvalue, hvalue', hevents, hevents', hreact, hran, hmoments]
    refine ⟨hrest, ?_⟩
    change _ = Moment.heard subscription t :: Moment.withoutFailures (_ ++ (_ ++ _))
    rw [Moment.withoutFailures_append, Moment.withoutFailures_append, Audience.withoutFailures_noted,
      hothers]
    rfl

variable [DecidableEq ι]

theorem turn_forgiving (change : Change) (s : Scene ι ω) :
    (turn a.forgiving change s).value = (turn a change s).value ∧
      (turn a.forgiving change s).events = Moment.withoutFailures (turn a change s).events := by
  obtain ⟨hvalue, hevents⟩ := fanOut_forgiving (a := a)
    (t := change.transitionFrom s.coordinator.current) (s.coordinator.live (a.keeps s.world))
    { s with coordinator := { s.coordinator with
        current := (change.transitionFrom s.coordinator.current).next
        subscriptions := s.coordinator.live (a.keeps s.world) } }
  exact ⟨hvalue, congrArg (Moment.turned (change.transitionFrom s.coordinator.current) :: ·) hevents⟩

theorem drain_forgiving (left : Nat) (s : Scene ι ω) :
    (drain a.forgiving left s).value = (drain a left s).value ∧
      (drain a.forgiving left s).events = Moment.withoutFailures (drain a left s).events := by
  induction left generalizing s with
  | zero =>
    cases hp : s.coordinator.pending with
    | nil =>
      rw [drain_of_nil a.forgiving 0 hp, drain_of_nil a 0 hp]
      exact ⟨rfl, rfl⟩
    | cons change rest =>
      rw [drain_zero a.forgiving hp, drain_zero a hp]
      exact ⟨rfl, rfl⟩
  | succ left ih =>
    cases hp : s.coordinator.pending with
    | nil =>
      rw [drain_of_nil a.forgiving _ hp, drain_of_nil a _ hp]
      exact ⟨rfl, rfl⟩
    | cons change rest =>
      obtain ⟨hturned, hevents⟩ := turn_forgiving (a := a) change (s.waiting rest)
      obtain ⟨hdrained, hmoments⟩ := ih (turn a change (s.waiting rest)).value
      rw [drain_succ a.forgiving left hp, drain_succ a left hp]
      simp only [Account.value_bind, Account.events_bind, hturned, hdrained, hevents, hmoments,
        Moment.withoutFailures_append]
      trivial

/-- Whether a listener fails makes no difference to what happens otherwise. -/
theorem setGravity_forgiving (a : Audience ι ω) (change : Change) (s : Scene ι ω) :
    (s.setGravity a.forgiving change).value = (s.setGravity a change).value ∧
      (s.setGravity a.forgiving change).events
        = Moment.withoutFailures (s.setGravity a change).events := by
  unfold setGravity
  split
  · exact ⟨rfl, rfl⟩
  · obtain ⟨hturned, hevents⟩ := turn_forgiving (a := a) change (s.marked true)
    obtain ⟨hdrained, hmoments⟩ :=
      drain_forgiving (a := a) maxChained (turn a change (s.marked true)).value
    simp only [Account.value_bind, Account.events_bind, Account.value_pure, Account.events_pure,
      hturned, hdrained, hevents, hmoments, Moment.withoutFailures_append, List.append_nil]
    trivial

end Scene

end Failures

/-! ### Deliveries -/

section Deliveries

variable [DecidableEq ι] {a : Audience ι ω}

/-- What happens when one listener is told. -/
def Audience.moments (a : Audience ι ω) (t : Transition) (subscription : Subscription ι)
    (s : Scene ι ω) : List (Moment ι) :=
  let ended := (a.react subscription.listener t).run a s
  .heard subscription t :: (ended.events ++ a.noted subscription ended.value.1)

omit [DecidableEq ι] in
theorem Scene.fanOut_events {t : Transition} : ∀ (subscriptions : List (Subscription ι))
    (s : Scene ι ω), (fanOut a t subscriptions s).events
      = (callbacks a t subscriptions s).flatMap fun c => a.moments t c.1 c.2
  | [], _ => rfl
  | subscription :: rest, s => by
    rw [(fanOut_cons subscription rest s).2, callbacks, List.flatMap_cons, fanOut_events rest]
    simp only [Audience.moments, List.cons_append, List.append_assoc]

omit [DecidableEq ι] in
theorem Scene.fanOut_value {t : Transition} : ∀ (subscriptions : List (Subscription ι))
    (s : Scene ι ω), (fanOut a t subscriptions s).value
      = (((callbacks a t subscriptions s).map fun c =>
          ((a.react c.1.listener t).run a c.2).value.2).getLastD s).hold []
  | [], _ => rfl
  | subscription :: rest, s => by
    rw [(fanOut_cons subscription rest s).1, callbacks, List.map_cons, List.getLastD_cons,
      fanOut_value rest]

/-- What a round tells, to whom, and what its listeners find: the transition is the one that the change
    leads to; each of those who are subscribed and alive at the start is told of it once, in order, and
    the round ends where the last of them has left things; in everything that they do meanwhile the
    orientation is the new one, a change has to wait, and nothing is restored. -/
structure Round.Told (a : Audience ι ω) (r : Round ι ω) : Prop where
  previous : r.transition.previous = r.start.coordinator.current
  next : r.transition.next = r.change.request.resolve r.transition.previous
  momentum : r.transition.momentum = r.change.momentum
  byPlayer : r.transition.byPlayer = r.change.byPlayer
  toggled : r.transition.toggled = decide (r.change.request = .toggle)
  transitions : Moment.transitions (r.events a) = [r.transition]
  deliveries : Moment.deliveries (r.events a) = (r.listeners a).map fun s => (s, r.transition)
  callbacks : (r.callbacks a).map Prod.fst = r.listeners a
  /-- What has to wait is what the reactions ask for. -/
  requests : Moment.requests (r.events a) = r.raised a
  events : r.events a = .turned r.transition ::
    (r.callbacks a).flatMap fun c => a.moments r.transition c.1 c.2
  after : r.after a = (((r.callbacks a).map fun c =>
    ((a.react c.1.listener r.transition).run a c.2).value.2).getLastD (r.turned a)).hold []
  within : ∀ subscription s₀, (subscription, s₀) ∈ r.callbacks a → ∀ moments rest s',
    (a.react subscription.listener r.transition).Reaches a s₀ moments rest s' →
      s'.coordinator.current = r.transition.next ∧
      (∀ change, s'.setGravity a change = s'.queue change) ∧
      ∀ answer, s'.restoreFrom a answer = pure (.error .duringFanOut, s')

theorem Round.told {r : Round ι ω} (hr : r.start.Between) : r.Told a where
  previous := rfl
  next := rfl
  momentum := rfl
  byPlayer := rfl
  toggled := rfl
  transitions := transitions_events hr
  deliveries := deliveries_events hr
  callbacks := Scene.callbacks_map_fst ..
  requests := requests_events hr
  events := by
    rw [(turn_eq hr).2, Scene.fanOut_events]
    rfl
  after := by
    rw [(turn_eq hr).1, Scene.fanOut_value]
    rfl
  within := by
    intro subscription s₀ hmem moments rest s' hreach
    obtain ⟨hcurrent, hdispatching⟩ := Round.within hr hmem hreach
    exact ⟨hcurrent, Scene.setGravity_of_dispatching hdispatching,
      Scene.restoreFrom_of_dispatching hdispatching⟩

namespace Scene

theorem Drains.deliveries {left : Nat} {s s' : Scene ι ω} {rounds : List (Round ι ω)}
    {moments : List (Moment ι)} (h : Drains a left s rounds moments s') (hs : s.Between) :
    Moment.deliveries moments
      = rounds.flatMap fun r => (r.listeners a).map fun s => (s, r.transition) := by
  induction h with
  | done _ => rfl
  | spent _ => rfl
  | turn _ hstart _ ih =>
    have hr := hs.start hstart
    rw [Moment.deliveries_append, Round.deliveries_events hr, ih (Round.after_between hr),
      List.flatMap_cons]

/-- What asking for a change comes to: the rounds that are made, the first one for this change. -/
structure Delivery (a : Audience ι ω) (change : Change) (s : Scene ι ω)
    (rounds : List (Round ι ω)) : Prop where
  first : rounds.head? = some ⟨change, s.marked true⟩
  /-- Each other round is for the change that has waited longest, and starts where the one before it has
      ended. -/
  next : rounds.IsChain (Round.Next a)
  events : ∃ lost, (s.setGravity a change).events = rounds.flatMap (Round.events a) ++ lost ∧
    (lost = [] ∨ ∃ count, lost = [.dropped count])
  /-- At the start of a round the changes asked for so far are those carried out before, the one that is
      carried out now, and those that wait. -/
  queue : ∀ before r after, rounds = before ++ r :: after →
    change :: Moment.requests (before.flatMap (Round.events a))
      = before.map Round.change ++ r.change :: r.start.coordinator.pending
  carriedOut : rounds.map Round.change <+: change :: Moment.requests (s.setGravity a change).events
  transitions : Moment.transitions (s.setGravity a change).events = rounds.map Round.transition
  /-- Each transition starts from the orientation that the one before it has led to. -/
  beginning : ∀ t ∈ (rounds.map Round.transition).head?, t.previous = s.coordinator.current
  continuous : (rounds.map Round.transition).IsChain fun t t' => t'.previous = t.next
  ending : ∀ t ∈ (rounds.map Round.transition).getLast?,
    (s.setGravity a change).value.coordinator.current = t.next
  deliveries : Moment.deliveries (s.setGravity a change).events
    = rounds.flatMap fun r => (r.listeners a).map fun s => (s, r.transition)
  told : ∀ r ∈ rounds, r.Told a
  idle : (s.setGravity a change).value.Idle

/-- Asking for a change when none is being carried out delivers transitions in rounds, and which of the
    listeners fail makes no difference to anything else. -/
theorem setGravity_delivers {s : Scene ι ω} (hs : s.Idle) (a : Audience ι ω) (change : Change) :
    (∃ rounds, s.Delivery a change rounds) ∧
      ∀ b : Audience ι ω, b.forgiving = a.forgiving →
        (s.setGravity b change).value = (s.setGravity a change).value ∧
          Moment.withoutFailures (s.setGravity b change).events
            = Moment.withoutFailures (s.setGravity a change).events := by
  refine ⟨?_, ?_⟩
  · obtain ⟨s', hdrains, hvalue⟩ := setGravity_drains hs a change
    have hbetween : ((s.marked true).waiting [change]).Between := hs.marked_between.waiting _
    obtain ⟨hturned, hcarried⟩ := hdrains.transitions hbetween
    refine ⟨_, rfl, hdrains.chain, hdrains.moments_eq, ?_, ?_,
      hturned, ?_, ?_, ?_, hdrains.deliveries hbetween, ?_, ?_⟩
    · intro before r after hrounds
      exact hdrains.queue hbetween hrounds
    · rw [(hdrains.carried_out hbetween).1]
      exact List.take_prefix _ _
    · rw [hcarried]
      exact Change.carryOut_head _ _
    · rw [hcarried]
      exact Change.carryOut_chain _ _
    · intro t ht
      have hcurrent := (hdrains.ended hbetween).2
      rw [Option.mem_def.1 ht] at hcurrent
      rw [hvalue]
      exact hcurrent
    · intro r hr
      exact Round.told ((hdrains.between hbetween).1 r hr)
    · rw [hvalue]
      exact hdrains.idle hbetween
  · intro b hb
    obtain ⟨hvalue_b, hevents_b⟩ := setGravity_forgiving b change s
    obtain ⟨hvalue_a, hevents_a⟩ := setGravity_forgiving a change s
    rw [hb] at hvalue_b hevents_b
    exact ⟨hvalue_b.symm.trans hvalue_a, hevents_b.symm.trans hevents_a⟩

end Scene

end Deliveries

/-! ### A listener that lets another take its place -/

/-- Three listeners. The first one asks for a toggle when the player has changed something, subscribes the
    third one, gives up its own subscription and fails; the others only listen. -/
def Audience.quitters : Audience (Fin 3) Unit where
  name _ := "listener"
  keeps _ _ := true
  react
    | 0, t =>
      if t.byPlayer then
        .request ⟨.toggle, .one false, false⟩
          (.subscribe 2 fun _ => .unsubscribe 0 fun _ => .finish (some "gone"))
      else .finish none
    | _, _ => .finish none

/-- A coordinator to which the first two have subscribed. -/
def Scene.joined : Scene (Fin 3) Unit :=
  let (_, s) := (Scene.subscribe .quitters 0 ⟨.start .normal, ()⟩).value
  (s.subscribe .quitters 1).value.2

/-- The toggle is carried out after the first transition. Of it the second listener is told and, behind
    it, the third one, whose subscription has come too late for the first transition; all of it is the
    same if the first one does not fail. -/
theorem Scene.setGravity_delivers_joined :
    let change : Change := ⟨.inverted, .one false, true⟩
    let ended := joined.setGravity .quitters change
    let first : Transition := ⟨.normal, .inverted, .one false, true, false⟩
    let second : Transition := ⟨.inverted, .normal, .one false, false, true⟩
    joined.Idle ∧ joined.coordinator.subscriptions = [⟨0, 0⟩, ⟨1, 1⟩] ∧
      (∃ rounds, joined.Delivery .quitters change rounds ∧
        rounds.map Round.transition = [first, second] ∧
        (rounds.flatMap fun r => (r.listeners .quitters).map fun s => (s, r.transition))
          = [(⟨0, 0⟩, first), (⟨1, 1⟩, first), (⟨1, 1⟩, second), (⟨2, 2⟩, second)]) ∧
      (joined.setGravity Audience.quitters.forgiving change).value = ended.value := by
  intro change ended first second
  have hidle : joined.Idle := ⟨rfl, rfl, rfl⟩
  obtain ⟨⟨rounds, hdelivery⟩, hfailures⟩ := setGravity_delivers hidle .quitters change
  refine ⟨hidle, rfl, ⟨rounds, hdelivery, ?_, ?_⟩, ?_⟩
  · rw [← hdelivery.transitions]
    rfl
  · rw [← hdelivery.deliveries]
    rfl
  · exact (hfailures _ (Audience.forgiving_forgiving _)).1

end Inversion
