import Inversion.Proofs.Gravity.Checkpoint
import Inversion.Proofs.Gravity.Delivery

/-!
Carrying on from a state that was saved halfway. A listener may save the state of gravity at any moment
while it is told of a transition; what it saves is the orientation that the transitions so far have led
to, and the changes that have been asked for and are not carried out yet. So if nobody asks for anything
after it, what the call still does is what restoring that state does.
-/

namespace Inversion

/-! ### Where moments lead -/

/-- The orientation that some transitions lead to. -/
def Orientation.after (o : Orientation) (transitions : List Transition) : Orientation :=
  (transitions.getLast?.map Transition.next).getD o

namespace Orientation

theorem after_cons (o : Orientation) (t : Transition) (ts : List Transition) :
    o.after (t :: ts) = t.next.after ts := by
  rw [after, after, List.getLast?_cons]
  cases ts.getLast? with
  | none => rfl
  | some last => rfl

theorem after_append (o : Orientation) (ts us : List Transition) :
    o.after (ts ++ us) = (o.after ts).after us := by
  induction ts generalizing o with
  | nil => rfl
  | cons t ts ih => rw [List.cons_append, after_cons, after_cons, ih]

end Orientation

theorem Change.carryOut_append (o : Orientation) (xs ys : List Change) :
    carryOut o (xs ++ ys) = carryOut o xs ++ carryOut (o.after (carryOut o xs)) ys := by
  induction xs generalizing o with
  | nil => rfl
  | cons x xs ih => simp only [List.cons_append, carryOut, ih, Orientation.after_cons]

variable {ι ω : Type}

namespace Snapshot

/-- How some moments lead from one state to another: these changes have been carried out, and those that
    wait afterwards are the others of those that have waited or have been asked for. -/
structure Leads (p : Snapshot) (moments : List (Moment ι)) (carried : List Change) (q : Snapshot) :
    Prop where
  queue : p.pending ++ Moment.requests moments = carried ++ q.pending
  transitions : Moment.transitions moments = Change.carryOut p.orientation carried
  orientation : q.orientation = p.orientation.after (Moment.transitions moments)

/-- Whatever is saved among some moments is the state that the moments before it have led to. -/
def Records (p : Snapshot) (moments : List (Moment ι)) : Prop :=
  ∀ before q after, moments = before ++ .saved q :: after → ∃ carried, p.Leads before carried q

variable {p q r : Snapshot} {xs ys : List (Moment ι)} {carried carried' : List Change}

theorem Leads.refl (p : Snapshot) : p.Leads ([] : List (Moment ι)) [] p :=
  ⟨List.append_nil _, rfl, rfl⟩

theorem Leads.trans (h : p.Leads xs carried q) (h' : q.Leads ys carried' r) :
    p.Leads (xs ++ ys) (carried ++ carried') r where
  queue := by
    rw [Moment.requests_append, ← List.append_assoc, h.queue, List.append_assoc, h'.queue,
      List.append_assoc]
  transitions := by
    rw [Moment.transitions_append, Change.carryOut_append, h.transitions, h'.transitions,
      h.orientation, h.transitions]
  orientation := by
    rw [Moment.transitions_append, Orientation.after_append, h'.orientation, h.orientation]

/-- A change that waits is carried out. -/
theorem leads_turned (change : Change) (o : Orientation) (pending : List Change) :
    let t := change.transitionFrom o
    Leads ⟨o, change :: pending⟩ ([.turned t] : List (Moment ι)) [change] ⟨t.next, pending⟩ :=
  ⟨List.append_nil _, rfl, rfl⟩

theorem records_of_forall (h : ∀ q, Moment.saved q ∉ xs) : p.Records xs := by
  rintro before q after rfl
  exact absurd (List.mem_append_right _ List.mem_cons_self) (h q)

theorem records_nil : p.Records ([] : List (Moment ι)) := records_of_forall (by simp)

theorem Records.append (hxs : p.Records xs) (h : p.Leads xs carried q) (hys : q.Records ys) :
    p.Records (xs ++ ys) := by
  intro before saved after heq
  obtain ⟨zs, rfl, rfl⟩ | ⟨zs, rfl, hzs⟩ := List.append_eq_append_iff.1 heq
  · obtain ⟨later, hlater⟩ := hys zs saved after rfl
    exact ⟨_, h.trans hlater⟩
  · cases zs with
    | nil =>
      obtain ⟨later, hlater⟩ := hys [] saved after hzs.symm
      rw [List.append_nil] at h
      exact ⟨_, List.append_nil before ▸ h.trans hlater⟩
    | cons z zs =>
      obtain ⟨rfl, -⟩ := List.cons.inj hzs
      exact hxs before saved zs rfl

end Snapshot

/-! ### What listeners save -/

section Telling

variable {a : Audience ι ω} {t : Transition} {s s' : Scene ι ω}

/-- While a transition is told nothing is carried out. -/
theorem Scene.Telling.leads {moments : List (Moment ι)} {told : List (Subscription ι × Transition)}
    (h : s.Telling moments s' told) :
    s.coordinator.snapshot.Leads moments [] s'.coordinator.snapshot where
  queue := h.pending.symm
  transitions := h.transitions
  orientation := by
    rw [h.transitions]
    exact h.current

variable [DecidableEq ι]

namespace Reaction

theorem step_records (r : Reaction ι ω) (hs : s.coordinator.dispatching = true) :
    s.coordinator.snapshot.Records (r.step a s).events := by
  cases r with
  | finish failure => exact Snapshot.records_nil
  | look next => exact Snapshot.records_nil
  | update f next => exact Snapshot.records_nil
  | request change next =>
    have hevents : ((request change next).step a s).events = [.queued change] := by
      simp only [step, Scene.setGravity_of_dispatching hs]
      rfl
    rw [hevents]
    exact Snapshot.records_of_forall (by simp)
  | subscribe listener next =>
    have hevents : ((subscribe listener next).step a s).events
        = [.subscribed (a.name listener) s.coordinator.issued] := rfl
    rw [hevents]
    exact Snapshot.records_of_forall (by simp)
  | unsubscribe handle next => exact Snapshot.records_nil
  | save store next =>
    intro before q after heq
    simp only [step, Account.events_bind, Account.events_pure, List.append_nil, Scene.save] at heq
    split at heq
    · obtain ⟨rfl, hq⟩ : before = [] ∧ q = s.coordinator.snapshot := by
        cases before <;> simp_all
      rw [hq]
      exact ⟨[], .refl _⟩
    · simp at heq
  | restore store next =>
    have hevents : ((restore store next).step a s).events = [] := by
      simp only [step, Scene.restore, Scene.restoreFrom_of_dispatching hs]
      rfl
    rw [hevents]
    exact Snapshot.records_nil

theorem Reaches.records {r r' : Reaction ι ω} {moments : List (Moment ι)}
    (h : r.Reaches a s moments r' s') (hs : s.coordinator.dispatching = true) :
    s.coordinator.snapshot.Records moments := by
  induction h with
  | refl r s => exact Snapshot.records_nil
  | @step r r' s s' moments _ ih =>
    have hstep := r.step_telling (a := a) hs
    exact (r.step_records hs).append hstep.leads (ih hstep.dispatching)

end Reaction

omit [DecidableEq ι] in
theorem Audience.records_noted {p : Snapshot} (subscription : Subscription ι)
    (failure : Option String) : p.Records (a.noted subscription failure) := by
  cases failure with
  | none => exact Snapshot.records_nil
  | some reason => exact Snapshot.records_of_forall (by simp [noted])

theorem Scene.fanOut_records : ∀ (subscriptions : List (Subscription ι)) {s : Scene ι ω},
    s.coordinator.dispatching = true →
      s.coordinator.snapshot.Records (fanOut a t subscriptions s).events
  | [], _, _ => Snapshot.records_nil
  | subscription :: rest, s, hs => by
    obtain ⟨-, hevents⟩ := fanOut_cons (a := a) (t := t) subscription rest s
    let reaction := a.react subscription.listener t
    let started := s.hold (subscription :: rest)
    have hran : started.Telling (reaction.run a started).events (reaction.run a started).value.2 [] :=
      reaction.run_telling hs
    have hheard : s.coordinator.snapshot.Records [.heard subscription t] :=
      Snapshot.records_of_forall (by simp)
    have hleads : s.coordinator.snapshot.Leads [.heard subscription t] []
        started.coordinator.snapshot := ⟨List.append_nil _, rfl, rfl⟩
    have hreaction : started.coordinator.snapshot.Records (reaction.run a started).events :=
      Reaction.Reaches.records (reaction.run_reaches hs) hs
    have hnoted := noted_telling (a := a) subscription (reaction.run a started).value.1
      hran.dispatching
    rw [hevents]
    refine hheard.append hleads (hreaction.append hran.leads ?_)
    exact (Audience.records_noted subscription _).append hnoted.leads
      (fanOut_records rest hran.dispatching)

end Telling

/-! ### What is saved while the queue is drained -/

section Draining

variable [DecidableEq ι] {a : Audience ι ω}

namespace Round

variable {r : Round ι ω}

/-- The state right before a round. -/
def snapshot (r : Round ι ω) : Snapshot :=
  ⟨r.start.coordinator.current, r.change :: r.start.coordinator.pending⟩

theorem leads (hr : r.start.Between) :
    r.snapshot.Leads (r.events a) [r.change] (r.after a).coordinator.snapshot := by
  rw [(turn_eq hr).2]
  exact (Snapshot.leads_turned r.change r.start.coordinator.current
    r.start.coordinator.pending).trans (telling hr).leads

theorem records (hr : r.start.Between) : r.snapshot.Records (r.events a) := by
  have hturned : r.snapshot.Records ([.turned r.transition] : List (Moment ι)) :=
    Snapshot.records_of_forall (by simp)
  rw [(turn_eq hr).2]
  exact hturned.append (Snapshot.leads_turned r.change r.start.coordinator.current
    r.start.coordinator.pending) (Scene.fanOut_records (r.listeners a) hr.dispatching)

end Round

namespace Scene

variable {left : Nat} {s s' : Scene ι ω} {rounds : List (Round ι ω)} {moments : List (Moment ι)}

omit [DecidableEq ι] in
theorem snapshot_eq_round {r : Round ι ω}
    (hpending : s.coordinator.pending = r.change :: r.start.coordinator.pending)
    (hstart : r.start = s.waiting r.start.coordinator.pending) :
    s.coordinator.snapshot = r.snapshot := by
  have hcurrent : r.start.coordinator.current = s.coordinator.current := by
    rw [hstart]
    rfl
  rw [Coordinator.snapshot, Round.snapshot, hpending, hcurrent]

theorem Drains.records (h : Drains a left s rounds moments s') (hs : s.Between) :
    s.coordinator.snapshot.Records moments := by
  induction h with
  | done _ => exact Snapshot.records_nil
  | spent _ => exact Snapshot.records_of_forall (by simp)
  | turn hpending hstart _ ih =>
    have hr := hs.start hstart
    rw [snapshot_eq_round hpending hstart]
    exact (Round.records hr).append (Round.leads hr) (ih (Round.after_between hr))

theorem Drains.first (h : Drains a left s rounds moments s') :
    ∀ r ∈ rounds.head?, r.start = s.waiting r.start.coordinator.pending := by
  cases h with
  | done _ => simp
  | spent _ => simp
  | turn _ hstart _ =>
    rintro _ ⟨⟩
    exact hstart

theorem Drains.ending (h : Drains a left s rounds moments s') (hs : s.Between) :
    s'.coordinator.current = s.coordinator.current.after (Moment.transitions moments) := by
  rw [(h.transitions hs).1]
  exact (h.ended hs).2

end Scene

end Draining

end Inversion
