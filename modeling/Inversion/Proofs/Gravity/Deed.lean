import Inversion.Proofs.Gravity.Bound

/-!
What is done to subscriptions. Whatever changes the subscriptions of a coordinator is a deed: somebody
subscribes, a handle is given up, or a transition starts, which takes out those that are dead. The deeds
of any calls, with those of the listeners in between, are a chronicle: each of them is done to what those
before it have led to, and together they lead to the subscriptions that there are in the end.
-/

namespace Inversion

variable {ι ω : Type}

/-! ### Deeds -/

/-- What is done to the subscriptions of a coordinator. -/
inductive Act (ι : Type) where
  | subscribe (listener : ι)
  | unsubscribe (handle : Nat)
  /-- A transition starts. -/
  | turn

/-- Something that is done, with the scene in which it is done. -/
structure Deed (ι ω : Type) where
  act : Act ι
  scene : Scene ι ω

/-- What a reaction does. -/
def Reaction.deeds (a : Audience ι ω) : Reaction ι ω → Scene ι ω → List (Deed ι ω)
  | finish _, _ => []
  | look next, s => (next s.coordinator s.world).deeds a s
  | update f next, s => next.deeds a { s with world := f s.world }
  | request change next, s => next.deeds a (s.queue change).value
  | subscribe listener next, s =>
    let (handle, s') := (s.subscribe a listener).value
    ⟨.subscribe listener, s⟩ :: (next handle).deeds a s'
  | unsubscribe handle next, s =>
    let (found, s') := s.unsubscribe handle
    ⟨.unsubscribe handle, s⟩ :: (next found).deeds a s'
  | save store next, s => (next (s.save store).value).deeds a s
  | restore _ next, s => (next (.error .duringFanOut)).deeds a s

section Deeds

variable [DecidableEq ι]

/-- What is done in a round: the transition starts, and those who are told of it react. -/
def Round.deeds (a : Audience ι ω) (r : Round ι ω) : List (Deed ι ω) :=
  ⟨.turn, r.start⟩ ::
    (r.callbacks a).flatMap fun c => (a.react c.1.listener r.transition).deeds a c.2

/-- What is done while a queue is drained, with so many rounds left. -/
def Scene.drainDeeds (a : Audience ι ω) : Nat → Scene ι ω → List (Deed ι ω)
  | 0, _ => []
  | left + 1, s =>
    match s.coordinator.pending with
    | [] => []
    | change :: rest =>
      let r : Round ι ω := ⟨change, s.waiting rest⟩
      r.deeds a ++ drainDeeds a left (r.after a)

/-- What is done in the course of a call, when no changes are being carried out. -/
def Call.deeds (a : Audience ι ω) : Call ι ω → Scene ι ω → List (Deed ι ω)
  | setGravity change, s =>
    let r : Round ι ω := ⟨change, s.marked true⟩
    r.deeds a ++ Scene.drainDeeds a maxChained (r.after a)
  | restore (.ok (some text)), s =>
    match Snapshot.parse text with
    | .ok snapshot => Scene.drainDeeds a maxChained ((s.resumed snapshot).marked true)
    | .error _ => []
  | restore _, _ => []
  | subscribe listener, s => [⟨.subscribe listener, s⟩]
  | unsubscribe handle, s => [⟨.unsubscribe handle, s⟩]
  | save _, _ => []
  | update _, _ => []

/-- What is done in the course of some calls. -/
def Call.allDeeds (a : Audience ι ω) : List (Call ι ω) → Scene ι ω → List (Deed ι ω)
  | [], _ => []
  | call :: rest, s => call.deeds a s ++ allDeeds a rest (call.perform a s)

end Deeds

/-! ### Chronicles -/

/-- What a coordinator knows of subscriptions. -/
structure Register (ι : Type) where
  subscriptions : List (Subscription ι)
  issued : Nat

def Coordinator.register (c : Coordinator ι) : Register ι := ⟨c.subscriptions, c.issued⟩

section Chronicles

variable [DecidableEq ι]

/-- The register after a deed. -/
def Deed.after (a : Audience ι ω) (d : Deed ι ω) : Register ι :=
  match d.act with
  | .subscribe listener => (d.scene.coordinator.subscribe listener).2.register
  | .unsubscribe handle => (d.scene.coordinator.unsubscribe handle).2.register
  | .turn => ⟨d.scene.coordinator.live (a.keeps d.scene.world), d.scene.coordinator.issued⟩

/-- Deeds that lead from a fresh coordinator to a register. Each is done in a scene with the register
    that those before it have led to: nothing else changes what is known of subscriptions. -/
inductive Chronicle (a : Audience ι ω) : List (Deed ι ω) → Register ι → Prop where
  | start : Chronicle a [] ⟨[], 0⟩
  | next {deeds : List (Deed ι ω)} {d : Deed ι ω} :
      Chronicle a deeds d.scene.coordinator.register → Chronicle a (deeds ++ [d]) (d.after a)

variable {a : Audience ι ω} {past : List (Deed ι ω)} {s : Scene ι ω}

omit [DecidableEq ι] in
/-- One deed more comes last. -/
theorem Deed.concat_eq_split {deeds before after : List (Deed ι ω)} {last d : Deed ι ω}
    (h : deeds ++ [last] = before ++ d :: after) :
    (before = deeds ∧ d = last ∧ after = []) ∨
      ∃ between, after = between ++ [last] ∧ deeds = before ++ d :: between := by
  rcases List.append_eq_append_iff.1 h with ⟨rest, rfl, hlast⟩ | ⟨rest, rfl, hlast⟩
  · cases rest with
    | nil =>
      obtain ⟨rfl, rfl⟩ := List.cons.inj hlast
      exact Or.inl ⟨List.append_nil _, rfl, rfl⟩
    | cons _ _ => simp at hlast
  · cases rest with
    | nil =>
      obtain ⟨rfl, rfl⟩ := List.cons.inj hlast
      exact Or.inl ⟨(List.append_nil _).symm, rfl, rfl⟩
    | cons _ between =>
      obtain ⟨rfl, rfl⟩ := List.cons.inj hlast
      exact Or.inr ⟨between, rfl, rfl⟩

/-- The register in which a deed of a chronicle is done. -/
theorem Chronicle.before {deeds : List (Deed ι ω)} {reg : Register ι} (h : Chronicle a deeds reg)
    {before after : List (Deed ι ω)} {d : Deed ι ω} (hd : deeds = before ++ d :: after) :
    Chronicle a before d.scene.coordinator.register := by
  induction h generalizing after with
  | start => simp at hd
  | @next deeds last hdeeds ih =>
    rcases Deed.concat_eq_split hd with ⟨rfl, rfl, rfl⟩ | ⟨between, rfl, hbetween⟩
    · exact hdeeds
    · exact ih hbetween

theorem Reaction.chronicle (r : Reaction ι ω) : ∀ {past : List (Deed ι ω)} {s : Scene ι ω},
    Chronicle a past s.coordinator.register →
      Chronicle a (past ++ r.deeds a s) (r.run a s).value.2.coordinator.register := by
  induction r with
  | finish failure =>
    intro past s h
    rwa [deeds, List.append_nil]
  | look next ih => exact ih _ _
  | update f next ih => exact fun h => ih h
  | request change next ih => exact fun h => ih h
  | subscribe listener next ih =>
    intro past s h
    have hnext : Chronicle a (past ++ [⟨.subscribe listener, s⟩]) _ := .next h
    have hrest := ih (s.subscribe a listener).value.1
      (s := (s.subscribe a listener).value.2) hnext
    rwa [List.append_assoc] at hrest
  | unsubscribe handle next ih =>
    intro past s h
    have hnext : Chronicle a (past ++ [⟨.unsubscribe handle, s⟩]) _ := .next h
    have hrest := ih (s.unsubscribe handle).1 (s := (s.unsubscribe handle).2) hnext
    rwa [List.append_assoc] at hrest
  | save store next ih =>
    intro past s h
    simp only [run, Account.value_bind]
    exact ih _ h
  | restore store next ih => exact ih _

theorem Scene.fanOut_chronicle {t : Transition} : ∀ (subscriptions : List (Subscription ι))
    {past : List (Deed ι ω)} {s : Scene ι ω}, Chronicle a past s.coordinator.register →
      Chronicle a
        (past ++ (callbacks a t subscriptions s).flatMap fun c => (a.react c.1.listener t).deeds a c.2)
        (fanOut a t subscriptions s).value.coordinator.register
  | [], past, s, h => by rwa [callbacks, List.flatMap_nil, List.append_nil]
  | subscription :: rest, past, s, h => by
    have htold := (a.react subscription.listener t).chronicle (s := s.hold (subscription :: rest)) h
    rw [(fanOut_cons subscription rest s).1, callbacks, List.flatMap_cons, ← List.append_assoc]
    exact fanOut_chronicle rest htold

theorem Round.chronicle {r : Round ι ω} (hr : r.start.Between)
    (h : Chronicle a past r.start.coordinator.register) :
    Chronicle a (past ++ r.deeds a) (r.after a).coordinator.register := by
  have hturn : (⟨.turn, r.start⟩ : Deed ι ω).after a = (r.turned a).coordinator.register := by
    simp only [Deed.after, live_eq_listeners hr]
    rfl
  have hstarted : Chronicle a (past ++ [⟨.turn, r.start⟩]) (r.turned a).coordinator.register :=
    hturn ▸ .next h
  rw [(turn_eq hr).1, deeds, ← List.singleton_append, ← List.append_assoc]
  exact Scene.fanOut_chronicle _ hstarted

theorem Scene.drain_chronicle (left : Nat) {past : List (Deed ι ω)} {s : Scene ι ω} (hs : s.Between)
    (h : Chronicle a past s.coordinator.register) :
    Chronicle a (past ++ drainDeeds a left s) (drain a left s).value.coordinator.register := by
  induction left generalizing past s with
  | zero =>
    rw [drainDeeds, List.append_nil]
    cases hp : s.coordinator.pending with
    | nil => rwa [drain_of_nil a 0 hp]
    | cons change rest => rwa [drain_zero a hp]
  | succ left ih =>
    rw [drainDeeds]
    cases hp : s.coordinator.pending with
    | nil =>
      rw [drain_of_nil a _ hp]
      rwa [List.append_nil]
    | cons change rest =>
      let r : Round ι ω := ⟨change, s.waiting rest⟩
      have hr : r.start.Between := hs.waiting rest
      have hround : Chronicle a (past ++ r.deeds a) (r.after a).coordinator.register := r.chronicle hr h
      rw [drain_succ a left hp]
      show Chronicle a (past ++ (r.deeds a ++ drainDeeds a left (r.after a))) _
      rw [← List.append_assoc]
      exact ih (Round.after_between hr) hround

theorem Scene.resume_chronicle (hs : s.Idle) (snapshot : Snapshot)
    (h : Chronicle a past s.coordinator.register) :
    Chronicle a (past ++ drainDeeds a maxChained ((s.resumed snapshot).marked true))
      (resume a snapshot s).value.coordinator.register := by
  have hdrain := drain_chronicle (a := a) maxChained
    (s := (s.resumed snapshot).marked true) ⟨rfl, hs.held⟩ h
  suffices hsame : (resume a snapshot s).value.coordinator.register
      = (drain a maxChained ((s.resumed snapshot).marked true)).value.coordinator.register by
    rwa [hsame]
  cases hp : snapshot.pending with
  | nil =>
    rw [drain_of_nil (s := (s.resumed snapshot).marked true) a maxChained hp]
    simp only [resume, hp]
    rfl
  | cons change rest =>
    simp only [resume, hp, resumed, marked, hs.pending]
    rfl

/-- What one call adds to a chronicle. -/
theorem Call.chronicle (call : Call ι ω) (hs : s.Idle) (h : Chronicle a past s.coordinator.register) :
    Chronicle a (past ++ call.deeds a s) (call.perform a s).coordinator.register := by
  cases call with
  | setGravity change =>
    let r : Round ι ω := ⟨change, s.marked true⟩
    have hr : r.start.Between := hs.marked_between
    have hround : Chronicle a (past ++ r.deeds a) (r.after a).coordinator.register := r.chronicle hr h
    have hdrained := Scene.drain_chronicle maxChained (Round.after_between hr) hround
    rw [List.append_assoc] at hdrained
    simp only [perform, Scene.setGravity, hs.dispatching, Bool.false_eq_true, if_false]
    exact hdrained
  | restore answer =>
    have hnothing : Chronicle a (past ++ []) s.coordinator.register := by rwa [List.append_nil]
    simp only [perform, Scene.restoreFrom, hs.dispatching, Bool.false_eq_true, if_false]
    rcases answer with e | _ | text
    · exact hnothing
    · exact hnothing
    · simp only [deeds]
      cases hparse : Snapshot.parse text with
      | error e => exact hnothing
      | ok snapshot => exact Scene.resume_chronicle hs snapshot h
  | subscribe listener => exact .next h
  | unsubscribe handle => exact .next h
  | save store => rwa [deeds, List.append_nil]
  | update f => rwa [deeds, List.append_nil]

/-- What any number of calls add to a chronicle. -/
theorem Call.allDeeds_chronicle : ∀ (calls : List (Call ι ω)) {past : List (Deed ι ω)}
    {s : Scene ι ω}, s.Idle → Chronicle a past s.coordinator.register →
      Chronicle a (past ++ allDeeds a calls s) (performAll a calls s).coordinator.register
  | [], past, s, _, h => by rwa [allDeeds, List.append_nil]
  | call :: rest, past, s, hs, h => by
    rw [allDeeds, ← List.append_assoc]
    exact allDeeds_chronicle rest (call.perform_idle a hs) (call.chronicle hs h)

end Chronicles

end Inversion
