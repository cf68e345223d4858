import Inversion.Proofs.Gravity.Deed

/-!
Which subscriptions there are. A handle is issued once. It stands for the listener that it was issued for
until it is given up or a transition starts when the listener is dead, and giving it up succeeds that
long. A listener that has died since the last transition is not counted any more, but its handle can still
be given up.
-/

namespace Inversion

variable {ι ω : Type}

/-! ### What a handle stands for -/

/-- A listener is alive if the world keeps it or a transition is still told to it. -/
def Scene.Alive (a : Audience ι ω) (s : Scene ι ω) (listener : ι) : Prop :=
  a.keeps s.world listener = true ∨ listener ∈ s.coordinator.held

/-- The handle that is issued in a deed. -/
def Deed.issued? (a : Audience ι ω) (d : Deed ι ω) : Option Nat :=
  match d.act with
  | .subscribe listener => some (d.scene.subscribe a listener).value.1
  | .unsubscribe _ => none
  | .turn => none

/-- A listener has been subscribed under a handle, which has not been given up since. -/
def Enrolled (a : Audience ι ω) (deeds : List (Deed ι ω)) (handle : Nat) (listener : ι)
    (since : List (Deed ι ω)) : Prop :=
  ∃ before s, deeds = before ++ ⟨.subscribe listener, s⟩ :: since ∧
    (s.subscribe a listener).value.1 = handle ∧ ∀ d ∈ since, d.act ≠ .unsubscribe handle

/-- A listener is alive whenever a transition starts. -/
def Outlives (a : Audience ι ω) (listener : ι) (deeds : List (Deed ι ω)) : Prop :=
  ∀ d ∈ deeds, d.act = .turn → d.scene.Alive a listener

instance [DecidableEq ι] (a : Audience ι ω) (s : Scene ι ω) (listener : ι) :
    Decidable (s.Alive a listener) := inferInstanceAs (Decidable (_ ∨ _))

section Handles

variable {a : Audience ι ω} {deeds since : List (Deed ι ω)} {d : Deed ι ω} {handle : Nat}
  {listener : ι} {s : Scene ι ω}

theorem outlives_concat :
    Outlives a listener (deeds ++ [d]) ↔
      Outlives a listener deeds ∧ (d.act = .turn → d.scene.Alive a listener) := by
  simp only [Outlives, List.mem_append, List.mem_singleton, or_imp, forall_and, forall_eq]

theorem enrolled_concat :
    Enrolled a (deeds ++ [d]) handle listener since ↔
      (d.act = .subscribe listener ∧ (d.scene.subscribe a listener).value.1 = handle ∧ since = []) ∨
        ∃ between, since = between ++ [d] ∧ Enrolled a deeds handle listener between ∧
          d.act ≠ .unsubscribe handle := by
  constructor
  · rintro ⟨before, s, hdeeds, hhandle, hkept⟩
    rcases Deed.concat_eq_split hdeeds with ⟨rfl, rfl, rfl⟩ | ⟨between, rfl, rfl⟩
    · exact Or.inl ⟨rfl, hhandle, rfl⟩
    · refine Or.inr ⟨between, rfl, ⟨before, s, rfl, hhandle, ?_⟩, hkept d (by simp)⟩
      exact fun e he => hkept e (List.mem_append_left _ he)
  · rintro (⟨hact, hhandle, rfl⟩ | ⟨between, rfl, ⟨before, s, rfl, hhandle, hkept⟩, hd⟩)
    · obtain ⟨act, scene⟩ := d
      cases hact
      exact ⟨deeds, scene, rfl, hhandle, by simp⟩
    · refine ⟨before, s, by simp, hhandle, fun e he => ?_⟩
      rcases List.mem_append.1 he with he | he
      · exact hkept e he
      · rwa [List.mem_singleton.1 he]

/-- A handle stands for a listener from one deed to the next one, unless it is given up or a transition
    starts when the listener is dead. -/
theorem stands_concat :
    (∃ since, Enrolled a (deeds ++ [d]) handle listener since ∧ Outlives a listener since) ↔
      (d.act = .subscribe listener ∧ (d.scene.subscribe a listener).value.1 = handle) ∨
        (∃ since, Enrolled a deeds handle listener since ∧ Outlives a listener since) ∧
          d.act ≠ .unsubscribe handle ∧ (d.act = .turn → d.scene.Alive a listener) := by
  simp only [enrolled_concat]
  constructor
  · rintro ⟨since, ⟨hact, hhandle, -⟩ | ⟨between, rfl, henrolled, hd⟩, houtlives⟩
    · exact Or.inl ⟨hact, hhandle⟩
    · obtain ⟨hbetween, halive⟩ := outlives_concat.1 houtlives
      exact Or.inr ⟨⟨between, henrolled, hbetween⟩, hd, halive⟩
  · rintro (⟨hact, hhandle⟩ | ⟨⟨between, henrolled, hbetween⟩, hd, halive⟩)
    · exact ⟨[], Or.inl ⟨hact, hhandle, rfl⟩, by simp [Outlives]⟩
    · exact ⟨between ++ [d], Or.inr ⟨between, rfl, henrolled, hd⟩,
        outlives_concat.2 ⟨hbetween, halive⟩⟩

variable [DecidableEq ι] {reg : Register ι}

namespace Chronicle

/-- Handles are issued in order. -/
theorem issued_eq (h : Chronicle a deeds reg) :
    deeds.filterMap (Deed.issued? a) = List.range reg.issued := by
  induction h with
  | start => rfl
  | @next deeds d _ ih =>
    rw [List.filterMap_append, ih]
    obtain ⟨act, s⟩ := d
    cases act with
    | subscribe listener => exact List.range_succ.symm
    | unsubscribe handle => exact List.append_nil _
    | turn => exact List.append_nil _

/-- The subscriptions are in the order in which their handles have been issued. -/
theorem ordered (h : Chronicle a deeds reg) :
    (reg.subscriptions.map (·.handle)).Pairwise (· < ·) ∧
      ∀ s ∈ reg.subscriptions, s.handle < reg.issued := by
  induction h with
  | start => simp
  | @next deeds d _ ih =>
    obtain ⟨hordered, hissued⟩ := ih
    have hfilter (p : Subscription ι → Bool) :
        ((d.scene.coordinator.subscriptions.filter p).map (·.handle)).Pairwise (· < ·) ∧
          ∀ s ∈ d.scene.coordinator.subscriptions.filter p, s.handle < d.scene.coordinator.issued :=
      ⟨hordered.sublist (List.filter_sublist.map _), fun s hs => hissued s (List.mem_of_mem_filter hs)⟩
    obtain ⟨act, s⟩ := d
    cases act with
    | subscribe listener =>
      refine ⟨?_, ?_⟩
      · show (List.map _ (s.coordinator.subscriptions ++ [_])).Pairwise _
        rw [List.map_append, List.pairwise_append]
        refine ⟨hordered, List.pairwise_singleton .., ?_⟩
        intro x hx y hy
        obtain ⟨earlier, hearlier, rfl⟩ := List.mem_map.1 hx
        rw [List.mem_singleton.1 hy]
        exact hissued earlier hearlier
      · intro subscription hmem
        rcases List.mem_append.1 hmem with hmem | hmem
        · exact Nat.lt_succ_of_lt (hissued subscription hmem)
        · rw [List.mem_singleton.1 hmem]
          exact Nat.lt_succ_self _
    | unsubscribe handle => exact hfilter _
    | turn => exact hfilter _

/-- The subscriptions are those that have been made and not been given up, and whose listeners have been
    alive whenever a transition has started. -/
theorem mem_subscriptions_iff (h : Chronicle a deeds reg) :
    ⟨handle, listener⟩ ∈ reg.subscriptions ↔
      ∃ since, Enrolled a deeds handle listener since ∧ Outlives a listener since := by
  induction h with
  | start => simp [Enrolled]
  | @next deeds d _ ih =>
    obtain ⟨act, s⟩ := d
    rw [stands_concat, ← ih]
    change ⟨handle, listener⟩ ∈ Register.subscriptions _ ↔
      _ ∨ ⟨handle, listener⟩ ∈ s.coordinator.subscriptions ∧ _
    cases act with
    | subscribe listener' =>
      change _ ∈ s.coordinator.subscriptions ++ [⟨s.coordinator.issued, listener'⟩] ↔
        _ ∧ s.coordinator.issued = handle ∨ _
      grind
    | unsubscribe handle' =>
      change _ ∈ s.coordinator.subscriptions.filter _ ↔ _
      grind
    | turn =>
      change _ ∈ s.coordinator.subscriptions.filter _ ↔ _
      simp [Scene.Alive]

/-- A handle that is enrolled has been issued. -/
theorem lt_issued (h : Chronicle a deeds reg) (henrolled : Enrolled a deeds handle listener since) :
    handle < reg.issued := by
  obtain ⟨before, s, rfl, hhandle, -⟩ := henrolled
  rw [← List.mem_range, ← h.issued_eq, List.mem_filterMap]
  exact ⟨⟨.subscribe listener, s⟩, by simp, congrArg some hhandle⟩

/-- A handle is enrolled once at most. -/
theorem enrolled_unique (h : Chronicle a deeds reg) {listener' : ι} {since' : List (Deed ι ω)}
    (henrolled : Enrolled a deeds handle listener since)
    (henrolled' : Enrolled a deeds handle listener' since') : listener = listener' ∧ since = since' := by
  induction h generalizing since since' with
  | start =>
    obtain ⟨before, s, hdeeds, -⟩ := henrolled
    simp at hdeeds
  | @next deeds d hdeeds ih =>
    -- what has been enrolled before does not have the handle that comes next
    have hnext (l : ι) (between : List (Deed ι ω)) (hl : Enrolled a deeds handle l between) :
        d.scene.coordinator.issued ≠ handle := (hdeeds.lt_issued hl).ne'
    rcases enrolled_concat.1 henrolled with ⟨hact, hhandle, rfl⟩ | ⟨between, rfl, hbetween, -⟩ <;>
      rcases enrolled_concat.1 henrolled' with ⟨hact', hhandle', rfl⟩ | ⟨between', rfl, hbetween', -⟩
    · rw [hact] at hact'
      exact ⟨Act.subscribe.inj hact', rfl⟩
    · exact absurd hhandle (hnext _ _ hbetween')
    · exact absurd hhandle' (hnext _ _ hbetween)
    · obtain ⟨rfl, rfl⟩ := ih hbetween hbetween'
      exact ⟨rfl, rfl⟩

end Chronicle

end Handles

/-! ### Giving up handles -/

section Withdrawals

variable [DecidableEq ι] {a : Audience ι ω} {deeds : List (Deed ι ω)} {handle : Nat} {listener : ι}
  {s : Scene ι ω}

omit [DecidableEq ι] in
theorem Scene.unsubscribe_iff : (s.unsubscribe handle).1 = true ↔
    ∃ listener, ⟨handle, listener⟩ ∈ s.coordinator.subscriptions := by
  simp only [unsubscribe, Coordinator.unsubscribe, List.any_eq_true, decide_eq_true_eq]
  constructor
  · rintro ⟨⟨_, listener⟩, hmem, rfl⟩
    exact ⟨listener, hmem⟩
  · rintro ⟨listener, hmem⟩
    exact ⟨_, hmem, rfl⟩

omit [DecidableEq ι] in
/-- A handle that is refused leaves everything as it was. -/
theorem Scene.unsubscribe_of_refused (h : (s.unsubscribe handle).1 = false) :
    (s.unsubscribe handle).2 = s := by
  have hothers : ∀ subscription ∈ s.coordinator.subscriptions, subscription.handle ≠ handle := by
    rintro ⟨_, listener⟩ hmem rfl
    exact Bool.false_ne_true (h.symm.trans (unsubscribe_iff.2 ⟨listener, hmem⟩))
  have hall : s.coordinator.subscriptions.filter (·.handle ≠ handle) = s.coordinator.subscriptions :=
    List.filter_eq_self.2 fun subscription hmem => decide_eq_true (hothers subscription hmem)
  simp only [unsubscribe, Coordinator.unsubscribe, hall]

/-- A handle that is given up takes out its subscription, which has been counted if the listener is
    alive. -/
theorem Scene.listenerCount_unsubscribe
    (hordered : (s.coordinator.subscriptions.map (·.handle)).Pairwise (· < ·))
    (hmem : ⟨handle, listener⟩ ∈ s.coordinator.subscriptions) :
    s.listenerCount a
      = (s.unsubscribe handle).2.listenerCount a + if s.Alive a listener then 1 else 0 := by
  obtain ⟨front, back, hsplit⟩ := List.append_of_mem hmem
  have hothers : s.coordinator.subscriptions.filter (·.handle ≠ handle) = front ++ back := by
    rw [hsplit, List.map_append, List.map_cons, List.pairwise_append, List.pairwise_cons] at hordered
    obtain ⟨-, ⟨hback, -⟩, hfront⟩ := hordered
    have hf : ∀ x ∈ front, x.handle ≠ handle := fun x hx =>
      (hfront _ (List.mem_map_of_mem hx) _ List.mem_cons_self).ne
    have hb : ∀ x ∈ back, x.handle ≠ handle := fun x hx => (hback _ (List.mem_map_of_mem hx)).ne'
    rw [hsplit, List.filter_append, List.filter_cons_of_neg (by simp),
      List.filter_eq_self.2 (by simpa using hf), List.filter_eq_self.2 (by simpa using hb)]
  have hcounted : (a.keeps s.world listener || decide (listener ∈ s.coordinator.held)) = true ↔
      s.Alive a listener := by
    simp only [Bool.or_eq_true, decide_eq_true_eq, Alive]
  simp only [listenerCount, Coordinator.listenerCount, Coordinator.live, unsubscribe,
    Coordinator.unsubscribe, hothers]
  rw [hsplit]
  simp only [List.filter_append, List.length_append, List.filter_cons, hcounted]
  split
  · rw [List.length_cons]
    omega
  · rfl

theorem Chronicle.answer_iff (h : Chronicle a deeds s.coordinator.register) :
    (s.unsubscribe handle).1 = true ↔
      ∃ listener since, Enrolled a deeds handle listener since ∧ Outlives a listener since := by
  rw [Scene.unsubscribe_iff]
  exact exists_congr fun listener => h.mem_subscriptions_iff

/-- The answer is about the listener for which the handle is enrolled. -/
theorem Chronicle.answer_iff_outlives (h : Chronicle a deeds s.coordinator.register)
    {since : List (Deed ι ω)} (henrolled : Enrolled a deeds handle listener since) :
    (s.unsubscribe handle).1 = true ↔ Outlives a listener since := by
  rw [h.answer_iff]
  constructor
  · rintro ⟨other, since', henrolled', hother⟩
    obtain ⟨rfl, rfl⟩ := h.enrolled_unique henrolled henrolled'
    exact hother
  · exact fun houtlives => ⟨listener, since, henrolled, houtlives⟩

/-- What giving up a handle comes to after some deeds. -/
structure Withdrawal (a : Audience ι ω) (deeds : List (Deed ι ω)) (handle : Nat) (s : Scene ι ω) :
    Prop where
  /-- It succeeds if the handle has been issued and not been given up, and the listener has been alive
      whenever a transition has started since. -/
  answer_iff : (s.unsubscribe handle).1 = true ↔
    ∃ listener since, Enrolled a deeds handle listener since ∧ Outlives a listener since
  refused : (s.unsubscribe handle).1 = false → (s.unsubscribe handle).2 = s
  /-- A listener that is dead has not been counted any more. -/
  count : ∀ listener since, Enrolled a deeds handle listener since → Outlives a listener since →
    s.listenerCount a
      = (s.unsubscribe handle).2.listenerCount a + if s.Alive a listener then 1 else 0
  /-- The answer agrees with whether the listener is alive, and with the number of listeners, unless the
      listener has died since the last transition (or is alive again). -/
  agrees_iff : (((s.unsubscribe handle).1 = true ↔
        ∃ listener since, Enrolled a deeds handle listener since ∧ s.Alive a listener) ∧
      ((s.unsubscribe handle).1 = true ↔
        (s.unsubscribe handle).2.listenerCount a + 1 = s.listenerCount a)) ↔
    ∀ listener since, Enrolled a deeds handle listener since →
      (Outlives a listener since ↔ s.Alive a listener)

theorem Chronicle.withdrawal (h : Chronicle a deeds s.coordinator.register) (handle : Nat) :
    Withdrawal a deeds handle s := by
  have hcount (listener : ι) (since : List (Deed ι ω)) (henrolled : Enrolled a deeds handle listener since)
      (houtlives : Outlives a listener since) : s.listenerCount a
        = (s.unsubscribe handle).2.listenerCount a + if s.Alive a listener then 1 else 0 :=
    Scene.listenerCount_unsubscribe h.ordered.1
      (h.mem_subscriptions_iff.2 ⟨since, henrolled, houtlives⟩)
  refine ⟨h.answer_iff, Scene.unsubscribe_of_refused, hcount, ?_, ?_⟩
  · rintro ⟨halive, -⟩ listener since henrolled
    rw [← h.answer_iff_outlives henrolled, halive]
    constructor
    · rintro ⟨other, since', henrolled', hother⟩
      rwa [(h.enrolled_unique henrolled henrolled').1]
    · exact fun hlistener => ⟨listener, since, henrolled, hlistener⟩
  · intro hagree
    refine ⟨?_, ?_, ?_⟩
    · rw [h.answer_iff]
      exact exists_congr fun listener => exists_congr fun since => and_congr_right (hagree listener since)
    · intro hfound
      obtain ⟨listener, since, henrolled, houtlives⟩ := h.answer_iff.1 hfound
      rw [hcount listener since henrolled houtlives, if_pos ((hagree _ _ henrolled).1 houtlives)]
    · intro hfewer
      by_contra hlost
      rw [Scene.unsubscribe_of_refused (Bool.eq_false_iff.2 hlost)] at hfewer
      exact Nat.succ_ne_self _ hfewer

/-- In the course of any calls no handle is issued twice, and what giving one up comes to depends on what
    was done to the subscriptions before: after the calls, and wherever a caller or a listener that is told
    of a transition has given one up on the way. -/
theorem Call.unsubscribe_withdraws (a : Audience ι ω) (o : Orientation) (w : ω)
    (calls : List (Call ι ω)) :
    let deeds := allDeeds a calls ⟨.start o, w⟩
    (deeds.filterMap (Deed.issued? a)).Nodup ∧
      (∀ handle, Withdrawal a deeds handle (performAll a calls ⟨.start o, w⟩)) ∧
      ∀ before handle s after, deeds = before ++ ⟨.unsubscribe handle, s⟩ :: after →
        Withdrawal a before handle s := by
  intro deeds
  have hchronicle : Chronicle a ([] ++ deeds) (performAll a calls ⟨.start o, w⟩).coordinator.register :=
    allDeeds_chronicle calls ⟨rfl, rfl, rfl⟩ .start
  rw [List.nil_append] at hchronicle
  refine ⟨?_, hchronicle.withdrawal, ?_⟩
  · rw [hchronicle.issued_eq]
    exact List.nodup_range
  · intro before handle s after hdeeds
    exact (hchronicle.before hdeeds).withdrawal handle

end Withdrawals

/-- Two listeners: when the first one, `true`, is told of a transition it lets the second one go, and gives
    up its handle. -/
def Audience.usher : Audience Bool Bool where
  name _ := "listener"
  keeps w listener := listener || w
  react
    | true, _ => .update (fun _ => false) (.unsubscribe 1 fun _ => .finish none)
    | false, _ => .finish none

/-- The second listener has been let go, but is still to be told, so it is alive: its handle is taken back,
    and it is counted no longer. -/
theorem Call.unsubscribe_withdraws_held :
    let fresh : Scene Bool Bool := ⟨.start .normal, true⟩
    let joined := performAll .usher [.subscribe true, .subscribe false] fresh
    let past := allDeeds .usher [.subscribe true, .subscribe false] fresh ++ [⟨.turn, joined.marked true⟩]
    ∃ s, allDeeds .usher [.subscribe true, .subscribe false, .setGravity ⟨.toggle, .one false, false⟩] fresh
        = past ++ [⟨.unsubscribe 1, s⟩] ∧
      s.world = false ∧ s.coordinator.held = [true, false] ∧ Withdrawal .usher past 1 s ∧
      (s.unsubscribe 1).1 = true ∧
      (s.unsubscribe 1).2.listenerCount .usher + 1 = s.listenerCount .usher := by
  intro fresh joined past
  obtain ⟨s, hdeeds, hworld, hheld⟩ : ∃ s, allDeeds .usher
      [.subscribe true, .subscribe false, .setGravity ⟨.toggle, .one false, false⟩] fresh
        = past ++ [⟨.unsubscribe 1, s⟩] ∧ s.world = false ∧ s.coordinator.held = [true, false] :=
    ⟨_, rfl, rfl, rfl⟩
  have hwithdrawal : Withdrawal .usher past 1 s :=
    (unsubscribe_withdraws .usher .normal true
      [.subscribe true, .subscribe false, .setGravity ⟨.toggle, .one false, false⟩]).2.2 past 1 s [] hdeeds
  have henrolled : Enrolled .usher past 1 false [⟨.turn, joined.marked true⟩] :=
    ⟨[⟨.subscribe true, fresh⟩], performAll .usher [.subscribe true] fresh, rfl, rfl, by simp⟩
  have houtlives : Outlives .usher false [⟨.turn, joined.marked true⟩] := by
    rintro d hd -
    rw [List.mem_singleton.1 hd]
    exact Or.inl rfl
  have halive : s.Alive .usher false := by
    right
    rw [hheld]
    decide
  refine ⟨s, hdeeds, hworld, hheld, hwithdrawal,
    hwithdrawal.answer_iff.2 ⟨false, _, henrolled, houtlives⟩, ?_⟩
  rw [hwithdrawal.count false _ henrolled houtlives, if_pos halive]

/-- One listener, as long as the world keeps it. -/
def Audience.lone : Audience Unit Bool where
  name _ := "listener"
  keeps w _ := w
  react _ _ := .finish none

/-- A listener that has been let go is not counted any more. Its handle can be given up all the same,
    until a transition has been made. -/
theorem Scene.unsubscribe_dropped :
    let fresh : Scene Unit Bool := ⟨.start .normal, true⟩
    let dropped := Call.performAll .lone [.subscribe (), .update fun _ => false] fresh
    let turned := (Call.setGravity ⟨.toggle, .one false, false⟩).perform .lone dropped
    Call.allDeeds .lone [.subscribe (), .update fun _ => false, .unsubscribe 0] fresh
        = [⟨.subscribe (), fresh⟩, ⟨.unsubscribe 0, dropped⟩] ∧
      ¬dropped.Alive .lone () ∧ (dropped.unsubscribe 0).1 = true ∧
      dropped.listenerCount .lone = 0 ∧ (turned.unsubscribe 0).1 = false := by
  intro fresh dropped turned
  exact ⟨rfl, by decide, rfl, rfl, rfl⟩

end Inversion
