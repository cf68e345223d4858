import Inversion.Proofs.Gravity.Bound
import Inversion.Proofs.Json.Form

/-!
What comes back of a saved state of gravity. Its text is read back as the snapshot that was saved if the
momentum of every waiting change is finite. An infinite momentum, or one that is not a number, has no
numeral in JSON; a state in which such a change waits is saved all the same, and is then refused.
-/

namespace Inversion

namespace Single

/-- Neither infinite nor not a number. -/
def isFinite : Single → Bool
  | finite .. => true
  | _ => false

/-- The JSON numeral of a number, if it has one, is read as that number. Numerals are read by way of
    double precision, so that a number is rounded twice on the way back. -/
def JsonExact (x : Single) : Prop := ∀ n ∈ x.jsonNumeral?, n.toSingle? = some x

instance (x : Single) : Decidable x.JsonExact :=
  inferInstanceAs (Decidable (∀ n ∈ x.jsonNumeral?, n.toSingle? = some x))

theorem formed_write (x : Single) : Json.Formed (JsonForm.write x) := by
  cases x with
  | finite negative code => exact .number (jsonLayout.write_formed negative _)
  | infinite negative => exact .null
  | nan => exact .null

theorem read?_write {x : Single} (h : x.JsonExact) (budget : Nat) :
    JsonForm.read? budget (JsonForm.write x) = if x.isFinite then some x else none := by
  cases x with
  | finite negative code => exact h _ rfl
  | infinite negative => rfl
  | nan => rfl

theorem same_self_of_isFinite {x : Single} (h : x.isFinite = true) : x.same x = true := by
  cases x with
  | finite negative code => simp [same, place?]
  | infinite negative => cases h
  | nan => cases h

end Single

/-! ### Snapshots -/

theorem Change.formed_write (c : Change) : Json.Formed (JsonForm.write c) := by
  refine Json.formed_record ?_
  simp only [List.forall_mem_cons]
  exact ⟨.string _, c.momentum.formed_write, .bool _, nofun⟩

theorem Change.read?_write {c : Change} (h : c.momentum.JsonExact) (budget : Nat) :
    JsonForm.read? (budget + 1) (JsonForm.write c)
      = if c.momentum.isFinite then some c else none := by
  have hfields : Json.fields? ["request", "momentum_multiplier", "player_triggered"]
      (JsonForm.write c) = some [some (JsonForm.write c.request), some (JsonForm.write c.momentum),
        some (.bool c.byPlayer)] :=
    Json.fields?_record [("request", JsonForm.write c.request),
      ("momentum_multiplier", JsonForm.write c.momentum), ("player_triggered", .bool c.byPlayer)]
      (by simp)
  have hrequest : JsonForm.read? budget (JsonForm.write c.request) = some c.request := by
    cases c.request <;> rfl
  have hplayer : JsonForm.read? budget (Json.bool c.byPlayer) = some c.byPlayer := rfl
  change Json.enter (budget + 1) _ = _
  simp only [Json.enter, hfields, Json.required, Option.bind_some, hrequest, hplayer,
    c.momentum.read?_write h, Option.bind_eq_bind]
  by_cases hfinite : c.momentum.isFinite = true <;> simp [hfinite]

namespace Snapshot

/-- Whether the momentum of every waiting change is finite. -/
def isFinite (s : Snapshot) : Bool := s.pending.all (·.momentum.isFinite)

theorem formed_write (s : Snapshot) : Json.Formed (JsonForm.write s) := by
  refine Json.formed_record ?_
  simp only [List.forall_mem_cons]
  exact ⟨.string _, Json.formed_list fun c _ => c.formed_write, nofun⟩

theorem read?_write {s : Snapshot} (h : ∀ c ∈ s.pending, c.momentum.JsonExact) (budget : Nat) :
    JsonForm.read? (budget + 3) (JsonForm.write s) = if s.isFinite then some s else none := by
  have hfields : Json.fields? ["orientation", "pending"] (JsonForm.write s) =
      some [some (JsonForm.write s.orientation), some (JsonForm.write s.pending)] :=
    Json.fields?_record [("orientation", JsonForm.write s.orientation),
      ("pending", JsonForm.write s.pending)] (by simp)
  have horientation : JsonForm.read? (budget + 2) (JsonForm.write s.orientation)
      = some s.orientation := by
    cases s.orientation <;> rfl
  have hpending : JsonForm.read? (budget + 2) (JsonForm.write s.pending)
      = if s.isFinite then some s.pending else none :=
    Json.read?_list fun c hc => Change.read?_write (h c hc) budget
  change Json.enter (budget + 3) _ = _
  simp only [Json.enter, hfields, Json.required, Json.optional, Option.bind_some, horientation, hpending,
    Option.bind_eq_bind]
  by_cases hfinite : s.isFinite = true <;> simp [hfinite]

/-- The text of a snapshot is read as that snapshot, or refused. -/
theorem parse_render {s : Snapshot} (h : ∀ c ∈ s.pending, c.momentum.JsonExact) :
    parse s.render = if s.isFinite then .ok s else .error .json := by
  have hread : JsonForm.read? Json.maxDepth (JsonForm.write s) = if s.isFinite then some s else none :=
    read?_write h 124
  unfold parse render
  rw [Json.read?_line s.formed_write, hread]
  by_cases hfinite : s.isFinite = true <;> simp [hfinite]

theorem same_self {s : Snapshot} (h : s.isFinite = true) : s.same s = true := by
  have hchanges : ∀ cs : List Change, cs.all (·.momentum.isFinite) = true →
      sameChanges cs cs = true := by
    intro cs hcs
    induction cs with
    | nil => rfl
    | cons c cs ih =>
      obtain ⟨hc, hcs⟩ := Bool.and_eq_true_iff.1 hcs
      simp [sameChanges, Change.same, Single.same_self_of_isFinite hc, ih hcs]
  simp [same, hchanges s.pending h]

end Snapshot

/-! ### Saving and restoring -/

theorem Store.put_ok {key : String} (hkey : key ≠ "") (store : Store) (text : String) :
    ∃ store', store.put key text = .ok store' ∧ store'.get? key = some text := by
  refine ⟨⟨(key, text) :: store.entries.filter (·.1 ≠ key)⟩, if_neg hkey, ?_⟩
  simp [get?]

/-- A state of gravity can always be saved. -/
theorem Coordinator.save_ok {ι : Type} (c : Coordinator ι) (store : Store) :
    ∃ saved, c.save store = .ok saved ∧ saved.get? Store.gravityKey = some c.snapshot.render :=
  Store.put_ok (by decide) store c.snapshot.render

namespace Scene

variable {ι ω : Type} [DecidableEq ι] {r : Scene ι ω} {store : Store} {snapshot : Snapshot}

/-- Restoring what has been saved goes back to it, if nothing of it is infinite. -/
theorem restore_of_finite (hr : r.Idle) (b : Audience ι ω)
    (hstored : store.get? Store.gravityKey = some snapshot.render)
    (hexact : ∀ c ∈ snapshot.pending, c.momentum.JsonExact) (hfinite : snapshot.isFinite = true) :
    r.restore b store = (do return (.ok true, ← resume b snapshot r)) := by
  refine restoreFrom_of_restores hr b ⟨_, congrArg Except.ok hstored, ?_⟩
  rw [Snapshot.parse_render hexact, if_pos hfinite]

theorem restore_of_not_finite (hr : r.Idle) (b : Audience ι ω)
    (hstored : store.get? Store.gravityKey = some snapshot.render)
    (hexact : ∀ c ∈ snapshot.pending, c.momentum.JsonExact) (hfinite : snapshot.isFinite = false) :
    r.restore b store = pure (.error .json, r) := by
  have hparse : Snapshot.parse snapshot.render = .error .json := by
    rw [Snapshot.parse_render hexact, if_neg (by simp [hfinite])]
  simp only [restore, restoreFrom, hr.dispatching, Bool.false_eq_true, if_false, hstored, hparse]

end Scene

/-- Every state of gravity can be saved. If the momenta of the waiting changes are finite, the saved text
    is read back as the same snapshot, and restoring it carries out the changes that waited, in order,
    from the orientation that was saved. If one of them is not finite, the text is refused, and
    restoring it fails and changes nothing. -/
theorem Coordinator.saved_restores_iff_finite {ι κ ν : Type} [DecidableEq κ] (c : Coordinator ι)
    (store : Store) (hexact : ∀ change ∈ c.pending, change.momentum.JsonExact) :
    ∃ saved, c.save store = .ok saved ∧ saved.get? Store.gravityKey = some c.snapshot.render ∧
      ((∀ change ∈ c.pending, change.momentum.isFinite = true) →
        Snapshot.parse c.snapshot.render = .ok c.snapshot ∧ c.snapshot.same c.snapshot = true ∧
        ∀ (b : Audience κ ν) (r : Scene κ ν), r.Idle →
          let restored := r.restore b saved
          restored.value.1 = .ok true ∧
            Moment.transitions restored.events = Change.carryOut c.current
              ((c.pending ++ Moment.requests restored.events).take maxChained)) ∧
      ((∃ change ∈ c.pending, change.momentum.isFinite = false) →
        Snapshot.parse c.snapshot.render = .error .json ∧
        ∀ (b : Audience κ ν) (r : Scene κ ν), r.Idle → r.restore b saved = pure (.error .json, r)) := by
  obtain ⟨saved, hsave, hstored⟩ := c.save_ok store
  have hparse := Snapshot.parse_render (s := c.snapshot) hexact
  refine ⟨saved, hsave, hstored, ?_, ?_⟩
  · intro hmomenta
    have hfinite : c.snapshot.isFinite = true := List.all_eq_true.2 hmomenta
    rw [if_pos hfinite] at hparse
    refine ⟨hparse, Snapshot.same_self hfinite, ?_⟩
    intro b r hr
    rw [Scene.restore_of_finite hr b hstored hexact hfinite]
    obtain ⟨hrequests, -, hturned, -⟩ := Scene.resume_bounded hr b c.snapshot
    refine ⟨rfl, ?_⟩
    rw [Account.events_bind, Account.events_pure, List.append_nil, hrequests]
    exact hturned
  · rintro ⟨change, hchange, hmomentum⟩
    have hfinite : c.snapshot.isFinite = false :=
      List.all_eq_false.2 ⟨change, hchange, by simp [hmomentum]⟩
    rw [if_neg (by simp [hfinite])] at hparse
    exact ⟨hparse, fun b r hr => Scene.restore_of_not_finite hr b hstored hexact hfinite⟩

/-- A listener that, when it is told of something the player has caused, asks for some changes and saves
    the state of gravity to the store that is the world. -/
def Audience.saving (changes : List Change) : Audience Unit Store where
  name _ := "listener"
  keeps _ _ := true
  react _ t :=
    if t.byPlayer then
      changes.foldr .request (.look fun _ store => .save store fun
        | .ok saved => .update (fun _ => saved) (.finish none)
        | .error _ => .finish none)
    else .finish none

/-- What has been saved while a change with infinite momentum waited is refused. -/
theorem Scene.restore_surging :
    let surge : Change := ⟨.toggle, .infinite false, false⟩
    let joined : Scene Unit Store := ⟨⟨.normal, [⟨0, ()⟩], 1, [], false, []⟩, .empty⟩
    let call := joined.setGravity (.saving [surge]) ⟨.toggle, .one false, true⟩
    let ended := call.value
    Moment.saved ⟨.inverted, [surge]⟩ ∈ call.events ∧
      ended.Idle ∧ ended.restore (.saving [surge]) ended.world = pure (.error .json, ended) := by
  intro surge joined call ended
  have hidle : ended.Idle := ⟨rfl, rfl, rfl⟩
  have hstored : ended.world.get? Store.gravityKey = some (Snapshot.render ⟨.inverted, [surge]⟩) := rfl
  exact ⟨by decide, hidle, restore_of_not_finite hidle _ hstored (by decide) rfl⟩

/-- A toggle and a wish for normal gravity wait, one with a momentum of a tenth and one with a negative
    momentum of a ten millionth; nobody listens. -/
theorem Coordinator.saved_restores_tenth :
    let c : Coordinator Empty := ⟨.inverted, [], 0, [⟨.toggle, .finite false ⟨0x3DCCCCCD, by decide⟩, true⟩,
      ⟨.normal, .finite true ⟨0x33D6BF95, by decide⟩, false⟩], false, []⟩
    ∃ saved, c.save .empty = .ok saved ∧
      Snapshot.parse c.snapshot.render = .ok c.snapshot ∧
      (Scene.restore .nobody saved ⟨.start .normal, ()⟩).value.1 = .ok true := by
  intro c
  have hexact : ∀ change ∈ c.pending, change.momentum.JsonExact := by decide +kernel
  obtain ⟨saved, hsave, -, hfinite, -⟩ :=
    c.saved_restores_iff_finite (κ := Empty) (ν := Unit) .empty hexact
  obtain ⟨hparse, -, hrestores⟩ := hfinite (by decide)
  exact ⟨saved, hsave, hparse, (hrestores .nobody ⟨.start .normal, ()⟩ ⟨rfl, rfl, rfl⟩).1⟩

end Inversion
