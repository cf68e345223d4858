import Mathlib
import Inversion.Rule.Library
import Inversion.Proofs.Hook.Activation

/-!
The life of a manager: any operations in any order, each on a host that may fail whenever it is asked.
Every operation keeps the patches that the manager remembers in step with those that stand, so after
any number of them a method has either its patched body, and is applied, or the body that it had at the
very beginning.
-/

namespace Inversion

/-- What may be asked of a manager, and of which host. -/
inductive Manager.Operation (σ : Type) where
  | registerRules (target : Method) (rules : RuleSet)
  | registerNamed (catalog : Host σ) (name : Method) (rules : RuleSet)
  | unregister (target : Method)
  | activate (h : Host σ)
  | deactivate (h : Host σ)
  | sync (policy : Session → Bool) (session : Session) (h : Host σ)

namespace Manager

variable {σ : Type}

namespace Operation

/-- The manager and the host after an operation, whether it succeeds or fails. -/
def perform : Operation σ → Manager × σ → Manager × σ
  | registerRules target rules, (m, s) =>
    match (m.registerRules target rules).outcome with
    | .ok m => (m, s)
    | .error _ => (m, s)
  | registerNamed catalog name rules, (m, s) =>
    match (m.registerNamed catalog s name rules).outcome with
    | .ok (_, m) => (m, s)
    | .error _ => (m, s)
  | unregister target, (m, s) =>
    match m.unregister target with
    | .ok (_, m) => (m, s)
    | .error _ => (m, s)
  | activate h, (m, s) =>
    let ended := (m.activate h s).value
    (ended.manager, ended.host)
  | deactivate h, (m, s) =>
    let ended := (m.deactivate h s).value
    (ended.manager, ended.host)
  | sync policy session h, (m, s) =>
    let ended := (m.syncWithSession policy session h s).value
    (ended.manager, ended.host)

/-- The manager and the host after some operations. -/
def performAll (ops : List (Operation σ)) (x : Manager × σ) : Manager × σ :=
  ops.foldl (fun x op => op.perform x) x

/-- The host that is patched, if one is, is honest. -/
def Honest (body : σ → Method → Option Body) : Operation σ → Prop
  | activate h | deactivate h | sync _ _ h => h.Honest body
  | _ => True

end Operation

/-- A manager that operations lead to. -/
def Reachable (m : Manager) : Prop :=
  ∃ (σ : Type) (config : Config) (ops : List (Operation σ)) (s : σ),
    (Operation.performAll ops (.start config, s)).1 = m

/-! ### One operation -/

variable {m m' : Manager} {ps : List Patch} {target : Method} {rules : RuleSet}

theorem start_remembers (config : Config) : (start config).Remembers [] where
  applied_eq := rfl
  distinct := List.nodup_nil
  subsequence := .slnil
  unloaded := fun _ => rfl

theorem registerRules_eq_ok (h : (m.registerRules target rules).outcome = .ok m') :
    target ∉ m.registeredTargets ∧ m' = { m with targets := m.targets ++ [(target, rules)] } := by
  unfold registerRules at h
  by_cases hmem : target ∈ m.registeredTargets
  · rw [if_pos hmem] at h
    cases h
  · rw [if_neg hmem] at h
    cases h
    exact ⟨hmem, rfl⟩

theorem registerNamed_eq_ok {catalog : Host σ} {s : σ} {name : Method}
    (h : (m.registerNamed catalog s name rules).outcome = .ok (target, m')) :
    (m.registerRules target rules).outcome = .ok m' := by
  unfold registerNamed at h
  split at h
  · cases h
  · obtain ⟨m₁, hreg, h⟩ := Attempt.outcome_bind_eq_ok.1 h
    cases h
    exact hreg

theorem unregister_eq_ok {found : Bool} (h : m.unregister target = .ok (found, m')) :
    target ∉ m.appliedTargets ∧ m' = { m with targets := m.targets.filter (·.1 ≠ target) } := by
  unfold unregister at h
  by_cases hmem : target ∈ m.appliedTargets
  · rw [if_pos hmem] at h
    cases h
  · rw [if_neg hmem] at h
    cases h
    exact ⟨hmem, rfl⟩

theorem Remembers.registerRules (hm : m.Remembers ps)
    (h : (m.registerRules target rules).outcome = .ok m') : m'.Remembers ps := by
  obtain ⟨hnew, rfl⟩ := registerRules_eq_ok h
  refine ⟨hm.applied_eq, ?_, hm.subsequence.trans (List.sublist_append_left ..), hm.unloaded⟩
  simp only [registeredTargets, List.map_append, List.map_cons, List.map_nil]
  refine List.nodup_append.2 ⟨hm.distinct, by simp, ?_⟩
  rintro t ht t' ht' rfl
  rw [List.mem_singleton.1 ht'] at ht
  exact hnew ht

theorem Remembers.appliedTargets_eq (hm : m.Remembers ps) :
    m.appliedTargets = ps.map Patch.target := by
  rw [appliedTargets, hm.applied_eq, List.map_map]
  rfl

/-- What is applied is registered, in the same order. -/
theorem Remembers.appliedTargets_sublist (hm : m.Remembers ps) :
    m.appliedTargets.Sublist m.registeredTargets := by
  have hsub := hm.subsequence.map Prod.fst
  rw [List.map_map] at hsub
  rw [hm.appliedTargets_eq]
  exact hsub

theorem Remembers.unregister {found : Bool} (hm : m.Remembers ps)
    (h : m.unregister target = .ok (found, m')) : m'.Remembers ps := by
  obtain ⟨happlied, rfl⟩ := unregister_eq_ok h
  rw [hm.appliedTargets_eq] at happlied
  refine ⟨hm.applied_eq, (List.filter_sublist.map _).nodup hm.distinct, ?_, hm.unloaded⟩
  -- what is filtered out is none of the patches
  have hkept := hm.subsequence.filter (·.1 ≠ target)
  rwa [List.filter_eq_self.2] at hkept
  intro binding hb
  obtain ⟨p, hp, rfl⟩ := List.mem_map.1 hb
  have hne : p.target ≠ target := fun he => happlied (he ▸ List.mem_map_of_mem hp)
  exact decide_eq_true hne

theorem sync_eq (policy : Session → Bool) (session : Session) (h : Host σ) (m : Manager) (s : σ) :
    (m.syncWithSession policy session h s).value
      = if policy session then
          { (m.activate h s).value with result := (m.activate h s).value.result.map fun _ => true }
        else { (m.deactivate h s).value with
          result := (m.deactivate h s).value.result.map fun _ => false } := by
  unfold syncWithSession
  cases policy session <;> rfl

/-- What one operation preserves: the manager remembers the patches that stand. -/
theorem Operation.perform_keeps (op : Operation σ) (s : σ) (hm : m.Remembers ps) :
    ∃ qs, (op.perform (m, s)).1.Remembers qs ∧ (op.perform (m, s)).1.config = m.config ∧
      ∀ {body : σ → Method → Option Body} {before : Method → Option Body}, op.Honest body →
        Patch.Stand m.engine before (body s) ps →
        Patch.Stand m.engine before (body (op.perform (m, s)).2) qs := by
  cases op with
  | registerRules target rules =>
    cases hreg : (m.registerRules target rules).outcome with
    | error fault =>
      simp only [perform, hreg]
      exact ⟨ps, hm, trivial, fun _ hs => hs⟩
    | ok m' =>
      simp only [perform, hreg]
      exact ⟨ps, hm.registerRules hreg, by rw [(registerRules_eq_ok hreg).2], fun _ hs => hs⟩
  | registerNamed catalog name rules =>
    cases hreg : (m.registerNamed catalog s name rules).outcome with
    | error fault =>
      simp only [perform, hreg]
      exact ⟨ps, hm, trivial, fun _ hs => hs⟩
    | ok found =>
      have hreg' := registerNamed_eq_ok hreg
      simp only [perform, hreg]
      exact ⟨ps, hm.registerRules hreg', by rw [(registerRules_eq_ok hreg').2], fun _ hs => hs⟩
  | unregister target =>
    cases hun : m.unregister target with
    | error fault =>
      simp only [perform, hun]
      exact ⟨ps, hm, trivial, fun _ hs => hs⟩
    | ok found =>
      simp only [perform, hun]
      exact ⟨ps, hm.unregister hun, by rw [(unregister_eq_ok hun).2], fun _ hs => hs⟩
  | activate h =>
    obtain ⟨qs, hkeeps⟩ := activate_keeps hm h s
    exact ⟨qs, hkeeps.remembers, hkeeps.config_eq, hkeeps.stand⟩
  | deactivate h =>
    obtain ⟨qs, hkeeps, -⟩ := deactivate_keeps hm h s
    exact ⟨qs, hkeeps.remembers, hkeeps.config_eq, hkeeps.stand⟩
  | sync policy session h =>
    simp only [perform, sync_eq]
    split
    · obtain ⟨qs, hkeeps⟩ := activate_keeps hm h s
      exact ⟨qs, hkeeps.remembers, hkeeps.config_eq, hkeeps.stand⟩
    · obtain ⟨qs, hkeeps, -⟩ := deactivate_keeps hm h s
      exact ⟨qs, hkeeps.remembers, hkeeps.config_eq, hkeeps.stand⟩

/-! ### Any number of operations -/

theorem Operation.performAll_keeps : ∀ (ops : List (Operation σ)) {m : Manager} {ps : List Patch}
    (s : σ), m.Remembers ps →
    ∃ qs, (performAll ops (m, s)).1.Remembers qs ∧ (performAll ops (m, s)).1.config = m.config ∧
      ∀ {body : σ → Method → Option Body} {before : Method → Option Body},
        (∀ op ∈ ops, op.Honest body) → Patch.Stand m.engine before (body s) ps →
        Patch.Stand m.engine before (body (performAll ops (m, s)).2) qs
  | [], _, ps, _, hm => ⟨ps, hm, rfl, fun _ hs => hs⟩
  | op :: ops, m, ps, s, hm => by
    obtain ⟨ps₁, hm₁, hc₁, hs₁⟩ := op.perform_keeps s hm
    obtain ⟨qs, hq, hc, hs⟩ := performAll_keeps ops (op.perform (m, s)).2 hm₁
    have he : (op.perform (m, s)).1.engine = m.engine := by rw [engine, engine, hc₁]
    refine ⟨qs, hq, hc.trans hc₁, fun hh hstand => ?_⟩
    rw [← he]
    refine hs (fun op' hop => hh op' (List.mem_cons_of_mem _ hop)) ?_
    rw [he]
    exact hs₁ (hh op List.mem_cons_self) hstand

theorem Reachable.remembers (h : m.Reachable) : ∃ ps, m.Remembers ps := by
  obtain ⟨σ, config, ops, s, rfl⟩ := h
  obtain ⟨ps, hm, -⟩ := Operation.performAll_keeps ops s (start_remembers config)
  exact ⟨ps, hm⟩

/-- Nothing is patched: nothing is applied or loaded, and every method has its body from before. -/
structure Restored {σ α : Type} (body : σ → Method → Option Body) (before : Method → Option Body)
    (ended : Managed σ α) : Prop where
  bodies : body ended.host = before
  applied : ended.manager.applied = []
  unloaded : ended.manager.state = .unloaded

/-- Nothing is patched if nothing stands. -/
theorem Restored.of_nothing {α : Type} {e : Engine} {body : σ → Method → Option Body}
    {before : Method → Option Body} {ended : Managed σ α} (hm : ended.manager.Remembers [])
    (hs : Patch.Stand e before (body ended.host) []) (hu : ended.manager.state = .unloaded) :
    Restored body before ended where
  bodies := funext fun t => hs.others t (by simp)
  applied := hm.applied_eq
  unloaded := hu

theorem deactivate_restored {body : σ → Method → Option Body} {before : Method → Option Body}
    {h : Host σ} {s : σ} (hm : m.Remembers ps) (hs : Patch.Stand m.engine before (body s) ps)
    (hh : h.Honest body) (hok : (m.deactivate h s).value.result = .ok ()) :
    Restored body before (m.deactivate h s).value := by
  obtain ⟨qs, hkeeps, hend⟩ := deactivate_keeps hm h s
  obtain ⟨rfl, hstate⟩ := hend hok
  exact .of_nothing hkeeps.remembers (hkeeps.stand hh hs) hstate

/-- After any operations on honest hosts, whatever fails: the registered methods differ, the applied ones
    are some of them in the same order, and none while nothing is loaded. A registration that is applied
    remembers the body that its method had before the first operation, and the method has what the engine
    makes of that body by the registered rules; every other method has the body that it had. Everything
    is restored when deactivating, or following a session that wants nothing patched, succeeds. -/
theorem performAll_sound (config : Config) (ops : List (Operation σ))
    (body : σ → Method → Option Body) (s : σ) (hops : ∀ op ∈ ops, op.Honest body) :
    let m := (Operation.performAll ops (start config, s)).1
    let s' := (Operation.performAll ops (start config, s)).2
    m.registeredTargets.Nodup ∧ m.appliedTargets.Sublist m.registeredTargets ∧
      (m.state = .unloaded → m.applied = []) ∧
      (∀ r ∈ m.applied, r.stage = .applied ∧ (r.target, r.rules) ∈ m.targets ∧
        ∃ former patched report, body s r.target = some former ∧ r.former = some former ∧
          ((Engine.ofConfig config).patch r.target r.rules former).outcome = .ok (patched, report) ∧
          body s' r.target = some patched) ∧
      (∀ t ∉ m.appliedTargets, body s' t = body s t) ∧
      (∀ h, h.Honest body → (m.deactivate h s').value.result = .ok () →
        Restored body (body s) (m.deactivate h s').value) ∧
      ∀ policy session h, h.Honest body →
        (m.syncWithSession policy session h s').value.result = .ok false →
        Restored body (body s) (m.syncWithSession policy session h s').value := by
  intro m s'
  obtain ⟨ps, hm, hc, hstand⟩ := Operation.performAll_keeps ops s (start_remembers config)
  have he : m.engine = Engine.ofConfig config := congrArg Engine.ofConfig hc
  have hs : Patch.Stand m.engine (body s) (body s') ps := by
    rw [he]
    exact hstand hops .nil
  have htargets := hm.appliedTargets_eq
  refine ⟨hm.distinct, hm.appliedTargets_sublist, ?_, ?_, ?_, ?_, ?_⟩
  · intro hu
    rw [hm.applied_eq, hm.unloaded hu, List.map_nil]
  · intro r hr
    rw [hm.applied_eq] at hr
    obtain ⟨p, hp, rfl⟩ := List.mem_map.1 hr
    refine ⟨rfl, hm.subsequence.subset (List.mem_map_of_mem hp), p.former, p.patched, p.report,
      hs.before_eq p hp, rfl, ?_, hs.now_eq p hp⟩
    rw [← he]
    exact hs.made p hp
  · intro t ht
    rw [htargets] at ht
    exact hs.others t ht
  · intro h hh hok
    exact deactivate_restored hm hs hh hok
  · intro policy session h hh hok
    rw [sync_eq] at hok ⊢
    split at hok
    · cases hact : (m.activate h s').value.result with
      | error fault => simp [hact, Except.map] at hok
      | ok u => simp [hact, Except.map] at hok
    · rename_i hpolicy
      rw [if_neg hpolicy]
      cases hdeact : (m.deactivate h s').value.result with
      | error fault => simp [hdeact, Except.map] at hok
      | ok u =>
        obtain ⟨hbodies, happlied, hunloaded⟩ := deactivate_restored hm hs hh hdeact
        exact ⟨hbodies, happlied, hunloaded⟩

end Manager

/-! ### A host that refuses some bodies -/

/-- A host program that answers installations as it has been told to, accepting them where it has been
    told nothing, and writes down what it is offered. -/
structure Workshop where
  bodies : Method → Option Body
  answers : List Bool
  offers : List (Method × Body)

namespace Workshop

/-- A workshop as a host. -/
def host : Host Workshop where
  resolve _ m := some m
  bodyOf w m :=
    match w.bodies m with
    | some b => .ok b
    | none => .error (.undecodable m "no body")
  install w m b :=
    if w.answers.headD true then
      (.ok (), ⟨Function.update w.bodies m (some b), w.answers.tail, w.offers ++ [(m, b)]⟩)
    else (.error "verification failed", ⟨w.bodies, w.answers.tail, w.offers ++ [(m, b)]⟩)

theorem host_honest : host.Honest bodies where
  offered := by
    intro w t b h
    simp only [host] at h
    split at h
    · cases h
      assumption
    · cases h
  accepted := by
    intro w t b w' h
    simp only [host] at h
    split at h
    · cases h
      rfl
    · cases h
  refused := by
    intro w t b reason w' h
    simp only [host] at h
    split at h
    · cases h
    · cases h
      rfl

/-- The workshop after it has been offered some bodies. -/
def after (w : Workshop) (offers : List (Method × Body)) : Workshop :=
  offers.foldl (fun w offer => (host.install w offer.1 offer.2).2) w

/-- Two methods that add, and one that does not. -/
def jump : Method := ⟨"Player", "Jump"⟩
def fall : Method := ⟨"Player", "Fall"⟩
def stand : Method := ⟨"Wall", "Stand"⟩

def addingBody : Body := ⟨[⟨⟨0⟩, .add, []⟩, ⟨⟨1⟩, .other .leave, []⟩], 2⟩

def idleBody : Body := ⟨[⟨⟨0⟩, .other .leave, []⟩], 1⟩

/-- One addition must be there, and is patched. -/
def oneSum : RuleSet := ⟨"sum", [Rule.substitute "sum" (.single "sum" (.op .add)) .vecAdd]⟩

/-- What becomes of a method that adds. -/
def summing (m : Method) : Patch :=
  ⟨m, oneSum, addingBody, ⟨[.transformCall ⟨2⟩ .vecAdd, ⟨⟨1⟩, .other .leave, []⟩], 3⟩,
    ⟨m.display, "sum", [⟨"sum", 1, [⟨0⟩]⟩]⟩⟩

theorem summing_made (m : Method) : (summing m).Made ⟨true⟩ := by
  unfold Patch.Made
  cbv

/-- Two bodies will be accepted, the third one refused, the fourth one accepted, the fifth one refused. -/
def opened : Workshop where
  bodies m := if m = stand then some idleBody else some addingBody
  answers := [true, true, false, true, false]
  offers := []

/-- A manager at which the three methods are registered. -/
def manager : Manager :=
  ⟨.default, [(jump, oneSum), (fall, oneSum), (stand, oneSum)], [], .unloaded⟩

theorem manager_remembers : manager.Remembers [] := ⟨rfl, by decide, by simp, fun _ => rfl⟩

/-- What is offered until the method that does not add is reached. -/
def installed : List (Method × Body) := [(jump, (summing jump).patched), (fall, (summing fall).patched)]

/-- What is offered when the patches are taken back. -/
def returned : List (Method × Body) := [(fall, addingBody), (jump, addingBody)]

theorem series : Patch.Series manager.engine host [summing jump, summing fall] opened
    (opened.after installed) :=
  .cons rfl (summing_made jump) rfl (.cons rfl (summing_made fall) rfl (.nil _))

theorem failure : Patch.Failure manager.engine host stand oneSum (opened.after installed)
    (.noMatch "sum" stand) (opened.after installed) := by
  have hb : host.bodyOf (opened.after installed) stand = .ok idleBody := rfl
  refine .unpatched hb ?_
  cbv

theorem takeBack_eq : host.takeBack [summing fall, summing jump] (opened.after installed)
    = ([(summing fall, "verification failed")], opened.after (installed ++ returned)) := rfl

/-- The third method cannot be patched, and then the second one cannot be restored. -/
theorem activate_eq : (manager.activate host opened).value
    = ⟨.error (.rollbackFailed (.noMatch "sum" stand) (.refused fall "verification failed")),
        { manager.remembering [summing fall] with state := .loaded },
        opened.after (installed ++ returned)⟩ := by
  have ht : manager.targets = [summing jump, summing fall].map Patch.binding ++ [(stand, oneSum)] :=
    rfl
  rw [Manager.activate_of_failure manager_remembers rfl ht series failure,
    Manager.abort_of_refused manager_remembers rfl ht takeBack_eq]
  rfl

/-- After the failed activation the first method is given up, and the second one is refused again. -/
def operations : List (Manager.Operation Workshop) := [.registerRules jump oneSum,
  .registerRules fall oneSum, .registerRules stand oneSum, .activate host, .unregister jump,
  .deactivate host]

theorem performAll_eq : Manager.Operation.performAll operations (.start .default, opened)
    = (⟨.default, [(fall, oneSum), (stand, oneSum)], [(summing fall).registration], .loaded⟩,
        opened.after (installed ++ returned ++ [(fall, addingBody)])) := by
  have hregistered : Manager.Operation.performAll operations (.start .default, opened)
      = Manager.Operation.performAll [.activate host, .unregister jump, .deactivate host]
        (manager, opened) := rfl
  rw [hregistered]
  simp only [Manager.Operation.performAll, List.foldl_cons, List.foldl_nil,
    Manager.Operation.perform, activate_eq]
  rfl

end Workshop

/-- One method is still patched in the end; it is restored as soon as the host lets it. -/
theorem Manager.performAll_sound_workshop :
    let m := (Operation.performAll Workshop.operations (start .default, Workshop.opened)).1
    let s' := (Operation.performAll Workshop.operations (start .default, Workshop.opened)).2
    (∀ op ∈ Workshop.operations, op.Honest Workshop.bodies) ∧
      m.appliedTargets = [Workshop.fall] ∧ m.state = .loaded ∧
      (∀ t ∉ m.appliedTargets, s'.bodies t = Workshop.opened.bodies t) ∧
      Restored Workshop.bodies Workshop.opened.bodies (m.deactivate Workshop.host s').value := by
  intro m s'
  have hops : ∀ op ∈ Workshop.operations, op.Honest Workshop.bodies := by
    simp [Workshop.operations, Operation.Honest, Workshop.host_honest]
  obtain ⟨-, -, -, -, hothers, hdeactivate, -⟩ :=
    performAll_sound .default Workshop.operations Workshop.bodies Workshop.opened hops
  have hm : m = _ := congrArg Prod.fst Workshop.performAll_eq
  have hs : s' = _ := congrArg Prod.snd Workshop.performAll_eq
  refine ⟨hops, by rw [hm]; rfl, by rw [hm], hothers, ?_⟩
  refine hdeactivate _ Workshop.host_honest ?_
  rw [Workshop.performAll_eq]
  rfl

end Inversion
