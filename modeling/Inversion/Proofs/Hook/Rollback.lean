import Inversion.Proofs.Hook.Lifecycle

/-!
How an activation fails. Some methods have been patched when one of them cannot be. Under the
transactional policy the patched ones are offered their former bodies again, the latest first and past
refusals; what the host refuses stays applied, and is restored by a later deactivation that the host
does not refuse. Under the other policy all that has been patched stays.
-/

namespace Inversion.Manager

variable {σ : Type} {m : Manager} {h : Host σ} {body : σ → Method → Option Body}

/-- A host that refuses nothing lets a deactivation restore everything. -/
theorem deactivate_of_accepting {ps : List Patch} {before : Method → Option Body} {s : σ}
    (hm : m.Remembers ps) (hs : Patch.Stand m.engine before (body s) ps) (hh : h.Honest body)
    (hall : h.Accepting) :
    (m.deactivate h s).value.result = .ok () ∧ Restored body before (m.deactivate h s).value := by
  have hok : (m.deactivate h s).value.result = .ok () := by
    cases hl : m.state with
    | unloaded => rw [deactivate_of_unloaded hl]
    | loaded =>
      have hb : h.takeBack ps.reverse s = ([], (h.takeBack ps.reverse s).2) :=
        Prod.ext (Host.takeBack_of_accepting hall ps.reverse s) rfl
      rw [deactivate_of_restored hm hl hb]
  exact ⟨hok, deactivate_restored hm hs hh hok⟩

theorem left_targets (refused : List (Patch × String)) :
    (Patch.left refused).map Patch.target = (refused.map fun r => r.1.target).reverse := by
  rw [Patch.left, List.map_reverse, List.map_map]
  rfl

theorem appliedTargets_remembering (m : Manager) (ps : List Patch) :
    (m.remembering ps).appliedTargets = ps.map Patch.target := by
  rw [appliedTargets, remembering, List.map_map]
  rfl

/-- What an activation comes to whose first failure follows on some methods that have been patched. All
    of these had the bodies that their patches remember. Transactional: each is offered that body once,
    the latest first; if none is refused, nothing is patched any more, and otherwise those are applied
    that were refused, in the order of registration, until a host that refuses nothing is asked to
    restore them. Otherwise nothing more is offered, and all that has been patched stays. -/
theorem activate_failed {s s₁ s₂ : σ} {done : List Patch} {target : Method} {rules : RuleSet}
    {after : List (Method × RuleSet)} {fault : Error} (hm : m.Reachable) (hu : m.state = .unloaded)
    (ht : m.targets = done.map Patch.binding ++ (target, rules) :: after) (hh : h.Honest body)
    (hd : Patch.Series m.engine h done s s₁)
    (hf : Patch.Failure m.engine h target rules s₁ fault s₂) :
    let ended := (m.activate h s).value
    let back := h.takeBack done.reverse s₂
    (∀ p ∈ done, body s p.target = some p.former) ∧ ended.manager.targets = m.targets ∧
      (m.config.loadPolicy = .transactional →
        ended.host = back.2 ∧
        (∀ record, h.Recording record →
          record ended.host = record s₂ ++ done.reverse.map Patch.original) ∧
        (back.1 = [] → ended.result = .error fault ∧ Restored body (body s) ended) ∧
        ∀ r rest, back.1 = r :: rest →
          ended.result = .error (.rollbackFailed fault (Patch.refusal r)) ∧
          ended.manager.state = .loaded ∧
          ended.manager.appliedTargets = (back.1.map fun r => r.1.target).reverse ∧
          ended.manager.appliedTargets.Sublist ended.manager.registeredTargets ∧
          (∀ t ∉ ended.manager.appliedTargets, body ended.host t = body s t) ∧
          ∀ h' s', h'.Honest body → h'.Accepting → body s' = body ended.host →
            (ended.manager.deactivate h' s').value.result = .ok () ∧
            Restored body (body s) (ended.manager.deactivate h' s').value) ∧
      (m.config.loadPolicy = .keepPatched →
        ended.result = .error fault ∧ ended.host = s₂ ∧
        ended.manager.appliedTargets = done.map Patch.target ∧
        (∀ p ∈ done, body ended.host p.target = some p.patched) ∧
        (ended.manager.state = .loaded ↔ done ≠ [])) := by
  intro ended back
  obtain ⟨ps, hps⟩ := hm.remembers
  obtain rfl := hps.unloaded hu
  have hs : Patch.Stand m.engine (body s) (body s₂) done :=
    hps.stand_of_failure ht hd hf hh .nil
  have hended : ended = ((m.remembering done).abort h fault s₂).value :=
    activate_of_failure hps hu ht hd hf
  -- whatever happens, what the manager remembers afterwards is what stands
  obtain ⟨qs, hkeeps⟩ := activate_keeps hps h s
  have hrem : ended.manager.Remembers qs := hkeeps.remembers
  have hstand : Patch.Stand ended.manager.engine (body s) (body ended.host) qs := by
    rw [engine, hkeeps.config_eq]
    exact hkeeps.stand hh .nil
  refine ⟨hs.before_eq, hkeeps.targets_eq, ?_, ?_⟩
  · intro hp
    have hhost : ended.host = back.2 := by
      rw [hended]
      rcases hb : back with ⟨_ | ⟨r, refused⟩, s'⟩
      · rw [abort_of_restored hps hp ht hb]
      · rw [abort_of_refused hps hp ht hb]
    refine ⟨hhost, ?_, ?_, ?_⟩
    · intro record hrec
      rw [hhost]
      exact Host.takeBack_record hrec done.reverse s₂
    · intro hnone
      have hb : h.takeBack done.reverse s₂ = ([], back.2) := Prod.ext hnone rfl
      rw [abort_of_restored hps hp ht hb] at hended
      have hqs : qs = [] := List.map_eq_nil_iff.1 (by rw [← hrem.applied_eq, hended]; rfl)
      rw [hqs] at hrem hstand
      refine ⟨by rw [hended], .of_nothing hrem hstand ?_⟩
      rw [hended]
      exact hu
    · intro r rest hsome
      have hb : h.takeBack done.reverse s₂ = (r :: rest, back.2) := Prod.ext hsome rfl
      rw [abort_of_refused hps hp ht hb] at hended
      refine ⟨by rw [hended], by rw [hended], ?_, hrem.appliedTargets_sublist, ?_, ?_⟩
      · rw [hended, hsome, ← left_targets]
        exact appliedTargets_remembering m (Patch.left (r :: rest))
      · intro t ht'
        rw [hrem.appliedTargets_eq] at ht'
        exact hstand.others t ht'
      · intro h' s' hh' hall hsame
        rw [← hsame] at hstand
        exact deactivate_of_accepting hrem hstand hh' hall
  · intro hp
    rw [abort_of_keepPatched hp] at hended
    refine ⟨by rw [hended], by rw [hended], ?_, ?_, ?_⟩
    · rw [hended]
      exact appliedTargets_remembering m done
    · rw [hended]
      exact hs.now_eq
    · rw [hended]
      by_cases hnil : done = []
      · simp [hnil, hu]
      · simp [hnil]

end Inversion.Manager

namespace Inversion

namespace Workshop

/-- A workshop that refuses nothing any more. -/
def willing : Host Workshop where
  resolve := host.resolve
  bodyOf := host.bodyOf
  install w := host.install { w with answers := [] }

theorem willing_accepting : willing.Accepting := fun _ _ _ => rfl

theorem willing_honest : willing.Honest bodies where
  offered := host_honest.offered
  accepted := by
    intro w t b w' h
    exact host_honest.accepted (s := { w with answers := [] }) h
  refused := by
    intro w t b reason w' h
    exact host_honest.refused (s := { w with answers := [] }) h

theorem host_recording : host.Recording offers := by
  intro w t b
  simp only [host]
  split <;> rfl

theorem manager_reachable : manager.Reachable :=
  ⟨Workshop, .default, operations.take 3, opened, rfl⟩

end Workshop

/-- Of two methods that have been patched both are offered their former bodies, and one is refused; it
    is restored when nothing is refused any more. -/
theorem Manager.activate_failed_workshop :
    let ended := (Workshop.manager.activate Workshop.host Workshop.opened).value
    ended.result = .error (.rollbackFailed (.noMatch "sum" Workshop.stand)
        (.refused Workshop.fall "verification failed")) ∧
      ended.host.offers = Workshop.installed ++ Workshop.returned ∧
      ended.manager.appliedTargets = [Workshop.fall] ∧
      Restored Workshop.bodies Workshop.opened.bodies
        (ended.manager.deactivate Workshop.willing ended.host).value := by
  intro ended
  have ht : Workshop.manager.targets
      = [Workshop.summing Workshop.jump, Workshop.summing Workshop.fall].map Patch.binding
        ++ [(Workshop.stand, Workshop.oneSum)] := rfl
  obtain ⟨-, -, htransactional, -⟩ := activate_failed Workshop.manager_reachable rfl ht
    Workshop.host_honest Workshop.series Workshop.failure
  obtain ⟨-, hoffers, -, hrefused⟩ := htransactional rfl
  obtain ⟨hresult, -, happlied, -, -, hretry⟩ := hrefused _ [] rfl
  exact ⟨hresult, hoffers _ Workshop.host_recording, happlied,
    (hretry _ ended.host Workshop.willing_honest Workshop.willing_accepting rfl).2⟩

end Inversion
