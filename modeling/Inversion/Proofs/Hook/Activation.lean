import Inversion.Proofs.Hook.Patch

/-!
What activating and deactivating come to. A manager remembers the patches that stand: they belong to
registered methods, in the order of registration, and there are none while nothing is loaded. Each of
the two operations ends in one of a few ways, told here by the patches that are made and by those that
the host does not let be taken back; both keep in step what is remembered and what stands.
-/

namespace Inversion

/-- The manager remembers these patches: they are what is applied, their methods are registered with
    their rules, in the same order and each once, and while nothing is loaded there are none. -/
structure Manager.Remembers (m : Manager) (ps : List Patch) : Prop where
  applied_eq : m.applied = ps.map Patch.registration
  distinct : m.registeredTargets.Nodup
  subsequence : (ps.map Patch.binding).Sublist m.targets
  unloaded : m.state = .unloaded → ps = []

/-- The manager with other patches to remember. -/
def Manager.remembering (m : Manager) (ps : List Patch) : Manager :=
  { m with applied := ps.map Patch.registration }

/-- The patches among refusals, the latest refusal first. -/
def Patch.left (refused : List (Patch × String)) : List Patch := (refused.map Prod.fst).reverse

namespace Manager

variable {m : Manager} {ps qs done : List Patch}

theorem Remembers.targets_nodup (hm : m.Remembers ps) : (ps.map Patch.target).Nodup := by
  have hsub : ((ps.map Patch.binding).map Prod.fst).Sublist m.registeredTargets :=
    hm.subsequence.map Prod.fst
  rw [List.map_map] at hsub
  exact hsub.nodup hm.distinct

/-- A loaded manager may remember any part of its targets. -/
theorem Remembers.of_sublist (hm : m.Remembers ps) (hq : (qs.map Patch.binding).Sublist m.targets)
    (state : LoadState) (hstate : state = .unloaded → qs = []) :
    Remembers { m.remembering qs with state := state } qs where
  applied_eq := rfl
  distinct := hm.distinct
  subsequence := hq
  unloaded := hstate

/-- A manager may always forget everything. -/
theorem Remembers.of_nothing (hm : m.Remembers ps) (state : LoadState) :
    Remembers { m.remembering [] with state := state } [] := by
  have hnone : (([] : List Patch).map Patch.binding).Sublist m.targets := List.nil_sublist _
  exact hm.of_sublist hnone state fun _ => rfl

/-! ### Deactivating -/

section Deactivating

variable {σ : Type} {h : Host σ} {s s' : σ} {refused : List (Patch × String)}

/-- What is refused of patches that are taken back, the latest first, stands in their order. -/
theorem left_sublist (h : Host σ) (ps : List Patch) (s : σ) :
    (Patch.left (h.takeBack ps.reverse s).1).Sublist ps := by
  have hsub := (Host.takeBack_sublist (h := h) ps.reverse s).reverse
  rwa [List.reverse_reverse] at hsub

/-- What is left when everything is taken back, the latest first, is what still stands. -/
theorem takeBack_left {e : Engine} {body : σ → Method → Option Body}
    {before : Method → Option Body} (hh : h.Honest body) (hs : Patch.Stand e before (body s) ps) :
    Patch.Stand e before (body (h.takeBack ps.reverse s).2)
      (Patch.left (h.takeBack ps.reverse s).1) := by
  have hreverse : Patch.Stand e before (body s) (ps.reverse ++ []) := by
    rw [List.append_nil]
    exact hs.perm ps.reverse_perm.symm
  have hback := Host.takeBack_stand hh ps.reverse [] s hreverse
  rw [List.append_nil] at hback
  exact hback.perm (List.reverse_perm _).symm

theorem revertAll_eq (hm : m.Remembers ps) (hb : h.takeBack ps.reverse s = (refused, s')) :
    (m.revertAll h s).value
      = ((refused.map Patch.refusal).head?, m.remembering (Patch.left refused), s') := by
  have hr := revertEach_registration (h := h) ps.reverse s
  rw [hb, List.map_reverse, ← hm.applied_eq] at hr
  simp only [revertAll, Account.value_bind, hr, Account.value_pure, remembering, Patch.left,
    List.map_reverse, List.map_map]
  rfl

theorem deactivate_of_unloaded (hu : m.state = .unloaded) :
    (m.deactivate h s).value = ⟨.ok (), m, s⟩ := by
  simp only [deactivate, hu]
  rfl

theorem deactivate_of_restored (hm : m.Remembers ps) (hl : m.state = .loaded)
    (hb : h.takeBack ps.reverse s = ([], s')) :
    (m.deactivate h s).value = ⟨.ok (), { m.remembering [] with state := .unloaded }, s'⟩ := by
  have hr := revertAll_eq hm hb
  simp only [deactivate, hl, Account.value_bind, hr]
  rfl

theorem deactivate_of_refused {r : Patch × String} (hm : m.Remembers ps) (hl : m.state = .loaded)
    (hb : h.takeBack ps.reverse s = (r :: refused, s')) :
    (m.deactivate h s).value
      = ⟨.error (Patch.refusal r), m.remembering (Patch.left (r :: refused)), s'⟩ := by
  have hr := revertAll_eq hm hb
  simp only [deactivate, hl, Account.value_bind, hr]
  rfl

end Deactivating

/-- What an operation makes of a manager that remembers the patches that stand: it remembers those that
    stand afterwards, whatever the bodies were at the beginning. -/
structure Keeps {σ α : Type} (m : Manager) (ps : List Patch) (h : Host σ) (s : σ)
    (ended : Managed σ α) (qs : List Patch) : Prop where
  remembers : ended.manager.Remembers qs
  config_eq : ended.manager.config = m.config
  targets_eq : ended.manager.targets = m.targets
  stand : ∀ {body : σ → Method → Option Body} {before : Method → Option Body}, h.Honest body →
    Patch.Stand m.engine before (body s) ps → Patch.Stand m.engine before (body ended.host) qs

/-- What deactivating a manager comes to. If all goes well nothing is patched any more. -/
theorem deactivate_keeps {σ : Type} (hm : m.Remembers ps) (h : Host σ) (s : σ) :
    ∃ qs, m.Keeps ps h s (m.deactivate h s).value qs ∧
      ((m.deactivate h s).value.result = .ok () →
        qs = [] ∧ (m.deactivate h s).value.manager.state = .unloaded) := by
  cases hl : m.state with
  | unloaded =>
    rw [deactivate_of_unloaded hl]
    exact ⟨ps, ⟨hm, rfl, rfl, fun _ hs => hs⟩, fun _ => ⟨hm.unloaded hl, hl⟩⟩
  | loaded =>
    have hleft := left_sublist h ps s
    have hstand {body : σ → Method → Option Body} {before : Method → Option Body}
        (hh : h.Honest body) (hs : Patch.Stand m.engine before (body s) ps) :
        Patch.Stand m.engine before (body (h.takeBack ps.reverse s).2)
          (Patch.left (h.takeBack ps.reverse s).1) := takeBack_left hh hs
    match hb : h.takeBack ps.reverse s with
    | ([], s') =>
      rw [hb] at hstand
      rw [deactivate_of_restored hm hl hb]
      refine ⟨[], ⟨?_, rfl, rfl, hstand⟩, fun _ => ⟨rfl, rfl⟩⟩
      exact hm.of_nothing .unloaded
    | (r :: refused, s') =>
      rw [hb] at hstand hleft
      rw [deactivate_of_refused hm hl hb]
      refine ⟨Patch.left (r :: refused), ⟨?_, rfl, rfl, hstand⟩, nofun⟩
      exact hm.of_sublist ((hleft.map _).trans hm.subsequence) m.state (by simp [hl])

/-! ### Activating -/

section Activating

variable {σ : Type} {h : Host σ} {s s₁ s₂ s' : σ} {fault : Error} {target : Method} {rules : RuleSet}
  {after : List (Method × RuleSet)} {refused : List (Patch × String)}

theorem activate_of_loaded (hl : m.state = .loaded) : (m.activate h s).value = ⟨.ok (), m, s⟩ := by
  simp only [activate, hl]
  rfl

theorem activate_of_series (hm : m.Remembers []) (hu : m.state = .unloaded)
    (ht : m.targets = done.map Patch.binding) (hd : Patch.Series m.engine h done s s₁) :
    (m.activate h s).value = ⟨.ok (), { m.remembering done with state := .loaded }, s₁⟩ := by
  have ha := applyEach_of_series hd
  rw [← ht] at ha
  simp only [activate, hu, Account.value_bind, ha, hm.applied_eq]
  rfl

theorem activate_of_failure (hm : m.Remembers []) (hu : m.state = .unloaded)
    (ht : m.targets = done.map Patch.binding ++ (target, rules) :: after)
    (hd : Patch.Series m.engine h done s s₁)
    (hf : Patch.Failure m.engine h target rules s₁ fault s₂) :
    (m.activate h s).value = ((m.remembering done).abort h fault s₂).value := by
  have ha := applyEach_of_failure hd hf after
  rw [← ht] at ha
  simp only [activate, remembering, hu, Account.value_bind, ha, hm.applied_eq]
  rfl

/-- While methods are patched the manager may remember those that are. -/
theorem Remembers.during (hm : m.Remembers [])
    (ht : m.targets = done.map Patch.binding ++ after) :
    Remembers { m.remembering done with state := .loaded } done :=
  hm.of_sublist (by rw [ht]; exact List.sublist_append_left ..) .loaded nofun

/-- The methods that are patched are new, so what stands afterwards is what has been patched. -/
theorem Remembers.stand_of_series (hm : m.Remembers [])
    (ht : m.targets = done.map Patch.binding ++ after) (hd : Patch.Series m.engine h done s s₁)
    {body : σ → Method → Option Body} {before : Method → Option Body} (hh : h.Honest body)
    (hs : Patch.Stand m.engine before (body s) []) : Patch.Stand m.engine before (body s₁) done := by
  have hnew : ((done ++ []).map Patch.target).Nodup := by
    rw [List.append_nil]
    exact (hm.during ht).targets_nodup
  have hdone := hd.stand hh hs hnew
  rwa [List.append_nil] at hdone

theorem Remembers.stand_of_failure (hm : m.Remembers [])
    (ht : m.targets = done.map Patch.binding ++ (target, rules) :: after)
    (hd : Patch.Series m.engine h done s s₁)
    (hf : Patch.Failure m.engine h target rules s₁ fault s₂)
    {body : σ → Method → Option Body} {before : Method → Option Body} (hh : h.Honest body)
    (hs : Patch.Stand m.engine before (body s) []) : Patch.Stand m.engine before (body s₂) done := by
  rw [hf.body_eq hh]
  exact hm.stand_of_series ht hd hh hs

theorem abort_of_keepPatched (hp : m.config.loadPolicy = .keepPatched) :
    ((m.remembering done).abort h fault s).value
      = ⟨.error fault, { m.remembering done with
          state := if done = [] then m.state else .loaded }, s⟩ := by
  cases done with
  | nil =>
    simp only [abort, remembering, hp]
    rfl
  | cons p rest =>
    simp only [abort, remembering, hp]
    rfl

theorem revertAll_during (h : Host σ) (hm : m.Remembers [])
    (ht : m.targets = done.map Patch.binding ++ after)
    (hb : h.takeBack done.reverse s = (refused, s')) :
    ((m.remembering done).revertAll h s).value
      = ((refused.map Patch.refusal).head?, m.remembering (Patch.left refused), s') := by
  have hr := revertAll_eq (hm.during ht) hb
  simp only [revertAll, remembering] at hr ⊢
  simpa using hr

theorem abort_of_restored (hm : m.Remembers []) (hp : m.config.loadPolicy = .transactional)
    (ht : m.targets = done.map Patch.binding ++ after)
    (hb : h.takeBack done.reverse s = ([], s')) :
    ((m.remembering done).abort h fault s).value = ⟨.error fault, m.remembering [], s'⟩ := by
  have hp' : (m.remembering done).config.loadPolicy = .transactional := hp
  have hr := revertAll_during h hm ht hb
  simp only [abort, hp']
  split
  · simp only [Account.value_bind, hr]
    rfl
  · simp only [Account.value_bind, hr]
    rfl

theorem abort_of_refused {r : Patch × String} (hm : m.Remembers [])
    (hp : m.config.loadPolicy = .transactional) (ht : m.targets = done.map Patch.binding ++ after)
    (hb : h.takeBack done.reverse s = (r :: refused, s')) :
    ((m.remembering done).abort h fault s).value
      = ⟨.error (.rollbackFailed fault (Patch.refusal r)),
          { m.remembering (Patch.left (r :: refused)) with state := .loaded }, s'⟩ := by
  have hp' : (m.remembering done).config.loadPolicy = .transactional := hp
  have hr := revertAll_during h hm ht hb
  simp only [abort, hp']
  split
  · simp only [Account.value_bind, hr]
    rfl
  · simp only [Account.value_bind, hr]
    rfl

end Activating

/-- What activating a manager comes to. -/
theorem activate_keeps {σ : Type} (hm : m.Remembers ps) (h : Host σ) (s : σ) :
    ∃ qs, m.Keeps ps h s (m.activate h s).value qs := by
  cases hu : m.state with
  | loaded =>
    rw [activate_of_loaded hu]
    exact ⟨ps, hm, rfl, rfl, fun _ hs => hs⟩
  | unloaded =>
    obtain rfl := hm.unloaded hu
    rcases Patch.series_or_failure m.engine h m.targets s with
      ⟨done, s₁, ht, hd⟩ | ⟨done, target, rules, after, s₁, fault, s₂, ht, hd, hf⟩
    · rw [activate_of_series hm hu ht hd]
      have ht' : m.targets = done.map Patch.binding ++ [] := by rw [ht, List.append_nil]
      exact ⟨done, hm.during ht', rfl, rfl, hm.stand_of_series ht' hd⟩
    · rw [activate_of_failure hm hu ht hd hf]
      cases hp : m.config.loadPolicy with
      | keepPatched =>
        rw [abort_of_keepPatched hp]
        refine ⟨done, ?_, rfl, rfl, hm.stand_of_failure ht hd hf⟩
        refine hm.of_sublist (hm.during ht).subsequence _ fun hstate => ?_
        by_contra hne
        rw [if_neg hne] at hstate
        cases hstate
      | transactional =>
        have hleft := left_sublist h done s₂
        have hback {body : σ → Method → Option Body} {before : Method → Option Body}
            (hh : h.Honest body) (hs : Patch.Stand m.engine before (body s) []) :
            Patch.Stand m.engine before (body (h.takeBack done.reverse s₂).2)
              (Patch.left (h.takeBack done.reverse s₂).1) :=
          takeBack_left hh (hm.stand_of_failure ht hd hf hh hs)
        match hb : h.takeBack done.reverse s₂ with
        | ([], s') =>
          rw [hb] at hback
          rw [abort_of_restored hm hp ht hb]
          exact ⟨[], hm.of_nothing m.state, rfl, rfl, hback⟩
        | (r :: refused, s') =>
          rw [hb] at hback hleft
          rw [abort_of_refused hm hp ht hb]
          refine ⟨Patch.left (r :: refused), ?_, rfl, rfl, hback⟩
          exact hm.of_sublist ((hleft.map _).trans (hm.during ht).subsequence) .loaded nofun

end Manager

end Inversion
