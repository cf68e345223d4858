import Mathlib.Logic.Function.Basic
import Inversion.Hook.Manager

/-!
Patching methods one after the other, and taking the patches back. A patch is what has become of one
method: the body that was found there and the body that stands in its place. Some patches *stand* if
these methods have their patched bodies and all others the bodies that they had before. The loop that
patches adds one patch after the other to those that stand, the loop that restores takes one after the
other away; where the host refuses a body, a patch stays among those that stand.
-/

namespace Inversion

/-- A host of which the bodies are known. The body that it offers is the one that the method has; a body
    that it accepts is from then on the body of this method, and no other method has another one; a body
    that it refuses changes no body. It may fail to offer a body, and it may refuse one, at any time. -/
structure Host.Honest {σ : Type} (h : Host σ) (body : σ → Method → Option Body) : Prop where
  offered : ∀ {s target b}, h.bodyOf s target = .ok b → body s target = some b
  accepted : ∀ {s target b s'}, h.install s target b = (.ok (), s') →
    body s' = Function.update (body s) target (some b)
  refused : ∀ {s target b reason s'}, h.install s target b = (.error reason, s') → body s' = body s

/-- A host that refuses no body. -/
def Host.Accepting {σ : Type} (h : Host σ) : Prop :=
  ∀ s target b, (h.install s target b).1 = .ok ()

/-- A host that writes down every body that it is offered, whether or not it accepts it. -/
def Host.Recording {σ : Type} (h : Host σ) (record : σ → List (Method × Body)) : Prop :=
  ∀ s target b, record (h.install s target b).2 = record s ++ [(target, b)]

/-- What has become of a method: the body that was found, what the engine has made of it, and the
    report. -/
structure Patch where
  target : Method
  rules : RuleSet
  former : Body
  patched : Body
  report : Report

namespace Patch

variable {σ : Type}

/-- The method with the rules that are registered for it. -/
def binding (p : Patch) : Method × RuleSet := (p.target, p.rules)

/-- The method with the body that it had before. -/
def original (p : Patch) : Method × Body := (p.target, p.former)

/-- The registration that remembers the patch. -/
def registration (p : Patch) : Registration :=
  ⟨p.target, p.rules, .applied, some p.former, some p.report⟩

/-- The patched body is what the engine makes of the former one by the rules. -/
def Made (e : Engine) (p : Patch) : Prop :=
  (e.patch p.target p.rules p.former).outcome = .ok (p.patched, p.report)

/-- Patching methods one after the other, without a failure. -/
inductive Series (e : Engine) (h : Host σ) : List Patch → σ → σ → Prop where
  | nil (s : σ) : Series e h [] s s
  | cons {p : Patch} {rest : List Patch} {s s₁ s₂ : σ} : h.bodyOf s p.target = .ok p.former →
      p.Made e → h.install s p.target p.patched = (.ok (), s₁) → Series e h rest s₁ s₂ →
      Series e h (p :: rest) s s₂

/-- Failing to patch a method: the host has no body to offer, the rules do not fit the body, or the host
    refuses the patched one. -/
inductive Failure (e : Engine) (h : Host σ) (target : Method) (rules : RuleSet) (s : σ) :
    Error → σ → Prop where
  | undecodable {fault : Error} : h.bodyOf s target = .error fault →
      Failure e h target rules s fault s
  | unpatched {former : Body} {fault : Error} : h.bodyOf s target = .ok former →
      (e.patch target rules former).outcome = .error fault → Failure e h target rules s fault s
  | refused {former patched : Body} {report : Report} {reason : String} {s' : σ} :
      h.bodyOf s target = .ok former →
      (e.patch target rules former).outcome = .ok (patched, report) →
      h.install s target patched = (.error reason, s') →
      Failure e h target rules s (.refused target reason) s'

/-- The patches that stand: each is one that the engine has made of the body that its method had before,
    its method has the patched body, and every other method has the body that it had before. -/
structure Stand (e : Engine) (before now : Method → Option Body) (ps : List Patch) : Prop where
  distinct : (ps.map target).Nodup
  made : ∀ p ∈ ps, p.Made e
  before_eq : ∀ p ∈ ps, before p.target = some p.former
  now_eq : ∀ p ∈ ps, now p.target = some p.patched
  others : ∀ t ∉ ps.map target, now t = before t

end Patch

/-- Installs the former bodies of some patches one after the other, past refusals: the patches that the
    host does not let be taken back, each with the reason. -/
def Host.takeBack {σ : Type} (h : Host σ) : List Patch → σ → List (Patch × String) × σ
  | [], s => ([], s)
  | p :: rest, s =>
    match h.install s p.target p.former with
    | (.ok (), s) => h.takeBack rest s
    | (.error reason, s) =>
      let (refused, s) := h.takeBack rest s
      ((p, reason) :: refused, s)

/-! ### What stands -/

namespace Patch.Stand

variable {e : Engine} {before now : Method → Option Body} {p : Patch} {ps qs : List Patch}

theorem nil : Stand e before before [] where
  distinct := List.nodup_nil
  made := by simp
  before_eq := by simp
  now_eq := by simp
  others := by simp

theorem perm (h : Stand e before now ps) (hp : ps.Perm qs) : Stand e before now qs where
  distinct := (hp.map _).nodup_iff.1 h.distinct
  made := fun p hm => h.made p (hp.mem_iff.2 hm)
  before_eq := fun p hm => h.before_eq p (hp.mem_iff.2 hm)
  now_eq := fun p hm => h.now_eq p (hp.mem_iff.2 hm)
  others := fun t ht => h.others t fun hm => ht ((hp.map _).mem_iff.1 hm)

/-- One more method is patched. -/
theorem cons (h : Stand e before now ps) (hp : p.Made e) (hnew : p.target ∉ ps.map target)
    (hb : now p.target = some p.former) :
    Stand e before (Function.update now p.target (some p.patched)) (p :: ps) where
  distinct := List.nodup_cons.2 ⟨hnew, h.distinct⟩
  made := by
    rintro q hq
    rcases List.mem_cons.1 hq with rfl | hq
    · exact hp
    · exact h.made q hq
  before_eq := by
    rintro q hq
    rcases List.mem_cons.1 hq with rfl | hq
    · rw [← h.others _ hnew, hb]
    · exact h.before_eq q hq
  now_eq := by
    rintro q hq
    rcases List.mem_cons.1 hq with rfl | hq
    · exact Function.update_self ..
    · have hne : q.target ≠ p.target := fun he => hnew (he ▸ List.mem_map_of_mem hq)
      rw [Function.update_of_ne hne, h.now_eq q hq]
  others := by
    intro t ht
    rw [List.map_cons, List.mem_cons, not_or] at ht
    rw [Function.update_of_ne ht.1, h.others t ht.2]

/-- One method is restored. -/
theorem uncons (h : Stand e before now (p :: ps)) :
    Stand e before (Function.update now p.target (some p.former)) ps := by
  have hnew : p.target ∉ ps.map target := (List.nodup_cons.1 h.distinct).1
  refine ⟨(List.nodup_cons.1 h.distinct).2, fun q hq => h.made q (List.mem_cons_of_mem _ hq),
    fun q hq => h.before_eq q (List.mem_cons_of_mem _ hq), ?_, ?_⟩
  · intro q hq
    have hne : q.target ≠ p.target := fun he => hnew (he ▸ List.mem_map_of_mem hq)
    rw [Function.update_of_ne hne, h.now_eq q (List.mem_cons_of_mem _ hq)]
  · intro t ht
    by_cases he : t = p.target
    · rw [he, Function.update_self, h.before_eq p List.mem_cons_self]
    · rw [Function.update_of_ne he]
      exact h.others t (by simp [he, ht])

end Patch.Stand

/-! ### Patching -/

section Patching

variable {σ : Type} {e : Engine} {h : Host σ} {s s₁ s₂ : σ} {target : Method} {rules : RuleSet}
  {fault : Error}

/-- A method is patched, or patching it fails. -/
theorem Patch.made_or_failure (e : Engine) (h : Host σ) (target : Method) (rules : RuleSet) (s : σ) :
    (∃ (p : Patch) (s₁ : σ), p.binding = (target, rules) ∧ h.bodyOf s p.target = .ok p.former ∧
        p.Made e ∧ h.install s p.target p.patched = (.ok (), s₁)) ∨
      ∃ fault s₁, Patch.Failure e h target rules s fault s₁ := by
  cases hb : h.bodyOf s target with
  | error fault => exact Or.inr ⟨fault, s, .undecodable hb⟩
  | ok former =>
    cases hp : (e.patch target rules former).outcome with
    | error fault => exact Or.inr ⟨fault, s, .unpatched hb hp⟩
    | ok made =>
      obtain ⟨patched, report⟩ := made
      match hi : h.install s target patched with
      | (.error reason, s₁) => exact Or.inr ⟨_, s₁, .refused hb hp hi⟩
      | (.ok (), s₁) =>
        exact Or.inl ⟨⟨target, rules, former, patched, report⟩, s₁, rfl, hb, hp, hi⟩

namespace Registration

theorem apply_of_made {p : Patch} (hb : h.bodyOf s p.target = .ok p.former) (hp : p.Made e)
    (hi : h.install s p.target p.patched = (.ok (), s₁)) :
    (apply e h ⟨p.target, p.rules, .registered, none, none⟩ s).value = (.ok p.registration, s₁) := by
  have hrun : (e.patch p.target p.rules p.former).run.value = .ok (p.patched, p.report) := hp
  simp only [apply, moveTo, Stage.canMoveTo, if_true, hb, Account.value_bind, hrun, Host.replace, hi]
  rfl

theorem apply_of_failure (hf : Patch.Failure e h target rules s fault s₁) :
    (apply e h ⟨target, rules, .registered, none, none⟩ s).value = (.error fault, s₁) := by
  cases hf with
  | undecodable hb =>
    simp only [apply, moveTo, Stage.canMoveTo, if_true, hb]
    rfl
  | unpatched hb hp =>
    have hrun : (e.patch target rules _).run.value = .error fault := hp
    simp only [apply, moveTo, Stage.canMoveTo, if_true, hb, Account.value_bind, hrun]
    rfl
  | refused hb hp hi =>
    have hrun : (e.patch target rules _).run.value = .ok _ := hp
    simp only [apply, moveTo, Stage.canMoveTo, if_true, hb, Account.value_bind, hrun, Host.replace,
      hi]
    rfl

end Registration

namespace Manager

/-- Methods that are patched without a failure come before whatever follows. -/
theorem applyEach_append {done : List Patch} (hd : Patch.Series e h done s s₁)
    (rest : List (Method × RuleSet)) :
    (applyEach e h (done.map Patch.binding ++ rest) s).value
      = ((applyEach e h rest s₁).value.1,
          done.map Patch.registration ++ (applyEach e h rest s₁).value.2.1,
          (applyEach e h rest s₁).value.2.2) := by
  induction hd with
  | nil s => rfl
  | cons hb hp hi _ ih =>
    have ha := Registration.apply_of_made hb hp hi
    simp only [List.map_cons, List.cons_append, Patch.binding, applyEach, Registration.start,
      Account.value_bind, ha]
    simp only [Account.value_pure] at ih ⊢
    rw [ih]

theorem applyEach_of_series {done : List Patch} (hd : Patch.Series e h done s s₁) :
    (applyEach e h (done.map Patch.binding) s).value
      = (none, done.map Patch.registration, s₁) := by
  have happ := applyEach_append hd []
  simp only [List.append_nil, applyEach, Account.value_pure] at happ
  exact happ

theorem applyEach_of_failure {done : List Patch} (hd : Patch.Series e h done s s₁)
    (hf : Patch.Failure e h target rules s₁ fault s₂) (after : List (Method × RuleSet)) :
    (applyEach e h (done.map Patch.binding ++ (target, rules) :: after) s).value
      = (some fault, done.map Patch.registration, s₂) := by
  have happ := applyEach_append hd ((target, rules) :: after)
  have ha := Registration.apply_of_failure hf
  simp only [applyEach, Registration.start, Account.value_bind, ha, Account.value_pure,
    List.append_nil] at happ
  exact happ

end Manager

/-- Some methods are all patched, or there is a first one at which that fails. -/
theorem Patch.series_or_failure (e : Engine) (h : Host σ) : ∀ (targets : List (Method × RuleSet))
    (s : σ), (∃ done s₁, targets = done.map binding ∧ Series e h done s s₁) ∨
      ∃ done target rules after s₁ fault s₂, targets = done.map binding ++ (target, rules) :: after ∧
        Series e h done s s₁ ∧ Failure e h target rules s₁ fault s₂
  | [], s => Or.inl ⟨[], s, rfl, .nil s⟩
  | (target, rules) :: rest, s => by
    rcases made_or_failure e h target rules s with ⟨p, s₁, hbind, hb, hp, hi⟩ | ⟨fault, s₁, hf⟩
    · rcases series_or_failure e h rest s₁ with
        ⟨done, s₂, rfl, hd⟩ | ⟨done, target', rules', after, s₂, fault, s₃, rfl, hd, hf⟩
      · exact Or.inl ⟨p :: done, s₂, by rw [List.map_cons, hbind], .cons hb hp hi hd⟩
      · exact Or.inr ⟨p :: done, target', rules', after, s₂, fault, s₃,
          by rw [List.map_cons, hbind]; rfl, .cons hb hp hi hd, hf⟩
    · exact Or.inr ⟨[], target, rules, rest, s, fault, s₁, rfl, .nil s, hf⟩

variable {body : σ → Method → Option Body} {before : Method → Option Body}

/-- Patching adds to what stands, if the methods are new. -/
theorem Patch.Series.stand {done kept : List Patch} (hd : Series e h done s s₁)
    (hh : h.Honest body) (hs : Stand e before (body s) kept)
    (hnew : ((done ++ kept).map Patch.target).Nodup) : Stand e before (body s₁) (done ++ kept) := by
  induction hd generalizing kept with
  | nil s => exact hs
  | @cons p rest s s₁ s₂ hb hp hi _ ih =>
    rw [List.cons_append, List.map_cons, List.nodup_cons] at hnew
    have hp' : Stand e before (body s₁) (p :: kept) := by
      rw [hh.accepted hi]
      refine hs.cons hp (fun hm => hnew.1 ?_) (hh.offered hb)
      rw [List.map_append]
      exact List.mem_append_right _ hm
    have hperm : (rest ++ p :: kept).Perm (p :: (rest ++ kept)) := List.perm_middle
    refine (ih hp' ?_).perm hperm
    exact (hperm.map _).nodup_iff.2 (List.nodup_cons.2 hnew)

/-- A failure to patch changes no body. -/
theorem Patch.Failure.body_eq (hf : Failure e h target rules s fault s₁) (hh : h.Honest body) :
    body s₁ = body s := by
  cases hf with
  | undecodable _ => rfl
  | unpatched _ _ => rfl
  | refused _ _ hi => exact hh.refused hi

end Patching

/-! ### Restoring -/

namespace Host

variable {σ : Type} {h : Host σ} {e : Engine} {body : σ → Method → Option Body}
  {before : Method → Option Body}

theorem takeBack_of_accepted {p : Patch} {rest : List Patch} {s s₁ : σ}
    (hi : h.install s p.target p.former = (.ok (), s₁)) :
    h.takeBack (p :: rest) s = h.takeBack rest s₁ := by
  rw [takeBack, hi]

theorem takeBack_of_refused {p : Patch} {rest : List Patch} {reason : String} {s s₁ : σ}
    (hi : h.install s p.target p.former = (.error reason, s₁)) :
    h.takeBack (p :: rest) s = ((p, reason) :: (h.takeBack rest s₁).1, (h.takeBack rest s₁).2) := by
  rw [takeBack, hi]

theorem takeBack_sublist : ∀ (ps : List Patch) (s : σ),
    ((h.takeBack ps s).1.map Prod.fst).Sublist ps
  | [], _ => .slnil
  | p :: rest, s => by
    match hi : h.install s p.target p.former with
    | (.ok (), s₁) =>
      rw [takeBack_of_accepted hi]
      exact (takeBack_sublist rest s₁).cons p
    | (.error reason, s₁) =>
      rw [takeBack_of_refused hi]
      exact (takeBack_sublist rest s₁).cons_cons p

/-- Of what stands, those patches still stand that the host does not let be taken back. -/
theorem takeBack_stand (hh : h.Honest body) : ∀ (ps kept : List Patch) (s : σ),
    Patch.Stand e before (body s) (ps ++ kept) →
      Patch.Stand e before (body (h.takeBack ps s).2) ((h.takeBack ps s).1.map Prod.fst ++ kept)
  | [], _, _, hs => hs
  | p :: rest, kept, s, hs => by
    match hi : h.install s p.target p.former with
    | (.ok (), s₁) =>
      rw [takeBack_of_accepted hi]
      refine takeBack_stand hh rest kept s₁ ?_
      rw [hh.accepted hi]
      exact hs.uncons
    | (.error reason, s₁) =>
      rw [takeBack_of_refused hi]
      have hs₁ : Patch.Stand e before (body s₁) (rest ++ p :: kept) := by
        rw [hh.refused hi]
        exact hs.perm List.perm_middle.symm
      exact (takeBack_stand hh rest (p :: kept) s₁ hs₁).perm List.perm_middle

/-- A host that refuses nothing lets every patch be taken back. -/
theorem takeBack_of_accepting (hall : h.Accepting) :
    ∀ (ps : List Patch) (s : σ), (h.takeBack ps s).1 = []
  | [], _ => rfl
  | p :: rest, s => by
    have hi : h.install s p.target p.former = (.ok (), (h.install s p.target p.former).2) :=
      Prod.ext (hall ..) rfl
    rw [takeBack_of_accepted hi]
    exact takeBack_of_accepting hall rest _

/-- Taking patches back offers the former body of each once, in their order. -/
theorem takeBack_record {record : σ → List (Method × Body)} (hrec : h.Recording record) :
    ∀ (ps : List Patch) (s : σ),
      record (h.takeBack ps s).2 = record s ++ ps.map Patch.original
  | [], s => (List.append_nil _).symm
  | p :: rest, s => by
    have hp : record (h.install s p.target p.former).2 = record s ++ [p.original] := hrec ..
    have hrest := takeBack_record hrec rest (h.install s p.target p.former).2
    rw [hp, List.append_assoc] at hrest
    match hi : h.install s p.target p.former with
    | (.ok (), s₁) =>
      rw [takeBack_of_accepted hi]
      rwa [hi] at hrest
    | (.error reason, s₁) =>
      rw [takeBack_of_refused hi]
      rwa [hi] at hrest

end Host

namespace Registration

variable {σ : Type} {h : Host σ} {p : Patch} {s s₁ : σ}

theorem revert_of_accepted (hi : h.install s p.target p.former = (.ok (), s₁)) :
    p.registration.revert h s
      = (.ok ⟨p.target, p.rules, .disposed, none, some p.report⟩, s₁) := by
  simp only [revert, Patch.registration, moveTo, Stage.canMoveTo, if_true, Host.replace, hi]
  rfl

theorem revert_of_refused {reason : String}
    (hi : h.install s p.target p.former = (.error reason, s₁)) :
    p.registration.revert h s = (.error (.refused p.target reason), s₁) := by
  simp only [revert, Patch.registration, moveTo, Stage.canMoveTo, if_true, Host.replace, hi]
  rfl

end Registration

/-- The error that a refusal leads to. -/
def Patch.refusal (r : Patch × String) : Error := .refused r.1.target r.2

namespace Manager

variable {σ : Type} {h : Host σ}

theorem revertEach_registration : ∀ (ps : List Patch) (s : σ),
    (revertEach h (ps.map Patch.registration) s).value
      = ((h.takeBack ps s).1.map Patch.refusal,
          (h.takeBack ps s).1.map fun r => r.1.registration, (h.takeBack ps s).2)
  | [], _ => rfl
  | p :: rest, s => by
    match hi : h.install s p.target p.former with
    | (.ok (), s₁) =>
      rw [Host.takeBack_of_accepted hi, ← revertEach_registration rest s₁]
      simp only [List.map_cons, revertEach, Registration.revert_of_accepted hi]
    | (.error reason, s₁) =>
      have ih := revertEach_registration rest s₁
      rw [Host.takeBack_of_refused hi]
      simp only [List.map_cons, revertEach, Registration.revert_of_refused hi, Account.value_bind, ih]
      rfl

end Manager

end Inversion
