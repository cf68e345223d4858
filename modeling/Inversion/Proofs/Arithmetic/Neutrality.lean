import Inversion.Proofs.Arithmetic.Simulation

/-!
Under normal gravity the arithmetic rule set changes nothing as long as a body computes with what
the transforms take. The opcodes take more, integers and floats where a transform wants vectors: a
patched body that has a result has the one of the given body, and the given body may have one of its
own where it adds and subtracts anything else.
-/

namespace Inversion

/-! ### One computation -/

/-- What a transform computes under normal gravity is what its opcode computes. -/
theorem Opcode.compute_of_transform {op : Opcode} {t : Transform} {args : List Value} {v : Value}
    (ht : op.transform? = some t) (h : t.compute .normal args = .ok v) :
    op.compute args = .ok v := by
  unfold Transform.compute at h
  split at h
  · split at h <;> cases h <;> cases op <;> cases ht <;> rfl
  · cases h

/-- What an opcode computes its transform computes under normal gravity, if an addition or a
    subtraction is one of vectors. -/
theorem Transform.compute_of_opcode {op : Opcode} {t : Transform} {args : List Value} {v : Value}
    (ht : op.transform? = some t)
    (hvec : op = .add ∨ op = .subtract → ∃ a b, args = [.vector a, .vector b])
    (h : op.compute args = .ok v) : t.compute .normal args = .ok v := by
  unfold Opcode.compute at h
  split at h <;> cases h <;> cases ht
  any_goals rfl
  -- what is left are additions and subtractions of other operands
  all_goals
    obtain ⟨_, _, hab⟩ := hvec (by simp)
    cases hab

theorem Transform.compute_ne_outOfSteps {t : Transform} {g : Orientation} {args : List Value}
    {k : Nat} : t.compute g args ≠ .error (.outOfSteps k) := by
  have hop : ∀ (t : Transform) (args : List Value), t.operandError args ≠ .outOfSteps k := by
    intro t args
    unfold Transform.operandError
    split <;> nofun
  intro h
  unfold Transform.compute at h
  split at h
  · split at h <;> first | exact hop _ _ (Except.error.inj h) | cases h
  · cases h

/-! ### One step -/

/-- The same result, or failures that have nothing to do with the number of steps. -/
def FailTogether (x y : Except Error (Option Value)) : Prop :=
  x = y ∨ ∃ e e', x = .error e ∧ y = .error e' ∧ ∀ k, e ≠ .outOfSteps k ∧ e' ≠ .outOfSteps k

namespace Machine

variable {σ : Type} {m : Machine σ} {env : Environment σ} {b : Body} {args : List Value}
  {i : Instruction} {name : Label → Label}

/-- The two values on top of the stack are vectors. -/
def HasVectors (m : Machine σ) : Prop := (m.stack.take 2).map Value.kind = [.vector, .vector]

instance : Decidable m.HasVectors := inferInstanceAs (Decidable (_ = _))

theorem HasVectors.stack_eq (h : m.HasVectors) :
    ∃ x y rest, m.stack = .vector y :: .vector x :: rest := by
  have hkind : ∀ {v : Value}, v.kind = .vector → ∃ x, v = .vector x := by
    intro v hv
    cases v with
    | vector x => exact ⟨x, rfl⟩
    | int _ | float _ | bool _ => cases hv
  unfold HasVectors at h
  match hs : m.stack, h with
  | v :: w :: rest, h =>
    simp only [List.take_succ_cons, List.take_zero, List.map_cons, List.map_nil, List.cons.injEq,
      and_true] at h
    obtain ⟨y, rfl⟩ := hkind h.1
    obtain ⟨x, rfl⟩ := hkind h.2
    exact ⟨x, y, rest, rfl⟩
  | [_], h => simp at h
  | [], h => simp at h

theorem HasVectors.take_two (h : m.HasVectors) :
    ∃ x y rest, m.take 2 = .ok ([.vector x, .vector y], rest) := by
  obtain ⟨x, y, rest, hs⟩ := h.stack_eq
  refine ⟨x, y, { m with stack := rest }, ?_⟩
  unfold take
  rw [if_neg (by rw [hs]; simp), hs]
  rfl

/-- A step with transforms under normal gravity is the plain one, unless it fails. -/
theorem step_normal (hg : ∀ s, env.orientation s = .normal) (m : Machine σ) (i : Instruction) :
    (m.step .transformed env b args (i.reportedAs name)).1 = (m.step .plain env b args i).1 ∨
      ∃ m' e, (m.step .transformed env b args (i.reportedAs name)).1 = .halted m' (.error e) := by
  cases ho : i.op.transform? with
  | none =>
    rw [Instruction.reportedAs_of_transform?_eq_none ho]
    exact Or.inl (congrArg Prod.fst (step_congr .transformed .plain ho fun _ => rfl))
  | some t =>
    rw [Instruction.reportedAs_of_transform? ho, step_of_transform? .plain b ho,
      step_of_transform? (i := { i with label := name i.label }) .transformed b ho,
      Arithmetic.transformed_eq ho, hg]
    cases htake : take { m with steps := m.steps + 1 } t.arity with
    | error fault =>
      rw [operate_of_underflow htake]
      exact Or.inr ⟨_, _, rfl⟩
    | ok r =>
      obtain ⟨operands, rest⟩ := r
      rw [operate_of_take htake, operate_of_take htake]
      cases hv : t.compute .normal operands with
      | error e => exact Or.inr ⟨_, e, rfl⟩
      | ok v =>
        rw [Arithmetic.plain, Opcode.compute_of_transform ho hv]
        exact Or.inl rfl

/-- The plain step and the one with transforms under normal gravity are alike, if vectors are added
    and subtracted. -/
theorem step_alike (hg : ∀ s, env.orientation s = .normal)
    (hvec : i.op = .add ∨ i.op = .subtract → m.HasVectors) :
    (m.step .plain env b args i).1.Alike FailTogether
      (m.step .transformed env b args (i.reportedAs name)).1 := by
  cases ho : i.op.transform? with
  | none =>
    rw [Instruction.reportedAs_of_transform?_eq_none ho,
      step_congr .transformed .plain ho fun _ => rfl]
    exact .refl (fun _ => Or.inl rfl) _
  | some t =>
    rw [Instruction.reportedAs_of_transform? ho, step_of_transform? .plain b ho,
      step_of_transform? (i := { i with label := name i.label }) .transformed b ho,
      Arithmetic.transformed_eq ho, hg]
    cases htake : take { m with steps := m.steps + 1 } t.arity with
    | error fault =>
      rw [operate_of_underflow htake, operate_of_underflow htake]
      exact .halted _ (Or.inr ⟨_, _, rfl, rfl, fun k => ⟨nofun, nofun⟩⟩)
    | ok r =>
      obtain ⟨operands, rest⟩ := r
      have hoperands : i.op = .add ∨ i.op = .subtract →
          ∃ x y, operands = [.vector x, .vector y] := by
        intro hop
        obtain ⟨x, y, below, htwo⟩ := HasVectors.take_two (m := { m with steps := m.steps + 1 })
          (hvec hop)
        have harity : t.arity = 2 := by
          rcases hop with hop | hop <;> rw [hop] at ho <;> cases ho <;> rfl
        rw [harity, htwo] at htake
        cases htake
        exact ⟨x, y, rfl⟩
      rw [operate_of_take htake, operate_of_take htake, Arithmetic.plain]
      cases hv : i.op.compute operands with
      | ok v =>
        rw [Transform.compute_of_opcode ho hoperands hv]
        exact .running _
      | error fault =>
        cases hw : t.compute .normal operands with
        | ok v =>
          rw [Opcode.compute_of_transform ho hw] at hv
          cases hv
        | error e =>
          exact .halted _ (Or.inr ⟨_, _, rfl, rfl, fun k =>
            ⟨nofun, fun he => Transform.compute_ne_outOfSteps (he ▸ hw)⟩⟩)

end Machine

/-! ### Runs -/

/-- In a run of the body every addition and every subtraction finds two vectors on the stack. -/
def Body.AddsVectors {σ : Type} (env : Environment σ) (limit : Nat) (b : Body) (args : List Value)
    (host : σ) : Prop :=
  ∀ e ∈ Machine.history (fun m i => (m.step .plain env b args i).1) b limit (.start host),
    e.2.op = .add ∨ e.2.op = .subtract → e.1.HasVectors

namespace Body

variable {σ : Type} {env : Environment σ} {limit : Nat} {b : Body} {args : List Value} {host : σ}

/-- With transforms a body runs under normal gravity as it is, unless it fails. -/
theorem runReporting_eq_or_error (hg : ∀ s, env.orientation s = .normal) (name : Label → Label) :
    b.runReporting name .transformed env limit args host = b.run env limit args host ∨
      ∃ e, (b.runReporting name .transformed env limit args host).result = .error e := by
  unfold runReporting run runWith
  rw [Machine.runFor_eq_iterate]
  exact Machine.iterate_eq_or_error (fun m i _ => Machine.step_normal hg m i) limit (.start host)

theorem AddsVectors.run_alike (hvec : b.AddsVectors env limit args host)
    (hg : ∀ s, env.orientation s = .normal) (name : Label → Label) :
    (b.run env limit args host).Alike FailTogether
      (b.runReporting name .transformed env limit args host) := by
  unfold runReporting run runWith
  rw [Machine.runFor_eq_iterate]
  exact Machine.iterate_alike (fun _ => Or.inl rfl) fun e he => Machine.step_alike hg (hvec e he)

end Body

instance {σ : Type} (env : Environment σ) (limit : Nat) (b : Body) (args : List Value) (host : σ) :
    Decidable (b.AddsVectors env limit args host) :=
  inferInstanceAs (Decidable (∀ e ∈ Machine.history _ _ _ _, _ → e.1.HasVectors))

namespace Engine

/-- A valid body patched with the arithmetic rule set, under normal gravity. If the patched body has
    a result, the given body runs the same way. If the given body adds and subtracts vectors only, then
    the patched body runs the same way when the given one has a result, and the one runs out of steps
    exactly if the other does. -/
theorem patch_neutral {engine : Engine} {target : Method} {rules : String} {b p : Body}
    {report : Report} (hb : b.Numbered) (hv : b.validate = .ok ())
    (h : (engine.patch target (RuleSet.arithmetic rules) b).outcome = .ok (p, report))
    {σ : Type} (env : Environment σ) (hg : ∀ s, env.orientation s = .normal) (limit : Nat)
    (args : List Value) (host : σ) :
    (∀ v, (p.run env limit args host).result = .ok v →
        b.run env limit args host = p.run env limit args host) ∧
      (b.AddsVectors env limit args host →
        (∀ v, (b.run env limit args host).result = .ok v →
          p.run env limit args host = b.run env limit args host) ∧
        ∀ k, (p.run env limit args host).result = .error (.outOfSteps k) ↔
          (b.run env limit args host).result = .error (.outOfSteps k)) := by
  have hs := hb.sound hv
  obtain ⟨name, hf, hmoved⟩ := patch_follows hs h
  rw [hf.run hs hmoved]
  refine ⟨fun v hok => ?_, fun hvec => ?_⟩
  · rcases Body.runReporting_eq_or_error hg name with heq | ⟨e, he⟩
    · exact heq.symm
    · rw [he] at hok
      cases hok
  · have halike := hvec.run_alike hg name
    rcases halike.result with heq | ⟨e, e', he, he', hne⟩
    · rw [halike.eq heq]
      exact ⟨fun _ _ => rfl, fun _ => Iff.rfl⟩
    · rw [he, he']
      refine ⟨fun v hv => (nomatch hv), fun k => ⟨fun hk => ?_, fun hk => ?_⟩⟩
      · exact absurd (Except.error.inj hk) (hne k).2
      · exact absurd (Except.error.inj hk) (hne k).1

/-- Surroundings under normal gravity in which the first call alone says yes. -/
def onceMore : Environment Nat :=
  ⟨fun _ => .normal, fun calls _ => ⟨calls + 1, .ok (some (.bool (calls = 0))), []⟩⟩

/-- The vector one to the right. -/
def rightward : Vec2 := ⟨.one false, .zero false⟩

theorem patch_neutral_loop : ∃ report, loopBody.Numbered ∧ loopBody.validate = .ok () ∧
    ((⟨true⟩ : Engine).patch ⟨"Player", "Fall"⟩ (RuleSet.arithmetic "fall") loopBody).outcome
      = .ok (loopPatched, report) ∧
    (∀ calls, onceMore.orientation calls = .normal) ∧
    loopBody.AddsVectors onceMore 20 [.vector rightward, .vector rightward] 0 ∧
    (loopBody.run onceMore 20 [.vector rightward, .vector rightward] 0).result
      = .ok (some (.vector ((rightward.add rightward).add rightward))) ∧
    loopPatched.run onceMore 20 [.vector rightward, .vector rightward] 0
      = loopBody.run onceMore 20 [.vector rightward, .vector rightward] 0 := by
  obtain ⟨report, h⟩ := loop_patch
  have hb : loopBody.Numbered := ⟨by decide, by decide⟩
  have hv : loopBody.validate = .ok () := by decide
  have hg : ∀ calls, onceMore.orientation calls = .normal := fun _ => rfl
  have hvec : loopBody.AddsVectors onceMore 20 [.vector rightward, .vector rightward] 0 := by decide
  have hrun : (loopBody.run onceMore 20 [.vector rightward, .vector rightward] 0).result
      = .ok (some (.vector ((rightward.add rightward).add rightward))) := rfl
  obtain ⟨-, hneutral⟩ :=
    patch_neutral hb hv h onceMore hg 20 [.vector rightward, .vector rightward] 0
  exact ⟨report, hb, hv, h, hg, hvec, hrun, (hneutral hvec).1 _ hrun⟩

end Engine

end Inversion
