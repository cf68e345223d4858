import Inversion.Evaluation

/-!
Comparing runs. A run repeats a step, and here the step is a parameter, so that two runs can be
compared by what their steps do at each machine: in lockstep over two bodies, step by step with
results that may differ where both end, or up to the point where one of them fails.
-/

namespace Inversion

variable {σ : Type}

/-! ### Runs that end alike -/

/-- Two steps that lead to the same machine, or both end there with related results. -/
inductive Progress.Alike (R : Except Error (Option Value) → Except Error (Option Value) → Prop) :
    Progress σ → Progress σ → Prop where
  | running (m : Machine σ) : Alike R (.running m) (.running m)
  | halted (m : Machine σ) {x y : Except Error (Option Value)} : R x y →
      Alike R (.halted m x) (.halted m y)

theorem Progress.Alike.refl {R : Except Error (Option Value) → Except Error (Option Value) → Prop}
    (hrefl : ∀ x, R x x) : ∀ p : Progress σ, p.Alike R p
  | .running m => .running m
  | .halted m x => .halted m (hrefl x)

/-- Two runs with the same steps, calls and host, and with related results. -/
structure Run.Alike (R : Except Error (Option Value) → Except Error (Option Value) → Prop)
    (r r' : Run σ) : Prop where
  steps : r.steps = r'.steps
  calls : r.calls = r'.calls
  host : r.host = r'.host
  result : R r.result r'.result

theorem Run.Alike.eq {R : Except Error (Option Value) → Except Error (Option Value) → Prop}
    {r r' : Run σ} (h : r.Alike R r') (hresult : r.result = r'.result) : r = r' := by
  obtain ⟨result, steps, calls, host⟩ := r
  obtain ⟨hsteps, hcalls, hhost, -⟩ := h
  cases hresult
  cases hsteps
  cases hcalls
  cases hhost
  rfl

namespace Machine

variable {R : Except Error (Option Value) → Except Error (Option Value) → Prop}
  {step step' : Machine σ → Instruction → Progress σ} {b b' : Body} {limit : Nat}

theorem finish_alike (m : Machine σ) {x y : Except Error (Option Value)} (h : R x y) :
    (m.finish x).Alike R (m.finish y) := ⟨rfl, rfl, rfl, h⟩

/-! ### Runs with a given step -/

/-- The run after a step, if one is given for the machine that it leads to. -/
def proceed (rest : Machine σ → Run σ) : Progress σ → Run σ
  | .running m => rest m
  | .halted m result => m.finish result

/-- Goes on for as many steps as are left, as a run does, with a given step. -/
def iterate (step : Machine σ → Instruction → Progress σ) (b : Body) (limit : Nat) :
    Nat → Machine σ → Run σ
  | left, m =>
    match b.get? m.index with
    | none => m.finish (.ok m.stack.head?)
    | some i =>
      match left with
      | 0 => { m with steps := m.steps + 1 }.finish (.error (.outOfSteps limit))
      | left + 1 =>
        if i.isTerminal then { m with steps := m.steps + 1 }.finish (.ok m.stack.head?)
        else proceed (iterate step b limit left) (step m i)

/-- The instructions that are carried out, each with the machine in front of it. -/
def history (step : Machine σ → Instruction → Progress σ) (b : Body) :
    Nat → Machine σ → List (Machine σ × Instruction)
  | 0, _ => []
  | left + 1, m =>
    match b.get? m.index with
    | none => []
    | some i =>
      if i.isTerminal then []
      else
        (m, i) :: match step m i with
          | .running m => history step b left m
          | .halted .. => []

theorem runFor_eq_iterate (arithmetic : Arithmetic) (env : Environment σ) (b : Body)
    (args : List Value) (limit : Nat) : ∀ (left : Nat) (m : Machine σ),
    runFor arithmetic env b args limit left m
      = iterate (fun m i => (m.step arithmetic env b args i).1) b limit left m
  | left, m => by
    unfold runFor iterate
    cases b.get? m.index with
    | none => rfl
    | some i =>
      cases left with
      | zero => rfl
      | succ left =>
        dsimp only
        rw [← funext fun m => runFor_eq_iterate arithmetic env b args limit left m]
        split
        · rfl
        · cases (m.step arithmetic env b args i).1 <;> rfl

theorem history_mem : ∀ {left : Nat} {m : Machine σ} {e : Machine σ × Instruction},
    e ∈ history step b left m → e.2 ∈ b.instructions
  | left + 1, m, e, h => by
    unfold history at h
    split at h
    · cases h
    · rename_i i hi
      split at h
      · cases h
      · rcases List.mem_cons.1 h with rfl | h
        · exact List.mem_of_getElem? hi
        · split at h
          · exact history_mem h
          · cases h

theorem history_succ {m : Machine σ} {i : Instruction} (hi : b.get? m.index = some i)
    (ht : ¬i.isTerminal) (left : Nat) : history step b (left + 1) m
      = (m, i) :: match step m i with
        | .running m => history step b left m
        | .halted .. => [] := by
  rw [history, hi]
  exact if_neg ht

/-! ### Comparisons -/

theorem proceed_alike {rest rest' : Machine σ → Run σ} {p p' : Progress σ} (h : p.Alike R p')
    (hrest : ∀ m, p = .running m → (rest m).Alike R (rest' m)) :
    (proceed rest p).Alike R (proceed rest' p') := by
  cases h with
  | running m => exact hrest m rfl
  | halted m hr => exact finish_alike m hr

/-- Two bodies, the one made from the other instruction by instruction, with steps that agree. -/
theorem iterate_lockstep {f : Instruction → Instruction} (hget : ∀ k, b'.get? k = (b.get? k).map f)
    (hend : ∀ i ∈ b.instructions, (f i).isTerminal = i.isTerminal)
    (hstep : ∀ m, ∀ i ∈ b.instructions, step' m (f i) = step m i) :
    ∀ (left : Nat) (m : Machine σ), iterate step' b' limit left m = iterate step b limit left m
  | left, m => by
    unfold iterate
    rw [hget]
    cases hi : b.get? m.index with
    | none => rfl
    | some i =>
      have hm : i ∈ b.instructions := List.mem_of_getElem? hi
      cases left with
      | zero => rfl
      | succ left =>
        simp only [Option.map_some, hend i hm, hstep m i hm]
        rw [funext fun m => iterate_lockstep hget hend hstep left m]

/-- Steps that are alike wherever a run comes make runs that are alike. -/
theorem iterate_alike (hrefl : ∀ x, R x x) : ∀ {left : Nat} {m : Machine σ},
    (∀ e ∈ history step b left m, (step e.1 e.2).Alike R (step' e.1 e.2)) →
    (iterate step b limit left m).Alike R (iterate step' b limit left m)
  | left, m, h => by
    unfold iterate
    cases hi : b.get? m.index with
    | none => exact finish_alike m (hrefl _)
    | some i =>
      cases left with
      | zero => exact finish_alike _ (hrefl _)
      | succ left =>
        dsimp only
        split
        · exact finish_alike _ (hrefl _)
        · rename_i ht
          rw [history_succ hi ht] at h
          refine proceed_alike (h _ List.mem_cons_self) fun m' hm =>
            iterate_alike hrefl fun e he => h e (List.mem_cons_of_mem _ ?_)
          rw [hm]
          exact he

/-- Steps that agree unless the second one fails make the same run, unless the second one fails. -/
theorem iterate_eq_or_error (hstep : ∀ m, ∀ i ∈ b.instructions,
      step' m i = step m i ∨ ∃ m' e, step' m i = .halted m' (.error e)) :
    ∀ (left : Nat) (m : Machine σ), iterate step' b limit left m = iterate step b limit left m ∨
      ∃ e, (iterate step' b limit left m).result = .error e
  | left, m => by
    unfold iterate
    cases hi : b.get? m.index with
    | none => exact Or.inl rfl
    | some i =>
      cases left with
      | zero => exact Or.inl rfl
      | succ left =>
        dsimp only
        split
        · exact Or.inl rfl
        · rcases hstep m i (List.mem_of_getElem? hi) with heq | ⟨m', e, he⟩
          · rw [heq]
            cases step m i with
            | running m => exact iterate_eq_or_error hstep left m
            | halted m result => exact Or.inl rfl
          · rw [he]
            exact Or.inr ⟨e, rfl⟩

end Machine

end Inversion
