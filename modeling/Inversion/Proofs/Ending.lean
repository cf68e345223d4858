import Inversion.Proofs.Run

/-!
How runs end. A budget of steps lets a run come to its end or cuts it off, and what a run comes to does
not depend on the budget that lets it. So ends are described without a budget, by the steps that lead
to them, and a run within its budget is such an end.
-/

namespace Inversion

variable {σ : Type}

/-- The run has not been cut off by its budget. One that is cut off has begun one step too many. -/
def Run.Within (limit : Nat) (r : Run σ) : Prop := r.steps ≤ limit

instance (limit : Nat) (r : Run σ) : Decidable (r.Within limit) :=
  inferInstanceAs (Decidable (_ ≤ _))

/-- Two runs that come to the same, after however many steps. -/
structure Run.Matches (r r' : Run σ) : Prop where
  result : r.result = r'.result
  calls : r.calls = r'.calls
  host : r.host = r'.host

/-- The machine that a step leaves. -/
def Progress.machine : Progress σ → Machine σ
  | .running m => m
  | .halted m _ => m

namespace Machine

/-- From one machine a run comes to another in so many steps. -/
inductive Reaches (step : Machine σ → Instruction → Progress σ) (b : Body) :
    Machine σ → Nat → Machine σ → Prop where
  | here (m : Machine σ) : Reaches step b m 0 m
  | next {m m' m'' : Machine σ} {i : Instruction} {n : Nat} : b.get? m.index = some i →
      i.isTerminal = false → step m i = .running m' → Reaches step b m' n m'' →
      Reaches step b m (n + 1) m''

/-- From one machine a run ends after so many steps with another machine and a result. -/
inductive Ends (step : Machine σ → Instruction → Progress σ) (b : Body) :
    Machine σ → Nat → Machine σ → Except Error (Option Value) → Prop where
  /-- The end of the body. -/
  | off {m : Machine σ} : b.get? m.index = none → Ends step b m 0 m (.ok m.stack.head?)
  /-- An instruction that ends the body. -/
  | leave {m : Machine σ} {i : Instruction} : b.get? m.index = some i → i.isTerminal = true →
      Ends step b m 1 { m with steps := m.steps + 1 } (.ok m.stack.head?)
  | halted {m e : Machine σ} {i : Instruction} {r : Except Error (Option Value)} :
      b.get? m.index = some i → i.isTerminal = false → step m i = .halted e r → Ends step b m 1 e r
  | running {m m' e : Machine σ} {i : Instruction} {n : Nat} {r : Except Error (Option Value)} :
      b.get? m.index = some i → i.isTerminal = false → step m i = .running m' →
      Ends step b m' n e r → Ends step b m (n + 1) e r

variable {step : Machine σ → Instruction → Progress σ} {b : Body} {m m' m'' e : Machine σ}
  {n k left limit : Nat} {r : Except Error (Option Value)}

theorem Reaches.ends (h : Reaches step b m n m') (he : Ends step b m' k e r) :
    Ends step b m (k + n) e r := by
  induction h with
  | here => exact he
  | next hi ht hs _ ih => exact .running hi ht hs (ih he)

theorem iterate_of_running {i : Instruction} (hi : b.get? m.index = some i)
    (ht : i.isTerminal = false) (hs : step m i = .running m') (left limit : Nat) :
    iterate step b limit (left + 1) m = iterate step b limit left m' := by
  rw [iterate, hi]
  simp only [ht, Bool.false_eq_true, if_false, hs]
  rfl

/-- A budget that is large enough lets a run come to its end. -/
theorem Ends.iterate (h : Ends step b m n e r) (hn : n ≤ left) :
    iterate step b limit left m = e.finish r := by
  induction h generalizing left with
  | off hi => rw [Machine.iterate, hi]
  | leave hi ht =>
    obtain ⟨left, rfl⟩ := Nat.exists_eq_add_of_le' hn
    rw [Machine.iterate, hi]
    exact if_pos ht
  | halted hi ht hs =>
    obtain ⟨left, rfl⟩ := Nat.exists_eq_add_of_le' hn
    rw [Machine.iterate, hi]
    simp only [ht, Bool.false_eq_true, if_false, hs]
    rfl
  | running hi ht hs _ ih =>
    obtain ⟨left, rfl⟩ := Nat.exists_eq_add_of_le' (Nat.le_trans (Nat.le_add_left 1 _) hn)
    rw [iterate_of_running hi ht hs]
    exact ih (Nat.le_of_succ_le_succ hn)

/-- A run comes to its end within its budget, or is cut off and says so. -/
theorem ends_or_cutOff (hcount : ∀ m i, (step m i).machine.steps = m.steps + 1) :
    ∀ {left : Nat} {m : Machine σ}, m.steps + left = limit →
    (∃ n e r, n ≤ left ∧ Ends step b m n e r) ∨
      (limit < (iterate step b limit left m).steps ∧
        (iterate step b limit left m).result = .error (.outOfSteps limit))
  | left, m, hm => by
    cases hi : b.get? m.index with
    | none => exact Or.inl ⟨0, m, _, Nat.zero_le _, .off hi⟩
    | some i =>
      cases left with
      | zero =>
        rw [iterate, hi]
        exact Or.inr ⟨Nat.lt_succ_of_le (Nat.le_of_eq hm.symm), rfl⟩
      | succ left =>
        have hone : 1 ≤ left + 1 := Nat.le_add_left 1 left
        cases ht : i.isTerminal with
        | true => exact Or.inl ⟨1, _, _, hone, .leave hi ht⟩
        | false =>
          have hsteps := hcount m i
          cases hs : step m i with
          | halted e r => exact Or.inl ⟨1, e, r, hone, .halted hi ht hs⟩
          | running m' =>
            rw [hs] at hsteps
            have hm' : m'.steps = m.steps + 1 := hsteps
            rw [iterate_of_running hi ht hs]
            refine (ends_or_cutOff hcount (by omega)).imp_left ?_
            rintro ⟨n, e, r, hn, he⟩
            exact ⟨n + 1, e, r, Nat.succ_le_succ hn, .running hi ht hs he⟩

end Machine

end Inversion
