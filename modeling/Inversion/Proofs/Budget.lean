import Mathlib.Data.List.Infix
import Inversion.Proofs.Step

/-!
What a budget of steps does to a run: it cuts the run off, and nothing else. A run that comes to its end
does so under every larger budget as well, and one that is cut off has begun like the run under a larger
budget. As a step makes one call at most, a run makes no more calls than its budget has steps.
-/

namespace Inversion

variable {σ : Type} {env : Environment σ} {b : Body} {args : List Value}

/-- The methods of the host never answer that a run has taken too many steps. -/
def Environment.Patient (env : Environment σ) : Prop :=
  ∀ s call limit, (env.call s call).result ≠ .error (.outOfSteps limit)

namespace Machine

variable {limit limit' : Nat}

/-- The calls that were made before stay, and no more are added than there are steps left. -/
theorem iterate_calls (env : Environment σ) (b : Body) (args : List Value) (limit : Nat) :
    ∀ (left : Nat) (m : Machine σ), ∃ made : List HostCall,
    (iterate (b.stepper env args) b limit left m).calls = m.calls.reverse ++ made ∧
      made.length ≤ left
  | left, m => by
    cases hi : b.get? m.index with
    | none =>
      rw [(Ends.off hi).iterate (Nat.zero_le left)]
      exact ⟨[], (List.append_nil _).symm, Nat.zero_le left⟩
    | some i =>
      cases left with
      | zero =>
        rw [iterate, hi]
        exact ⟨[], (List.append_nil _).symm, Nat.le_refl 0⟩
      | succ left =>
        have hone : 1 ≤ left + 1 := Nat.le_add_left 1 left
        cases ht : i.isTerminal with
        | true =>
          rw [(Ends.leave hi ht).iterate hone]
          exact ⟨[], (List.append_nil _).symm, Nat.zero_le _⟩
        | false =>
          obtain ⟨new, hnew, hlen⟩ := stepper_calls env b args m i
          cases hs : b.stepper env args m i with
          | halted e r =>
            rw [hs] at hnew
            rw [(Ends.halted hi ht hs).iterate hone]
            refine ⟨new.reverse, ?_, by rw [List.length_reverse]; omega⟩
            rw [← List.reverse_append, ← hnew]
            rfl
          | running m' =>
            rw [hs] at hnew
            obtain ⟨made, hmade, hrest⟩ := iterate_calls env b args limit left m'
            rw [iterate_of_running hi ht hs, hmade]
            refine ⟨new.reverse ++ made, ?_, ?_⟩
            · rw [← List.append_assoc, ← List.reverse_append, ← hnew]
              rfl
            · rw [List.length_append, List.length_reverse]
              omega

/-- With more steps left a run begins with the same calls. -/
theorem iterate_calls_prefix : ∀ {left left' : Nat}, left ≤ left' → ∀ m : Machine σ,
    (iterate (b.stepper env args) b limit left m).calls
      <+: (iterate (b.stepper env args) b limit' left' m).calls
  | left, left', hle, m => by
    cases hi : b.get? m.index with
    | none =>
      rw [(Ends.off hi).iterate (Nat.zero_le left), (Ends.off hi).iterate (Nat.zero_le left')]
    | some i =>
      cases left with
      | zero =>
        obtain ⟨made, hmade, -⟩ := iterate_calls env b args limit' left' m
        rw [hmade, iterate, hi]
        exact List.prefix_append _ _
      | succ left =>
        obtain ⟨left', rfl⟩ := Nat.exists_eq_add_of_le' (Nat.le_trans (Nat.le_add_left 1 left) hle)
        have hone : ∀ k, 1 ≤ k + 1 := Nat.le_add_left 1
        cases ht : i.isTerminal with
        | true =>
          rw [(Ends.leave hi ht).iterate (hone left), (Ends.leave hi ht).iterate (hone left')]
        | false =>
          cases hs : b.stepper env args m i with
          | halted e r =>
            rw [(Ends.halted hi ht hs).iterate (hone left),
              (Ends.halted hi ht hs).iterate (hone left')]
          | running m' =>
            rw [iterate_of_running hi ht hs, iterate_of_running hi ht hs]
            exact iterate_calls_prefix (Nat.le_of_succ_le_succ hle) m'

/-- A run that comes to its end is not out of steps, unless the host says so. -/
theorem Ends.ne_outOfSteps {m e : Machine σ} {n : Nat} {r : Except Error (Option Value)} {host : σ}
    (h : Ends (b.stepper env args) b m n e r) (hm : m.Follows env host) (henv : env.Patient)
    (limit : Nat) : r ≠ .error (.outOfSteps limit) := by
  rintro rfl
  rcases h.error_cases hm with ⟨i, -, hfails⟩ | ⟨i, -, call, before, -, -, hdenies⟩
  · cases hfails
  · generalize hanswer : (env.call (env.after host before.reverse) call).result = answer at hdenies
    cases hdenies
    exact henv _ call limit hanswer

end Machine

namespace Body

/-- A run makes no more calls than its budget has steps. Under a larger budget it begins with the same
    calls. If it is not out of steps it is the same run under every larger budget, and so, if the host
    does not claim to be out of steps itself, it is out of steps under every smaller budget than one that
    it exceeds. -/
theorem run_budgets (env : Environment σ) (b : Body) (args : List Value) (host : σ) :
    (∀ limit, (b.run env limit args host).calls.length ≤ limit) ∧
      ∀ n m, n ≤ m →
        (b.run env n args host).calls <+: (b.run env m args host).calls ∧
        ((b.run env n args host).result ≠ .error (.outOfSteps n) →
          b.run env m args host = b.run env n args host) ∧
        (env.Patient → (b.run env m args host).result = .error (.outOfSteps m) →
          (b.run env n args host).result = .error (.outOfSteps n)) := by
  refine ⟨fun limit => ?_, fun n m hle => ⟨?_, fun hn => ?_, fun henv hm => ?_⟩⟩
  · obtain ⟨made, hmade, hlen⟩ := Machine.iterate_calls env b args limit limit (.start host)
    rw [run_eq_iterate, hmade]
    exact hlen
  · rw [run_eq_iterate, run_eq_iterate]
    exact Machine.iterate_calls_prefix hle (.start host)
  · rcases b.run_ends_or_cutOff env n args host with ⟨k, e, r, hk, hend⟩ | ⟨-, hcut⟩
    · rw [run_of_ends hend hk, run_of_ends hend (Nat.le_trans hk hle)]
    · exact absurd hcut hn
  · rcases b.run_ends_or_cutOff env n args host with ⟨k, e, r, hk, hend⟩ | ⟨-, hcut⟩
    · rw [run_of_ends hend (Nat.le_trans hk hle)] at hm
      exact absurd hm (hend.ne_outOfSteps (Machine.start_follows env host) henv m)
    · exact hcut

/-- Asks the host whether to go on, until it says no. -/
def askingBody : Body :=
  ⟨[⟨⟨0⟩, .call, [.callee (.method "again" 0 true)]⟩,
    ⟨⟨1⟩, .branch, [.condition .ifTrue, .target ⟨0⟩]⟩, ⟨⟨2⟩, .other .leave, []⟩], 3⟩

/-- A host that says yes twice. -/
def yesTwice : Environment Nat :=
  ⟨fun _ => .normal, fun asked _ => ⟨asked + 1, .ok (some (.bool (asked < 2))), []⟩⟩

/-- The run takes seven steps. Six are not enough, as the last instruction counts as one, but lead to all
    of its calls. -/
theorem run_budgets_asking : (4 ≤ 6 ∧ 7 ≤ 20) ∧ yesTwice.Patient ∧
    (askingBody.run yesTwice 7 [] 0).result ≠ .error (.outOfSteps 7) ∧
    askingBody.run yesTwice 20 [] 0 = askingBody.run yesTwice 7 [] 0 ∧
    (askingBody.run yesTwice 6 [] 0).result = .error (.outOfSteps 6) ∧
    (askingBody.run yesTwice 4 [] 0).result = .error (.outOfSteps 4) ∧
    (askingBody.run yesTwice 4 [] 0).calls <+: (askingBody.run yesTwice 6 [] 0).calls ∧
    (askingBody.run yesTwice 4 [] 0).calls.length = 2 ∧
    (askingBody.run yesTwice 6 [] 0).calls.length = 3 := by
  have henv : yesTwice.Patient := fun _ _ _ => nofun
  have hseven : (askingBody.run yesTwice 7 [] 0).result ≠ .error (.outOfSteps 7) := by decide
  have hsix : (askingBody.run yesTwice 6 [] 0).result = .error (.outOfSteps 6) := by decide
  obtain ⟨-, hbudgets⟩ := run_budgets yesTwice askingBody [] 0
  obtain ⟨hcalls, -, hcut⟩ := hbudgets 4 6 (by decide)
  obtain ⟨-, hsame, -⟩ := hbudgets 7 20 (by decide)
  exact ⟨⟨by decide, by decide⟩, henv, hseven, hsame hseven, hsix, hcut henv hsix, hcalls, rfl, rfl⟩

end Body

end Inversion
