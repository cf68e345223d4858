import Mathlib.Data.Finset.Sort
import Mathlib.Order.Interval.Finset.Nat
import Inversion.Proofs.Greedy

/-!
How many matches there is room for. The search for all matches comes to an end, since every pass goes on
behind a window that holds an instruction. The windows that it finds do not overlap, every match
begins inside one of them, and no set of matches whose windows do not overlap is larger.
-/

namespace Inversion

namespace Pattern

variable {p : Pattern} {instructions : List Instruction} {found : List Nat} {start i j : Nat}

/-! ### Passes of the search -/

/-- What the search for all matches has found after some passes, and where it goes on. -/
inductive Gathers (p : Pattern) (instructions : List Instruction) : List Nat → Nat → Prop where
  | nothing : Gathers p instructions [] 0
  | pass {found : List Nat} {start i : Nat} : Gathers p instructions found start →
      p.findNext instructions start .forward = some i →
      Gathers p instructions (found ++ [i]) (i + p.length)

namespace Gathers

/-- Every pass takes the search at least one place further, and never out of the instructions. -/
theorem length_le (h : p.Gathers instructions found start) :
    found.length ≤ start ∧ start ≤ instructions.length := by
  induction h with
  | nothing => exact ⟨Nat.le_refl 0, Nat.zero_le _⟩
  | @pass found start i _ hnext ih =>
    obtain ⟨hwidth, hstart, hinside⟩ := findNext_forward_bounds hnext
    rw [List.length_append, List.length_singleton]
    omega

/-- What is still to be found is what a search from where it goes on finds. -/
theorem findAll_eq (h : p.Gathers instructions found start) :
    p.findAll instructions = found ++ p.findAllFrom instructions start := by
  induction h with
  | nothing => rfl
  | pass _ hnext ih => rw [ih, findAllFrom_of_some hnext, List.append_assoc, List.singleton_append]

/-- From any pass on the search comes to its end. -/
theorem exists_end (h : p.Gathers instructions found start) :
    ∃ stop, p.Gathers instructions (found ++ p.findAllFrom instructions start) stop ∧
      p.findNext instructions stop .forward = none := by
  induction start using findAllFrom.induct p instructions generalizing found with
  | case1 start hnone =>
    rw [findAllFrom_of_none hnone, List.append_nil]
    exact ⟨start, h, hnone⟩
  | case2 start i hsome ih =>
    rw [findAllFrom_of_some hsome, ← List.singleton_append, ← List.append_assoc]
    exact ih (h.pass hsome)

end Gathers

/-! ### Room for windows -/

/-- The places that the window at an index covers. -/
def covered (p : Pattern) (index : Nat) : Finset Nat := Finset.Ico index (index + p.length)

/-- Of two windows that do not overlap one ends where the other begins, or before. -/
theorem le_of_disjoint_covered (hwidth : 0 < p.length) (hlt : i < j)
    (h : Disjoint (p.covered i) (p.covered j)) : i + p.length ≤ j := by
  by_contra hover
  have hi : j ∈ p.covered i := Finset.mem_Ico.2 ⟨hlt.le, Nat.lt_of_not_le hover⟩
  have hj : j ∈ p.covered j := Finset.mem_Ico.2 ⟨Nat.le_refl j, by omega⟩
  exact Finset.disjoint_left.1 h hi hj

/-- A set of matches whose windows do not overlap, in order. -/
theorem sort_pairwise {places : Finset Nat}
    (hdisjoint : (places : Set Nat).PairwiseDisjoint p.covered)
    (hmatch : ∀ i ∈ places, p.matchesAt instructions i = true) :
    places.sort.Pairwise fun i j => i + p.length ≤ j := by
  refine places.sortedLT_sort.pairwise.imp_of_mem fun {i j} hi hj hlt => ?_
  rw [Finset.mem_sort] at hi hj
  exact le_of_disjoint_covered (matchesAt_bounds (hmatch i hi)).1 hlt (hdisjoint hi hj hlt.ne)

/-- Every match begins inside a window that has been found. -/
theorem exists_found_window (h : p.matchesAt instructions i = true) :
    ∃ j ∈ p.findAll instructions, j ≤ i ∧ i < j + p.length := by
  obtain ⟨j, hj, hover, hahead⟩ := (p.findAllFrom_greedy instructions 0).exists_ahead ⟨Nat.zero_le i, h⟩
  have hle : j + p.length ≤ i + p.length := hahead (i + p.length) (Nat.le_refl _)
  exact ⟨j, hj, by omega, by omega⟩

/-- The search for all matches comes to an end: every pass adds one match, and there are no more passes
    than instructions. What it finds are matches whose windows do not overlap, in ascending order; every
    match begins inside one of these windows, and no set of matches whose windows do not overlap has
    more elements. -/
theorem findAll_maximum (p : Pattern) (instructions : List Instruction) :
    let all := p.findAll instructions
    (∀ found start, p.Gathers instructions found start →
      found <+: all ∧ found.length ≤ instructions.length) ∧
    (∃ stop, p.Gathers instructions all stop ∧ p.findNext instructions stop .forward = none) ∧
    all.SortedLT ∧ (all.Pairwise fun i j => i + p.length ≤ j) ∧
    (∀ i ∈ all, p.matchesAt instructions i = true) ∧
    (∀ i, p.matchesAt instructions i = true → ∃ j ∈ all, j ≤ i ∧ i ≤ j + (p.length - 1)) ∧
    (∀ places : Finset Nat, (places : Set Nat).PairwiseDisjoint p.covered →
      (∀ i ∈ places, p.matchesAt instructions i = true) → places.card ≤ all.length) ∧
    (p.length = 0 → all = []) := by
  intro all
  have hgreedy := p.findAllFrom_greedy instructions 0
  have hmatch : ∀ i ∈ all, p.matchesAt instructions i = true := fun i hi =>
    (hgreedy.free_of_mem i hi).2
  have hclear : all.Pairwise fun i j => i + p.length ≤ j := hgreedy.pairwise
  refine ⟨fun found start h => ⟨⟨_, h.findAll_eq.symm⟩, h.length_le.1.trans h.length_le.2⟩, ?_, ?_,
    hclear, hmatch, ?_, ?_, ?_⟩
  · exact Gathers.nothing.exists_end
  · refine (hclear.imp_of_mem fun {i j} hi _ hle => ?_).sortedLT
    have hwidth := (matchesAt_bounds (hmatch i hi)).1
    omega
  · intro i hi
    obtain ⟨j, hj, hle, hlt⟩ := exists_found_window hi
    exact ⟨j, hj, hle, by omega⟩
  · intro places hdisjoint hplaces
    have hcard : places.sort.length = places.card := Finset.length_sort _
    rw [← hcard]
    exact length_le_countMatches (sort_pairwise hdisjoint hplaces) fun i hi =>
      hplaces i ((Finset.mem_sort _).1 hi)
  · intro hwidth
    refine List.eq_nil_iff_forall_not_mem.2 fun i hi => ?_
    exact (matchesAt_bounds (hmatch i hi)).1.ne' hwidth

end Pattern

end Inversion
