import Mathlib.Data.List.Sort
import Inversion.Proofs.Search

/-!
Matches that do not overlap. Chosen greedily, from the front or from the back, they are as many as any
choice can have: what is chosen first leaves free whatever any other first choice leaves free. So both
ways come to the same number, and every match overlaps a chosen one.
-/

namespace Inversion

/-! ### Greedy choices -/

/-- Choices made one after the other among what is free. `Clear a c` says that `c` lies clear of `a`,
    further on. Each choice leaves free whatever any other one would have left free. -/
inductive Greedy {α : Type} (Clear : α → α → Prop) : (α → Prop) → List α → Prop where
  | done {free : α → Prop} : (∀ a, ¬free a) → Greedy Clear free []
  | next {free : α → Prop} {a : α} {as : List α} : free a →
      (∀ b, free b → ∀ c, Clear b c → Clear a c) →
      Greedy Clear (fun c => free c ∧ Clear a c) as → Greedy Clear free (a :: as)

namespace Greedy

variable {α : Type} {Clear : α → α → Prop} {free free' : α → Prop} {as : List α}

theorem congr (h : Greedy Clear free as) (hfree : ∀ a, free a ↔ free' a) :
    Greedy Clear free' as := by
  obtain rfl : free = free' := funext fun a => propext (hfree a)
  exact h

theorem free_of_mem (h : Greedy Clear free as) : ∀ a ∈ as, free a := by
  induction h with
  | done _ => simp
  | next ha _ _ ih =>
    intro c hc
    rcases List.mem_cons.1 hc with rfl | hc
    · exact ha
    · exact (ih c hc).1

theorem pairwise (h : Greedy Clear free as) : as.Pairwise Clear := by
  induction h with
  | done _ => exact .nil
  | next _ _ hrest ih => exact List.pairwise_cons.2 ⟨fun c hc => (hrest.free_of_mem c hc).2, ih⟩

/-- No choice has more elements: its first one may give way to the greedy one, and so on. -/
theorem length_le (h : Greedy Clear free as) {bs : List α} (hbs : bs.Pairwise Clear)
    (hfree : ∀ b ∈ bs, free b) : bs.length ≤ as.length := by
  induction h generalizing bs with
  | done hnone =>
    cases bs with
    | nil => exact Nat.le_refl _
    | cons b _ => exact absurd (hfree b List.mem_cons_self) (hnone b)
  | next _ hleaves _ ih =>
    cases bs with
    | nil => exact Nat.zero_le _
    | cons b bs =>
      obtain ⟨hfirst, hrest⟩ := List.pairwise_cons.1 hbs
      refine Nat.succ_le_succ (ih hrest fun c hc => ⟨hfree c (List.mem_cons_of_mem b hc), ?_⟩)
      exact hleaves b (hfree b List.mem_cons_self) c (hfirst c hc)

/-- Whatever is free is not clear of some choice, and that choice leaves free all that it would. -/
theorem exists_ahead (h : Greedy Clear free as) {c : α} (hc : free c) :
    ∃ a ∈ as, ¬Clear a c ∧ ∀ d, Clear c d → Clear a d := by
  induction h with
  | done hnone => exact absurd hc (hnone c)
  | @next _ a _ _ hleaves _ ih =>
    by_cases hclear : Clear a c
    · obtain ⟨b, hb, hahead⟩ := ih ⟨hc, hclear⟩
      exact ⟨b, List.mem_cons_of_mem a hb, hahead⟩
    · exact ⟨a, List.mem_cons_self, hclear, hleaves c hc⟩

/-- Whatever is free is not clear of some choice, on either side. -/
theorem exists_overlap (h : Greedy Clear free as) (hirrefl : ∀ a, ¬Clear a a) {c : α}
    (hc : free c) : ∃ a ∈ as, ¬Clear a c ∧ ¬Clear c a := by
  obtain ⟨a, ha, hclear, hleaves⟩ := h.exists_ahead hc
  exact ⟨a, ha, hclear, fun hca => hirrefl a (hleaves a hca)⟩

end Greedy

/-! ### Matches from the front and from the back -/

namespace Pattern

variable {p : Pattern} {instructions : List Instruction} {start stop i : Nat}

theorem findNext_backward_bounds (h : p.findNext instructions start .backward = some i) :
    0 < p.length ∧ i ≤ start :=
  ⟨(matchesAt_bounds (findNext_matchesAt h)).1, (findNext_backward_last h).1⟩

/-- The last match that ends at a place or in front of it. -/
def findLast (p : Pattern) (instructions : List Instruction) (stop : Nat) : Option Nat :=
  if stop < p.length then none else p.findNext instructions (stop - p.length) .backward

theorem findLast_bounds (h : p.findLast instructions stop = some i) :
    0 < p.length ∧ i + p.length ≤ stop := by
  unfold findLast at h
  split at h
  · cases h
  · have := findNext_backward_bounds h
    omega

/-- Matches up to a place that do not overlap, each the last one in front of the one before. -/
def findAllBefore (p : Pattern) (instructions : List Instruction) (stop : Nat) : List Nat :=
  match _h : p.findLast instructions stop with
  | none => []
  | some i => i :: findAllBefore p instructions i
termination_by stop
decreasing_by
  have := findLast_bounds _h
  omega

theorem findAllFrom_of_none (h : p.findNext instructions start .forward = none) :
    p.findAllFrom instructions start = [] := by
  rw [findAllFrom]
  split
  · rfl
  · simp_all

theorem findAllFrom_of_some (h : p.findNext instructions start .forward = some i) :
    p.findAllFrom instructions start = i :: p.findAllFrom instructions (i + p.length) := by
  rw [findAllFrom]
  split
  · simp_all
  · rename_i h'
    cases h.symm.trans h'
    rfl

theorem findAllBefore_of_none (h : p.findLast instructions stop = none) :
    p.findAllBefore instructions stop = [] := by
  rw [findAllBefore]
  split
  · rfl
  · simp_all

theorem findAllBefore_of_some (h : p.findLast instructions stop = some i) :
    p.findAllBefore instructions stop = i :: p.findAllBefore instructions i := by
  rw [findAllBefore]
  split
  · simp_all
  · rename_i h'
    cases h.symm.trans h'
    rfl

/-- What the first match is and what the others are, if there are matches one after the other. -/
theorem findAllFrom_eq_cons {rest : List Nat} (h : p.findAllFrom instructions start = i :: rest) :
    p.findNext instructions start .forward = some i ∧
      rest = p.findAllFrom instructions (i + p.length) := by
  cases hq : p.findNext instructions start .forward with
  | none =>
    rw [findAllFrom_of_none hq] at h
    cases h
  | some j =>
    rw [findAllFrom_of_some hq] at h
    cases h
    exact ⟨rfl, rfl⟩

theorem findAllFrom_eq_nil (h : p.findAllFrom instructions start = []) :
    p.findNext instructions start .forward = none := by
  cases hq : p.findNext instructions start .forward with
  | none => rfl
  | some j =>
    rw [findAllFrom_of_some hq] at h
    cases h

theorem findAllBefore_eq_cons {rest : List Nat}
    (h : p.findAllBefore instructions stop = i :: rest) :
    p.findLast instructions stop = some i ∧ rest = p.findAllBefore instructions i := by
  cases hq : p.findLast instructions stop with
  | none =>
    rw [findAllBefore_of_none hq] at h
    cases h
  | some j =>
    rw [findAllBefore_of_some hq] at h
    cases h
    exact ⟨rfl, rfl⟩

theorem findAllBefore_eq_nil (h : p.findAllBefore instructions stop = []) :
    p.findLast instructions stop = none := by
  cases hq : p.findLast instructions stop with
  | none => rfl
  | some j =>
    rw [findAllBefore_of_some hq] at h
    cases h

theorem findLast_eq_none (h : p.findLast instructions stop = none) :
    ∀ j, j + p.length ≤ stop → p.matchesAt instructions j = false := by
  intro j hj
  unfold findLast at h
  rw [if_neg (by omega)] at h
  exact findNext_backward_eq_none h j (by omega)

theorem findLast_last (h : p.findLast instructions stop = some i) :
    p.matchesAt instructions i = true ∧
      ∀ j, i < j → j + p.length ≤ stop → p.matchesAt instructions j = false := by
  unfold findLast at h
  split at h
  · cases h
  · exact ⟨findNext_matchesAt h, fun j hij hj => (findNext_backward_last h).2 j hij (by omega)⟩

theorem findAllFrom_greedy (p : Pattern) (instructions : List Instruction) (start : Nat) :
    Greedy (fun i j => i + p.length ≤ j) (fun i => start ≤ i ∧ p.matchesAt instructions i = true)
      (p.findAllFrom instructions start) := by
  induction start using findAllFrom.induct p instructions with
  | case1 start hnone =>
    rw [findAllFrom_of_none hnone]
    exact .done fun i hi => by simpa [findNext_forward_eq_none hnone i hi.1] using hi.2
  | case2 start i hsome ih =>
    rw [findAllFrom_of_some hsome]
    obtain ⟨hle, hfirst⟩ := findNext_forward_first hsome
    refine .next ⟨hle, findNext_matchesAt hsome⟩ ?_ (ih.congr fun c => ?_)
    · intro b hb c hclear
      have hib : ¬b < i := fun hlt => by simpa [hfirst b hb.1 hlt] using hb.2
      omega
    · exact ⟨fun h => ⟨⟨by omega, h.2⟩, h.1⟩, fun h => ⟨h.2, h.1.2⟩⟩

theorem findAllBefore_greedy (p : Pattern) (instructions : List Instruction) (stop : Nat) :
    Greedy (fun i j => j + p.length ≤ i)
      (fun i => i + p.length ≤ stop ∧ p.matchesAt instructions i = true)
      (p.findAllBefore instructions stop) := by
  induction stop using findAllBefore.induct p instructions with
  | case1 stop hnone =>
    rw [findAllBefore_of_none hnone]
    exact .done fun i hi => by simpa [findLast_eq_none hnone i hi.1] using hi.2
  | case2 stop i hsome ih =>
    rw [findAllBefore_of_some hsome]
    obtain ⟨hmatch, hlast⟩ := findLast_last hsome
    have hbounds := (findLast_bounds hsome).2
    refine .next ⟨hbounds, hmatch⟩ ?_ (ih.congr fun c => ?_)
    · intro b hb c hclear
      have hbi : ¬i < b := fun hlt => by simpa [hlast b hlt hb.1] using hb.2
      omega
    · exact ⟨fun h => ⟨⟨by omega, h.2⟩, h.1⟩, fun h => ⟨h.2, h.1.2⟩⟩

/-- Every choice of matches that do not overlap has at most as many as the greedy one. -/
theorem length_le_countMatches {places : List Nat}
    (hclear : places.Pairwise fun i j => i + p.length ≤ j)
    (hmatch : ∀ i ∈ places, p.matchesAt instructions i = true) :
    places.length ≤ p.countMatches instructions :=
  (p.findAllFrom_greedy instructions 0).length_le hclear fun i hi => ⟨Nat.zero_le i, hmatch i hi⟩

/-- From the back there are as many matches that do not overlap as from the front. -/
theorem length_findAllBefore (p : Pattern) (instructions : List Instruction) :
    (p.findAllBefore instructions instructions.length).length = p.countMatches instructions := by
  have hback := p.findAllBefore_greedy instructions instructions.length
  have hfront := p.findAllFrom_greedy instructions 0
  refine Nat.le_antisymm ?_ ?_
  · rw [← List.length_reverse]
    exact length_le_countMatches (List.pairwise_reverse.2 hback.pairwise) fun i hi =>
      (hback.free_of_mem i (List.mem_reverse.1 hi)).2
  · show (p.findAllFrom instructions 0).length ≤ _
    rw [← List.length_reverse]
    refine hback.length_le (List.pairwise_reverse.2 hfront.pairwise) fun i hi => ?_
    have hm := (hfront.free_of_mem i (List.mem_reverse.1 hi)).2
    exact ⟨(matchesAt_bounds hm).2, hm⟩

/-- Matches of one instruction are the same from either end. -/
theorem findAllBefore_eq_reverse (h : p.length = 1) (instructions : List Instruction) :
    p.findAllBefore instructions instructions.length = (p.findAll instructions).reverse := by
  have hback := p.findAllBefore_greedy instructions instructions.length
  have hfront := p.findAllFrom_greedy instructions 0
  rw [h] at hback hfront
  -- two windows of one instruction that overlap are the same
  have hmem {i : Nat} : i ∈ p.findAllBefore instructions instructions.length ↔
      i ∈ p.findAllFrom instructions 0 := by
    constructor
    · intro hi
      obtain ⟨j, hj, hij, hji⟩ := hfront.exists_overlap (fun _ => Nat.not_succ_le_self _)
        ⟨Nat.zero_le i, (hback.free_of_mem i hi).2⟩
      rwa [show i = j by omega]
    · intro hi
      have hm := (hfront.free_of_mem i hi).2
      obtain ⟨j, hj, hij, hji⟩ := hback.exists_overlap (fun _ => Nat.not_succ_le_self _)
        ⟨h ▸ (matchesAt_bounds hm).2, hm⟩
      rwa [show i = j by omega]
  exact (hback.pairwise.sortedGT).eq_reverse_of_mem_iff_of_sortedLT (fun _ => hmem)
    hfront.pairwise.sortedLT

/-- Matches that do not overlap, as a search from one end comes to them. -/
def findAllIn (p : Pattern) (instructions : List Instruction) : Direction → List Nat
  | .forward => p.findAll instructions
  | .backward => p.findAllBefore instructions instructions.length

theorem length_findAllIn (p : Pattern) (instructions : List Instruction) (d : Direction) :
    (p.findAllIn instructions d).length = p.countMatches instructions := by
  cases d with
  | forward => rfl
  | backward => exact p.length_findAllBefore instructions

/-- A pattern says in which direction it is searched, but finds the same matches either way. -/
theorem findAllIn_withDirection (p : Pattern) (instructions : List Instruction) (d d' : Direction) :
    (p.withDirection d').findAllIn instructions d = p.findAllIn instructions d := by
  cases d with
  | forward =>
    show (p.withDirection d').findAllFrom instructions 0 = p.findAllFrom instructions 0
    generalize 0 = start
    induction start using findAllFrom.induct p instructions with
    | case1 start h =>
      rw [findAllFrom_of_none h, findAllFrom_of_none (p := p.withDirection d') h]
    | case2 start i h ih =>
      rw [findAllFrom_of_some h, findAllFrom_of_some (p := p.withDirection d') h, ← ih]
      rfl
  | backward =>
    show (p.withDirection d').findAllBefore instructions instructions.length = p.findAllBefore _ _
    generalize instructions.length = stop
    induction stop using findAllBefore.induct p instructions with
    | case1 stop h =>
      rw [findAllBefore_of_none h, findAllBefore_of_none (p := p.withDirection d') h]
    | case2 stop i h ih =>
      rw [findAllBefore_of_some h, findAllBefore_of_some (p := p.withDirection d') h, ← ih]

/-- There is nothing to count exactly if there is no match. -/
theorem countMatches_eq_zero : p.countMatches instructions = 0 ↔
    ∀ i, p.matchesAt instructions i = false := by
  have hgreedy := p.findAllFrom_greedy instructions 0
  constructor
  · intro h i
    by_contra hm
    rw [Bool.not_eq_false] at hm
    have hone := length_le_countMatches (p := p) (List.pairwise_singleton _ i) (by simpa using hm)
    rw [h] at hone
    cases hone
  · intro h
    cases hall : p.findAllFrom instructions 0 with
    | nil =>
      show (p.findAllFrom instructions 0).length = 0
      rw [hall]
      rfl
    | cons i rest =>
      have hm := (hgreedy.free_of_mem i (by rw [hall]; exact List.mem_cons_self)).2
      rw [h i] at hm
      cases hm

end Pattern

end Inversion
