import Mathlib.Data.List.Nodup
import Inversion.Pattern.Search

/-!
What a search for windows finds. A match lies inside the body, a search finds the match that comes
first in its direction from its start on, and if it finds nothing there is none.
-/

namespace Inversion

theorem Site.at?_any_ofInstruction (instructions : List Instruction) (index : Nat) (name : String)
    (test : Instruction → Bool) :
    (Site.at? instructions index).any (Predicate.ofInstruction name test).test
      = instructions[index]?.any test := by
  unfold Site.at?
  split
  · rename_i h
    rw [List.getElem?_eq_getElem h]
    rfl
  · rename_i h
    rw [List.getElem?_eq_none (by omega)]
    rfl

namespace Pattern

variable {p : Pattern} {instructions : List Instruction} {start index i : Nat} {d : Direction}

theorem matchesAt_bounds (h : p.matchesAt instructions index = true) :
    0 < p.length ∧ index + p.length ≤ instructions.length := by
  unfold matchesAt at h
  simp only [Bool.and_eq_true, Bool.not_eq_true', List.isEmpty_eq_false_iff,
    decide_eq_true_eq] at h
  exact ⟨List.length_pos_iff.2 h.1.1, h.1.2⟩

theorem findNext_matchesAt (h : p.findNext instructions start d = some i) :
    p.matchesAt instructions i = true := by
  unfold findNext at h
  split at h
  · cases h
  · exact List.find?_some h

/-- A forward search finds the first match from its start on. -/
theorem findNext_forward_first (h : p.findNext instructions start .forward = some i) :
    start ≤ i ∧ ∀ j, start ≤ j → j < i → p.matchesAt instructions j = false := by
  unfold findNext at h
  split at h
  · cases h
  · obtain ⟨-, hm, hfirst⟩ := List.find?_range'_eq_some.1 h
    rw [List.mem_range'_1] at hm
    exact ⟨hm.1, fun j hs hj => by simpa using hfirst j hs hj⟩

/-- A forward search that finds nothing leaves no match from its start on. -/
theorem findNext_forward_eq_none (h : p.findNext instructions start .forward = none) :
    ∀ j, start ≤ j → p.matchesAt instructions j = false := by
  intro j hs
  by_contra hm
  rw [Bool.not_eq_false] at hm
  have hb := matchesAt_bounds hm
  unfold findNext at h
  rw [if_neg (by omega)] at h
  have hj : j ∈ p.candidates instructions.length start .forward := by
    simp only [candidates, List.mem_range'_1]
    omega
  exact List.find?_eq_none.1 h j hj hm

/-- What comes first from the start on is what a forward search finds. -/
theorem findNext_forward_of_first (hs : start ≤ i) (hm : p.matchesAt instructions i = true)
    (hfirst : ∀ j, start ≤ j → j < i → p.matchesAt instructions j = false) :
    p.findNext instructions start .forward = some i := by
  cases hfound : p.findNext instructions start .forward with
  | none =>
    rw [findNext_forward_eq_none hfound i hs] at hm
    cases hm
  | some k =>
    obtain ⟨hk, hbefore⟩ := findNext_forward_first hfound
    have hmatch := findNext_matchesAt hfound
    rcases Nat.lt_trichotomy i k with hlt | rfl | hlt
    · rw [hbefore i hs hlt] at hm
      cases hm
    · rfl
    · rw [hfirst k hk hlt] at hmatch
      cases hmatch

/-- A backward search finds the last match up to its start. -/
theorem findNext_backward_last (h : p.findNext instructions start .backward = some i) :
    i ≤ start ∧ ∀ j, i < j → j ≤ start → p.matchesAt instructions j = false := by
  unfold findNext at h
  split at h
  · cases h
  · rename_i hwidth
    obtain ⟨-, front, back, hsplit, hfront⟩ := List.find?_eq_some_iff_append.1 h
    have hmem := List.mem_of_find?_eq_some h
    simp only [candidates, List.mem_reverse, List.mem_range] at hmem
    refine ⟨by omega, fun j hij hjs => ?_⟩
    by_contra hm
    rw [Bool.not_eq_false] at hm
    have hbounds := matchesAt_bounds hm
    have hj : j ∈ p.candidates instructions.length start .backward := by
      simp only [candidates, List.mem_reverse, List.mem_range]
      omega
    have horder : (p.candidates instructions.length start .backward).Pairwise (· > ·) :=
      List.pairwise_reverse.2 List.pairwise_lt_range
    rw [hsplit] at hj horder
    rcases List.mem_append.1 hj with hj | hj
    · simpa [hm] using hfront j hj
    · rcases List.mem_cons.1 hj with rfl | hj
      · exact Nat.lt_irrefl _ hij
      · have hlt := List.rel_of_pairwise_cons (List.pairwise_append.1 horder).2.1 hj
        omega

/-- A backward search that finds nothing leaves no match up to its start. -/
theorem findNext_backward_eq_none (h : p.findNext instructions start .backward = none) :
    ∀ j, j ≤ start → p.matchesAt instructions j = false := by
  intro j hs
  by_contra hm
  rw [Bool.not_eq_false] at hm
  have hb := matchesAt_bounds hm
  unfold findNext at h
  rw [if_neg (by omega)] at h
  have hj : j ∈ p.candidates instructions.length start .backward := by
    simp only [candidates, List.mem_reverse, List.mem_range]
    omega
  exact List.find?_eq_none.1 h j hj hm

/-- What comes last up to the start is what a backward search finds. -/
theorem findNext_backward_of_last (hs : i ≤ start) (hm : p.matchesAt instructions i = true)
    (hlast : ∀ j, i < j → j ≤ start → p.matchesAt instructions j = false) :
    p.findNext instructions start .backward = some i := by
  cases hfound : p.findNext instructions start .backward with
  | none =>
    rw [findNext_backward_eq_none hfound i hs] at hm
    cases hm
  | some k =>
    obtain ⟨hk, hbehind⟩ := findNext_backward_last hfound
    have hmatch := findNext_matchesAt hfound
    rcases Nat.lt_trichotomy i k with hlt | rfl | hlt
    · rw [hlast k hlt hk] at hmatch
      cases hmatch
    · rfl
    · rw [hbehind i hlt hs] at hm
      cases hm

/-- The window of one predicate on the instruction alone. -/
theorem single_matchesAt (name predicate : String) (test : Instruction → Bool) :
    (single name (.ofInstruction predicate test)).matchesAt instructions index
      = instructions[index]?.any test := by
  unfold matchesAt single window length
  simp only [passesFrom, Site.at?_any_ofInstruction, Bool.and_true]
  by_cases h : index < instructions.length
  · simp [Nat.succ_le_of_lt h]
  · simp [List.getElem?_eq_none (Nat.le_of_not_lt h)]

end Pattern

end Inversion
