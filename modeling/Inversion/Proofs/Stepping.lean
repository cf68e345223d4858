import Mathlib.Order.Bounds.Basic
import Inversion.Event
import Inversion.Proofs.Greedy

/-!
Searching in either direction. Forward a search finds the least match from its start on, backward the
greatest one up to it, and on its way it puts predicates to places inside the instructions only: what
they would say anywhere else makes no difference, also if they look ahead or behind. Stepping on from
match to match comes by all of them, upward from the front and downward from the end.
-/

namespace Inversion

/-! ### Tests at the places of some instructions -/

/-- Two tests that say the same at every place of some instructions, and anything elsewhere. -/
def Predicate.AgreesOn (instructions : List Instruction) (p q : Predicate) : Prop :=
  ∀ s : Site, s.instructions = instructions → p.test s = q.test s

theorem Site.at?_instructions {instructions : List Instruction} {index : Nat} {s : Site}
    (h : Site.at? instructions index = some s) : s.instructions = instructions := by
  simp only [Site.at?, Option.dite_none_right_eq_some, Option.some.injEq] at h
  obtain ⟨_, rfl⟩ := h
  rfl

theorem Predicate.AgreesOn.any_eq {instructions : List Instruction} {p q : Predicate} {o : Option Site}
    (h : p.AgreesOn instructions q) (ho : ∀ s, o = some s → s.instructions = instructions) :
    o.any p.test = o.any q.test := by
  cases o with
  | none => rfl
  | some s => exact h s (ho s rfl)

namespace Predicate.AgreesOn

variable {instructions : List Instruction} {p p' q q' : Predicate}

/-- Looking ahead, a test is put to the next place of the same instructions. -/
theorem followedBy (hp : p.AgreesOn instructions p') (hq : q.AgreesOn instructions q') :
    (p.followedBy q).AgreesOn instructions (p'.followedBy q') := by
  intro s hs
  have hnext : ∀ t, s.next? = some t → t.instructions = instructions := fun t ht =>
    (Site.at?_instructions ht).trans hs
  simp only [Predicate.followedBy, hp s hs, hq.any_eq hnext]

/-- Looking behind, a test is put to the place before in the same instructions. -/
theorem precededBy (hp : p.AgreesOn instructions p') (hq : q.AgreesOn instructions q') :
    (p.precededBy q).AgreesOn instructions (p'.precededBy q') := by
  intro s hs
  have hprevious : ∀ t, s.previous? = some t → t.instructions = instructions := by
    intro t ht
    simp only [Site.previous?, Option.ite_none_left_eq_some] at ht
    exact (Site.at?_instructions ht.2).trans hs
  simp only [Predicate.precededBy, hp s hs, hq.any_eq hprevious]

end Predicate.AgreesOn

namespace Pattern

variable {p : Pattern} {instructions : List Instruction} {start index i : Nat}

/-! ### The nearest match -/

theorem findNext_forward_eq_some_iff : p.findNext instructions start .forward = some i ↔
    IsLeast {j | start ≤ j ∧ p.matchesAt instructions j = true} i := by
  constructor
  · intro h
    obtain ⟨hle, hfirst⟩ := findNext_forward_first h
    refine ⟨⟨hle, findNext_matchesAt h⟩, fun j hj => ?_⟩
    by_contra hlt
    exact absurd hj.2 (by simp [hfirst j hj.1 (Nat.lt_of_not_le hlt)])
  · rintro ⟨⟨hle, hmatch⟩, hleast⟩
    refine findNext_forward_of_first hle hmatch fun j hj hlt => ?_
    by_contra hm
    exact absurd (hleast ⟨hj, by simpa using hm⟩) (Nat.not_le_of_lt hlt)

theorem findNext_backward_eq_some_iff : p.findNext instructions start .backward = some i ↔
    IsGreatest {j | j ≤ start ∧ p.matchesAt instructions j = true} i := by
  constructor
  · intro h
    obtain ⟨hle, hlast⟩ := findNext_backward_last h
    refine ⟨⟨hle, findNext_matchesAt h⟩, fun j hj => ?_⟩
    by_contra hlt
    exact absurd hj.2 (by simp [hlast j (Nat.lt_of_not_le hlt) hj.1])
  · rintro ⟨⟨hle, hmatch⟩, hgreatest⟩
    refine findNext_backward_of_last hle hmatch fun j hlt hj => ?_
    by_contra hm
    exact absurd (hgreatest ⟨hj, by simpa using hm⟩) (Nat.not_le_of_lt hlt)

theorem findNext_forward_eq_none_iff : p.findNext instructions start .forward = none ↔
    ∀ j, start ≤ j → p.matchesAt instructions j = false := by
  refine ⟨findNext_forward_eq_none, fun h => Option.eq_none_iff_forall_ne_some.2 fun i hi => ?_⟩
  exact absurd (findNext_matchesAt hi) (by simp [h i (findNext_forward_first hi).1])

theorem findNext_backward_eq_none_iff : p.findNext instructions start .backward = none ↔
    ∀ j, j ≤ start → p.matchesAt instructions j = false := by
  refine ⟨findNext_backward_eq_none, fun h => Option.eq_none_iff_forall_ne_some.2 fun i hi => ?_⟩
  exact absurd (findNext_matchesAt hi) (by simp [h i (findNext_backward_last hi).1])

/-! ### Where predicates are put -/

theorem passesFrom_of_agreesOn {predicates others : List Predicate}
    (h : List.Forall₂ (Predicate.AgreesOn instructions) predicates others) (index : Nat) :
    passesFrom instructions index predicates = passesFrom instructions index others := by
  induction h generalizing index with
  | nil => rfl
  | cons hfirst _ ih =>
    rw [passesFrom, passesFrom, hfirst.any_eq fun _ => Site.at?_instructions, ih]

theorem matchesAt_of_agreesOn {q : Pattern}
    (h : List.Forall₂ (Predicate.AgreesOn instructions) p.predicates q.predicates) :
    p.matchesAt instructions = q.matchesAt instructions := by
  have hlength : p.length = q.length := h.length_eq
  have hempty : p.predicates.isEmpty = q.predicates.isEmpty := by
    rw [Bool.eq_iff_iff, List.isEmpty_iff_length_eq_zero, List.isEmpty_iff_length_eq_zero, h.length_eq]
  funext index
  rw [matchesAt, matchesAt, hempty, hlength, passesFrom_of_agreesOn h]

/-- A search depends on what predicates say at the places of the instructions, and on nothing else that
    they would say. -/
theorem findNext_of_agreesOn {q : Pattern}
    (h : List.Forall₂ (Predicate.AgreesOn instructions) p.predicates q.predicates) (start : Nat)
    (d : Direction) : p.findNext instructions start d = q.findNext instructions start d := by
  have hlength : p.length = q.length := h.length_eq
  have hcandidates : p.candidates instructions.length start d
      = q.candidates instructions.length start d := by
    cases d <;> simp only [candidates, hlength]
  simp only [findNext, hlength, hcandidates, matchesAt_of_agreesOn h]

/-- Puts predicates to consecutive places from an index on, until one fails, and reports the places. -/
def probeFrom (instructions : List Instruction) : Nat → List Predicate → Account Nat Bool
  | _, [] => pure true
  | index, q :: rest => do
    Account.tell index
    if (Site.at? instructions index).any q.test then probeFrom instructions (index + 1) rest
    else pure false

/-- Tries the window that starts at an index. -/
def probe (p : Pattern) (instructions : List Instruction) (index : Nat) : Account Nat Bool :=
  if !p.predicates.isEmpty && decide (index + p.length ≤ instructions.length) then
    probeFrom instructions index p.predicates
  else pure false

/-- Tries windows one after the other, until one matches. -/
def probeEach (p : Pattern) (instructions : List Instruction) : List Nat → Account Nat (Option Nat)
  | [] => pure none
  | index :: rest => do
    if ← p.probe instructions index then return some index
    p.probeEach instructions rest

/-- A search that reports the places to which it puts predicates. -/
def probeNext (p : Pattern) (instructions : List Instruction) (start : Nat) (d : Direction) :
    Account Nat (Option Nat) :=
  if p.length = 0 ∨ instructions.length < p.length then pure none
  else p.probeEach instructions (p.candidates instructions.length start d)

theorem probeFrom_value (index : Nat) (predicates : List Predicate) :
    (probeFrom instructions index predicates).value
      = passesFrom instructions index predicates := by
  induction predicates generalizing index with
  | nil => rfl
  | cons q rest ih =>
    rw [probeFrom, passesFrom, Account.value_bind]
    cases (Site.at? instructions index).any q.test with
    | false => rfl
    | true => exact ih (index + 1)

theorem probeFrom_events (index : Nat) (predicates : List Predicate) :
    ∀ place ∈ (probeFrom instructions index predicates).events, place < index + predicates.length := by
  induction predicates generalizing index with
  | nil => exact fun _ h => absurd h List.not_mem_nil
  | cons q rest ih =>
    intro place hplace
    rw [probeFrom, Account.events_bind, Account.events_tell, List.singleton_append] at hplace
    rw [List.length_cons]
    rcases List.mem_cons.1 hplace with rfl | hplace
    · omega
    · cases hpass : (Site.at? instructions index).any q.test with
      | false => simp [hpass] at hplace
      | true =>
        rw [hpass] at hplace
        have hrest := ih (index + 1) place hplace
        omega

theorem probe_value (p : Pattern) (instructions : List Instruction) (index : Nat) :
    (p.probe instructions index).value = p.matchesAt instructions index := by
  unfold probe matchesAt
  split
  · rename_i hfits
    rw [hfits, Bool.true_and, probeFrom_value]
  · rename_i hfits
    rw [Bool.not_eq_true] at hfits
    rw [hfits, Bool.false_and, Account.value_pure]

/-- A window is only tried where it fits, so its predicates are put to places inside. -/
theorem probe_events (p : Pattern) (instructions : List Instruction) (index : Nat) :
    ∀ place ∈ (p.probe instructions index).events, place < instructions.length := by
  intro place hplace
  unfold probe at hplace
  split at hplace
  · rename_i hfits
    simp only [Bool.and_eq_true, decide_eq_true_eq] at hfits
    exact Nat.lt_of_lt_of_le (probeFrom_events _ _ place hplace) hfits.2
  · exact absurd hplace List.not_mem_nil

theorem probeEach_value (p : Pattern) (instructions : List Instruction) (places : List Nat) :
    (p.probeEach instructions places).value = places.find? (p.matchesAt instructions) := by
  induction places with
  | nil => rfl
  | cons index rest ih =>
    rw [probeEach, Account.value_bind, probe_value, List.find?_cons]
    cases p.matchesAt instructions index with
    | false => exact ih
    | true => rfl

theorem probeEach_events (p : Pattern) (instructions : List Instruction) (places : List Nat) :
    ∀ place ∈ (p.probeEach instructions places).events, place < instructions.length := by
  induction places with
  | nil => exact fun _ h => absurd h List.not_mem_nil
  | cons index rest ih =>
    intro place hplace
    rw [probeEach, Account.events_bind, List.mem_append] at hplace
    rcases hplace with hplace | hplace
    · exact p.probe_events instructions index place hplace
    · cases hmatch : (p.probe instructions index).value with
      | false =>
        rw [hmatch] at hplace
        exact ih place hplace
      | true =>
        rw [hmatch] at hplace
        exact absurd hplace List.not_mem_nil

theorem probeNext_value (p : Pattern) (instructions : List Instruction) (start : Nat)
    (d : Direction) :
    (p.probeNext instructions start d).value = p.findNext instructions start d := by
  unfold probeNext findNext
  split
  · rfl
  · exact p.probeEach_value instructions _

theorem probeNext_events (p : Pattern) (instructions : List Instruction) (start : Nat)
    (d : Direction) :
    ∀ place ∈ (p.probeNext instructions start d).events, place < instructions.length := by
  unfold probeNext
  split
  · exact fun _ h => absurd h List.not_mem_nil
  · exact p.probeEach_events instructions _

/-! ### From match to match -/

/-- The matches that a forward search comes to, going on behind the start of each. -/
def ascend (p : Pattern) (instructions : List Instruction) (start : Nat) : List Nat :=
  match _h : p.findNext instructions start .forward with
  | none => []
  | some i => i :: p.ascend instructions (i + 1)
termination_by instructions.length - start
decreasing_by
  have := findNext_forward_bounds _h
  omega

/-- The matches that a backward search comes to, going on in front of each, until one is at the front. -/
def descend (p : Pattern) (instructions : List Instruction) (start : Nat) : List Nat :=
  match _h : p.findNext instructions start .backward with
  | none => []
  | some 0 => [0]
  | some (i + 1) => (i + 1) :: p.descend instructions i
termination_by start
decreasing_by
  have := findNext_backward_bounds _h
  omega

theorem ascend_of_none (h : p.findNext instructions start .forward = none) :
    p.ascend instructions start = [] := by
  rw [ascend]
  split
  · rfl
  · simp_all

theorem ascend_of_some (h : p.findNext instructions start .forward = some i) :
    p.ascend instructions start = i :: p.ascend instructions (i + 1) := by
  rw [ascend]
  split
  · simp_all
  · rename_i h'
    cases h.symm.trans h'
    rfl

theorem descend_of_none (h : p.findNext instructions start .backward = none) :
    p.descend instructions start = [] := by
  rw [descend]
  split
  · rfl
  · simp_all
  · simp_all

theorem descend_of_zero (h : p.findNext instructions start .backward = some 0) :
    p.descend instructions start = [0] := by
  rw [descend]
  split
  · simp_all
  · rfl
  · simp_all

theorem descend_of_succ (h : p.findNext instructions start .backward = some (i + 1)) :
    p.descend instructions start = (i + 1) :: p.descend instructions i := by
  rw [descend]
  split
  · simp_all
  · simp_all
  · rename_i h'
    cases h.symm.trans h'
    rfl

theorem ascend_greedy (p : Pattern) (instructions : List Instruction) (start : Nat) :
    Greedy (· < ·) (fun i => start ≤ i ∧ p.matchesAt instructions i = true)
      (p.ascend instructions start) := by
  induction start using ascend.induct p instructions with
  | case1 start hnone =>
    rw [ascend_of_none hnone]
    exact .done fun i hi => by simpa [findNext_forward_eq_none hnone i hi.1] using hi.2
  | case2 start i hsome ih =>
    rw [ascend_of_some hsome]
    obtain ⟨hfree, hleast⟩ := findNext_forward_eq_some_iff.1 hsome
    have hle : start ≤ i := hfree.1
    refine .next hfree (fun b hb c hlt => Nat.lt_of_le_of_lt (hleast hb) hlt) (ih.congr fun c => ?_)
    exact ⟨fun h => ⟨⟨by omega, h.2⟩, h.1⟩, fun h => ⟨h.2, h.1.2⟩⟩

theorem descend_greedy (p : Pattern) (instructions : List Instruction) (start : Nat) :
    Greedy (· > ·) (fun i => i ≤ start ∧ p.matchesAt instructions i = true)
      (p.descend instructions start) := by
  induction start using descend.induct p instructions with
  | case1 start hnone =>
    rw [descend_of_none hnone]
    exact .done fun i hi => by simpa [findNext_backward_eq_none hnone i hi.1] using hi.2
  | case2 start hzero =>
    rw [descend_of_zero hzero]
    obtain ⟨hfree, hgreatest⟩ := findNext_backward_eq_some_iff.1 hzero
    refine .next hfree (fun b hb c hlt => Nat.lt_of_lt_of_le hlt (hgreatest hb)) (.done fun c hc => ?_)
    exact Nat.not_lt_zero c hc.2
  | case3 start i hsucc ih =>
    rw [descend_of_succ hsucc]
    obtain ⟨hfree, hgreatest⟩ := findNext_backward_eq_some_iff.1 hsucc
    have hle : i + 1 ≤ start := hfree.1
    refine .next hfree (fun b hb c hlt => Nat.lt_of_lt_of_le hlt (hgreatest hb)) (ih.congr fun c => ?_)
    exact ⟨fun h => ⟨⟨by omega, h.2⟩, Nat.lt_succ_of_le h.1⟩,
      fun h => ⟨Nat.le_of_lt_succ h.2, h.1.2⟩⟩

theorem mem_ascend :
    i ∈ p.ascend instructions start ↔ start ≤ i ∧ p.matchesAt instructions i = true := by
  have hgreedy := p.ascend_greedy instructions start
  refine ⟨hgreedy.free_of_mem i, fun h => ?_⟩
  obtain ⟨j, hj, hji, hij⟩ := hgreedy.exists_overlap (fun _ => Nat.lt_irrefl _) h
  rwa [show i = j by omega]

theorem mem_descend :
    i ∈ p.descend instructions start ↔ i ≤ start ∧ p.matchesAt instructions i = true := by
  have hgreedy := p.descend_greedy instructions start
  refine ⟨hgreedy.free_of_mem i, fun h => ?_⟩
  obtain ⟨j, hj, hji, hij⟩ := hgreedy.exists_overlap (fun _ => Nat.lt_irrefl _) h
  rwa [show i = j by omega]

/-- A forward search finds the least match from its start on, a backward search the greatest one up to
    it, and nothing only if there is none. Neither puts a predicate to a place outside: the places that
    it reports are inside, and predicates that say the same there find the same, also those that look
    ahead or behind. Stepping on from match to match comes by all matches, downward from the end in the
    opposite order of upward from the front. -/
theorem directions_agree (p : Pattern) (instructions : List Instruction) :
    (∀ start i, p.findNext instructions start .forward = some i ↔
      IsLeast {j | start ≤ j ∧ p.matchesAt instructions j = true} i) ∧
    (∀ start i, p.findNext instructions start .backward = some i ↔
      IsGreatest {j | j ≤ start ∧ p.matchesAt instructions j = true} i) ∧
    (∀ start, p.findNext instructions start .forward = none ↔
      ∀ j, start ≤ j → p.matchesAt instructions j = false) ∧
    (∀ start, p.findNext instructions start .backward = none ↔
      ∀ j, j ≤ start → p.matchesAt instructions j = false) ∧
    (∀ start d, (p.probeNext instructions start d).value = p.findNext instructions start d ∧
      ∀ place ∈ (p.probeNext instructions start d).events, place < instructions.length) ∧
    (∀ q : Pattern, List.Forall₂ (Predicate.AgreesOn instructions) p.predicates q.predicates →
      ∀ start d, p.findNext instructions start d = q.findNext instructions start d) ∧
    (∀ x x' y y' : Predicate, x.AgreesOn instructions x' → y.AgreesOn instructions y' →
      (x.followedBy y).AgreesOn instructions (x'.followedBy y') ∧
      (x.precededBy y).AgreesOn instructions (x'.precededBy y')) ∧
    (∀ i, i ∈ p.ascend instructions 0 ↔ p.matchesAt instructions i = true) ∧
    (p.ascend instructions 0).SortedLT ∧
    p.descend instructions instructions.length = (p.ascend instructions 0).reverse := by
  have hup : (p.ascend instructions 0).SortedLT :=
    (p.ascend_greedy instructions 0).pairwise.sortedLT
  have hdown : (p.descend instructions instructions.length).SortedGT :=
    (p.descend_greedy instructions instructions.length).pairwise.sortedGT
  refine ⟨fun _ _ => findNext_forward_eq_some_iff, fun _ _ => findNext_backward_eq_some_iff,
    fun _ => findNext_forward_eq_none_iff, fun _ => findNext_backward_eq_none_iff,
    fun start d => ⟨p.probeNext_value instructions start d, p.probeNext_events instructions start d⟩,
    fun _ => findNext_of_agreesOn, fun _ _ _ _ hx hy => ⟨hx.followedBy hy, hx.precededBy hy⟩,
    fun i => ?_, hup, hdown.eq_reverse_of_mem_iff_of_sortedLT (fun i => ?_) hup⟩
  · rw [mem_ascend, and_iff_right (Nat.zero_le i)]
  · rw [mem_descend, mem_ascend]
    -- a match lies inside, so neither bound on where it begins says anything
    exact and_congr_left fun hmatch => iff_of_true
      (Nat.le_trans (Nat.le_add_right _ _) (matchesAt_bounds hmatch).2) (Nat.zero_le i)

end Pattern

end Inversion
