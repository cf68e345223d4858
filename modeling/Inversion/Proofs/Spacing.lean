import Inversion.Proofs.Relocation

/-!
Bodies with room between their instructions. There may be other instructions in front of each one and
at the end, and what was there keeps its order. Where the labels of the others are new, a label leads to
the same instruction as before, so a run of the body with room keeps up with a run of the body without,
as long as the room leads on.
-/

namespace Inversion

/-! ### Room -/

namespace Instruction

/-- Some instructions with room between them: what stands in front of the one at an index and, at the
    index behind the last one, what stands at the end. -/
def spaced : (Nat → List Instruction) → List Instruction → List Instruction
  | room, [] => room 0
  | room, i :: is => room 0 ++ i :: spaced (fun k => room (k + 1)) is

/-- Where the room in front of an index begins. -/
def gate (room : Nat → List Instruction) : Nat → Nat
  | 0 => 0
  | k + 1 => gate room k + (room k).length + 1

/-- Where the instruction at an index comes to stand, behind the room in front of it. -/
def landing (room : Nat → List Instruction) (k : Nat) : Nat := gate room k + (room k).length

variable {room : Nat → List Instruction} {is : List Instruction} {i x : Instruction} {k j : Nat}

theorem gate_shift (room : Nat → List Instruction) : ∀ k,
    gate room (k + 1) = (room 0).length + 1 + gate (fun k => room (k + 1)) k
  | 0 => by simp [gate]
  | k + 1 => by
    have ih := gate_shift room k
    simp only [gate] at ih ⊢
    omega

theorem landing_shift (room : Nat → List Instruction) (k : Nat) :
    landing room (k + 1) = (room 0).length + 1 + landing (fun k => room (k + 1)) k := by
  rw [landing, gate_shift, landing, Nat.add_assoc]

theorem landing_of_empty (h : room k = []) : landing room k = gate room k := by
  rw [landing, h]
  rfl

theorem landing_of_singleton (h : room k = [x]) : landing room k = gate room k + 1 := by
  rw [landing, h]
  rfl

theorem spaced_empty : ∀ is : List Instruction, spaced (fun _ => []) is = is
  | [] => rfl
  | i :: is => congrArg (i :: ·) (spaced_empty is)

theorem gate_empty : ∀ k, gate (fun _ => []) k = k
  | 0 => rfl
  | k + 1 => congrArg (· + 1) (gate_empty k)

/-- Behind the first instruction and the room in front of it. -/
theorem getElem?_spaced_cons (room : Nat → List Instruction) (i : Instruction)
    (is : List Instruction) (j : Nat) : (spaced room (i :: is))[(room 0).length + 1 + j]?
      = (spaced (fun k => room (k + 1)) is)[j]? := by
  rw [spaced, List.getElem?_append_right (by omega),
    show (room 0).length + 1 + j - (room 0).length = j + 1 by omega, List.getElem?_cons_succ]

/-- The instructions stand at their places. -/
theorem getElem?_landing : ∀ (room : Nat → List Instruction) (is : List Instruction) (k : Nat),
    (spaced room is)[landing room k]? = is[k]?
  | room, [], 0 => List.getElem?_eq_none (Nat.le_add_left ..)
  | room, [], k + 1 => List.getElem?_eq_none (by rw [landing_shift, spaced]; omega)
  | room, i :: is, 0 => by
    rw [spaced, landing, gate, Nat.zero_add, List.getElem?_append_right (Nat.le_refl _), Nat.sub_self]
    rfl
  | room, i :: is, k + 1 => by
    rw [landing_shift, getElem?_spaced_cons, getElem?_landing, List.getElem?_cons_succ]

/-- The room in front of an index, and that at the end, begins with its first instruction. -/
theorem getElem?_gate : ∀ {room : Nat → List Instruction} {is : List Instruction} {k : Nat},
    k ≤ is.length → (room k)[0]? = some x → (spaced room is)[gate room k]? = some x
  | room, [], 0, _, h => h
  | room, i :: is, 0, _, h => by
    rwa [gate, spaced, List.getElem?_append_left (List.getElem?_eq_some_iff.1 h).1]
  | room, i :: is, k + 1, hk, h => by
    rw [gate_shift, getElem?_spaced_cons]
    exact getElem?_gate (Nat.le_of_succ_le_succ hk) h

/-- What stands anywhere is an instruction at its place or stands in the room. -/
theorem landing_or_room : ∀ {room : Nat → List Instruction} {is : List Instruction} {j : Nat},
    (spaced room is)[j]? = some x →
    (∃ k, j = landing room k ∧ is[k]? = some x) ∨ ∃ k ≤ is.length, x ∈ room k
  | room, [], j, h => Or.inr ⟨0, Nat.le_refl 0, List.mem_of_getElem? h⟩
  | room, i :: is, j, h => by
    by_cases hj : j < (room 0).length
    · rw [spaced, List.getElem?_append_left hj] at h
      exact Or.inr ⟨0, Nat.zero_le _, List.mem_of_getElem? h⟩
    · obtain ⟨n, rfl⟩ := Nat.exists_eq_add_of_le (Nat.le_of_not_lt hj)
      cases n with
      | zero =>
        rw [spaced, List.getElem?_append_right (Nat.le_add_right _ _), Nat.add_sub_cancel_left] at h
        exact Or.inl ⟨0, by rw [landing, gate, Nat.add_zero, Nat.zero_add], h⟩
      | succ n =>
        rw [Nat.add_comm n 1, ← Nat.add_assoc, getElem?_spaced_cons] at h
        rcases landing_or_room h with ⟨k, rfl, hk⟩ | ⟨k, hk, hmem⟩
        · exact Or.inl ⟨k + 1, by rw [landing_shift, Nat.add_comm _ 1, Nat.add_assoc], hk⟩
        · exact Or.inr ⟨k + 1, Nat.succ_le_succ hk, hmem⟩

theorem landing_lt_gate (room : Nat → List Instruction) {k : Nat} :
    ∀ {j : Nat}, j < k → landing room j < gate room k := by
  induction k with
  | zero => exact fun h => absurd h (Nat.not_lt_zero _)
  | succ k ih =>
    intro j h
    rcases Nat.lt_succ_iff_lt_or_eq.1 h with h | rfl
    · have := ih h
      rw [gate]
      omega
    · exact Nat.lt_succ_self _

/-- The instructions keep their order. -/
theorem landing_lt_landing (room : Nat → List Instruction) (h : j < k) :
    landing room j < landing room k :=
  Nat.lt_of_lt_of_le (landing_lt_gate room h) (Nat.le_add_right _ _)

/-- What is looked for and not found in the room is found at its place. -/
theorem findIdx?_spaced {test : Instruction → Bool} : ∀ {room : Nat → List Instruction}
    {is : List Instruction}, (∀ k ≤ is.length, ∀ x ∈ room k, test x = false) →
    (spaced room is).findIdx? test = (is.findIdx? test).map (landing room)
  | room, [], h => List.findIdx?_eq_none_iff.2 (h 0 (Nat.le_refl 0))
  | room, i :: is, h => by
    have hfront : (room 0).findIdx? test = none :=
      List.findIdx?_eq_none_iff.2 (h 0 (Nat.zero_le _))
    have ih : (spaced (fun k => room (k + 1)) is).findIdx? test
        = (is.findIdx? test).map (landing fun k => room (k + 1)) :=
      findIdx?_spaced fun k hk => h (k + 1) (Nat.succ_le_succ hk)
    rw [spaced, List.findIdx?_append, hfront, Option.none_or, List.findIdx?_cons,
      List.findIdx?_cons, ih]
    cases test i with
    | true => simp [landing, gate]
    | false =>
      simp only [Bool.false_eq_true, if_false, Option.map_map]
      refine Option.map_congr fun k _ => ?_
      simp only [Function.comp_apply, landing_shift]
      omega

/-- One instruction more, where there was no room. -/
theorem spaced_update : ∀ {room : Nat → List Instruction} {is : List Instruction} {k : Nat},
    k ≤ is.length → room k = [] → spaced (Function.update room k [x]) is
      = (spaced room is).take (gate room k) ++ x :: (spaced room is).drop (gate room k)
  | room, [], 0, _, h => by simp [spaced, gate, h]
  | room, i :: is, 0, _, h => by simp [spaced, gate, h]
  | room, i :: is, k + 1, hk, h => by
    have hrest : (fun j => Function.update room (k + 1) [x] (j + 1))
        = Function.update (fun j => room (j + 1)) k [x] := by
      funext j
      by_cases hj : j = k <;> simp [hj]
    have hfront : Function.update room (k + 1) [x] 0 = room 0 :=
      Function.update_of_ne (Nat.succ_ne_zero k).symm _ _
    have ih := @spaced_update (fun j => room (j + 1)) is k (Nat.le_of_succ_le_succ hk) h
    rw [spaced, hrest, hfront, ih, gate_shift, spaced, Nat.add_assoc, Nat.add_comm 1,
      List.take_length_add_append, List.drop_length_add_append]
    simp

/-- One instruction more leaves what stands in front of it where it was. -/
theorem gate_update : ∀ {k j : Nat}, j ≤ k → gate (Function.update room k [x]) j = gate room j
  | _, 0, _ => rfl
  | k, j + 1, h => by
    rw [gate, gate, gate_update (Nat.le_of_succ_le h), Function.update_of_ne (Nat.ne_of_lt h)]

end Instruction

/-! ### Bodies with room -/

namespace Body

open Instruction (spaced gate landing)

/-- A body is another one with room, and what stands in the room has labels of its own. -/
structure Spaced (b : Body) (room : Nat → List Instruction) (b' : Body) : Prop where
  instructions : b'.instructions = spaced room b.instructions
  fresh : ∀ k ≤ b.length, ∀ x ∈ room k, x.label ∉ b.labels

variable {b b' : Body} {room : Nat → List Instruction} {l : Label} {k : Nat} {x : Instruction}

theorem spaced_self (b : Body) : b.Spaced (fun _ => []) b :=
  ⟨(Instruction.spaced_empty b.instructions).symm, fun _ _ _ hx => nomatch hx⟩

namespace Spaced

theorem get?_landing (h : b.Spaced room b') (k : Nat) : b'.get? (landing room k) = b.get? k := by
  unfold Body.get?
  rw [h.instructions]
  exact Instruction.getElem?_landing room b.instructions k

/-- The only instruction in a room stands where the room begins. -/
theorem get?_gate (h : b.Spaced room b') (hk : k ≤ b.length) (hroom : room k = [x]) :
    b'.get? (gate room k) = some x := by
  unfold Body.get?
  rw [h.instructions]
  exact Instruction.getElem?_gate hk (by rw [hroom]; rfl)

theorem landing_or_room (h : b.Spaced room b') {j : Nat} (hx : b'.get? j = some x) :
    (∃ k, j = landing room k ∧ b.get? k = some x) ∨ ∃ k ≤ b.length, x ∈ room k := by
  unfold Body.get? at hx
  rw [h.instructions] at hx
  exact Instruction.landing_or_room hx

theorem mem_labels (h : b.Spaced room b') (hl : l ∈ b.labels) : l ∈ b'.labels := by
  obtain ⟨i, hi, rfl⟩ := List.mem_map.1 hl
  obtain ⟨k, hk⟩ := List.mem_iff_getElem?.1 hi
  exact Body.mem_labels (List.mem_of_getElem? ((h.get?_landing k).trans hk))

/-- A label leads to the same instruction as before. -/
theorem position? (h : b.Spaced room b') (hl : l ∈ b.labels) :
    b'.position? l = (b.position? l).map (landing room) := by
  unfold Body.position?
  rw [h.instructions]
  refine Instruction.findIdx?_spaced fun k hk x hx => decide_eq_false ?_
  rintro rfl
  exact h.fresh k hk x hx hl

/-- One instruction more, under the label that is given out next. -/
theorem update (h : b.Spaced room b') (hb : b'.Numbered) (hn : b'.next < labelCount)
    (hk : k ≤ b.length) (hroom : room k = []) (hx : x.label = b'.nextLabel) (next : Nat) :
    b.Spaced (Function.update room k [x]) ⟨b'.instructions.take (gate room k)
      ++ x :: b'.instructions.drop (gate room k), next⟩ where
  instructions := by
    rw [Instruction.spaced_update hk hroom, h.instructions]
  fresh := fun j hj y hy hmem => by
    by_cases hjk : j = k
    · subst hjk
      rw [Function.update_self, List.mem_singleton] at hy
      rw [hy, hx] at hmem
      exact hb.nextLabel_notMem hn (h.mem_labels hmem)
    · rw [Function.update_of_ne hjk] at hy
      exact h.fresh j hj y hy hmem

end Spaced

/-! ### Runs with room -/

variable {σ : Type} {env : Environment σ} {args : List Value} {v : Body} {i : Instruction}

/-- From the room in front of an index the run comes to the instruction there in at most one step. -/
def LeadsOn (env : Environment σ) (args : List Value) (room : Nat → List Instruction) (b' : Body)
    (k : Nat) : Prop :=
  ∀ (m : Machine σ) (s : Nat), ∃ n ≤ 1, ∃ s', Machine.Reaches (b'.stepper env args) b'
    (m.relocated (gate room k) s) n (m.relocated (landing room k) s')

theorem LeadsOn.of_empty (h : room k = []) : LeadsOn env args room b' k := by
  intro m s
  rw [Instruction.landing_of_empty h]
  exact ⟨0, Nat.zero_le 1, s, .here _⟩

/-- An instruction that is the same in a body with the same labels: the run of that body is kept up
    with if the room behind the instruction leads on. -/
theorem Spaced.keepsUp {m : Machine σ} (h : b.Spaced room b') (hv : v.Sound)
    (hlabels : v.labels = b.labels) (hi : v.get? m.index = some i)
    (hsame : b.get? m.index = some i) (ht : i.isTerminal = false)
    (hroom : LeadsOn env args room b' (m.index + 1)) (s : Nat) :
    Machine.KeepsUp (b'.stepper env args) b' (landing room) (v.stepper env args m i)
      (m.relocated (landing room m.index) s) := by
  refine .of_tracks ((h.get?_landing m.index).trans hsame) ht (Machine.step_tracks ?_ m s) ?_
  · intro l hl
    have hmem : l ∈ b.labels := hlabels ▸ hv.target_mem (List.mem_of_getElem? hi) hl
    rw [h.position? hmem, position?_eq v, hlabels, ← position?_eq]
  · intro m' s hindex
    rw [hindex]
    exact hroom m' s

end Body

end Inversion
