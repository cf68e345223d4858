import Inversion.Proofs.Cursor.Session
import Inversion.Proofs.Spacing

/-!
An instruction that does nothing. Inserted anywhere in a valid body it changes nothing but the number of
steps: branches lead past it to where they led before, and a run that comes by goes on behind it.
-/

namespace Inversion

open Instruction (gate landing)

variable {σ : Type} {env : Environment σ} {args : List Value}

namespace Machine

/-- Such an instruction takes one step. -/
theorem reaches_idle {b : Body} {m : Machine σ} {i : Instruction} (hi : b.get? m.index = some i)
    (hop : i.op = .other .nop) : Reaches (b.stepper env args) b m 1
      (m.relocated (m.index + 1) (m.steps + 1)) := by
  have ht : i.isTerminal = false := decide_eq_false (by rw [hop]; nofun)
  have hcallee : i.callee? = none := if_neg (by rw [hop]; nofun)
  have hs : b.stepper env args m i = .running (m.relocated (m.index + 1) (m.steps + 1)) := by
    simp only [Body.stepper, step, hcallee, execute, hop]
    rfl
  exact .next hi ht hs (.here _)

end Machine

namespace Body

variable {b b' : Body} {room : Nat → List Instruction} {k : Nat} {x : Instruction}

theorem Spaced.leadsOn_idle (h : b.Spaced room b') (hk : k ≤ b.length) (hroom : room k = [x])
    (hop : x.op = .other .nop) : LeadsOn env args room b' k := by
  intro m s
  have hx : b'.get? (gate room k) = some x := h.get?_gate hk hroom
  rw [Instruction.landing_of_singleton hroom]
  exact ⟨1, Nat.le_refl 1, s + 1, Machine.reaches_idle (m := m.relocated (gate room k) s) hx hop⟩

/-- There is at most one instruction in each room, and it is idle. -/
def IdleRoom (b : Body) (room : Nat → List Instruction) : Prop :=
  ∀ k ≤ b.length, room k = [] ∨ ∃ x, room k = [x] ∧ x.op = .other .nop

theorem IdleRoom.leadsOn (hroom : b.IdleRoom room) (h : b.Spaced room b') (hk : k ≤ b.length) :
    LeadsOn env args room b' k := by
  rcases hroom k hk with hempty | ⟨x, hx, hop⟩
  · exact .of_empty hempty
  · exact h.leadsOn_idle hk hx hop

theorem IdleRoom.shadows (hroom : b.IdleRoom room) (h : b.Spaced room b') (hb : b.Sound) :
    Machine.Shadows (b.stepper env args) (b'.stepper env args) b b' (landing room) where
  off hk := (h.get?_landing _).trans hk
  leave hk _ := (h.get?_landing _).trans hk
  keepsUp s hi ht :=
    h.keepsUp hb rfl hi hi ht (hroom.leadsOn h (List.getElem?_eq_some_iff.1 hi).1) s

/-- One step more is needed if there is an idle instruction in front of the first one. -/
theorem IdleRoom.run_matches (hroom : b.IdleRoom room) (h : b.Spaced room b') (hb : b.Sound)
    {limit : Nat} {host : σ} (hin : (b.run env limit args host).Within limit) :
    (b.run env limit args host).Matches (b'.run env (2 * limit + 1) args host) := by
  obtain ⟨n, hn, s, hreach⟩ := hroom.leadsOn h (Nat.zero_le _) (.start host) 0
  exact Body.run_matches (hroom.shadows h hb) ⟨s, hreach⟩ (by omega) hin

end Body

namespace Cursor

open Body

/-- A body into which one instruction has been inserted is the given one with room for it. -/
theorem insert_spaced {c : Cursor} (hb : c.body.Numbered) (hn : c.body.next < labelCount)
    (hindex : c.index ≤ c.body.length) (op : Opcode) (operands : List Operand) :
    ∃ after, c.insert op operands = .ok (c.body.nextLabel, after) ∧
      c.body.Spaced (Function.update (fun _ => []) c.index [⟨c.body.nextLabel, op, operands⟩])
        after.body := by
  have hinsert : c.insert op operands = .ok (c.body.nextLabel,
      ⟨insertAt ⟨c.body.instructions, c.body.next + 1⟩ c.index ⟨c.body.nextLabel, op, operands⟩,
        c.index + 1, some c.body.nextLabel⟩) := by
    unfold insert
    rw [freshLabel_of_lt hn]
    rfl
  have hgate : gate (fun _ => []) c.index = c.index := Instruction.gate_empty c.index
  have hspaced := c.body.spaced_self.update (x := ⟨c.body.nextLabel, op, operands⟩) hb hn hindex rfl
    rfl (c.body.next + 1)
  rw [hgate] at hspaced
  exact ⟨_, hinsert, hspaced⟩

/-- Wherever an idle instruction is inserted in a valid body, if there is a label for it: a run that is
    not cut off by its budget comes to the same with the instruction, in at most twice as many steps and
    one more, with the same calls of the host. -/
theorem insert_idle_matches {c : Cursor} (hb : c.body.Numbered) (hv : c.body.validate = .ok ())
    {index : Nat} (hindex : index ≤ c.body.length) (hn : c.body.next < labelCount)
    (operands : List Operand) :
    ∃ moved l after, c.goto index = .ok moved ∧
      moved.insert (.other .nop) operands = .ok (l, after) ∧
      ∀ {σ : Type} (env : Environment σ) (limit : Nat) (args : List Value) (host : σ),
        (c.body.run env limit args host).Within limit →
          (c.body.run env limit args host).Matches
            (after.body.run env (2 * limit + 1) args host) := by
  obtain ⟨after, hinsert, hspaced⟩ :=
    insert_spaced (c := c.placed index) hb hn hindex (.other .nop) operands
  refine ⟨c.placed index, _, after, goto_of_le hindex, hinsert, fun env limit args host hin => ?_⟩
  refine IdleRoom.run_matches (fun k _ => ?_) hspaced (hb.sound hv) hin
  by_cases hk : k = index
  · subst hk
    exact Or.inr ⟨_, Function.update_self .., rfl⟩
  · exact Or.inl (Function.update_of_ne hk ..)

/-- Counts its argument down to zero, with a branch back to the comparison. -/
def countdownBody : Body :=
  ⟨[⟨⟨0⟩, .other .loadArg, [.slot 0]⟩, ⟨⟨1⟩, .other .dup, []⟩,
    ⟨⟨2⟩, .branch, [.condition .ifFalse, .target ⟨6⟩]⟩,
    ⟨⟨3⟩, .loadConstant, [.value (.int 1)]⟩, ⟨⟨4⟩, .subtract, []⟩,
    ⟨⟨5⟩, .branch, [.target ⟨1⟩]⟩, ⟨⟨6⟩, .other .leave, []⟩], 7⟩

/-- The instruction is inserted into the loop, so that each round takes one step more and the budget
    that is just enough without it is not. -/
theorem insert_idle_matches_countdown : countdownBody.Numbered ∧ countdownBody.validate = .ok () ∧
    4 ≤ countdownBody.length ∧ countdownBody.next < labelCount ∧
    (countdownBody.run (.bare .inverted) 19 [.int 3] ()).Within 19 ∧
    (countdownBody.run (.bare .inverted) 19 [.int 3] ()).result = .ok (some (.int 0)) ∧
    ∃ moved l after, (ofBody countdownBody).goto 4 = .ok moved ∧
      moved.insert (.other .nop) [] = .ok (l, after) ∧
      ¬(after.body.run (.bare .inverted) 19 [.int 3] ()).Within 19 ∧
      (countdownBody.run (.bare .inverted) 19 [.int 3] ()).Matches
        (after.body.run (.bare .inverted) 39 [.int 3] ()) := by
  have hb : countdownBody.Numbered := ⟨by decide, by decide⟩
  have hv : countdownBody.validate = .ok () := by decide
  have hin : (countdownBody.run (.bare .inverted) 19 [.int 3] ()).Within 19 := by decide
  obtain ⟨moved, l, after, hgoto, hinsert, hruns⟩ :=
    insert_idle_matches (c := ofBody countdownBody) hb hv (show 4 ≤ countdownBody.length by decide)
      (by decide) []
  refine ⟨hb, hv, by decide, by decide, hin, rfl, moved, l, after, hgoto, hinsert, ?_,
    hruns _ _ _ _ hin⟩
  cases hgoto
  cases hinsert
  decide

end Cursor

end Inversion
