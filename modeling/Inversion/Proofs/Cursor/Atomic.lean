import Inversion.Cursor.Editing

/-!
Editing in place against editing at once. Each operation at a cursor, done as changes one after the
other, comes to what the same operation makes of the whole cursor, and where it fails it has not
changed anything yet.
-/

namespace Inversion

namespace Editing

variable {α β : Type} {c after : Cursor}

/-- What work comes to in place if it is done at once or not at all. -/
def atOnce (c : Cursor) : Except BodyError (α × Cursor) → EStateM.Result BodyError Cursor α
  | .ok (a, after) => .ok a after
  | .error e => .error e c

theorem run_bind_of_ok {m : Editing α} {a : α} (h : m.run c = .ok a after) (f : α → Editing β) :
    (m >>= f).run c = (f a).run after := by
  rw [EStateM.run_bind, h]

theorem run_bind_of_error {m : Editing α} {e : BodyError} (h : m.run c = .error e after)
    (f : α → Editing β) : (m >>= f).run c = .error e after := by
  rw [EStateM.run_bind, h]

/-- What follows may look at the cursor first. -/
theorem run_get_bind (f : Cursor → Editing α) : (get >>= f).run c = (f c).run c := rfl

/-- An answer that is only put into another form. -/
theorem run_answer {m : Editing α} {x : Except BodyError (α × Cursor)}
    (h : m.run c = atOnce c x) (f : α → β) :
    (m >>= fun a => pure (f a)).run c = atOnce c (x.map fun y => (f y.1, y.2)) := by
  cases x with
  | error e => exact run_bind_of_error h _
  | ok y => exact run_bind_of_ok h _

theorem goto_run (c : Cursor) (index : Nat) :
    (goto index).run c = atOnce c ((c.goto index).map fun after => ((), after)) := by
  rw [goto, run_get_bind, Cursor.goto]
  by_cases hlen : c.body.length < index
  · simp only [if_pos hlen]
    rfl
  · simp only [if_neg hlen]
    rfl

theorem gotoLabel_run (c : Cursor) (l : Label) :
    (gotoLabel l).run c = atOnce c ((c.gotoLabel l).map fun after => ((), after)) := by
  rw [gotoLabel, run_get_bind, Cursor.gotoLabel]
  cases c.body.position? l with
  | none => rfl
  | some index => exact goto_run c index

theorem seek_run (c : Cursor) (p : Pattern) (d : Direction) :
    (seek p d).run c = .ok (c.seek? p d).isSome ((c.seek? p d).getD c) := by
  rw [seek, run_get_bind, Cursor.seek?]
  cases p.findNext c.body.instructions c.index d with
  | none => rfl
  | some index => rfl

theorem insert_run (c : Cursor) (op : Opcode) (operands : List Operand) :
    (insert op operands).run c = atOnce c (c.insert op operands) := by
  have hfresh : freshLabel.run c
      = atOnce c (c.body.freshLabel.map fun x => (x.1, { c with body := x.2 })) := by
    rw [freshLabel, run_get_bind, Body.freshLabel]
    by_cases hn : c.body.next < labelCount
    · simp only [if_pos hn]
      rfl
    · simp only [if_neg hn]
      rfl
  rw [insert, Cursor.insert]
  cases hl : c.body.freshLabel with
  | error e =>
    rw [hl] at hfresh
    exact run_bind_of_error hfresh _
  | ok x =>
    rw [hl] at hfresh
    rw [run_bind_of_ok hfresh]
    rfl

theorem insertBranch_run (c : Cursor) (condition : Condition) (target : Label) :
    (insertBranch condition target).run c = atOnce c (c.insertBranch condition target) := by
  rw [insertBranch, run_get_bind, Cursor.insertBranch]
  by_cases hm : c.body.contains target
  · rw [if_pos hm, if_pos hm]
    exact insert_run c ..
  · rw [if_neg hm, if_neg hm]
    rfl

/-- Looking for the labels that branches target changes nothing. -/
theorem targeted_run (c : Cursor) (count : Nat) : ∀ labels : List Label,
    (targeted count labels).run c = atOnce c ((c.targeted count labels).map fun ls => (ls, c))
  | [] => rfl
  | l :: rest => by
    have ih := targeted_run c count rest
    rw [targeted, run_get_bind, Cursor.targeted]
    cases (c.outsideReferrer? count l).bind c.body.get? with
    | none => exact ih
    | some branch =>
      by_cases hs : c.standIn? = none
      · simp only [if_pos hs]
        rfl
      · simp only [if_neg hs]
        refine (run_answer ih (l :: ·)).trans ?_
        cases c.targeted count rest <;> rfl

theorem redirect_run (target : Label) : ∀ (labels : List Label) (c : Cursor),
    (redirect target labels).run c = .ok (Cursor.redirect target labels c.body).1
      { c with body := (Cursor.redirect target labels c.body).2 }
  | [], _ => rfl
  | l :: rest, c => by
    have ih := redirect_run target rest { c with body := c.body.retarget l target }
    rw [redirect, run_get_bind]
    exact run_bind_of_ok ih _

theorem remove_run (c : Cursor) (count : Nat) :
    (remove count).run c = atOnce c (c.remove count) := by
  rw [remove, run_get_bind, Cursor.remove]
  by_cases hlen : c.body.length < c.index + count
  · simp only [if_pos hlen]
    rfl
  · by_cases hc : count = 0
    · simp only [if_neg hlen, if_pos hc]
      rfl
    · simp only [if_neg hlen, if_neg hc]
      have ht := targeted_run c count ((c.body.span c.index count).map (·.label))
      cases hl : c.targeted count ((c.body.span c.index count).map (·.label)) with
      | error e =>
        rw [hl] at ht
        exact run_bind_of_error ht _
      | ok labels =>
        rw [hl] at ht
        refine (run_bind_of_ok ht _).trans ?_
        simp only [Cursor.cut]
        cases c.standIn? with
        | none => rfl
        | some l => exact run_bind_of_ok (redirect_run l labels c) _

end Editing

namespace Cursor

namespace Operation

/-- What an operation makes of the whole cursor. -/
def result (c : Cursor) : Operation → Except BodyError (Answer × Cursor)
  | goto index => (c.goto index).map fun after => (.moved, after)
  | reset => .ok (.moved, c.reset)
  | gotoEnd => .ok (.moved, c.gotoEnd)
  | gotoLabel l => (c.gotoLabel l).map fun after => (.moved, after)
  | seek p d => .ok (.sought (c.seek? p d).isSome, (c.seek? p d).getD c)
  | insert op operands => (c.insert op operands).map fun x => (.inserted x.1, x.2)
  | insertCall t => (c.insertCall t).map fun x => (.inserted x.1, x.2)
  | insertBranch condition target =>
    (c.insertBranch condition target).map fun x => (.inserted x.1, x.2)
  | remove count => (c.remove count).map fun x => (.removed x.1, x.2)

/-- Every operation is done at once or not at all. -/
theorem perform_run (op : Operation) (c : Cursor) :
    op.perform.run c = Editing.atOnce c (op.result c) := by
  cases op with
  | goto index =>
    refine (Editing.run_answer (Editing.goto_run c index) fun _ => Answer.moved).trans ?_
    rw [result]
    cases c.goto index <;> rfl
  | reset => rfl
  | gotoEnd => rfl
  | gotoLabel l =>
    refine (Editing.run_answer (Editing.gotoLabel_run c l) fun _ => Answer.moved).trans ?_
    rw [result]
    cases c.gotoLabel l <;> rfl
  | seek p d => exact Editing.run_bind_of_ok (Editing.seek_run c p d) _
  | insert op operands => exact Editing.run_answer (Editing.insert_run c op operands) _
  | insertCall t => exact Editing.run_answer (Editing.insert_run c ..) _
  | insertBranch condition target =>
    exact Editing.run_answer (Editing.insertBranch_run c condition target) _
  | remove count => exact Editing.run_answer (Editing.remove_run c count) _

theorem perform_ok {op : Operation} {c after : Cursor} {a : Answer}
    (h : op.perform.run c = .ok a after) : op.result c = .ok (a, after) := by
  rw [perform_run] at h
  cases hr : op.result c with
  | error e =>
    rw [hr] at h
    cases h
  | ok x =>
    rw [hr] at h
    cases h
    rfl

/-- An operation that fails leaves everything as it was. -/
theorem perform_error {op : Operation} {c after : Cursor} {e : BodyError}
    (h : op.perform.run c = .error e after) : after = c := by
  rw [perform_run] at h
  cases hr : op.result c with
  | error e' =>
    rw [hr] at h
    cases h
    rfl
  | ok x =>
    rw [hr] at h
    cases h

end Operation

end Cursor

end Inversion
