import Inversion.Body
import Inversion.Pattern.Search
import Inversion.Event

/-!
Editing a body at a cursor, which stands in front of the instruction at its index or at the end. What
is inserted gets a fresh label and ends up behind the cursor. A removal never leaves a branch without
its target: branches into the removed span are pointed to the instruction that the cursor has just
inserted in front of it, and without one the removal is refused. An edit that fails changes nothing.
-/

namespace Inversion

/-- A body with a place in it, and the label that was last inserted there if nothing has moved since. -/
structure Cursor where
  body : Body
  index : Nat
  inserted : Option Label

/-- A finished removal: what was taken out, and which branches were pointed elsewhere on the way, as
    how many and from which label. -/
structure Removal where
  removed : List Instruction
  moved : List (Nat × Label)
  target : Option Label

namespace Cursor

/-- A cursor at the start. -/
def ofBody (b : Body) : Cursor := ⟨b, 0, none⟩

/-- The instruction behind the cursor. -/
def current? (c : Cursor) : Option Instruction := c.body.get? c.index

/-- The instruction some steps away from that behind the cursor, backward if negative. -/
def peek? (c : Cursor) (offset : Int) : Option Instruction :=
  match (c.index : Int) + offset with
  | .ofNat target => c.body.get? target
  | .negSucc _ => none

/-- Moves to an index; the end is allowed. -/
def goto (c : Cursor) (index : Nat) : Except BodyError Cursor :=
  if c.body.length < index then .error (.outOfBounds index c.body.length)
  else .ok { c with index, inserted := none }

/-- Moves to the start. -/
def reset (c : Cursor) : Cursor := { c with index := 0, inserted := none }

/-- Moves to the end. -/
def gotoEnd (c : Cursor) : Cursor := { c with index := c.body.length, inserted := none }

/-- Moves in front of the instruction with a label. -/
def gotoLabel (c : Cursor) (l : Label) : Except BodyError Cursor :=
  match c.body.position? l with
  | some index => c.goto index
  | none => .error (.unknownLabel l)

/-- Moves to the start of the next match, if there is one. -/
def seek? (c : Cursor) (p : Pattern) (d : Direction) : Option Cursor :=
  (p.findNext c.body.instructions c.index d).map fun index => { c with index, inserted := none }

/-- What is reported of a search that has moved the cursor. -/
def foundEvent (p : Pattern) (d : Direction) (found : Cursor) : Event :=
  ⟨.trace, s!"cursor: `{p.name}` matched at {found.index} ({d.name})"⟩

/-- Inserts an instruction under a fresh label and moves behind it. -/
def insert (c : Cursor) (op : Opcode) (operands : List Operand) :
    Except BodyError (Label × Cursor) := do
  let (l, body) ← c.body.freshLabel
  return (l, ⟨body.insertAt c.index ⟨l, op, operands⟩, c.index + 1, some l⟩)

/-- Inserts a call of a transform. It takes the operands that the computation it stands for would
    have taken, and leaves its result in the same place. -/
def insertCall (c : Cursor) (t : Transform) : Except BodyError (Label × Cursor) :=
  c.insert .call [.callee (.transform t)]

/-- Inserts a branch to an instruction of the body. -/
def insertBranch (c : Cursor) (condition : Condition) (target : Label) :
    Except BodyError (Label × Cursor) :=
  if c.body.contains target then c.insert .branch [.condition condition, .target target]
  else .error (.unknownLabel target)

/-- The instruction that this cursor has just inserted, if it stands right in front of it. -/
def standIn? (c : Cursor) : Option Label :=
  if c.index = 0 then none
  else
    match c.body.get? (c.index - 1) with
    | some i => if c.inserted = some i.label then some i.label else none
    | none => none

/-- The first branch outside a span that targets a label. -/
def outsideReferrer? (c : Cursor) (count : Nat) (l : Label) : Option Nat :=
  (c.body.branchesTo l).find? fun referrer =>
    ¬(c.index ≤ referrer ∧ referrer < c.index + count)

/-- The labels of a span that branches outside it target; an error if there is one but nothing stands
    in for it. -/
def targeted (c : Cursor) (count : Nat) : List Label → Except BodyError (List Label)
  | [] => .ok []
  | l :: rest =>
    match (c.outsideReferrer? count l).bind c.body.get? with
    | none => c.targeted count rest
    | some branch =>
      if c.standIn? = none then .error (.dangling l branch.label)
      else (c.targeted count rest).map (l :: ·)

/-- Points the branches to some labels elsewhere, one label after the other, and counts them. -/
def redirect (target : Label) : List Label → Body → List (Nat × Label) × Body
  | [], b => ([], b)
  | l :: rest, b =>
    let (moved, after) := redirect target rest (b.retarget l target)
    (((b.branchesTo l).length, l) :: moved, after)

/-- Takes a span out, after the branches to some of its labels have been pointed to the instruction
    that stands in for it. -/
def cut (c : Cursor) (count : Nat) (labels : List Label) : Removal × Cursor :=
  match c.standIn? with
  | some l =>
    let (moved, body) := redirect l labels c.body
    (⟨body.span c.index count, moved, some l⟩, { c with body := body.removeSpan c.index count })
  | none =>
    (⟨c.body.span c.index count, [], none⟩, { c with body := c.body.removeSpan c.index count })

/-- Removes some instructions behind the cursor. The end of the span is a sum of natural numbers, and
    meant for sums that fit a machine word. -/
def remove (c : Cursor) (count : Nat) : Except BodyError (Removal × Cursor) :=
  if c.body.length < c.index + count then .error (.outOfBounds (c.index + count) c.body.length)
  else if count = 0 then .ok (⟨[], [], none⟩, c)
  else
    match c.targeted count ((c.body.span c.index count).map (·.label)) with
    | .error e => .error e
    | .ok labels => .ok (c.cut count labels)

/-! ### What the operations do to the body's labels -/

theorem goto_body {c c' : Cursor} {index : Nat} (h : c.goto index = .ok c') : c'.body = c.body := by
  unfold goto at h
  split at h <;> cases h
  rfl

theorem seek?_body {c found : Cursor} {p : Pattern} {d : Direction}
    (h : c.seek? p d = some found) : found.body = c.body := by
  unfold seek? at h
  obtain ⟨_, _, rfl⟩ := Option.map_eq_some_iff.1 h
  rfl

theorem insert_unused {c c' : Cursor} {l : Label} {op : Opcode} {operands : List Operand}
    (h : c.insert op operands = .ok (l, c')) : c'.body.unused < c.body.unused := by
  unfold insert Body.freshLabel at h
  split at h <;> cases h
  simp only [Body.unused, Body.insertAt]
  omega

theorem redirect_next (target : Label) : ∀ (ls : List Label) (b : Body),
    (redirect target ls b).2.next = b.next
  | [], _ => rfl
  | l :: rest, b => redirect_next target rest (b.retarget l target)

theorem cut_next (c : Cursor) (count : Nat) (labels : List Label) :
    (c.cut count labels).2.body.next = c.body.next := by
  unfold cut
  split
  · exact redirect_next _ labels c.body
  · rfl

theorem remove_next {c c' : Cursor} {count : Nat} {r : Removal}
    (h : c.remove count = .ok (r, c')) : c'.body.next = c.body.next := by
  unfold remove at h
  split at h
  · cases h
  · split at h
    · cases h; rfl
    · split at h
      · cases h
      · rename_i labels _
        have := cut_next c count labels
        rw [Except.ok.inj h] at this
        exact this

end Cursor

/-- What is reported of a removal: the branches that were pointed elsewhere. -/
def Removal.events (r : Removal) : List Event :=
  match r.target with
  | none => []
  | some target => r.moved.map fun (count, l) =>
    ⟨.trace, s!"cursor: retargeted {count} branch(es) {l} -> {target}"⟩

end Inversion
