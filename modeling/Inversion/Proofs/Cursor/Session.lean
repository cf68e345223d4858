import Inversion.Assembly.Parser
import Inversion.Proofs.Cursor.Atomic
import Inversion.Proofs.Cursor.Validity

/-!
Editing sessions: any operations at one cursor, some of which may fail. A session that starts from a
valid body and inserts branches only to instructions that are there keeps the body valid and the place
inside it after each operation, and no label is given out that the body has ever had.
-/

namespace Inversion

namespace Body

/-- A body that is made of instructions or read from a text, or the empty one, with instructions added
    at the end. -/
inductive Built : Body → Prop where
  | empty : Built empty
  | ofInstructions {instructions : List Instruction} {b : Body} :
      ofInstructions instructions = .ok b → Built b
  | parse {text : String} {b : Body} : Body.parse text = .ok b → Built b
  | push {b b' : Body} {op : Opcode} {operands : List Operand} {l : Label} :
      Built b → b.push op operands = .ok (l, b') → Built b'

theorem Built.numbered {b : Body} (h : b.Built) : b.Numbered := by
  induction h with
  | empty => exact empty_numbered
  | ofInstructions h => exact ofInstructions_numbered h
  | parse h =>
    unfold Body.parse at h
    split at h
    · cases h
    · split at h
      · cases h
      · cases h
      · exact ofInstructions_numbered h
  | push _ h ih => exact push_numbered ih h

end Body

theorem exists_of_map_eq_ok {ε α β : Type} {x : Except ε α} {f : α → β} {b : β}
    (h : x.map f = .ok b) : ∃ a, x = .ok a ∧ f a = b := by
  cases x with
  | error e => cases h
  | ok a => exact ⟨a, rfl, Except.ok.inj h⟩

namespace Cursor

variable {c after : Cursor} {l : Label}

/-! ### One operation -/

theorem insert_eq_ok {op : Opcode} {operands : List Operand}
    (h : c.insert op operands = .ok (l, after)) :
    c.body.next < labelCount ∧ l = c.body.nextLabel ∧
      after = ⟨Body.insertAt ⟨c.body.instructions, c.body.next + 1⟩ c.index ⟨l, op, operands⟩,
        c.index + 1, some l⟩ := by
  unfold insert at h
  by_cases hn : c.body.next < labelCount
  · rw [Body.freshLabel_of_lt hn] at h
    cases h
    exact ⟨hn, rfl, rfl⟩
  · rw [Body.freshLabel_of_le (Nat.le_of_not_lt hn)] at h
    cases h

/-- What a cursor has become when some labels have been given out: it is valid, and the labels differ
    and lie between the next one before and the next one now. -/
structure Becomes (c : Cursor) (given : List Label) (after : Cursor) : Prop where
  sound : after.Sound
  next_le : c.body.next ≤ after.body.next
  fresh : ∀ l ∈ given, c.body.next ≤ l.number.toNat ∧ l.number.toNat < after.body.next
  nodup : given.Nodup

namespace Becomes

variable {given more : List Label} {last : Cursor}

/-- No label has been given out. -/
theorem kept (h : after.Sound) (hnext : after.body.next = c.body.next) : c.Becomes [] after :=
  ⟨h, Nat.le_of_eq hnext.symm, by simp, List.nodup_nil⟩

theorem moved (h : after.Sound) (hbody : after.body = c.body) : c.Becomes [] after :=
  .kept h (congrArg Body.next hbody)

theorem trans (h : c.Becomes given after) (h' : after.Becomes more last) :
    c.Becomes (given ++ more) last := by
  refine ⟨h'.sound, Nat.le_trans h.next_le h'.next_le, ?_, ?_⟩
  · intro l hl
    rcases List.mem_append.1 hl with hl | hl
    · exact ⟨(h.fresh l hl).1, Nat.lt_of_lt_of_le (h.fresh l hl).2 h'.next_le⟩
    · exact ⟨Nat.le_trans h.next_le (h'.fresh l hl).1, (h'.fresh l hl).2⟩
  · refine List.nodup_append.2 ⟨h.nodup, h'.nodup, ?_⟩
    rintro l hl l' hl' rfl
    have hbefore := (h.fresh l hl).2
    have hbehind := (h'.fresh l hl').1
    omega

theorem inserted (hc : c.Sound) {op : Opcode} {operands : List Operand}
    (hop : op = .branch → ∃ t ∈ c.body.labels, operands.findSome? Operand.target? = some t)
    (h : c.insert op operands = .ok (l, after)) : c.Becomes [l] after := by
  obtain ⟨hn, rfl, rfl⟩ := insert_eq_ok h
  have hlen := Body.insertAt_length (i := ⟨c.body.nextLabel, op, operands⟩) hc.within
  refine ⟨⟨hc.body.insertAt hn c.index hop, ?_⟩, Nat.le_succ _, ?_, List.nodup_singleton _⟩
  · exact hlen ▸ Nat.succ_le_succ hc.within
  · intro x hx
    rw [List.mem_singleton.1 hx, Body.nextLabel_number hn]
    exact ⟨Nat.le_refl _, Nat.lt_succ_self _⟩

end Becomes

/-- The label that an answer gives out, if it gives one. -/
def Answer.given : Answer → List Label
  | .inserted l => [l]
  | _ => []

namespace Operation

/-- A branch may only be inserted with a target that is there; anything else may be tried. -/
def Permitted (c : Cursor) : Operation → Prop
  | insert op operands => op = .branch →
      ∃ t ∈ c.body.labels, operands.findSome? Operand.target? = some t
  | _ => True

/-- What one operation preserves. -/
theorem result_becomes {op : Operation} {a : Answer} (hc : c.Sound) (hop : op.Permitted c)
    (h : op.result c = .ok (a, after)) : c.Becomes a.given after := by
  cases op with
  | goto index =>
    obtain ⟨moved, hg, hx⟩ := exists_of_map_eq_ok h
    cases hx
    exact .moved (hc.goto hg) (goto_body hg)
  | reset =>
    cases h
    exact .moved (hc.placed (Nat.zero_le _)) rfl
  | gotoEnd =>
    cases h
    exact .moved (hc.placed (Nat.le_refl _)) rfl
  | gotoLabel l =>
    obtain ⟨moved, hg, hx⟩ := exists_of_map_eq_ok h
    cases hx
    unfold Cursor.gotoLabel at hg
    split at hg
    · exact .moved (hc.goto hg) (goto_body hg)
    · cases hg
  | seek p d =>
    cases h
    cases hs : c.seek? p d with
    | none => exact .moved hc rfl
    | some found => exact .moved (hc.seek hs) (seek?_body hs)
  | insert op operands =>
    obtain ⟨x, hi, hx⟩ := exists_of_map_eq_ok h
    cases hx
    exact .inserted hc hop hi
  | insertCall t =>
    obtain ⟨x, hi, hx⟩ := exists_of_map_eq_ok h
    cases hx
    have hcall : c.insert .call [.callee (.transform t)] = .ok x := hi
    refine .inserted hc ?_ hcall
    rintro ⟨⟩
  | insertBranch condition target =>
    obtain ⟨x, hi, hx⟩ := exists_of_map_eq_ok h
    cases hx
    unfold Cursor.insertBranch at hi
    split at hi
    · rename_i htarget
      exact .inserted hc (fun _ => ⟨target, Body.mem_labels_of_contains htarget, rfl⟩) hi
    · cases hi
  | remove count =>
    obtain ⟨x, hr, hx⟩ := exists_of_map_eq_ok h
    cases hx
    exact .kept (hc.remove hr) (remove_next hr)

/-! ### Sessions -/

/-- The label that an operation gives out in place, and the cursor that it leaves, whether it succeeds
    or fails. -/
def step (op : Operation) (c : Cursor) : List Label × Cursor :=
  match op.perform.run c with
  | .ok a after => (a.given, after)
  | .error _ after => ([], after)

/-- The labels that some operations give out, and the cursor that they leave. -/
def performAll : List Operation → Cursor → List Label × Cursor
  | [], c => ([], c)
  | op :: ops, c =>
    let (given, after) := op.step c
    let (more, last) := performAll ops after
    (given ++ more, last)

/-- Each operation is permitted where it is tried. -/
def PermittedAll : List Operation → Cursor → Prop
  | [], _ => True
  | op :: ops, c => op.Permitted c ∧ PermittedAll ops (op.step c).2

instance (c : Cursor) : (op : Operation) → Decidable (op.Permitted c)
  | insert _ _ => inferInstanceAs (Decidable (_ → _))
  | goto _ | reset | gotoEnd | gotoLabel _ | seek _ _ | insertCall _ | insertBranch _ _
  | remove _ => inferInstanceAs (Decidable True)

instance : (ops : List Operation) → (c : Cursor) → Decidable (PermittedAll ops c)
  | [], _ => inferInstanceAs (Decidable True)
  | op :: ops, c =>
    have : Decidable (PermittedAll ops (op.step c).2) := instDecidablePermittedAll ops _
    inferInstanceAs (Decidable (_ ∧ _))

theorem step_becomes {op : Operation} (hc : c.Sound) (hop : op.Permitted c) :
    c.Becomes (op.step c).1 (op.step c).2 := by
  unfold step
  cases hrun : op.perform.run c with
  | ok a after => exact result_becomes hc hop (perform_ok hrun)
  | error e after =>
    rw [perform_error hrun]
    exact .moved hc rfl

theorem performAll_becomes : ∀ {ops : List Operation} {c : Cursor}, c.Sound → PermittedAll ops c →
    c.Becomes (performAll ops c).1 (performAll ops c).2
  | [], _, hc, _ => .moved hc rfl
  | op :: ops, c, hc, ⟨hop, hops⟩ => by
    have hstep := step_becomes hc hop
    exact hstep.trans (performAll_becomes hstep.sound hops)

theorem performAll_append : ∀ (ops more : List Operation) (c : Cursor),
    (performAll (ops ++ more) c).2 = (performAll more (performAll ops c).2).2
  | [], _, _ => rfl
  | op :: ops, more, c => performAll_append ops more (op.step c).2

theorem PermittedAll.append : ∀ {ops more : List Operation} {c : Cursor},
    PermittedAll (ops ++ more) c → PermittedAll ops c ∧ PermittedAll more (performAll ops c).2
  | [], _, _, h => ⟨trivial, h⟩
  | op :: ops, _, c, ⟨hop, hops⟩ => by
    obtain ⟨hdone, hleft⟩ := PermittedAll.append hops
    exact ⟨⟨hop, hdone⟩, hleft⟩

/-- After any operations at a cursor on a valid body, whatever fails: labels differ, every branch has
    the label of an instruction as its target, and the place lies inside the body. The next label lies
    above every label that the body has ever had, and no label is given out that the body had or that
    was given out before. An operation that fails now leaves everything as it is. -/
theorem performAll_valid {b : Body} (hb : b.Built) (hv : b.validate = .ok ())
    (ops : List Operation) (hops : PermittedAll ops (.ofBody b)) :
    let c := (performAll ops (.ofBody b)).2
    c.body.labels.Nodup ∧
      (∀ i ∈ c.body.instructions, i.isBranch → ∃ t ∈ c.body.labels, i.target? = some t) ∧
      c.index ≤ c.body.length ∧
      (∀ done left, ops = done ++ left →
        ∀ l ∈ (performAll done (.ofBody b)).2.body.labels, l.number.toNat < c.body.next) ∧
      (b.labels ++ (performAll ops (.ofBody b)).1).Nodup ∧
      ∀ (op : Operation) (e : BodyError) (after : Cursor),
        op.perform.run c = .error e after → after = c := by
  intro c
  have hstart : (Cursor.ofBody b).Sound := ⟨hb.numbered.sound hv, Nat.zero_le _⟩
  have hall := performAll_becomes hstart hops
  refine ⟨hall.sound.body.nodup, hall.sound.body.resolves, hall.sound.within, ?_, ?_, ?_⟩
  · rintro done left rfl l hl
    obtain ⟨hdone, hleft⟩ := PermittedAll.append hops
    have hfirst := performAll_becomes hstart hdone
    have hrest := performAll_becomes hfirst.sound hleft
    rw [← performAll_append] at hrest
    exact Nat.lt_of_lt_of_le (hfirst.sound.body.below l hl) hrest.next_le
  · refine List.nodup_append.2 ⟨hstart.body.nodup, hall.nodup, ?_⟩
    rintro l hl l' hl' rfl
    have hold : l.number.toNat < b.next := hstart.body.below l hl
    have hnew : b.next ≤ l.number.toNat := (hall.fresh l hl').1
    omega
  · intro op e after h
    exact perform_error h

/-- A loop that takes a minimum. -/
def clampBody : Body :=
  ⟨[⟨⟨0⟩, .other .loadArg, [.slot 0]⟩, ⟨⟨1⟩, .min, []⟩, ⟨⟨2⟩, .other .dup, []⟩,
    ⟨⟨3⟩, .branch, [.condition .ifFalse, .target ⟨1⟩]⟩, ⟨⟨4⟩, .other .leave, []⟩], 5⟩

/-- The minimum gives way to a call, which then gives way to a branch. On the way a move goes too far,
    and a removal is refused since nothing would stand in for the call. -/
def clampSession : List Operation :=
  [.gotoLabel ⟨1⟩, .insertCall .floatMin, .remove 1, .goto 9, .insertBranch .ifTrue ⟨5⟩, .goto 1,
    .remove 1, .insert .branch [.target ⟨4⟩], .remove 1]

theorem performAll_valid_clamp :
    let c := (performAll clampSession (.ofBody clampBody)).2
    clampBody.Built ∧ clampBody.validate = .ok () ∧ PermittedAll clampSession (.ofBody clampBody) ∧
      c.body.labels = [⟨0⟩, ⟨7⟩, ⟨6⟩, ⟨2⟩, ⟨3⟩, ⟨4⟩] ∧
      (∀ i ∈ c.body.instructions, i.isBranch → ∃ t ∈ c.body.labels, i.target? = some t) ∧
      (∀ l ∈ clampBody.labels, l.number.toNat < c.body.next) ∧
      (clampBody.labels ++ (performAll clampSession (.ofBody clampBody)).1).Nodup ∧
      ∃ after, (goto 9).perform.run c = .error (.outOfBounds 9 6) after ∧ after = c := by
  intro c
  have hmade : Body.ofInstructions clampBody.instructions = .ok clampBody := rfl
  have hb : clampBody.Built := .ofInstructions hmade
  have hv : clampBody.validate = .ok () := by decide
  have hops : PermittedAll clampSession (.ofBody clampBody) := by decide
  obtain ⟨-, hresolves, -, hbelow, hnodup, hfails⟩ := performAll_valid hb hv clampSession hops
  have hfar : (goto 9).perform.run c = .error (.outOfBounds 9 6) c := rfl
  exact ⟨hb, hv, hops, by decide, hresolves, hbelow [] clampSession rfl, hnodup, c, hfar,
    hfails _ _ _ hfar⟩

end Operation

end Cursor

end Inversion
