import Mathlib.Data.List.Permutation
import Inversion.Proofs.Arithmetic.Patch
import Inversion.Proofs.Run

/-!
What a body does after the arithmetic rule set has been applied to it, whatever the orientation: the
same, step by step, as the given body does when its arithmetic opcodes mean the transforms that took
their place.
-/

namespace Inversion

/-- Arithmetic in which an opcode means the transform that takes its place. -/
def Arithmetic.transformed : Arithmetic := fun g label op args =>
  match op.transform? with
  | some t => t.compute g args
  | none => Arithmetic.plain g label op args

/-- An arithmetic instruction under another label, which is the one that its faults name. -/
def Instruction.reportedAs (name : Label → Label) (i : Instruction) : Instruction :=
  if i.op.isArithmetic then { i with label := name i.label } else i

/-- Runs a body with a given arithmetic. What goes wrong at an arithmetic instruction is reported
    under another label. -/
def Body.runReporting {σ : Type} (name : Label → Label) (arithmetic : Arithmetic)
    (env : Environment σ) (limit : Nat) (b : Body) (args : List Value) (host : σ) : Run σ :=
  Machine.iterate (fun m i => (m.step arithmetic env b args (i.reportedAs name)).1) b limit limit
    (.start host)

variable {σ : Type} {name : Label → Label} {b b' : Body} {i : Instruction} {t : Transform}

theorem Arithmetic.transformed_eq {op : Opcode} (h : op.transform? = some t) (g : Orientation)
    (l : Label) : Arithmetic.transformed g l op = t.compute g := by
  funext args
  unfold Arithmetic.transformed
  rw [h]

namespace Instruction

theorem reportedAs_of_transform? (h : i.op.transform? = some t) :
    i.reportedAs name = { i with label := name i.label } :=
  if_pos (by rw [Opcode.isArithmetic_eq, h]; rfl)

theorem reportedAs_of_transform?_eq_none (h : i.op.transform? = none) : i.reportedAs name = i :=
  if_neg (by rw [Opcode.isArithmetic_eq, h]; nofun)

theorem callee?_of_transform? (h : i.op.transform? = some t) : i.callee? = none := by
  refine if_neg fun hc => ?_
  rw [hc] at h
  cases h

theorem isTerminal_of_transform? (h : i.op.transform? = some t) : i.isTerminal = false := by
  refine decide_eq_false fun hc => ?_
  rw [hc] at h
  cases h

end Instruction

/-! ### Steps of the patched body -/

theorem Body.position?_eq (b : Body) (l : Label) :
    b.position? l = b.labels.findIdx? fun x => x = l := by
  unfold Body.position? Body.labels
  rw [List.findIdx?_map]
  rfl

theorem findIdx?_map_name {l : Label} : ∀ {ls : List Label}, (∀ x ∈ ls, name x = name l → x = l) →
    (ls.map name).findIdx? (fun x => x = name l) = ls.findIdx? fun x => x = l
  | [], _ => rfl
  | x :: rest, h => by
    have ih := findIdx?_map_name fun y hy => h y (List.mem_cons_of_mem _ hy)
    rw [List.map_cons, List.findIdx?_cons, List.findIdx?_cons, ih]
    by_cases hx : x = l
    · simp [hx]
    · have hn : name x ≠ name l := fun he => hx (h x List.mem_cons_self he)
      simp [hx, hn]

theorem Body.Follows.position? (h : b.Follows name b') {l : Label} (hl : l ∈ b.labels) :
    b'.position? (name l) = b.position? l := by
  rw [Body.position?_eq, Body.position?_eq, h.labels]
  exact findIdx?_map_name fun x hx he => h.inj hx hl he

theorem Body.exists_position? {l : Label} (hl : l ∈ b.labels) : ∃ k, b.position? l = some k := by
  rw [Body.position?_eq, ← Option.isSome_iff_exists, List.findIdx?_isSome]
  exact List.any_eq_true.2 ⟨l, hl, decide_eq_true rfl⟩

theorem Instruction.renamed_condition? (ho : i.op.transform? = none) :
    (i.renamed name).condition? = i.condition? := by
  cases ht : i.target? with
  | none => rw [renamed_of_plain ho ht]
  | some l =>
    rw [renamed_of_target ho ht]
    split
    · rfl
    · exact condition?_retargeted i (name l)

namespace Machine

variable {m : Machine σ} {env : Environment σ} {args : List Value}

/-- A branch goes where it went before. -/
theorem branch_renamed (h : b.Follows name b') (ho : i.op.transform? = none)
    (hr : ∀ l, i.target? = some l → l ∈ b.labels) :
    m.branch b' (i.renamed name) = m.branch b i := by
  unfold branch
  rw [Instruction.renamed_condition? ho, Instruction.renamed_target?]
  cases ht : i.target? with
  | none => rfl
  | some l =>
    obtain ⟨k, hk⟩ := Body.exists_position? (hr l ht)
    simp only [Option.map_some, h.position? (hr l ht), hk]

/-- A step that leads to another machine or fails at this one, and reports nothing. -/
def silently (m : Machine σ) : Except Error (Machine σ) → Progress σ × List Event
  | .ok m => (.running m, [])
  | .error e => (.halted m (.error e), [])

/-- The step at a branch, which no arithmetic has a part in. -/
theorem step_of_branch (arithmetic : Arithmetic) (b : Body) (h : i.op = .branch) :
    m.step arithmetic env b args i = silently { m with steps := m.steps + 1 }
      (stopAt i.label (branch { m with steps := m.steps + 1 } b i)) := by
  have hc : i.callee? = none := if_neg (by rw [h]; nofun)
  unfold step
  rw [hc]
  simp only [execute, h]
  rfl

/-- Only branches look at the body, and only the arithmetic opcodes at the arithmetic. -/
theorem step_congr (arithmetic arithmetic' : Arithmetic) (ho : i.op.transform? = none)
    (hbr : i.op = .branch → b = b') :
    m.step arithmetic env b args i = m.step arithmetic' env b' args i := by
  have hex : ∀ (g : Orientation) (m : Machine σ),
      m.execute arithmetic g b args i = m.execute arithmetic' g b' args i := by
    intro g m
    unfold execute
    cases hop : i.op with
    | branch => rw [hbr hop]
    | loadConstant | call | other op => rfl
    | add | subtract | min | max | sign => rw [hop] at ho; cases ho
  unfold step
  simp only [hex]

/-- Takes operands from the stack and puts there what a function makes of them. -/
def operate (m : Machine σ) (l : Label) (count : Nat) (f : List Value → Except Error Value) :
    Except Error (Machine σ) := do
  let (operands, m) ← stopAt l (m.take count)
  let v ← f operands
  return (m.push v).advance

theorem operate_of_underflow {l : Label} {count : Nat} {f : List Value → Except Error Value}
    {fault : RunFault} (h : m.take count = .error fault) :
    m.operate l count f = .error (.stopped l fault) := by
  unfold operate
  rw [h]
  rfl

theorem operate_of_take {l : Label} {count : Nat} {f : List Value → Except Error Value}
    {operands : List Value} {rest : Machine σ} (h : m.take count = .ok (operands, rest)) :
    m.operate l count f = (f operands).map fun v => (rest.push v).advance := by
  unfold operate
  rw [h]
  show (f operands >>= _) = _
  cases f operands <;> rfl

/-- The step at an arithmetic instruction, whatever the opcodes mean. -/
theorem step_of_transform? (arithmetic : Arithmetic) (b : Body) (h : i.op.transform? = some t) :
    m.step arithmetic env b args i = silently { m with steps := m.steps + 1 }
      (operate { m with steps := m.steps + 1 } i.label t.arity
        (arithmetic (env.orientation m.host) i.label i.op)) := by
  have hex : ∀ (g : Orientation) (m : Machine σ), m.execute arithmetic g b args i
      = m.operate i.label t.arity (arithmetic g i.label i.op) := by
    intro g m
    unfold execute
    cases hop : i.op with
    | add | subtract | min | max | sign => rw [hop] at h; cases h; rfl
    | loadConstant | branch | call | other op => rw [hop] at h; cases h
  unfold step
  rw [Instruction.callee?_of_transform? h]
  simp only [hex]
  rfl

/-- The call of a transform does what its opcode does when it means the transform. -/
theorem step_transformCall (b b' : Body) (l : Label) (h : i.op.transform? = some t) :
    m.step .plain env b' args (.transformCall l t)
      = m.step .transformed env b args { i with label := l } := by
  rw [step_of_transform? (i := { i with label := l }) .transformed b h, Arithmetic.transformed_eq h]
  rfl

/-- A step of the patched body is the step of the given body with transforms for arithmetic. -/
theorem step_renamed (h : b.Follows name b') (hb : b.Sound) (hi : i ∈ b.instructions)
    (hmoved : i.op.transform?.isSome → name i.label ≠ i.label) :
    m.step .plain env b' args (i.renamed name)
      = m.step .transformed env b args (i.reportedAs name) := by
  cases ho : i.op.transform? with
  | some t =>
    rw [Instruction.renamed_of_moved (hmoved (by rw [ho]; rfl)) ho,
      Instruction.reportedAs_of_transform? ho]
    exact step_transformCall b b' (name i.label) ho
  | none =>
    rw [Instruction.reportedAs_of_transform?_eq_none ho]
    by_cases hbr : i.op = .branch
    · have hl : (i.renamed name).label = i.label :=
        (Instruction.renamed_label (h.fixed i hi)).trans (h.fixed i hi ho)
      rw [step_of_branch _ b' ((Instruction.renamed_op_of_transform?_eq_none ho).trans hbr),
        step_of_branch _ b hbr, hl, branch_renamed h ho fun l => hb.target_mem hi]
    · have ht : i.target? = none := if_neg fun hc => hbr (of_decide_eq_true hc)
      rw [Instruction.renamed_of_plain ho ht]
      exact step_congr .plain .transformed ho fun hc => absurd hc hbr

end Machine

/-! ### Runs of the patched body -/

theorem Body.Follows.run (h : b.Follows name b') (hb : b.Sound)
    (hmoved : ∀ i ∈ b.instructions, i.op.transform?.isSome → name i.label ≠ i.label)
    (env : Environment σ) (limit : Nat) (args : List Value) (host : σ) :
    b'.run env limit args host = b.runReporting name .transformed env limit args host := by
  unfold Body.run Body.runWith Body.runReporting
  rw [Machine.runFor_eq_iterate]
  refine Machine.iterate_lockstep h.get? (fun i hi => ?_) (fun m i hi => ?_) limit _
  · cases ho : i.op.transform? with
    | some t =>
      rw [Instruction.renamed_of_moved (hmoved i hi (by rw [ho]; rfl)) ho,
        Instruction.isTerminal_of_transform? ho]
      rfl
    | none =>
      unfold Instruction.isTerminal
      rw [Instruction.renamed_op_of_transform?_eq_none ho]
  · rw [Machine.step_renamed h hb hi (hmoved i hi)]

/-- The same result or, where an arithmetic instruction cannot be carried out, the same fault under
    the instruction's other label. -/
def Body.Agrees (name : Label → Label) (b : Body) (x y : Except Error (Option Value)) : Prop :=
  x = y ∨ ∃ i ∈ b.instructions, i.op.isArithmetic ∧ ∃ fault,
    x = .error (.stopped i.label fault) ∧ y = .error (.stopped (name i.label) fault)

namespace Machine

variable {m : Machine σ} {env : Environment σ} {args : List Value}

theorem step_reportedAs_alike (hi : i ∈ b.instructions) :
    (m.step .transformed env b args i).1.Alike (b.Agrees name)
      (m.step .transformed env b args (i.reportedAs name)).1 := by
  have hrefl : ∀ p : Progress σ, p.Alike (b.Agrees name) p := .refl fun _ => Or.inl rfl
  cases ho : i.op.transform? with
  | none =>
    rw [Instruction.reportedAs_of_transform?_eq_none ho]
    exact hrefl _
  | some t =>
    rw [Instruction.reportedAs_of_transform? ho, step_of_transform? .transformed b ho,
      step_of_transform? (i := { i with label := name i.label }) .transformed b ho,
      Arithmetic.transformed_eq ho, Arithmetic.transformed_eq ho]
    cases htake : take { m with steps := m.steps + 1 } t.arity with
    | ok r =>
      rw [operate_of_take htake, operate_of_take htake]
      exact hrefl _
    | error fault =>
      rw [operate_of_underflow htake, operate_of_underflow htake]
      have harith : i.op.isArithmetic = true := by
        rw [Opcode.isArithmetic_eq, ho]
        rfl
      exact .halted _ (Or.inr ⟨i, hi, harith, fault, rfl, rfl⟩)

end Machine

theorem Body.runReporting_alike (name : Label → Label) (b : Body) (env : Environment σ)
    (limit : Nat) (args : List Value) (host : σ) :
    (b.runWith .transformed env limit args host).Alike (b.Agrees name)
      (b.runReporting name .transformed env limit args host) := by
  unfold Body.runWith Body.runReporting
  rw [Machine.runFor_eq_iterate]
  exact Machine.iterate_alike (fun _ => Or.inl rfl) fun e he =>
    Machine.step_reportedAs_alike (Machine.history_mem he)

namespace Engine

/-- A valid body patched with the arithmetic rule set. Every arithmetic instruction has become the
    call of its transform, in place and under another label, and whatever the orientation, the patched
    body runs as the given one with transforms for arithmetic: it has the same result, the same steps,
    the same calls and the same host, but an arithmetic instruction that stops the run is reported as
    the call. -/
theorem patch_simulates {engine : Engine} {target : Method} {rules : String} {b p : Body}
    {report : Report} (hb : b.Numbered) (hv : b.validate = .ok ())
    (h : (engine.patch target (RuleSet.arithmetic rules) b).outcome = .ok (p, report)) :
    ∃ name : Label → Label,
      (∀ i ∈ b.instructions, ¬i.op.isArithmetic → name i.label = i.label) ∧
      (∀ k i t, b.get? k = some i → i.op.transform? = some t →
        p.get? k = some (.transformCall (name i.label) t)) ∧
      ∀ {σ : Type} (env : Environment σ) (limit : Nat) (args : List Value) (host : σ),
        p.run env limit args host = b.runReporting name .transformed env limit args host ∧
        (b.runWith .transformed env limit args host).Alike (b.Agrees name)
          (p.run env limit args host) := by
  have hs := hb.sound hv
  obtain ⟨name, hf, hmoved⟩ := patch_follows hs h
  refine ⟨name, fun i hi ho => hf.fixed i hi ?_, fun k i t hk ht => ?_, fun env limit args host => ?_⟩
  · rwa [Opcode.isArithmetic_eq, Option.not_isSome_iff_eq_none] at ho
  · have hi : i ∈ b.instructions := List.mem_of_getElem? hk
    have hne := hmoved i hi (by rw [ht]; rfl)
    rw [hf.get?, hk, Option.map_some, Instruction.renamed_of_moved hne ht]
  · have hrun := hf.run hs hmoved env limit args host
    exact ⟨hrun, hrun ▸ Body.runReporting_alike name b env limit args host⟩

/-- Adds its second argument to its first one until the host has had enough. The branch leads back
    to the addition. -/
def loopBody : Body :=
  ⟨[⟨⟨0⟩, .other .loadArg, [.slot 0]⟩, ⟨⟨1⟩, .other .loadArg, [.slot 1]⟩, ⟨⟨2⟩, .add, []⟩,
    ⟨⟨3⟩, .other .loadArg, [.slot 1]⟩, ⟨⟨4⟩, .call, [.callee (.method "again" 0 true)]⟩,
    ⟨⟨5⟩, .branch, [.condition .ifTrue, .target ⟨2⟩]⟩, ⟨⟨6⟩, .other .pop, []⟩,
    ⟨⟨7⟩, .other .leave, []⟩], 8⟩

/-- The same with a call for the addition; the branch leads back to the call. -/
def loopPatched : Body :=
  ⟨[⟨⟨0⟩, .other .loadArg, [.slot 0]⟩, ⟨⟨1⟩, .other .loadArg, [.slot 1]⟩,
    .transformCall ⟨8⟩ .vecAdd, ⟨⟨3⟩, .other .loadArg, [.slot 1]⟩,
    ⟨⟨4⟩, .call, [.callee (.method "again" 0 true)]⟩,
    ⟨⟨5⟩, .branch, [.condition .ifTrue, .target ⟨8⟩]⟩, ⟨⟨6⟩, .other .pop, []⟩,
    ⟨⟨7⟩, .other .leave, []⟩], 9⟩

theorem loop_patch : ∃ report, ((⟨true⟩ : Engine).patch ⟨"Player", "Fall"⟩
    (RuleSet.arithmetic "fall") loopBody).outcome = .ok (loopPatched, report) :=
  ⟨_, by cbv⟩

theorem patch_simulates_loop : ∃ report, loopBody.Numbered ∧ loopBody.validate = .ok () ∧
    ((⟨true⟩ : Engine).patch ⟨"Player", "Fall"⟩ (RuleSet.arithmetic "fall") loopBody).outcome
      = .ok (loopPatched, report) ∧
    ∃ name : Label → Label, name ⟨2⟩ = ⟨8⟩ ∧
      (∀ i ∈ loopBody.instructions, ¬i.op.isArithmetic → name i.label = i.label) ∧
      ∀ {σ : Type} (env : Environment σ) (limit : Nat) (args : List Value) (host : σ),
        loopPatched.run env limit args host
          = loopBody.runReporting name .transformed env limit args host ∧
        (loopBody.runWith .transformed env limit args host).Alike (loopBody.Agrees name)
          (loopPatched.run env limit args host) := by
  obtain ⟨report, h⟩ := loop_patch
  have hb : loopBody.Numbered := ⟨by decide, by decide⟩
  have hv : loopBody.validate = .ok () := by decide
  obtain ⟨name, hfixed, hcalls, hrun⟩ := patch_simulates hb hv h
  have hcall := hcalls 2 ⟨⟨2⟩, .add, []⟩ .vecAdd rfl rfl
  have hname : name ⟨2⟩ = ⟨8⟩ := by
    injection hcall with hcall
    injection hcall with hlabel
    exact hlabel.symm
  exact ⟨report, hb, hv, h, name, hname, hfixed, hrun⟩

end Engine

end Inversion
