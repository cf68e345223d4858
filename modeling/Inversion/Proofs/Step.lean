import Inversion.Proofs.Relocation

/-!
What one step of a run can do. Most instructions leave the calls and the host alone; a call of a method
adds one call. A step that fails does so for a reason of its own, which at a branch may be that its
target is not there, or because of what the host has answered to a call. Whatever is said of the
calls and the errors of whole runs comes from here. All along, the host is what the calls so far have
made of it.
-/

namespace Inversion

/-! ### Results of computations that may fail -/

/-- Every error of a result is of one kind, and every value of another. -/
def Meets {ε α : Type} (P : ε → Prop) (Q : α → Prop) : Except ε α → Prop
  | .error e => P e
  | .ok a => Q a

theorem Meets.bind {ε α β : Type} {P : ε → Prop} {Q : α → Prop} {R : β → Prop} {x : Except ε α}
    {k : α → Except ε β} (hx : Meets P Q x) (hk : ∀ a, Q a → Meets P R (k a)) :
    Meets P R (x >>= k) := by
  cases x with
  | error e => exact hx
  | ok a => exact hk a hx

/-! ### Branches that are taken -/

/-- Whether a fault is that a branch which is taken has no target, or one that is not there. -/
def RunFault.isLost : RunFault → Bool
  | .noTarget | .unknownTarget _ => true
  | _ => false

/-- Whether a fault has nothing to do with the target of a branch, nor with the answer to a call. -/
def RunFault.isPlain : RunFault → Bool
  | .noTarget | .unknownTarget _ | .returnedNothing _ => false
  | _ => true

/-- The fault with which a branch ends a run when it is taken, if it does. -/
def Body.lostFault? (b : Body) (i : Instruction) : Option RunFault :=
  match i.target? with
  | none => some .noTarget
  | some target => if b.position? target = none then some (.unknownTarget target) else none

variable {σ : Type}

namespace Machine

/-- A machine at which a branch is taken. -/
def Takes (m : Machine σ) (i : Instruction) (m' : Machine σ) : Prop :=
  m.decideBranch (i.condition?.getD .always) = .ok (true, m')

variable {m m' : Machine σ} {b : Body} {i : Instruction} {env : Environment σ} {args : List Value}

theorem branch_of_takes (h : m.Takes i m') : m.branch b i = match b.lostFault? i with
    | some fault => .error fault
    | none => .ok { m' with index := (i.target?.bind b.position?).getD 0 } := by
  unfold Takes at h
  unfold branch Body.lostFault?
  rw [h]
  cases ht : i.target? with
  | none => rfl
  | some l =>
    cases hp : b.position? l with
    | none => simp only [bind, Except.bind, if_true, hp]; rfl
    | some k => simp only [bind, Except.bind, if_true, hp, Option.bind_some]; rfl

/-! ### What an instruction leaves alone -/

/-- The calls and the host are those of another machine. -/
structure Alongside (m' m : Machine σ) : Prop where
  calls : m'.calls = m.calls
  host : m'.host = m.host

theorem Alongside.refl (m : Machine σ) : m.Alongside m := ⟨rfl, rfl⟩

theorem Alongside.trans {m₁ m₂ m₃ : Machine σ} (h : m₁.Alongside m₂) (h' : m₂.Alongside m₃) :
    m₁.Alongside m₃ := ⟨h.calls.trans h'.calls, h.host.trans h'.host⟩

abbrev Plainly (fault : RunFault) : Prop := fault.isPlain = true

theorem pop_meets (m : Machine σ) : Meets Plainly (fun x => x.2.Alongside m) m.pop := by
  unfold pop
  cases m.stack with
  | nil => rfl
  | cons v rest => exact ⟨rfl, rfl⟩

theorem take_meets (m : Machine σ) (count : Nat) :
    Meets Plainly (fun x => x.2.Alongside m) (m.take count) := by
  unfold take
  split
  · rfl
  · exact ⟨rfl, rfl⟩

theorem pair_meets (m : Machine σ) : Meets Plainly (fun x => x.2.2.Alongside m) m.pair :=
  m.pop_meets.bind fun x hx => x.2.pop_meets.bind fun _ hy => hy.trans hx

theorem truth_meets (v : Value) : Meets Plainly (fun _ => True) (truth v) := by
  cases v with
  | bool _ | int _ => trivial
  | float _ | vector _ => rfl

theorem slotOf_meets (i : Instruction) : Meets Plainly (fun _ => True) (slotOf i) := by
  unfold slotOf
  cases i.slot? with
  | none => rfl
  | some slot => trivial

theorem negated_meets (v : Value) : Meets Plainly (fun _ => True) (negated v) := by
  cases v with
  | int _ | float _ | vector _ => trivial
  | bool _ => rfl

theorem order_meets (v w : Value) : Meets Plainly (fun _ => True) (order v w) := by
  unfold order
  split <;> trivial

theorem decideBranch_meets (m : Machine σ) (c : Condition) :
    Meets Plainly (fun x => x.2.Alongside m) (m.decideBranch c) := by
  cases c with
  | always => exact .refl m
  | ifTrue | ifFalse => exact m.pop_meets.bind fun x hx => (truth_meets x.1).bind fun _ _ => hx

theorem stackOp_meets (m : Machine σ) (i : Instruction) (op : StackOp) :
    Meets Plainly (fun m' => m'.Alongside m) (m.stackOp args i op) := by
  cases op with
  | leave | nop => exact .refl m
  | loadArg =>
    refine (slotOf_meets i).bind fun slot _ => ?_
    cases args[slot.toNat]? with
    | none => rfl
    | some v => exact ⟨rfl, rfl⟩
  | loadLocal =>
    refine (slotOf_meets i).bind fun slot _ => ?_
    cases m.local? slot with
    | none => rfl
    | some v => exact ⟨rfl, rfl⟩
  | storeLocal =>
    exact (slotOf_meets i).bind fun _ _ => m.pop_meets.bind fun _ hx => ⟨hx.calls, hx.host⟩
  | dup => exact m.pop_meets.bind fun _ _ => ⟨rfl, rfl⟩
  | pop => exact m.pop_meets.bind fun _ hx => hx
  | negate =>
    exact m.pop_meets.bind fun x hx => (negated_meets x.1).bind fun _ _ => ⟨hx.calls, hx.host⟩
  | less | greater =>
    exact m.pair_meets.bind fun x hx => (order_meets x.1 x.2.1).bind fun _ _ => ⟨hx.calls, hx.host⟩
  | equal => exact m.pair_meets.bind fun _ hx => ⟨hx.calls, hx.host⟩

/-- A branch fails at its target only if that is not there. -/
theorem branch_meets (m : Machine σ) (b : Body) (i : Instruction) :
    Meets (fun fault => fault.isPlain = true ∨ b.lostFault? i = some fault)
      (fun m' => m'.Alongside m) (m.branch b i) := by
  have hdecide := m.decideBranch_meets (i.condition?.getD .always)
  cases hd : m.decideBranch (i.condition?.getD .always) with
  | error fault =>
    rw [hd] at hdecide
    have hbranch : m.branch b i = .error fault := by unfold branch; rw [hd]; rfl
    rw [hbranch]
    exact Or.inl hdecide
  | ok x =>
    obtain ⟨taken, m'⟩ := x
    rw [hd] at hdecide
    cases taken with
    | false =>
      have hbranch : m.branch b i = .ok { m' with index := m'.index + 1 } := by
        unfold branch; rw [hd]; rfl
      rw [hbranch]
      exact ⟨hdecide.calls, hdecide.host⟩
    | true =>
      rw [branch_of_takes hd]
      cases b.lostFault? i with
      | some fault => exact Or.inr rfl
      | none => exact ⟨hdecide.calls, hdecide.host⟩

/-! ### How a step fails -/

/-- Why an instruction fails by itself: something stops the run there, at a branch perhaps the target
    of the branch, or a transform is given what it does not take. -/
inductive Fails (b : Body) (i : Instruction) : Error → Prop where
  | stopped {fault : RunFault} :
      fault.isPlain = true ∨ i.isBranch = true ∧ b.lostFault? i = some fault →
      Fails b i (.stopped i.label fault)
  | wrongArity (t : Transform) (found : Nat) : Fails b i (.wrongArity t found)
  | wrongOperand (t : Transform) (found : Kind) : Fails b i (.wrongOperand t found)

theorem stopAt_meets {α : Type} {Q : α → Prop} {x : Except RunFault α}
    (h : Meets Plainly Q x) : Meets (Fails b i) Q (stopAt i.label x) := by
  cases x with
  | error fault => exact .stopped (Or.inl h)
  | ok a => exact h

theorem compute_meets (op : Opcode) (operands : List Value) :
    Meets Plainly (fun _ => True) (op.compute operands) := by
  unfold Opcode.compute
  split <;> trivial

theorem transform_meets (t : Transform) (g : Orientation) (operands : List Value) :
    Meets (Fails b i) (fun _ => True) (t.compute g operands) := by
  have herror : ∀ t : Transform, Fails b i (t.operandError operands) := by
    intro t
    unfold Transform.operandError
    split
    · exact .wrongOperand ..
    · exact .wrongOperand ..
    · exact .wrongArity ..
  unfold Transform.compute
  split
  · split <;> first | trivial | exact herror _
  · exact .wrongArity ..

theorem execute_meets (b : Body) (args : List Value) (g : Orientation) (m : Machine σ)
    (i : Instruction) :
    Meets (Fails b i) (fun m' => m'.Alongside m) (m.execute .plain g b args i) := by
  unfold execute
  cases ho : i.op with
  | add | subtract | min | max | sign =>
    refine (stopAt_meets (m.take_meets _)).bind fun x hx => ?_
    exact (stopAt_meets (compute_meets _ x.1)).bind fun _ _ => ⟨hx.calls, hx.host⟩
  | loadConstant =>
    cases i.constant? with
    | none => exact .stopped (Or.inl rfl)
    | some v => exact ⟨rfl, rfl⟩
  | branch =>
    have hbranch := m.branch_meets b i
    show Meets _ _ (stopAt i.label (m.branch b i))
    cases hx : m.branch b i with
    | error fault =>
      rw [hx] at hbranch
      exact .stopped (hbranch.imp_right fun hlost => ⟨decide_eq_true ho, hlost⟩)
    | ok m' =>
      rw [hx] at hbranch
      exact hbranch
  | call =>
    cases i.callee? with
    | none => exact .stopped (Or.inl rfl)
    | some callee =>
      cases callee with
      | method name arity returns => exact .stopped (Or.inl rfl)
      | transform t =>
        refine (stopAt_meets (m.take_meets _)).bind fun x hx => ?_
        exact (transform_meets t g x.1).bind fun _ _ => ⟨hx.calls, hx.host⟩
  | other op =>
    exact (stopAt_meets (m.stackOp_meets i op)).bind fun _ hx => ⟨hx.calls, hx.host⟩

/-! ### Steps -/

/-- The host is left alone, or is called once. -/
inductive Consults (env : Environment σ) (m m' : Machine σ) : Prop where
  | silent : m'.calls = m.calls → m'.host = m.host → Consults env m m'
  | called (call : HostCall) : m'.calls = call :: m.calls →
      m'.host = (env.call m.host call).host → Consults env m m'

/-- Why the answer to a call ends a run: it is an error, or there is no value where one is due. -/
inductive Denies (i : Instruction) (call : HostCall) : Except Error (Option Value) → Error → Prop where
  | refused (err : Error) : Denies i call (.error err) err
  | nothing : Denies i call (.ok none) (.stopped i.label (.returnedNothing call.method))

/-- What a step leads to: it goes on, it fails by itself, or the answer of the host ends it. -/
inductive Stepped (env : Environment σ) (b : Body) (i : Instruction) (m : Machine σ) :
    Progress σ → Prop where
  | running {m' : Machine σ} : Consults env m m' → Stepped env b i m (.running m')
  | failed {e : Machine σ} {err : Error} : Consults env m e → Fails b i err →
      Stepped env b i m (.halted e (.error err))
  | denied {e : Machine σ} {err : Error} (call : HostCall) : e.calls = call :: m.calls →
      e.host = (env.call m.host call).host → Denies i call (env.call m.host call).result err →
      Stepped env b i m (.halted e (.error err))

theorem Stepped.consults {p : Progress σ} (h : Stepped env b i m p) : Consults env m p.machine := by
  cases h with
  | running h => exact h
  | failed h _ => exact h
  | denied call hcalls hhost _ => exact .called call hcalls hhost

theorem callHost_stepped {m₀ : Machine σ} (h : m.Alongside m₀) (name : String) (arity : UInt8)
    (returns : Bool) : Stepped env b i m₀ (callHost env m i.label name arity returns).1 := by
  have htake := m.take_meets arity.toNat
  unfold callHost
  cases ht : m.take arity.toNat with
  | error fault =>
    rw [ht] at htake
    exact .failed (.silent h.calls h.host) (.stopped (Or.inl htake))
  | ok x =>
    obtain ⟨operands, rest⟩ := x
    rw [ht] at htake
    obtain ⟨hcalls, hhost⟩ := Alongside.trans htake h
    dsimp only
    rw [hhost]
    cases hr : (env.call m₀.host ⟨name, operands⟩).result with
    | error err => exact .denied ⟨name, operands⟩ (congrArg _ hcalls) rfl (hr ▸ .refused err)
    | ok result =>
      cases returns with
      | false => exact .running (.called ⟨name, operands⟩ (congrArg _ hcalls) rfl)
      | true =>
        cases result with
        | some v => exact .running (.called ⟨name, operands⟩ (congrArg _ hcalls) rfl)
        | none => exact .denied ⟨name, operands⟩ (congrArg _ hcalls) rfl (hr ▸ .nothing)

theorem stepper_stepped (env : Environment σ) (b : Body) (args : List Value) (m : Machine σ)
    (i : Instruction) :
    Stepped env b i m (b.stepper env args m i) := by
  have hexecute : ∀ g : Orientation, Stepped env b i m
      (silently { m with steps := m.steps + 1 }
        (execute .plain g b args { m with steps := m.steps + 1 } i)).1 := by
    intro g
    have hmeets := execute_meets b args g { m with steps := m.steps + 1 } i
    cases hx : execute .plain g b args { m with steps := m.steps + 1 } i with
    | error err =>
      rw [hx] at hmeets
      exact .failed (.silent rfl rfl) hmeets
    | ok m' =>
      rw [hx] at hmeets
      exact .running (.silent hmeets.calls hmeets.host)
  unfold Body.stepper step
  cases i.callee? with
  | none => exact hexecute _
  | some callee =>
    cases callee with
    | transform t => exact hexecute _
    | method name arity returns =>
      have halongside : { m with steps := m.steps + 1 }.Alongside m := ⟨rfl, rfl⟩
      exact callHost_stepped halongside name arity returns

/-- A step adds one call at most. -/
theorem stepper_calls (env : Environment σ) (b : Body) (args : List Value) (m : Machine σ)
    (i : Instruction) : ∃ made : List HostCall,
    (b.stepper env args m i).machine.calls = made ++ m.calls ∧ made.length ≤ 1 := by
  cases (stepper_stepped env b args m i).consults with
  | silent hcalls _ => exact ⟨[], hcalls, Nat.zero_le 1⟩
  | called call hcalls _ => exact ⟨[call], hcalls, Nat.le_refl 1⟩

end Machine

/-! ### The host after some calls -/

/-- The host after some calls, in the order in which they are made. -/
def Environment.after (env : Environment σ) (host : σ) (calls : List HostCall) : σ :=
  calls.foldl (fun s call => (env.call s call).host) host

theorem Environment.after_concat (env : Environment σ) (host : σ) (calls : List HostCall)
    (call : HostCall) :
    env.after host (calls ++ [call]) = (env.call (env.after host calls) call).host := by
  rw [after, List.foldl_append]
  rfl

namespace Machine

variable {m m' : Machine σ} {b : Body} {i : Instruction} {env : Environment σ} {args : List Value}
  {host : σ}

/-- The host of a machine is what its calls have made of the host at the start. -/
def Follows (env : Environment σ) (host : σ) (m : Machine σ) : Prop :=
  m.host = env.after host m.calls.reverse

theorem start_follows (env : Environment σ) (host : σ) : (start host).Follows env host := rfl

/-- What a step preserves. -/
theorem Consults.follows (h : Consults env m m') (hm : m.Follows env host) : m'.Follows env host := by
  unfold Follows at hm ⊢
  cases h with
  | silent hcalls hhost => rw [hcalls, hhost, hm]
  | called call hcalls hhost =>
    rw [hcalls, hhost, hm, List.reverse_cons, Environment.after_concat]

/-! ### Ends -/

/-- A run that fails does so at an instruction, or because of what the host has answered to its last
    call, in the state that the calls before it have led to. -/
theorem Ends.error_cases {n : Nat} {e : Machine σ} {err : Error}
    (h : Ends (b.stepper env args) b m n e (.error err)) (hm : m.Follows env host) :
    (∃ i ∈ b.instructions, Fails b i err) ∨
      ∃ i ∈ b.instructions, ∃ call before, e.calls = call :: before ∧ e.Follows env host ∧
        Denies i call (env.call (env.after host before.reverse) call).result err := by
  generalize hr : (Except.error err : Except Error (Option Value)) = r at h
  induction h with
  | off _ => cases hr
  | leave _ _ => cases hr
  | @halted m e i r hi _ hs =>
    have hstep := stepper_stepped env b args m i
    have hmem : i ∈ b.instructions := List.mem_of_getElem? hi
    have hfollows := hstep.consults.follows hm
    subst hr
    rw [hs] at hstep hfollows
    cases hstep with
    | failed _ hfails => exact Or.inl ⟨i, hmem, hfails⟩
    | denied call hcalls hhost hdenies =>
      rw [show m.host = env.after host m.calls.reverse from hm] at hdenies
      exact Or.inr ⟨i, hmem, call, _, hcalls, hfollows, hdenies⟩
  | @running m m' e i n r _ _ hs _ ih =>
    have hfollows := (stepper_stepped env b args m i).consults.follows hm
    rw [hs] at hfollows
    exact ih hfollows hr

end Machine

end Inversion
