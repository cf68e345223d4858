import Inversion.Proofs.Arithmetic.Simulation
import Inversion.Proofs.Ending

/-!
Instructions that stand elsewhere. What an instruction does depends on the stack, the slots, the calls
and the host, and not on where it stands or how many steps there were before; only where the run goes
from there does. So a body may be spread out in another one, with room between its instructions, and a
run of it is followed by a run of the other as long as the room leads on.
-/

namespace Inversion

variable {σ : Type}

/-! ### Machines that stand elsewhere -/

/-- The machine at another place after another number of steps. -/
def Machine.relocated (m : Machine σ) (index steps : Nat) : Machine σ := { m with index, steps }

/-- What a step leads to, with the machine behind the instruction at another place, or at the
    instruction if the run ends there. -/
def Progress.relocated (here steps : Nat) : Progress σ → Progress σ
  | .running m => .running (m.relocated (here + 1) steps)
  | .halted m r => .halted (m.relocated here steps) r

/-- What is done with a result that is changed by a map before, if the map can be made up for behind. -/
theorem bind_eq_map {ε α α' β β' : Type} {x : Except ε α} {x' : Except ε α'} {f : α → α'}
    {k : α → Except ε β} {k' : α' → Except ε β'} {h : β → β'} (hx : x' = x.map f)
    (hk : ∀ a, k' (f a) = (k a).map h) : (x' >>= k') = (x >>= k).map h := by
  subst hx
  cases x with
  | error e => rfl
  | ok a => exact hk a

theorem bind_eq_map_of_eq {ε α β β' : Type} {x : Except ε α} {k : α → Except ε β}
    {k' : α → Except ε β'} {h : β → β'} (hk : ∀ a, k' a = (k a).map h) :
    (x >>= k') = (x >>= k).map h :=
  bind_eq_map (f := id) (congrFun Except.map_id x).symm hk

namespace Machine

variable {arithmetic : Arithmetic} {env : Environment σ} {b b' : Body} {args : List Value}
  {i : Instruction} {g : Orientation}

theorem pop_relocated (m : Machine σ) (k s : Nat) :
    (m.relocated k s).pop = m.pop.map fun x => (x.1, x.2.relocated k s) := by
  unfold pop
  rw [show (m.relocated k s).stack = m.stack from rfl]
  cases m.stack <;> rfl

theorem take_relocated (m : Machine σ) (k s count : Nat) :
    (m.relocated k s).take count = (m.take count).map fun x => (x.1, x.2.relocated k s) := by
  unfold take
  rw [show (m.relocated k s).stack = m.stack from rfl]
  split <;> rfl

theorem pair_relocated (m : Machine σ) (k s : Nat) :
    (m.relocated k s).pair = m.pair.map fun x => (x.1, x.2.1, x.2.2.relocated k s) :=
  bind_eq_map (pop_relocated m k s) fun x => bind_eq_map (pop_relocated x.2 k s) fun _ => rfl

theorem decideBranch_relocated (m : Machine σ) (k s : Nat) (c : Condition) :
    (m.relocated k s).decideBranch c
      = (m.decideBranch c).map fun x => (x.1, x.2.relocated k s) := by
  cases c with
  | always => rfl
  | ifTrue | ifFalse =>
    exact bind_eq_map (pop_relocated m k s) fun _ => bind_eq_map_of_eq fun _ => rfl

theorem stackOp_relocated (m : Machine σ) (k s : Nat) (op : StackOp) :
    (m.relocated k s).stackOp args i op = (m.stackOp args i op).map (·.relocated k s) := by
  cases op with
  | leave | nop => rfl
  | loadArg =>
    refine bind_eq_map_of_eq fun slot => ?_
    cases args[slot.toNat]? <;> rfl
  | loadLocal =>
    refine bind_eq_map_of_eq fun slot => ?_
    rw [show (m.relocated k s).local? slot = m.local? slot from rfl]
    cases m.local? slot <;> rfl
  | storeLocal =>
    exact bind_eq_map_of_eq fun _ => bind_eq_map (pop_relocated m k s) fun _ => rfl
  | dup | pop => exact bind_eq_map (pop_relocated m k s) fun _ => rfl
  | negate => exact bind_eq_map (pop_relocated m k s) fun _ => bind_eq_map_of_eq fun _ => rfl
  | less | greater =>
    exact bind_eq_map (pair_relocated m k s) fun _ => bind_eq_map_of_eq fun _ => rfl
  | equal => exact bind_eq_map (pair_relocated m k s) fun _ => rfl

theorem stopAt_map {α β : Type} (l : Label) (x : Except RunFault α) (f : α → β) :
    stopAt l (x.map f) = (stopAt l x).map f := by
  cases x <;> rfl

theorem execute_relocated (hop : i.op ≠ .branch) (m : Machine σ) (k s : Nat) :
    (m.relocated k s).execute arithmetic g b' args i
      = (m.execute arithmetic g b args i).map (·.relocated (k + 1) s) := by
  have htake (count : Nat) : stopAt i.label ((m.relocated k s).take count)
      = (stopAt i.label (m.take count)).map fun x => (x.1, x.2.relocated k s) := by
    rw [take_relocated, stopAt_map]
  unfold execute
  cases ho : i.op with
  | add | subtract | min | max | sign =>
    exact bind_eq_map (htake _) fun _ => bind_eq_map_of_eq fun _ => rfl
  | loadConstant => cases i.constant? <;> rfl
  | branch => exact absurd ho hop
  | call =>
    cases i.callee? with
    | none => rfl
    | some callee =>
      cases callee with
      | method name arity returns => rfl
      | transform t => exact bind_eq_map (htake _) fun _ => bind_eq_map_of_eq fun _ => rfl
  | other op =>
    exact bind_eq_map (by rw [stackOp_relocated, stopAt_map]) fun _ => rfl

theorem callHost_relocated (m : Machine σ) (k s : Nat) (l : Label) (name : String) (arity : UInt8)
    (returns : Bool) : (callHost env (m.relocated k s) l name arity returns).1
      = (callHost env m l name arity returns).1.relocated k s := by
  unfold callHost
  rw [take_relocated]
  cases m.take arity.toNat with
  | error fault => rfl
  | ok x =>
    simp only [Except.map, show (x.2.relocated k s).host = x.2.host from rfl]
    cases (env.call x.2.host ⟨name, x.1⟩).result with
    | error e => rfl
    | ok result =>
      cases returns with
      | false => rfl
      | true => cases result <;> rfl

theorem silently_relocated (m : Machine σ) (k s : Nat) (x : Except Error (Machine σ)) :
    (silently (m.relocated k s) (x.map (·.relocated (k + 1) s))).1
      = (silently m x).1.relocated k s := by
  cases x <;> rfl

/-- A step at another place, of an instruction that is not a branch. -/
theorem step_relocated (hop : i.op ≠ .branch) (m : Machine σ) (k s : Nat) :
    ((m.relocated k s).step arithmetic env b' args i).1
      = (m.step arithmetic env b args i).1.relocated k (s + 1) := by
  have hexecute (m : Machine σ) (g : Orientation) :
      (silently (m.relocated k (s + 1))
        ((m.relocated k (s + 1)).execute arithmetic g b' args i)).1
      = (silently m (m.execute arithmetic g b args i)).1.relocated k (s + 1) := by
    rw [execute_relocated (b := b) hop, silently_relocated]
  unfold step
  cases i.callee? with
  | none => exact hexecute { m with steps := m.steps + 1 } _
  | some callee =>
    cases callee with
    | transform t => exact hexecute { m with steps := m.steps + 1 } _
    | method name arity returns =>
      exact callHost_relocated { m with steps := m.steps + 1 } k (s + 1) i.label name arity returns

end Machine

/-! ### Steps that keep up -/

/-- Two steps of which the second is made at the place that a map assigns to that of the first. Where
    the first jumps, the second jumps to the place that is assigned to its goal. Where the first passes
    on, so does the second, and what it comes to need not be such a place. -/
inductive Progress.Tracks (place : Nat → Nat) (index steps : Nat) :
    Progress σ → Progress σ → Prop where
  | jumped (m : Machine σ) :
      Tracks place index steps (.running m) (.running (m.relocated (place m.index) steps))
  | passed {m : Machine σ} : m.index = index + 1 →
      Tracks place index steps (.running m) (.running (m.relocated (place index + 1) steps))
  | halted (m : Machine σ) (r : Except Error (Option Value)) :
      Tracks place index steps (.halted m r) (.halted (m.relocated (place index) steps) r)

theorem Progress.Tracks.steps {place : Nat → Nat} {index steps : Nat} {p p' : Progress σ}
    (h : p.Tracks place index steps p') : p'.machine.steps = steps := by
  cases h <;> rfl

namespace Machine

variable {arithmetic : Arithmetic} {env : Environment σ} {b b' : Body} {args : List Value}
  {i : Instruction} {place : Nat → Nat}

/-- What is done in one place is as well done in the same place. -/
theorem decideBranch_index {m m' : Machine σ} {c : Condition} {taken : Bool}
    (h : m.decideBranch c = .ok (taken, m')) : m'.index = m.index := by
  have hsame := decideBranch_relocated m m.index m.steps c
  rw [show m.relocated m.index m.steps = m from rfl, h] at hsame
  exact congrArg (fun x : Bool × Machine σ => x.2.index) (Except.ok.inj hsame)

theorem branch_tracks (hlands : ∀ l, i.target? = some l → b'.position? l = (b.position? l).map place)
    (m : Machine σ) (s : Nat) : (silently m (stopAt i.label (m.branch b i))).1.Tracks place m.index s
      (silently (m.relocated (place m.index) s)
        (stopAt i.label ((m.relocated (place m.index) s).branch b' i))).1 := by
  unfold branch
  rw [decideBranch_relocated]
  cases hd : m.decideBranch (i.condition?.getD .always) with
  | error fault => exact .halted m _
  | ok x =>
    obtain ⟨taken, m'⟩ := x
    have hindex : m'.index = m.index := decideBranch_index hd
    cases taken with
    | false => exact .passed (m := { m' with index := m'.index + 1 }) (congrArg (· + 1) hindex)
    | true =>
      cases ht : i.target? with
      | none => exact .halted m _
      | some l =>
        cases hp : b.position? l with
        | none =>
          have hp' : b'.position? l = none := by rw [hlands l ht, hp]; rfl
          simp only [Except.map, bind, Except.bind, if_true, hp, hp']
          exact .halted m _
        | some k =>
          have hp' : b'.position? l = some (place k) := by rw [hlands l ht, hp]; rfl
          simp only [Except.map, bind, Except.bind, if_true, hp, hp']
          exact .jumped { m' with index := k }

/-- An instruction does the same wherever it stands, if its branch finds its target. -/
theorem step_tracks (hlands : ∀ l, i.target? = some l → b'.position? l = (b.position? l).map place)
    (m : Machine σ) (s : Nat) : (m.step arithmetic env b args i).1.Tracks place m.index (s + 1)
      ((m.relocated (place m.index) s).step arithmetic env b' args i).1 := by
  by_cases hop : i.op = .branch
  · rw [step_of_branch _ b hop, step_of_branch _ b' hop]
    exact branch_tracks hlands { m with steps := m.steps + 1 } (s + 1)
  · -- A machine is itself at its own place, so this also says where its own step leads.
    have hself : ((m.relocated m.index m.steps).step arithmetic env b args i).1
        = (m.step arithmetic env b args i).1.relocated m.index (m.steps + 1) :=
      step_relocated hop m m.index m.steps
    rw [step_relocated (b := b) hop]
    cases hs : (m.step arithmetic env b args i).1 with
    | halted e r => exact .halted e r
    | running m' =>
      rw [show m.relocated m.index m.steps = m from rfl, hs] at hself
      injection hself with hself
      exact .passed (congrArg Machine.index hself)

/-- A step counts as one. -/
theorem step_steps (m : Machine σ) :
    (m.step arithmetic env b args i).1.machine.steps = m.steps + 1 := by
  have hself : (m.step arithmetic env b args i).1.Tracks id m.index (m.steps + 1)
      ((m.relocated m.index m.steps).step arithmetic env b args i).1 :=
    step_tracks (fun _ _ => (congrFun Option.map_id _).symm) m m.steps
  exact hself.steps

end Machine

/-! ### Runs that keep up -/

namespace Machine

/-- From a machine of the second body a run keeps up with what a step of the first one has come to: in
    at most two steps it comes to the same, at the place that a map assigns. -/
inductive KeepsUp (step' : Machine σ → Instruction → Progress σ) (b' : Body) (place : Nat → Nat) :
    Progress σ → Machine σ → Prop where
  | running {m m₁ : Machine σ} {n s : Nat} : n ≤ 2 →
      Reaches step' b' m₁ n (m.relocated (place m.index) s) → KeepsUp step' b' place (.running m) m₁
  | halted {m m₁ : Machine σ} {r : Except Error (Option Value)} {n k s : Nat} : n ≤ 2 →
      Ends step' b' m₁ n (m.relocated k s) r → KeepsUp step' b' place (.halted m r) m₁

/-- The instructions of one body stand in another one, at the places that a map assigns, and a run of
    the second body keeps up with each step of the first. -/
structure Shadows (step step' : Machine σ → Instruction → Progress σ) (b b' : Body)
    (place : Nat → Nat) : Prop where
  off {k : Nat} : b.get? k = none → b'.get? (place k) = none
  leave {k : Nat} {i : Instruction} : b.get? k = some i → i.isTerminal = true →
    b'.get? (place k) = some i
  keepsUp {m : Machine σ} {i : Instruction} (s : Nat) : b.get? m.index = some i →
    i.isTerminal = false → KeepsUp step' b' place (step m i) (m.relocated (place m.index) s)

variable {step step' : Machine σ → Instruction → Progress σ} {b b' : Body} {place : Nat → Nat}
  {m e : Machine σ} {n : Nat} {r : Except Error (Option Value)}

/-- A run that ends is followed to the same end in at most twice as many steps. -/
theorem Ends.shadowed (hend : Ends step b m n e r) (h : Shadows step step' b b' place) :
    ∀ s, ∃ n' k s', n' ≤ 2 * n ∧
      Ends step' b' (m.relocated (place m.index) s) n' (e.relocated k s') r := by
  -- The second run counts more steps than the first, so its count `s` is arbitrary throughout.
  induction hend with
  | off hi => exact fun s => ⟨0, _, s, Nat.zero_le _, .off (h.off hi)⟩
  | leave hi ht => exact fun s => ⟨1, _, s + 1, by omega, .leave (h.leave hi ht) ht⟩
  | halted hi ht hs =>
    intro s
    have hkeeps := h.keepsUp s hi ht
    rw [hs] at hkeeps
    obtain ⟨⟩ | ⟨hn, hend⟩ := hkeeps
    exact ⟨_, _, _, hn, hend⟩
  | running hi ht hs _ ih =>
    intro s
    have hkeeps := h.keepsUp s hi ht
    rw [hs] at hkeeps
    obtain ⟨hn, hreach⟩ | ⟨⟩ := hkeeps
    obtain ⟨n', k, s', hn', hend⟩ := ih _
    exact ⟨_, k, s', by omega, hreach.ends hend⟩

/-- One step that keeps up, if the room behind the instruction leads on to the next one. -/
theorem KeepsUp.of_tracks {i : Instruction} {p : Progress σ} {s : Nat}
    (hi : b'.get? (place m.index) = some i) (ht : i.isTerminal = false)
    (hp : p.Tracks place m.index (s + 1) (step' (m.relocated (place m.index) s) i))
    (hroom : ∀ (m' : Machine σ) (s : Nat), m'.index = m.index + 1 → ∃ n ≤ 1, ∃ s',
      Reaches step' b' (m'.relocated (place m.index + 1) s) n (m'.relocated (place m'.index) s')) :
    KeepsUp step' b' place p (m.relocated (place m.index) s) := by
  generalize hp' : step' (m.relocated (place m.index) s) i = p' at hp
  cases hp with
  | jumped m' => exact .running (Nat.le_succ 1) (.next hi ht hp' (.here _))
  | @passed m' hindex =>
    obtain ⟨n, hn, s', hreach⟩ := hroom m' (s + 1) hindex
    exact .running (Nat.succ_le_succ hn) (.next hi ht hp' hreach)
  | halted e r => exact .halted (Nat.le_succ 1) (.halted hi ht hp')

end Machine

namespace Body

/-- The step of a body's run. -/
abbrev stepper (env : Environment σ) (b : Body) (args : List Value) :
    Machine σ → Instruction → Progress σ :=
  fun m i => (m.step .plain env b args i).1

variable {env : Environment σ} {b b' : Body} {args : List Value} {limit limit' n : Nat}
  {place : Nat → Nat} {host : σ}

theorem stepper_steps (m : Machine σ) (i : Instruction) :
    (b.stepper env args m i).machine.steps = m.steps + 1 :=
  Machine.step_steps m

theorem run_eq_iterate (env : Environment σ) (limit : Nat) (b : Body) (args : List Value) (host : σ) :
    b.run env limit args host = Machine.iterate (b.stepper env args) b limit limit (.start host) :=
  Machine.runFor_eq_iterate ..

/-- What a run comes to is what it ends with, whatever the budget that lets it. -/
theorem run_of_ends {e : Machine σ} {r : Except Error (Option Value)}
    (h : Machine.Ends (b.stepper env args) b (.start host) n e r) (hn : n ≤ limit) :
    b.run env limit args host = e.finish r := by
  rw [run_eq_iterate]
  exact h.iterate hn

theorem run_ends_or_cutOff (env : Environment σ) (limit : Nat) (b : Body) (args : List Value)
    (host : σ) :
    (∃ n e r, n ≤ limit ∧ Machine.Ends (b.stepper env args) b (.start host) n e r) ∨
      (limit < (b.run env limit args host).steps ∧
        (b.run env limit args host).result = .error (.outOfSteps limit)) := by
  rw [run_eq_iterate]
  exact Machine.ends_or_cutOff stepper_steps (Nat.zero_add limit)

/-- A body whose run keeps up with that of another one comes to the same, if it has twice the budget
    and the steps that lead it to the place where the other one starts. -/
theorem run_matches (h : Machine.Shadows (b.stepper env args) (b'.stepper env args) b b' place)
    (hstart : ∃ s, Machine.Reaches (b'.stepper env args) b' (.start host) n
      ((Machine.start host).relocated (place 0) s))
    (hlimit : 2 * limit + n ≤ limit') (hin : (b.run env limit args host).Within limit) :
    (b.run env limit args host).Matches (b'.run env limit' args host) := by
  rcases b.run_ends_or_cutOff env limit args host with ⟨k, e, r, hk, hend⟩ | ⟨hcut, -⟩
  · obtain ⟨s, hreach⟩ := hstart
    obtain ⟨k', _, _, hk', hend'⟩ := hend.shadowed h s
    rw [run_of_ends hend hk, run_of_ends (hreach.ends hend') (by omega)]
    exact ⟨rfl, rfl, rfl⟩
  · exact absurd hin (Nat.not_le_of_lt hcut)

end Body

end Inversion
