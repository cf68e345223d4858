import Inversion.Proofs.Soundness
import Inversion.Proofs.Step

/-!
Branches that lead nowhere. The check of a body and its runs each look for the target of a branch in
their own way, and they agree: a branch is faulty for the check exactly if it ends a run whenever it is
taken. So a body that is accepted is never stopped at a branch for want of its target, nor is what a
patch makes of it: whoever reads such an error of one of its runs has it from the host. And a body that
is refused has two instructions with one label or such a branch.
-/

namespace Inversion

variable {σ : Type}

/-! ### Branches that break a run -/

/-- What the check says of a branch that is lost. -/
def RunFault.bodyError? (branch : Label) : RunFault → Option BodyError
  | .noTarget => some (.noTarget branch)
  | .unknownTarget target => some (.missingTarget branch target)
  | _ => none

/-- A branch that can be taken, and ends the run with a fault of its target whenever it is. -/
structure Body.Breaks (b : Body) (i : Instruction) (fault : RunFault) : Prop where
  branch : i.isBranch = true
  lost : fault.isLost = true
  taken : ∃ m m' : Machine Unit, m.Takes i m'
  stops : ∀ {σ : Type} (env : Environment σ) (args : List Value) (m m' : Machine σ), m.Takes i m' →
    ∃ e, b.stepper env args m i = .halted e (.error (.stopped i.label fault))

namespace Machine

variable {m m' : Machine σ} {b : Body} {i : Instruction}

theorem exists_takes (i : Instruction) : ∃ m m' : Machine Unit, m.Takes i m' := by
  unfold Takes
  cases i.condition?.getD .always with
  | always => exact ⟨.start (), _, rfl⟩
  | ifTrue => exact ⟨(Machine.start ()).push (.bool true), _, rfl⟩
  | ifFalse => exact ⟨(Machine.start ()).push (.bool false), _, rfl⟩

/-- Where a branch that is taken leads. -/
theorem stepper_of_takes (env : Environment σ) (args : List Value) (hi : i.isBranch = true)
    (h : m.Takes i m') : match b.lostFault? i with
      | some fault => ∃ e, b.stepper env args m i = .halted e (.error (.stopped i.label fault))
      | none => ∃ e, b.stepper env args m i = .running e := by
  have hcounted : { m with steps := m.steps + 1 }.Takes i (m'.relocated m.index (m.steps + 1)) := by
    unfold Takes at h ⊢
    have hsame := decideBranch_relocated m m.index (m.steps + 1) (i.condition?.getD .always)
    rw [h] at hsame
    exact hsame
  have hop : i.op = .branch := of_decide_eq_true hi
  unfold Body.stepper
  rw [step_of_branch _ b hop, branch_of_takes hcounted]
  cases b.lostFault? i with
  | some fault => exact ⟨_, rfl⟩
  | none => exact ⟨_, rfl⟩

end Machine

namespace Body

variable {b : Body} {i : Instruction} {fault : RunFault}

theorem isLost_of_lostFault? (h : b.lostFault? i = some fault) : fault.isLost = true := by
  unfold lostFault? at h
  split at h
  · cases h
    rfl
  · split at h
    · cases h
      rfl
    · cases h

theorem breaks_iff : b.Breaks i fault ↔ i.isBranch = true ∧ b.lostFault? i = some fault := by
  constructor
  · rintro ⟨hbranch, -, ⟨m, m', htakes⟩, hstops⟩
    refine ⟨hbranch, ?_⟩
    obtain ⟨e, he⟩ := hstops (.bare .normal) [] m m' htakes
    have hleads := Machine.stepper_of_takes (b := b) (.bare .normal) [] hbranch htakes
    rw [he] at hleads
    cases hlost : b.lostFault? i with
    | none =>
      rw [hlost] at hleads
      obtain ⟨_, hrunning⟩ := hleads
      cases hrunning
    | some found =>
      rw [hlost] at hleads
      obtain ⟨_, hhalted⟩ := hleads
      cases hhalted
      rfl
  · rintro ⟨hbranch, hlost⟩
    refine ⟨hbranch, isLost_of_lostFault? hlost, Machine.exists_takes i, fun env args m m' h => ?_⟩
    have hleads := Machine.stepper_of_takes (b := b) env args hbranch h
    rwa [hlost] at hleads

/-- The check finds a branch faulty exactly if it breaks a run. -/
theorem branchFault?_eq_some {e : BodyError} : branchFault? b.labels i = some e ↔
    ∃ fault, b.Breaks i fault ∧ fault.bodyError? i.label = some e := by
  have hposition : ∀ l, b.position? l = none ↔ l ∉ b.labels := by
    intro l
    rw [position?_eq, List.findIdx?_eq_none_iff]
    simp only [decide_eq_false_iff_not]
    exact ⟨fun h hl => h l hl rfl, fun h x hx he => h (he ▸ hx)⟩
  simp only [breaks_iff]
  unfold branchFault? lostFault?
  cases i.isBranch with
  | false => simp
  | true =>
    cases i.target? with
    | none => simp [RunFault.bodyError?]
    | some target => by_cases hl : target ∈ b.labels <;> simp [hposition, hl, RunFault.bodyError?]

/-! ### Bodies that are refused -/

/-- Why a body is refused: for the first label that stands in front already or, if there is none, for
    the first branch that breaks a run. -/
inductive Rejected (b : Body) : BodyError → Prop where
  | repeated {before after : List Label} {l : Label} : b.labels = before ++ l :: after →
      before.Nodup → l ∈ before → Rejected b (.repeatedLabel l)
  | broken {before after : List Instruction} {i : Instruction} {fault : RunFault} {e : BodyError} :
      b.labels.Nodup → b.instructions = before ++ i :: after →
      (∀ j ∈ before, ∀ fault, ¬b.Breaks j fault) → b.Breaks i fault →
      fault.bodyError? i.label = some e → Rejected b e

theorem firstRepeated_eq_some {l : Label} : ∀ (labels seen : List Label),
    firstRepeated seen labels = some l ↔ ∃ before after, labels = before ++ l :: after ∧
      before.Nodup ∧ (∀ x ∈ before, x ∉ seen) ∧ (l ∈ seen ∨ l ∈ before)
  | [], seen => by simp [firstRepeated]
  | x :: rest, seen => by
    unfold firstRepeated
    by_cases hx : x ∈ seen
    · rw [if_pos hx]
      constructor
      · rintro ⟨⟩
        exact ⟨[], rest, rfl, List.nodup_nil, by simp, Or.inl hx⟩
      · rintro ⟨_ | ⟨y, before⟩, after, heq, -, hseen, -⟩
        · exact congrArg some (List.cons.inj heq).1
        · obtain ⟨rfl, -⟩ := List.cons.inj heq
          exact absurd hx (hseen x List.mem_cons_self)
    · rw [if_neg hx, firstRepeated_eq_some rest (x :: seen)]
      constructor
      · rintro ⟨before, after, rfl, hnodup, hseen, hl⟩
        have hnew : x ∉ before := fun hm => hseen x hm List.mem_cons_self
        refine ⟨x :: before, after, rfl, List.nodup_cons.2 ⟨hnew, hnodup⟩, ?_, ?_⟩
        · rintro y (_ | ⟨_, hy⟩)
          · exact hx
          · exact fun hm => hseen y hy (List.mem_cons_of_mem _ hm)
        · simpa only [List.mem_cons, or_assoc, or_left_comm] using hl
      · rintro ⟨_ | ⟨y, before⟩, after, heq, hnodup, hseen, hl⟩
        · obtain ⟨rfl, -⟩ := List.cons.inj heq
          simp [hx] at hl
        · obtain ⟨rfl, rfl⟩ := List.cons.inj heq
          obtain ⟨hnew, hnodup⟩ := List.nodup_cons.1 hnodup
          refine ⟨before, after, rfl, hnodup, fun y hy hm => ?_, ?_⟩
          · rcases List.mem_cons.1 hm with rfl | hm
            · exact hnew hy
            · exact hseen y (List.mem_cons_of_mem _ hy) hm
          · simpa only [List.mem_cons, or_assoc, or_left_comm] using hl

theorem validate_eq_error {e : BodyError} : b.validate = .error e ↔ b.Rejected e := by
  have hrepeated : ∀ l, firstRepeated [] b.labels = some l ↔
      ∃ before after, b.labels = before ++ l :: after ∧ before.Nodup ∧ l ∈ before := by
    simp [firstRepeated_eq_some]
  have hnodup : firstRepeated [] b.labels = none ↔ b.labels.Nodup := by simp [firstRepeated_eq_none]
  have hfaults : ∀ e rest, b.branchFaults = e :: rest ↔ ∃ before i after,
      b.instructions = before ++ i :: after ∧ (∀ j ∈ before, branchFault? b.labels j = none) ∧
        branchFault? b.labels i = some e ∧ after.filterMap (branchFault? b.labels) = rest :=
    fun e rest => List.filterMap_eq_cons_iff
  have hsound : ∀ j, branchFault? b.labels j = none ↔ ∀ fault, ¬b.Breaks j fault := by
    intro j
    rw [Option.eq_none_iff_forall_ne_some]
    simp only [ne_eq, branchFault?_eq_some]
    constructor
    · intro h fault hbreaks
      cases he : fault.bodyError? j.label with
      | some e => exact h e ⟨fault, hbreaks, he⟩
      | none =>
        have hlost := hbreaks.lost
        cases fault <;> cases hlost <;> cases he
    · rintro h e ⟨fault, hbreaks, -⟩
      exact h fault hbreaks
  unfold validate
  constructor
  · intro h
    cases hr : firstRepeated [] b.labels with
    | some l =>
      obtain ⟨before, after, hlabels, hbefore, hl⟩ := (hrepeated l).1 hr
      rw [hr] at h
      cases h
      exact .repeated hlabels hbefore hl
    | none =>
      rw [hr] at h
      cases hf : b.branchFaults with
      | nil => rw [hf] at h; cases h
      | cons first rest =>
        rw [hf] at h
        cases h
        obtain ⟨before, i, after, hinstructions, hbefore, hi, -⟩ := (hfaults e rest).1 hf
        obtain ⟨fault, hbreaks, herror⟩ := branchFault?_eq_some.1 hi
        exact .broken (hnodup.1 hr) hinstructions (fun j hj => (hsound j).1 (hbefore j hj)) hbreaks
          herror
  · rintro (⟨hlabels, hbefore, hl⟩ | ⟨hlabels, hinstructions, hbefore, hbreaks, herror⟩)
    · rw [(hrepeated _).2 ⟨_, _, hlabels, hbefore, hl⟩]
    · rw [hnodup.2 hlabels, (hfaults e _).2 ⟨_, _, _, hinstructions,
        fun j hj => (hsound j).2 (hbefore j hj), branchFault?_eq_some.2 ⟨_, hbreaks, herror⟩, rfl⟩]

/-- The branch behind the call is the first one that leads nowhere. -/
example : (⟨[⟨⟨0⟩, .branch, [.target ⟨1⟩]⟩, ⟨⟨1⟩, .branch, [.condition .ifFalse, .target ⟨7⟩]⟩,
    ⟨⟨2⟩, .branch, []⟩], 3⟩ : Body).validate = .error (.missingTarget ⟨1⟩ ⟨7⟩) := by decide

end Body

/-! ### Messages -/

namespace RunFault

/-- Whether the message of a fault begins as for a branch without a target, or with one that is not
    there. The errors of a run are told apart by their messages. -/
def SoundsLost (fault : RunFault) : Prop :=
  "branch without target".toList <+: fault.message.toList ∨
    "unknown branch target".toList <+: fault.message.toList

theorem soundsLost_of_isLost {fault : RunFault} (h : fault.isLost = true) : fault.SoundsLost := by
  cases fault with
  | noTarget => exact Or.inl List.prefix_rfl
  | unknownTarget l =>
    have hmessage : (unknownTarget l).message = "unknown branch target " ++ toString l := rfl
    have hblank : "unknown branch target".toList <+: "unknown branch target ".toList := ⟨[' '], rfl⟩
    refine Or.inr ?_
    rw [hmessage, String.toList_append]
    exact hblank.trans (List.prefix_append _ _)
  | _ => cases h

theorem not_soundsLost_undefinedFor (op : Opcode) (left right : Kind) :
    ¬(undefinedFor op left right).SoundsLost := by
  have hname : ∃ c rest, op.name.toList = c :: rest ∧ 'b' ≠ c ∧ 'u' ≠ c := by
    cases op with
    | other op =>
      have hother : (Opcode.other op).name = "Other(" ++ op.name ++ ")" := rfl
      rw [hother, String.toList_append, String.toList_append]
      exact ⟨'O', _, rfl, by decide, by decide⟩
    | _ => exact ⟨_, _, rfl, by decide, by decide⟩
  obtain ⟨c, rest, hname, hb, hu⟩ := hname
  have hmessage : (undefinedFor op left right).message
      = op.name ++ " on " ++ left.name ++ " and " ++ right.name := rfl
  unfold SoundsLost
  rw [hmessage]
  simp only [String.toList_append, hname, List.cons_append]
  rintro (h | h)
  · exact hb (List.cons_prefix_cons.1 h).1
  · exact hu (List.cons_prefix_cons.1 h).1

/-- Apart from branches, only a method that has returned nothing can sound so, if it is named so. -/
theorem SoundsLost.not_isPlain {fault : RunFault} (h : fault.SoundsLost) :
    fault.isPlain = false := by
  cases fault with
  | noTarget | unknownTarget _ | returnedNothing _ => rfl
  | undefinedFor op left right => exact absurd h (not_soundsLost_undefinedFor op left right)
  | notCondition k =>
    unfold SoundsLost message at h
    cases k <;> simp [Kind.name, toString] at h
  | _ =>
    unfold SoundsLost message at h
    simp [toString] at h

end RunFault

/-! ### Runs of accepted bodies -/

/-- How the host has answered the last call of a run, in the state in which the calls before it have
    left the host; nothing has changed the host since. -/
def Run.Answered (env : Environment σ) (host : σ) (r : Run σ) (call : HostCall)
    (answer : Except Error (Option Value)) : Prop :=
  ∃ before, r.calls = before ++ [call] ∧ (env.call (env.after host before) call).result = answer ∧
    r.host = (env.call (env.after host before) call).host

/-- The error with which a run has ended is the answer of the host to its last call. -/
def Run.Relays (env : Environment σ) (host : σ) (r : Run σ) (e : Error) : Prop :=
  ∃ call, r.Answered env host call (.error e)

namespace Body

variable {b : Body} {env : Environment σ} {limit : Nat} {args : List Value} {host : σ}

/-- A run that stops at an instruction stops there for a fault of its own, or the host says so, or has
    returned nothing. -/
theorem run_stopped {l : Label} {fault : RunFault}
    (h : (b.run env limit args host).result = .error (.stopped l fault)) :
    (∃ i ∈ b.instructions, Machine.Fails b i (.stopped l fault)) ∨
      (b.run env limit args host).Relays env host (.stopped l fault) ∨
      ∃ call, fault = .returnedNothing call.method ∧
        (b.run env limit args host).Answered env host call (.ok none) := by
  rcases b.run_ends_or_cutOff env limit args host with ⟨n, e, r, hn, hend⟩ | ⟨-, hcut⟩
  · rw [run_of_ends hend hn] at h ⊢
    have hr : r = .error (.stopped l fault) := h
    rw [hr] at hend
    refine (hend.error_cases (Machine.start_follows env host)).imp_right ?_
    rintro ⟨i, -, call, before, hcalls, hfollows, hdenies⟩
    unfold Machine.Follows at hfollows
    rw [hcalls, List.reverse_cons, Environment.after_concat] at hfollows
    have hfinish : (e.finish r).calls = before.reverse ++ [call] := by
      rw [Machine.finish, hcalls, List.reverse_cons]
    generalize hanswer : (env.call (env.after host before.reverse) call).result = answer at hdenies
    cases hdenies with
    | refused => exact Or.inl ⟨call, _, hfinish, hanswer, hfollows⟩
    | nothing => exact Or.inr ⟨call, rfl, _, hfinish, hanswer, hfollows⟩
  · rw [hcut] at h
    cases h

/-- In an accepted body no branch breaks a run. -/
theorem not_breaks (hv : b.validate = .ok ()) {i : Instruction} (hi : i ∈ b.instructions)
    (fault : RunFault) : ¬b.Breaks i fault := by
  intro hbreaks
  obtain ⟨hbranch, hlost⟩ := breaks_iff.1 hbreaks
  obtain ⟨target, hmem, htarget⟩ := (validate_eq_ok.1 hv).2 i hi hbranch
  obtain ⟨k, hk⟩ := exists_position? hmem
  simp only [lostFault?, htarget, hk, reduceCtorEq, if_false] at hlost

/-- A body that is accepted, and any body that a patch makes of one: no run of it is stopped by a branch
    that has no target or one that is not there. A run that ends with a message of that kind ends with
    what the host has answered to its last call: with this very error, or with nothing where a value
    was due, and then the message begins with the name of the method. And the check refuses a body exactly
    for the first label that is repeated or, if there is none, for the first branch that fails in this
    way whenever it is taken. -/
theorem branches_resolve (b : Body) :
    (b.validate = .ok () →
      ∀ p, (p = b ∨ b.Numbered ∧ ∃ (engine : Engine) (target : Method) (rules : RuleSet)
          (report : Report), (engine.patch target rules b).outcome = .ok (p, report)) →
        ∀ {σ : Type} (env : Environment σ) (limit : Nat) (args : List Value) (host : σ) (l : Label)
          (fault : RunFault), fault.SoundsLost →
          (p.run env limit args host).result = .error (.stopped l fault) →
          (p.run env limit args host).Relays env host (.stopped l fault) ∨
            ∃ call, fault = .returnedNothing call.method ∧
              (p.run env limit args host).Answered env host call (.ok none)) ∧
      ∀ e, b.validate = .error e ↔ b.Rejected e := by
  refine ⟨fun hv p hp σ env limit args host l fault hsounds hrun => ?_, fun e => validate_eq_error⟩
  have hvalid : p.validate = .ok () := by
    rcases hp with rfl | ⟨hb, engine, target, rules, report, hpatch⟩
    · exact hv
    · exact ((Engine.patch_exchanges hb hpatch).sound (hb.sound hv)).validate
  refine (run_stopped hrun).resolve_left ?_
  rintro ⟨i, hi, hfails⟩
  cases hfails with
  | stopped hown =>
    rcases hown with hplain | hlost
    · exact absurd (hsounds.not_isPlain.symm.trans hplain) Bool.false_ne_true
    · exact not_breaks hvalid hi fault (breaks_iff.2 hlost)

/-- Surroundings in which the second call is answered with an error that a branch would have. -/
def pretending : Environment Nat :=
  ⟨fun _ => .normal, fun calls _ => ⟨calls + 1,
    if calls = 0 then .ok (some (.bool true)) else .error (.stopped ⟨5⟩ .noTarget), []⟩⟩

/-- The branch leads back to the call that has taken the place of its target; what stops the run is what
    the host answers in the second round. -/
theorem branches_resolve_pretending : ∃ report, Engine.loopBody.Numbered ∧
    Engine.loopBody.validate = .ok () ∧
    ((⟨true⟩ : Engine).patch ⟨"Player", "Fall"⟩ (RuleSet.arithmetic "fall") Engine.loopBody).outcome
      = .ok (Engine.loopPatched, report) ∧
    RunFault.noTarget.SoundsLost ∧
    (Engine.loopPatched.run pretending 20 [.vector ⟨.one false, .zero false⟩,
      .vector ⟨.one false, .zero false⟩] 0).result = .error (.stopped ⟨5⟩ .noTarget) ∧
    (Engine.loopPatched.run pretending 20 [.vector ⟨.one false, .zero false⟩,
      .vector ⟨.one false, .zero false⟩] 0).Relays pretending 0 (.stopped ⟨5⟩ .noTarget) := by
  obtain ⟨report, hpatch⟩ := Engine.loop_patch
  have hb : Engine.loopBody.Numbered := ⟨by decide, by decide⟩
  have hv : Engine.loopBody.validate = .ok () := by decide
  have hsounds : RunFault.noTarget.SoundsLost := RunFault.soundsLost_of_isLost rfl
  have hrun : (Engine.loopPatched.run pretending 20 [.vector ⟨.one false, .zero false⟩,
      .vector ⟨.one false, .zero false⟩] 0).result = .error (.stopped ⟨5⟩ .noTarget) := rfl
  obtain ⟨hresolves, -⟩ := branches_resolve Engine.loopBody
  refine ⟨report, hb, hv, hpatch, hsounds, hrun, ?_⟩
  rcases hresolves hv _ (Or.inr ⟨hb, _, _, _, report, hpatch⟩) _ _ _ _ _ _ hsounds hrun with
    hrelays | ⟨_, hnothing, -⟩
  · exact hrelays
  · cases hnothing

/-- A call of a method that is named like the failure of a branch. -/
def mimicking : Body :=
  ⟨[⟨⟨0⟩, .call, [.callee (.method "unknown branch target 0007" 0 true)]⟩], 1⟩

/-- Surroundings whose methods all return nothing. -/
def speechless : Environment Unit := ⟨fun _ => .normal, fun _ _ => ⟨(), .ok none, []⟩⟩

/-- Two accepted bodies, the first one patched, whose runs end with the message of a branch that leads
    nowhere: one host answers a call with such an error, the other has a method that is named like one and
    returns nothing. -/
theorem accepted_sounds_lost :
    (∃ report, Engine.loopBody.Numbered ∧ Engine.loopBody.validate = .ok () ∧
      ((⟨true⟩ : Engine).patch ⟨"Player", "Fall"⟩ (RuleSet.arithmetic "fall") Engine.loopBody).outcome
        = .ok (Engine.loopPatched, report) ∧
      ∃ e, (Engine.loopPatched.run pretending 20 [.vector ⟨.one false, .zero false⟩,
          .vector ⟨.one false, .zero false⟩] 0).result = .error e ∧
        e.message = "evaluation failed at 0005: branch without target") ∧
    mimicking.validate = .ok () ∧
      ∃ e, (mimicking.run speechless 1 [] ()).result = .error e ∧
        e.message = "evaluation failed at 0000: unknown branch target 0007 returned nothing" := by
  obtain ⟨report, hpatch⟩ := Engine.loop_patch
  exact ⟨⟨report, ⟨by decide, by decide⟩, by decide, hpatch, _, rfl, rfl⟩, by decide, _, rfl, rfl⟩

end Body

end Inversion
