import Inversion.Rule.Library
import Inversion.Proofs.Appending

/-!
What a body does after loaded float constants have been passed through a transform that follows gravity:
the same as the given body under normal gravity, and under inverted gravity the same as the given body
with the opposite constants. A branch to a load leads to the load, and nothing leads to the call behind
it but the load itself.
-/

namespace Inversion

open Instruction (gate landing)

/-! ### Bodies with other constants -/

/-- Changes a float, and no other value. -/
def Value.mapFloat (f : Single → Single) : Value → Value
  | .float x => .float (f x)
  | v => v

/-- Changes the first value, which is the constant that is loaded. -/
def Operand.mapConstant (f : Single → Single) : List Operand → List Operand
  | [] => []
  | .value v :: rest => .value (v.mapFloat f) :: rest
  | o :: rest => o :: mapConstant f rest

/-- The instruction with another float constant. -/
def Instruction.mapConstant (f : Single → Single) (i : Instruction) : Instruction :=
  { i with operands := Operand.mapConstant f i.operands }

/-- The body with other float constants at some labels. -/
def Body.mapConstants (f : Single → Single) (sites : List Label) (b : Body) : Body :=
  { b with instructions := b.instructions.map fun i =>
      if i.label ∈ sites then i.mapConstant f else i }

/-- The body with the opposite float constants at some labels. -/
def Body.negating (sites : List Label) (b : Body) : Body := b.mapConstants Single.negate sites

variable {f : Single → Single} {sites : List Label} {b p : Body} {i : Instruction} {v : Value}
  {x : Single} {k : Nat} {g : Orientation}

theorem Value.mapFloat_id : ∀ v : Value, v.mapFloat id = v
  | .int _ | .float _ | .bool _ | .vector _ => rfl

namespace Operand

theorem mapConstant_id : ∀ operands : List Operand, mapConstant id operands = operands
  | [] => rfl
  | o :: rest => by
    have ih := mapConstant_id rest
    cases o with
    | value v => exact congrArg (fun v => .value v :: rest) v.mapFloat_id
    | target | condition | callee | slot => exact congrArg (_ :: ·) ih

theorem findSome?_value_mapConstant (f : Single → Single) : ∀ operands : List Operand,
    (mapConstant f operands).findSome? value? = (operands.findSome? value?).map (Value.mapFloat f)
  | [] => rfl
  | o :: rest => by
    have ih := findSome?_value_mapConstant f rest
    cases o with
    | value v => rfl
    | target | condition | callee | slot =>
      simpa only [mapConstant, List.findSome?_cons, value?] using ih

theorem findSome?_target_mapConstant (f : Single → Single) : ∀ operands : List Operand,
    (mapConstant f operands).findSome? target? = operands.findSome? target?
  | [] => rfl
  | o :: rest => by
    have ih := findSome?_target_mapConstant f rest
    cases o with
    | value v => rfl
    | target l => rfl
    | condition | callee | slot =>
      simpa only [mapConstant, List.findSome?_cons, target?] using ih

end Operand

namespace Instruction

theorem constant?_mapConstant (f : Single → Single) (i : Instruction) :
    (i.mapConstant f).constant? = i.constant?.map (Value.mapFloat f) := by
  unfold constant?
  rw [show (i.mapConstant f).op = i.op from rfl]
  split
  · exact Operand.findSome?_value_mapConstant f i.operands
  · rfl

theorem target?_mapConstant (f : Single → Single) (i : Instruction) :
    (i.mapConstant f).target? = i.target? := by
  unfold target?
  rw [show (i.mapConstant f).isBranch = i.isBranch from rfl]
  split
  · exact Operand.findSome?_target_mapConstant f i.operands
  · rfl

theorem op_of_constant? (h : i.constant? = some v) : i.op = .loadConstant := by
  unfold constant? at h
  split at h
  · assumption
  · cases h

/-- Whether an instruction loads a float. -/
def loadsFloat (i : Instruction) : Bool := i.constant?.any fun v => v.kind = .float

theorem exists_of_loadsFloat (h : i.loadsFloat = true) : ∃ x, i.constant? = some (.float x) := by
  unfold loadsFloat at h
  cases hv : i.constant? with
  | none =>
    rw [hv] at h
    cases h
  | some v =>
    rw [hv] at h
    cases v with
    | float x => exact ⟨x, rfl⟩
    | int | bool | vector => cases h

theorem isTerminal_of_loadsFloat (h : i.loadsFloat = true) : i.isTerminal = false := by
  obtain ⟨x, hx⟩ := exists_of_loadsFloat h
  have hop := op_of_constant? hx
  exact decide_eq_false (by rw [hop]; nofun)

end Instruction

namespace Body

theorem mapConstants_get? (f : Single → Single) (sites : List Label) (b : Body) (k : Nat) :
    (b.mapConstants f sites).get? k
      = (b.get? k).map fun i => if i.label ∈ sites then i.mapConstant f else i :=
  List.getElem?_map ..

theorem exists_of_mapConstants_get? {j : Instruction}
    (h : (b.mapConstants f sites).get? k = some j) :
    ∃ i, b.get? k = some i ∧ (if i.label ∈ sites then i.mapConstant f else i) = j := by
  rw [mapConstants_get?] at h
  exact Option.map_eq_some_iff.1 h

theorem mapConstants_labels (f : Single → Single) (sites : List Label) (b : Body) :
    (b.mapConstants f sites).labels = b.labels := by
  unfold mapConstants labels
  rw [List.map_map]
  refine List.map_congr_left fun i _ => ?_
  simp only [Function.comp_apply]
  split <;> rfl

theorem mapConstants_id (sites : List Label) (b : Body) : b.mapConstants id sites = b := by
  unfold mapConstants
  rw [List.map_id'' fun i => ?_]
  split
  · unfold Instruction.mapConstant
    rw [Operand.mapConstant_id]
  · rfl

theorem Sound.mapConstants (hb : b.Sound) (f : Single → Single) (sites : List Label) :
    (b.mapConstants f sites).Sound where
  nodup := by rw [mapConstants_labels]; exact hb.nodup
  below := by rw [mapConstants_labels]; exact hb.below
  resolves j hj hbr := by
    obtain ⟨i, hi, rfl⟩ := List.mem_map.1 hj
    rw [mapConstants_labels]
    split at hbr
    · rename_i hmem
      rw [if_pos hmem, Instruction.target?_mapConstant]
      exact hb.resolves i hi hbr
    · rename_i hmem
      rw [if_neg hmem]
      exact hb.resolves i hi hbr

end Body

/-! ### Loads and calls -/

namespace Machine

variable {σ : Type} {env : Environment σ} {args : List Value}

theorem stepper_load (b : Body) (hv : i.constant? = some v) (m : Machine σ) :
    b.stepper env args m i = .running ({ m with steps := m.steps + 1 }.push v).advance := by
  have hop := Instruction.op_of_constant? hv
  have hcallee : i.callee? = none := if_neg (by rw [hop]; nofun)
  simp only [Body.stepper, step, hcallee, execute, hop, hv]

/-- The call takes a float from the stack and puts there what gravity makes of it. -/
theorem stepper_negateFloat (b : Body) (m : Machine σ) (l : Label) :
    b.stepper env args (m.push (.float x)) (.transformCall l .negateFloat)
      = .running ({ m with steps := m.steps + 1 }.push
          (.float ((env.orientation m.host).float x))).advance := by
  rfl

end Machine

namespace Body

variable {σ : Type} {env : Environment σ} {args : List Value} {room : Nat → List Instruction}

/-- A load and the call behind it do what the load of what gravity makes of the constant does. -/
theorem Appended.keepsUp_site (h : b.Appended Instruction.loadsFloat .negateFloat sites room)
    (hp : b.Spaced room p) (hg : ∀ host, env.orientation host = g) {m : Machine σ}
    (hi : b.get? m.index = some i) (hmem : i.label ∈ sites) (s : Nat) :
    Machine.KeepsUp (p.stepper env args) p (landing room)
      ((b.mapConstants g.float sites).stepper env args m (i.mapConstant g.float))
      (m.relocated (landing room m.index) s) := by
  obtain ⟨htest, l, hl⟩ := h.site hi hmem
  obtain ⟨x, hx⟩ := Instruction.exists_of_loadsFloat htest
  have hlen : m.index + 1 ≤ b.length := (List.getElem?_eq_some_iff.1 hi).1
  have hcall : p.get? (gate room (m.index + 1)) = some (.transformCall l .negateFloat) :=
    hp.get?_gate hlen hl
  have hmapped : (i.mapConstant g.float).constant? = some (.float (g.float x)) := by
    rw [Instruction.constant?_mapConstant, hx]
    rfl
  have ht : i.isTerminal = false := Instruction.isTerminal_of_loadsFloat htest
  let m₁ : Machine σ := m.relocated (gate room (m.index + 1)) (s + 1)
  have hload : p.stepper env args (m.relocated (landing room m.index) s) i
      = .running (m₁.push (.float x)) := Machine.stepper_load p hx _
  have hnegate : p.stepper env args (m₁.push (.float x)) (.transformCall l .negateFloat)
      = .running (({ m with steps := m.steps + 1 }.push (.float (g.float x))).advance.relocated
          (landing room (m.index + 1)) (s + 2)) := by
    rw [Machine.stepper_negateFloat p m₁ l, hg, Instruction.landing_of_singleton hl]
    rfl
  rw [Machine.stepper_load _ hmapped]
  exact .running (Nat.le_refl 2) (.next ((hp.get?_landing m.index).trans hi) ht hload
    (.next hcall rfl hnegate (.here _)))

/-- Under a fixed orientation the body with calls behind its loads keeps up with the body that loads
    what gravity makes of the constants. -/
theorem Appended.shadows (h : b.Appended Instruction.loadsFloat .negateFloat sites room)
    (hp : b.Spaced room p) (hb : b.Sound) (hg : ∀ host, env.orientation host = g) :
    Machine.Shadows ((b.mapConstants g.float sites).stepper env args) (p.stepper env args)
      (b.mapConstants g.float sites) p (landing room) where
  off {k} hk := by
    rw [mapConstants_get?, Option.map_eq_none_iff] at hk
    exact (hp.get?_landing k).trans hk
  leave {k j} hk ht := by
    obtain ⟨i, hi, rfl⟩ := exists_of_mapConstants_get? hk
    by_cases hmem : i.label ∈ sites
    · have hload : i.isTerminal = false := Instruction.isTerminal_of_loadsFloat (h.site hi hmem).1
      rw [if_pos hmem, show (i.mapConstant g.float).isTerminal = i.isTerminal from rfl, hload] at ht
      cases ht
    · rw [if_neg hmem]
      exact (hp.get?_landing k).trans hi
  keepsUp {m j} s hk ht := by
    obtain ⟨i, hi, rfl⟩ := exists_of_mapConstants_get? hk
    by_cases hmem : i.label ∈ sites
    · rw [if_pos hmem]
      exact h.keepsUp_site hp hg hi hmem s
    · rw [if_neg hmem] at hk ht ⊢
      exact hp.keepsUp (hb.mapConstants g.float sites) (b.mapConstants_labels ..) hk hi ht
        (.of_empty (h.plain hi hmem)) s

theorem Appended.run_matches (h : b.Appended Instruction.loadsFloat .negateFloat sites room)
    (hp : b.Spaced room p) (hb : b.Sound) (hg : ∀ host, env.orientation host = g) {limit : Nat}
    {host : σ} (hin : ((b.mapConstants g.float sites).run env limit args host).Within limit) :
    ((b.mapConstants g.float sites).run env limit args host).Matches
      (p.run env (2 * limit) args host) := by
  have hlanding : landing room 0 = 0 := Instruction.landing_of_empty h.front
  refine Body.run_matches (n := 0) (h.shadows hp hb hg) ⟨0, ?_⟩ (Nat.le_refl _) hin
  rw [hlanding]
  exact .here _

end Body

/-! ### Patched bodies -/

namespace Rule

/-- The rule for loaded float constants, for as many of them as are asked for. -/
theorem floatConstant_appends (o : Occurrence) :
    Appends { floatConstant with occurrence := o } Instruction.loadsFloat .negateFloat :=
  ⟨⟨_, _, rfl⟩, rfl, fun _ => rfl⟩

end Rule

namespace Engine

/-- What one rule that appends calls makes of a body. -/
theorem patch_appended {engine : Engine} {target : Method} {name : String} {rule : Rule}
    {test : Instruction → Bool} {t : Transform} {report : Report} (hr : rule.Appends test t)
    (hb : b.Numbered)
    (h : (engine.patch target ⟨name, [rule]⟩ b).outcome = .ok (p, report)) :
    ∃ room, b.Spaced room p ∧
      b.Appended test t (report.rules.flatMap (·.sites)) room := by
  obtain ⟨outcomes, c, hrules, -, rfl, rfl⟩ := patch_eq_ok h
  obtain ⟨sites, after, others, hpass, -, hrest, rfl⟩ := RuleSet.applyRules_cons_eq_ok hrules
  cases hrest
  have hstart : RuleSet.entry true rule (.ofBody b) = .ofBody b := by
    obtain ⟨_, _, hp⟩ := hr.pattern
    unfold RuleSet.entry Rule.start
    rw [hp]
    rfl
  rw [hstart] at hpass
  have hsites : ([⟨rule.name, sites.length, sites⟩] : List RuleOutcome).flatMap (·.sites) = sites :=
    List.append_nil sites
  rw [hsites]
  exact hpass.appended rfl hr hb ⟨_, 0, hb, b.spaced_self, b.appended_nil test t, rfl,
    fun _ hmem => nomatch hmem⟩

/-- A valid body whose loaded float constants, as many as are asked for, have been passed through the
    transform that follows gravity. A run that is not cut off by its budget comes to the same in at
    most twice as many steps, with the same calls of the host: under normal gravity a run of the given
    body, and under inverted gravity a run of the given body with the opposite constants at the
    reported sites. -/
theorem patch_negates {engine : Engine} {target : Method} {name : String} {o : Occurrence}
    {report : Report} (hb : b.Numbered) (hv : b.validate = .ok ())
    (h : (engine.patch target ⟨name, [{ Rule.floatConstant with occurrence := o }]⟩ b).outcome
      = .ok (p, report))
    {σ : Type} (env : Environment σ) (limit : Nat) (args : List Value) (host : σ) :
    ((∀ host, env.orientation host = .normal) → (b.run env limit args host).Within limit →
      (b.run env limit args host).Matches (p.run env (2 * limit) args host)) ∧
    ((∀ host, env.orientation host = .inverted) →
      ((b.negating (report.rules.flatMap (·.sites))).run env limit args host).Within limit →
      ((b.negating (report.rules.flatMap (·.sites))).run env limit args host).Matches
        (p.run env (2 * limit) args host)) := by
  have hs := hb.sound hv
  obtain ⟨room, hp, happended⟩ := patch_appended (Rule.floatConstant_appends o) hb h
  constructor
  · intro hg hin
    have hself : b.mapConstants (Orientation.float .normal) (report.rules.flatMap (·.sites)) = b :=
      b.mapConstants_id _
    rw [← hself] at hin ⊢
    exact happended.run_matches hp hs hg hin
  · intro hg hin
    exact happended.run_matches hp hs hg hin

/-- Loads two numbers and adds them, and does so again if the host says so. The branch leads back to
    the first load. -/
def roundsBody : Body :=
  ⟨[⟨⟨0⟩, .loadConstant, [.value (.float (.one false))]⟩,
    ⟨⟨1⟩, .loadConstant, [.value (.float (.one false))]⟩, ⟨⟨2⟩, .add, []⟩,
    ⟨⟨3⟩, .call, [.callee (.method "again" 0 true)]⟩,
    ⟨⟨4⟩, .branch, [.condition .ifTrue, .target ⟨0⟩]⟩, ⟨⟨5⟩, .other .leave, []⟩], 6⟩

/-- Only the first load is a site. -/
def roundsPatched : Body :=
  ⟨[⟨⟨0⟩, .loadConstant, [.value (.float (.one false))]⟩, .transformCall ⟨6⟩ .negateFloat,
    ⟨⟨1⟩, .loadConstant, [.value (.float (.one false))]⟩, ⟨⟨2⟩, .add, []⟩,
    ⟨⟨3⟩, .call, [.callee (.method "again" 0 true)]⟩,
    ⟨⟨4⟩, .branch, [.condition .ifTrue, .target ⟨0⟩]⟩, ⟨⟨5⟩, .other .leave, []⟩], 7⟩

/-- Surroundings in which the first call alone says yes. -/
def oneRoundMore (g : Orientation) : Environment Nat :=
  ⟨fun _ => g, fun calls _ => ⟨calls + 1, .ok (some (.bool (calls = 0))), []⟩⟩

theorem patch_negates_rounds : ∃ report, roundsBody.Numbered ∧ roundsBody.validate = .ok () ∧
    ((⟨true⟩ : Engine).patch ⟨"Player", "Fall"⟩
      ⟨"offsets", [{ Rule.floatConstant with occurrence := .first }]⟩ roundsBody).outcome
        = .ok (roundsPatched, report) ∧
    report.rules.flatMap (·.sites) = [⟨0⟩] ∧
    (∀ calls, (oneRoundMore .normal).orientation calls = .normal) ∧
    (roundsBody.run (oneRoundMore .normal) 11 [] 0).Within 11 ∧
    (roundsBody.run (oneRoundMore .normal) 11 [] 0).Matches
      (roundsPatched.run (oneRoundMore .normal) 22 [] 0) ∧
    (∀ calls, (oneRoundMore .inverted).orientation calls = .inverted) ∧
    ((roundsBody.negating [⟨0⟩]).run (oneRoundMore .inverted) 11 [] 0).Within 11 ∧
    ((roundsBody.negating [⟨0⟩]).run (oneRoundMore .inverted) 11 [] 0).result
      = .ok (some (.float ((Single.one true).add (.one false)))) ∧
    ((roundsBody.negating [⟨0⟩]).run (oneRoundMore .inverted) 11 [] 0).Matches
      (roundsPatched.run (oneRoundMore .inverted) 22 [] 0) := by
  have hb : roundsBody.Numbered := ⟨by decide, by decide⟩
  have hv : roundsBody.validate = .ok () := by decide
  obtain ⟨report, h, hsites⟩ : ∃ report, ((⟨true⟩ : Engine).patch ⟨"Player", "Fall"⟩
      ⟨"offsets", [{ Rule.floatConstant with occurrence := .first }]⟩ roundsBody).outcome
        = .ok (roundsPatched, report) ∧ report.rules.flatMap (·.sites) = [⟨0⟩] :=
    ⟨_, by cbv, rfl⟩
  have hnormal : (roundsBody.run (oneRoundMore .normal) 11 [] 0).Within 11 := by decide
  have hinverted : ((roundsBody.negating [⟨0⟩]).run (oneRoundMore .inverted) 11 [] 0).Within 11 := by
    decide
  have hn := (patch_negates hb hv h (oneRoundMore .normal) 11 [] 0).1 fun _ => rfl
  have hi := (patch_negates hb hv h (oneRoundMore .inverted) 11 [] 0).2 fun _ => rfl
  rw [hsites] at hi
  exact ⟨report, hb, hv, h, hsites, fun _ => rfl, hnormal, hn hnormal, fun _ => rfl, hinverted, rfl,
    hi hinverted⟩

end Engine

end Inversion
