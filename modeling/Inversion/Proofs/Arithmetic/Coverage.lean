import Inversion.Proofs.Arithmetic.Simulation
import Inversion.Proofs.Frame

/-!
How far the arithmetic rule set goes. Each exchange takes one arithmetic instruction and one label, so
if there are labels enough the set succeeds, and since no arithmetic instruction is left it has made one
exchange for each. Applied to its own result it finds nothing to do.
-/

namespace Inversion

/-! ### Arithmetic instructions that are left -/

/-- How many arithmetic instructions there are. -/
def Body.arithmeticCount (b : Body) : Nat := b.instructions.countP (·.op.isArithmetic)

/-- There are labels enough to replace every arithmetic instruction. -/
def Body.Affords (b : Body) : Prop := b.arithmeticCount ≤ b.unused

instance (b : Body) : Decidable b.Affords := inferInstanceAs (Decidable (_ ≤ _))

variable {b b' : Body} {index : Nat} {j : Instruction} {t : Transform} {op : Opcode} {name : String}
  {sites : List Label} {c c' found : Cursor}

namespace Body

theorem countP_redirected (old : List Label) (new : Label) (is : List Instruction) :
    (is.map (Instruction.redirected old new)).countP (·.op.isArithmetic)
      = is.countP (·.op.isArithmetic) := by
  rw [List.countP_map]
  refine List.countP_congr fun i _ => ?_
  rw [Function.comp_apply, Instruction.redirected_op]

/-- An arithmetic instruction that gives way to a call is one less. -/
theorem arithmeticCount_exchange (hj : b.get? index = some j) (ha : j.op.isArithmetic = true)
    (t : Transform) : (b.exchange index 1 t).arithmeticCount + 1 = b.arithmeticCount := by
  have hcall : (Instruction.transformCall b.nextLabel t).op.isArithmetic = false := rfl
  unfold arithmeticCount exchange
  conv_rhs => rw [← take_cons_drop hj]
  simp only [List.countP_append, List.countP_cons, countP_redirected, ha, hcall, if_true,
    Bool.false_eq_true, if_false]
  omega

theorem arithmeticCount_pos (hj : b.get? index = some j) (ha : j.op.isArithmetic = true) :
    0 < b.arithmeticCount :=
  List.countP_pos_iff.2 ⟨j, List.mem_of_getElem? hj, ha⟩

theorem Affords.exchange (h : b.Affords) (hj : b.get? index = some j)
    (ha : j.op.isArithmetic = true) (t : Transform) : (b.exchange index 1 t).Affords := by
  have hcount := arithmeticCount_exchange hj ha t
  unfold Affords unused at *
  rw [exchange_next]
  omega

end Body

/-! ### Passes -/

namespace Rule

theorem Finds.replacingAll_isArithmetic {site : Instruction}
    (h : (Rule.replacingAll name op t).Finds sites c found site) (ht : op.transform? = some t) :
    c.body.get? found.index = some site ∧ site.op.isArithmetic = true := by
  obtain ⟨hsite, hop, -⟩ := h.replacingAll
  refine ⟨hsite, ?_⟩
  rw [hop, Opcode.isArithmetic_eq, ht]
  rfl

/-- What a pass finds it can patch, if there are labels enough. -/
theorem Finds.replacingAll_patchWindow {site : Instruction}
    (h : (Rule.replacingAll name op t).Finds sites c found site) (ht : op.transform? = some t)
    (hb : c.body.Numbered) (hc : c.body.Affords) :
    ∃ events, (Rule.replacingAll name op t).patchWindow found
      = .ok (events, (Rule.replacingAll name op t).patched found) := by
  obtain ⟨hsite, ha⟩ := h.replacingAll_isArithmetic ht
  have hpos := Body.arithmeticCount_pos hsite ha
  have hfits : (Rule.replacingAll name op t).Fits := Nat.le_refl 1
  have hn : found.body.next < labelCount := by
    unfold Body.Affords Body.unused at hc
    rw [h.body]
    omega
  exact patchWindow_of_fits (by rwa [h.body]) hn (h.fits hfits)

/-- A pass with labels enough succeeds, and replaces as many arithmetic instructions as it reports. -/
theorem Pass.replacingAll_counts {x : Except BodyError (List Label × Cursor)}
    (h : (Rule.replacingAll name op t).Pass sites c x) (ht : op.transform? = some t)
    (hb : c.body.Numbered) (hc : c.body.Affords) :
    ∃ sites' c', x = .ok (sites', c') ∧ c'.body.Numbered ∧ c'.body.Affords ∧
      sites'.length + c'.body.arithmeticCount = sites.length + c.body.arithmeticCount := by
  induction h with
  | sated | exhausted => exact ⟨_, _, rfl, hb, hc, rfl⟩
  | siteless _ hs _ =>
    have hbody := Cursor.seek?_body hs
    exact ⟨_, _, rfl, by rwa [hbody], by rwa [hbody], by rw [hbody]⟩
  | refused hf hw =>
    obtain ⟨events, hpatch⟩ := hf.replacingAll_patchWindow ht hb hc
    rw [hpatch] at hw
    cases hw
  | stuck hf _ hs | last hf _ hs => cases hs
  | @next sites c found site _ after next x hf hw hs _ ih =>
    obtain ⟨events, hpatch⟩ := hf.replacingAll_patchWindow ht hb hc
    rw [hpatch] at hw
    cases hw
    cases hs
    obtain ⟨hsite, ha⟩ := hf.replacingAll_isArithmetic ht
    have hnumbered := (hf.exchanges hb hpatch).numbered hb
    have hafter : ((Rule.replacingAll name op t).patched found).body
        = c.body.exchange found.index 1 t := congrArg (Body.exchange · found.index 1 t) hf.body
    rw [hafter] at ih hnumbered
    obtain ⟨sites', c', hx, hb', hc', hcount⟩ := ih hnumbered (hc.exchange hsite ha t)
    have hone := Body.arithmeticCount_exchange hsite ha t
    refine ⟨sites', c', hx, hb', hc', ?_⟩
    rw [List.length_append, List.length_singleton] at hcount
    omega

end Rule

/-! ### The rules of the set -/

namespace RuleSet

variable {target : Method} {rules : List Rule} {fresh : Bool} {outcomes : List RuleOutcome}

/-- Rules succeed if the first one has as many matches as it asks for and the others succeed from where
    it has stopped. -/
theorem applyRules_cons_of_ok {rule : Rule} {sites : List Label} {after : Cursor}
    (hp : (rule.applyFrom [] (entry fresh rule c)).outcome = .ok (sites, after))
    (hc : rule.checkCount target sites.length = .ok ())
    (hr : (applyRules target false rules after).outcome = .ok (outcomes, c')) :
    (applyRules target fresh (rule :: rules) c).outcome
      = .ok (⟨rule.name, sites.length, sites⟩ :: outcomes, c') := by
  unfold applyRules
  exact Attempt.outcome_bind_eq_ok.2 ⟨(sites, after), Attempt.outcome_adapt_eq_ok.2 hp,
    Attempt.outcome_bind_eq_ok.2 ⟨(), hc, Attempt.outcome_bind_eq_ok.2 ⟨(), rfl,
      Attempt.outcome_bind_eq_ok.2 ⟨(outcomes, c'), hr, rfl⟩⟩⟩⟩

/-- Rules that replace arithmetic opcodes wherever they stand succeed if there are labels enough, and
    report as many matches as they have replaced arithmetic instructions. -/
theorem applyRules_counts (target : Method) : ∀ (table : List (String × Opcode × Transform))
    (fresh : Bool) {c : Cursor}, (∀ e ∈ table, e.2.1.transform? = some e.2.2) →
    c.body.Numbered → c.body.Affords →
    ∃ outcomes c', (applyRules target fresh
        (table.map fun (name, op, t) => Rule.replacingAll name op t) c).outcome
          = .ok (outcomes, c') ∧
      outcomes.foldr (fun outcome n => outcome.replaced + n) 0 + c'.body.arithmeticCount
        = c.body.arithmeticCount
  | [], _, c, _, _, _ => ⟨[], c, rfl, Nat.zero_add _⟩
  | (name, op, t) :: rest, fresh, c, ht, hb, hc => by
    have hpass := (Rule.replacingAll name op t).applyFrom_pass []
      (entry fresh (Rule.replacingAll name op t) c)
    obtain ⟨sites, after, hp, hb', hc', hcount⟩ := hpass.replacingAll_counts
      (ht _ List.mem_cons_self) (by rwa [entry_body]) (by rwa [entry_body])
    obtain ⟨others, last, hr, hrest⟩ := applyRules_counts target rest false
      (fun e he => ht e (List.mem_cons_of_mem _ he)) hb' hc'
    refine ⟨_, last, applyRules_cons_of_ok hp rfl hr, ?_⟩
    rw [entry_body, List.length_nil, Nat.zero_add] at hcount
    rw [List.foldr_cons]
    show sites.length + _ + last.body.arithmeticCount = _
    omega

/-- Rules that report nothing in all report nothing each. -/
theorem reports_nothing {passes : List (Rule × Cursor)} (h : List.Forall₂ Reports passes outcomes)
    (htotal : outcomes.foldr (fun outcome n => outcome.replaced + n) 0 = 0) :
    outcomes = (passes.map Prod.fst).map fun rule => ⟨rule.name, 0, []⟩ := by
  induction h with
  | nil => rfl
  | @cons pass outcome passes outcomes hr _ ih =>
    rw [List.foldr_cons] at htotal
    have hreplaced : outcome.replaced = 0 := by omega
    have hsites : outcome.sites = [] := by
      have hlength := congrArg List.length hr.sites
      rw [List.length_map, List.length_map, ← hr.replaced, hreplaced] at hlength
      exact List.eq_nil_of_length_eq_zero hlength
    have houtcome : outcome = ⟨pass.1.name, 0, []⟩ := by
      rw [← hr.rule, ← hreplaced, ← hsites]
    rw [List.map_cons, List.map_cons, ← houtcome, ← ih (by omega)]

end RuleSet

/-! ### Patches -/

theorem Body.Exchanges.eq_of_none {n : Nat} (h : Exchanges b n b') (hn : n = 0) : b' = b := by
  cases h with
  | none => rfl
  | next => cases hn

namespace Engine

variable {engine : Engine} {target : Method} {p : Body} {report : Report}

/-- A valid body is patched if the rules succeed, since the result is valid. -/
theorem patch_of_applyRules {rules : RuleSet} {outcomes : List RuleOutcome} (hb : b.Sound)
    (h : (RuleSet.applyRules target true rules.rules (.ofBody b)).outcome = .ok (outcomes, c)) :
    (engine.patch target rules b).outcome
      = .ok (c.body, ⟨target.display, rules.name, outcomes⟩) := by
  have hsound : c.body.Sound := RuleSet.applyRules_sound (c := .ofBody b) hb h
  unfold patch
  refine Attempt.outcome_bind_eq_ok.2 ⟨(outcomes, c), h, ?_⟩
  cases hval : engine.validates with
  | false => rfl
  | true =>
    simp only [if_true, hsound.check_adapt]
    rfl

/-- With labels enough the rule set succeeds, and there are as many arithmetic instructions less as it
    reports matches. -/
theorem patch_counts (hb : b.Sound) (hc : b.Affords) (engine : Engine) (target : Method)
    (name : String) : ∃ p report,
      (engine.patch target (RuleSet.arithmetic name) b).outcome = .ok (p, report) ∧
      report.total + p.arithmeticCount = b.arithmeticCount := by
  obtain ⟨outcomes, c, hr, hcount⟩ := RuleSet.applyRules_counts target RuleSet.arithmeticTable true
    (c := .ofBody b) (by decide) hb.toNumbered hc
  exact ⟨c.body, _, patch_of_applyRules hb hr, hcount⟩

/-- No arithmetic instruction is left. -/
theorem patch_arithmeticCount (hb : b.Sound)
    (h : (engine.patch target (RuleSet.arithmetic name) b).outcome = .ok (p, report)) :
    p.arithmeticCount = 0 := by
  obtain ⟨f, hf, hmoved⟩ := patch_follows hb h
  refine List.countP_eq_zero.2 fun j hj => ?_
  rw [hf.instructions] at hj
  obtain ⟨i, hi, rfl⟩ := List.mem_map.1 hj
  cases ho : i.op.transform? with
  | some t =>
    rw [Instruction.renamed_of_moved (hmoved i hi (by rw [ho]; rfl)) ho]
    exact Bool.false_ne_true
  | none =>
    rw [Instruction.renamed_op_of_transform?_eq_none ho, Opcode.isArithmetic_eq, ho]
    exact Bool.false_ne_true

/-- A valid body without arithmetic instructions stays as it is. -/
theorem patch_without_arithmetic (hb : b.Sound) (hc : b.arithmeticCount = 0) (engine : Engine)
    (target : Method) (name : String) :
    (engine.patch target (RuleSet.arithmetic name) b).outcome
      = .ok (b, ⟨target.display, name,
          (RuleSet.arithmetic name).rules.map fun rule => ⟨rule.name, 0, []⟩⟩) := by
  have haffords : b.Affords := by
    unfold Body.Affords
    omega
  obtain ⟨p, report, h, hcount⟩ := patch_counts hb haffords engine target name
  have htotal : report.total = 0 := by omega
  obtain ⟨outcomes, c, hr, -, rfl, rfl⟩ := patch_eq_ok h
  obtain ⟨hrules, hreports, -⟩ := RuleSet.applyRules_passes (c := .ofBody b) hb.toNumbered hr
  have hsame : c.body = b := (patch_exchanges hb.toNumbered h).eq_of_none htotal
  rw [h, hsame, RuleSet.reports_nothing hreports htotal, hrules]
  rfl

/-- The arithmetic rule set on a valid body for which there are labels enough. It succeeds and reports
    as many matches as there are arithmetic instructions. Each of them has become the call of its
    transform, in place; every other instruction is the same, but for where a branch is pointed, and
    every branch leads to the place where it led. Applied to the result it finds nothing and leaves it
    as it is. -/
theorem patch_covers (hb : b.Numbered) (hv : b.validate = .ok ()) (hc : b.Affords) (engine : Engine)
    (target : Method) (name : String) : ∃ p report,
      (engine.patch target (RuleSet.arithmetic name) b).outcome = .ok (p, report) ∧
      report.total = b.arithmeticCount ∧ p.length = b.length ∧
      (∀ k i t, b.get? k = some i → i.op.transform? = some t →
        ∃ l, p.get? k = some (.transformCall l t)) ∧
      (∀ k i, b.get? k = some i → i.op.isArithmetic = false →
        p.get? k = some i ∨ i.isBranch = true ∧ ∃ l, p.get? k = some (i.retargeted l)) ∧
      (∀ k i l, b.get? k = some i → i.target? = some l →
        ∃ i' l', p.get? k = some i' ∧ i'.target? = some l' ∧ p.position? l' = b.position? l) ∧
      (engine.patch target (RuleSet.arithmetic name) p).outcome
        = .ok (p, ⟨target.display, name,
            (RuleSet.arithmetic name).rules.map fun rule => ⟨rule.name, 0, []⟩⟩) := by
  have hs := hb.sound hv
  obtain ⟨p, report, h, hcount⟩ := patch_counts hs hc engine target name
  have hnone := patch_arithmeticCount hs h
  obtain ⟨f, hf, hmoved⟩ := patch_follows hs h
  have hp : p.Sound := (patch_exchanges hb h).sound hs
  refine ⟨p, report, h, by omega, ?_, fun k i t hi ht => ?_, fun k i hi ho => ?_,
    fun k i l hi hl => ?_, patch_without_arithmetic hp hnone engine target name⟩
  · unfold Body.length
    rw [hf.instructions, List.length_map]
  · have hne := hmoved i (List.mem_of_getElem? hi) (by rw [ht]; rfl)
    refine ⟨f i.label, ?_⟩
    rw [hf.get?, hi, Option.map_some, Instruction.renamed_of_moved hne ht]
  · rw [Opcode.isArithmetic_eq, Option.isSome_eq_false_iff, Option.isNone_iff_eq_none] at ho
    rw [hf.get?, hi, Option.map_some]
    cases ht : i.target? with
    | none => exact Or.inl (congrArg some (Instruction.renamed_of_plain ho ht))
    | some l =>
      rw [Instruction.renamed_of_target ho ht]
      by_cases hl : f l = l
      · exact Or.inl (congrArg some (if_pos hl))
      · exact Or.inr ⟨Instruction.isBranch_of_target? ht, f l, congrArg some (if_neg hl)⟩
  · refine ⟨i.renamed f, f l, ?_, ?_, hf.position? (hs.target_mem (List.mem_of_getElem? hi) hl)⟩
    · rw [hf.get?, hi, Option.map_some]
    · rw [Instruction.renamed_target?, hl, Option.map_some]

/-- Branches lead onto arithmetic instructions, and one call has been patched before. There are as many
    labels left as there are arithmetic instructions. -/
def coverBody : Body :=
  ⟨[⟨⟨0⟩, .other .loadArg, [.slot 0]⟩, ⟨⟨1⟩, .add, []⟩, .transformCall ⟨2⟩ .sign,
    ⟨⟨3⟩, .branch, [.condition .ifTrue, .target ⟨1⟩]⟩, ⟨⟨4⟩, .add, []⟩, ⟨⟨5⟩, .sign, []⟩,
    ⟨⟨6⟩, .branch, [.target ⟨5⟩]⟩], labelCount - 3⟩

theorem patch_covers_cover : coverBody.Numbered ∧ coverBody.validate = .ok () ∧ coverBody.Affords ∧
    ∃ p report, ((⟨true⟩ : Engine).patch ⟨"Player", "Fall"⟩ (RuleSet.arithmetic "fall")
        coverBody).outcome = .ok (p, report) ∧
      report.total = 3 ∧ p.length = 7 ∧
      (∃ l, p.get? 5 = some (.transformCall l .sign)) ∧
      p.get? 2 = some (.transformCall ⟨2⟩ .sign) ∧
      (∃ i l, p.get? 3 = some i ∧ i.target? = some l ∧ p.position? l = some 1) ∧
      ((⟨true⟩ : Engine).patch ⟨"Player", "Fall"⟩ (RuleSet.arithmetic "fall") p).outcome
        = .ok (p, ⟨"Player::Fall", "fall",
            (RuleSet.arithmetic "fall").rules.map fun rule => ⟨rule.name, 0, []⟩⟩) := by
  have hb : coverBody.Numbered := ⟨by decide, by decide⟩
  have hv : coverBody.validate = .ok () := by decide
  have hc : coverBody.Affords := by decide
  obtain ⟨p, report, h, htotal, hlength, hcalls, hkept, htargets, hagain⟩ :=
    patch_covers hb hv hc ⟨true⟩ ⟨"Player", "Fall"⟩ "fall"
  have hcall : p.get? 2 = some (.transformCall ⟨2⟩ .sign) := by
    rcases hkept 2 (.transformCall ⟨2⟩ .sign) rfl rfl with hsame | ⟨hbranch, -⟩
    · exact hsame
    · cases hbranch
  exact ⟨hb, hv, hc, p, report, h, htotal, hlength, hcalls 5 _ .sign rfl rfl, hcall,
    htargets 3 _ ⟨1⟩ rfl rfl, hagain⟩

end Engine

end Inversion
