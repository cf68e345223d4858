import Mathlib.Data.List.Chain
import Inversion.Proofs.Course

/-!
What becomes of the calls that a rule puts in. A rule that searches forward never comes back to them.
Backward the windows still reach to the right of where they start, so a window that displaces two
instructions or more may take out the call of the window before. A patched body holds one new call for
each match exactly if no window does that.
-/

namespace Inversion

namespace Body

/-! ### Labels around an exchange -/

theorem length_take_labels {b : Body} {index : Nat} (h : index ≤ b.length) :
    (b.labels.take index).length = index := by
  rw [List.length_take, labels, List.length_map]
  exact Nat.min_eq_left h

theorem take_exchange_labels {b : Body} {index : Nat} (h : index ≤ b.length) (count : Nat)
    (t : Transform) : (b.exchange index count t).labels.take index = b.labels.take index := by
  rw [exchange_labels, List.take_left' (length_take_labels h)]

theorem drop_exchange_labels {b : Body} {index : Nat} (h : index ≤ b.length) (count : Nat)
    (t : Transform) :
    (b.exchange index count t).labels.drop (index + 1) = b.labels.drop (index + count) := by
  rw [exchange_labels, ← List.drop_drop, List.drop_left' (length_take_labels h), List.drop_one,
    List.tail_cons]

/-! ### What is added -/

/-- How many instructions of a body have labels that another does not have. -/
def added (b p : Body) : Nat := p.instructions.countP fun i => i.label ∉ b.labels

theorem added_self (b : Body) : b.added b = 0 := by
  simpa [added] using fun i hi => mem_labels hi

/-- An exchange adds its call and takes out what was added to the span before. -/
theorem added_exchange {b₀ b : Body} (hnew : b.nextLabel ∉ b₀.labels) (index count : Nat)
    (t : Transform) : b₀.added (b.exchange index count t)
      + ((b.span index count).map (·.label)).countP (· ∉ b₀.labels) = b₀.added b + 1 := by
  have hcount (p : Body) : b₀.added p = p.labels.countP (· ∉ b₀.labels) := by
    simp only [added, labels, List.countP_map, Function.comp_def]
  have hparts := congrArg (List.countP (· ∉ b₀.labels)) (labels_eq_append (b := b) index count)
  rw [hcount, hcount, exchange_labels]
  simp only [List.countP_append, List.countP_cons, hnew, not_false_eq_true, decide_true,
    if_true] at hparts ⊢
  omega

end Body

namespace Rule

variable {rule : Rule} {b₀ : Body} {c c' u w next : Cursor} {windows : List Cursor}

/-- Where a pass still has to go there is nothing that has been added to a body. -/
def Untouched (rule : Rule) (b₀ : Body) (c : Cursor) : Prop :=
  match rule.pattern.direction with
  | .forward => ∀ l ∈ c.body.labels.drop c.index, l ∈ b₀.labels
  | .backward => ∀ l ∈ c.body.labels.take (c.index + 1 + rule.offset), l ∈ b₀.labels

/-- A window leaves the call of the one that was patched before it where it is. -/
def Spares (rule : Rule) (u w : Cursor) : Prop :=
  rule.pattern.direction = .forward ∨ w.index + rule.displaced ≤ u.index

/-- How much of what was added a window displaces. -/
def undone (rule : Rule) (b₀ : Body) (w : Cursor) : Nat :=
  ((w.body.span (w.index + rule.offset) rule.displaced).map (·.label)).countP (· ∉ b₀.labels)

theorem undone_eq_zero (h : ∀ l ∈ (w.body.labels.drop (w.index + rule.offset)).take rule.displaced,
    l ∈ b₀.labels) : rule.undone b₀ w = 0 := by
  rw [undone, Body.span_labels, List.countP_eq_zero]
  simpa using h

namespace Reaches

/-- A window that spares the call behind it displaces nothing that was added. -/
theorem undone_of_spares (h : rule.Reaches c w) (hc : rule.Untouched b₀ c)
    (hs : rule.pattern.direction = .forward ∨ w.index + rule.displaced ≤ c.index + 1) :
    rule.undone b₀ w = 0 := by
  unfold Untouched at hc
  refine undone_eq_zero fun l hl => ?_
  rw [h.body] at hl
  cases hd : rule.pattern.direction with
  | forward =>
    rw [hd] at hc
    have hle := Nat.le_trans (h.forward_le hd) (Nat.le_add_right _ rule.offset)
    exact hc l (List.drop_subset_drop_left _ hle (List.mem_of_mem_take hl))
  | backward =>
    rw [hd] at hc
    have hend := hs.resolve_left (by rw [hd]; nofun)
    rw [List.take_drop] at hl
    exact hc l (List.take_subset_take_left _ (by omega) (List.mem_of_mem_drop hl))

/-- Backward a window that reaches to the call of the one before it displaces that call. -/
theorem undone_pos (h : rule.Reaches c w) (hd : rule.pattern.direction = .backward)
    {call : Instruction} (hcall : c.body.get? (c.index + 1 + rule.offset) = some call)
    (hnew : call.label ∉ b₀.labels) (hs : c.index + 1 < w.index + rule.displaced) :
    0 < rule.undone b₀ w := by
  have hle := h.backward_le hd
  have hspan : (w.body.span (w.index + rule.offset) rule.displaced)[c.index + 1 - w.index]?
      = some call := by
    rw [Body.span, List.getElem?_take_of_lt (by omega), List.getElem?_drop, h.body, ← hcall,
      Body.get?]
    congr 1
    omega
  rw [undone, List.countP_pos_iff]
  exact ⟨call.label, List.mem_map_of_mem (List.mem_of_getElem? hspan), by simpa using hnew⟩

/-- A patched window adds its call and undoes what it displaces. -/
theorem added (h : rule.Reaches c w) (hnew : c.body.nextLabel ∉ b₀.labels) :
    b₀.added (rule.patched w).body + rule.undone b₀ w = b₀.added c.body + 1 := by
  rw [← h.body] at hnew ⊢
  exact Body.added_exchange hnew _ _ _

/-- Behind a patched window there is still nothing added where the pass has to go. -/
theorem untouched (h : rule.Reaches c w) (hc : rule.Untouched b₀ c)
    (hn : rule.resume w (rule.patched w) = .ok (some next)) : rule.Untouched b₀ next := by
  have hi : w.index + rule.offset ≤ w.body.length := Nat.le_trans (Nat.le_add_right ..) h.fits
  unfold Untouched at *
  cases hd : rule.pattern.direction with
  | forward =>
    rw [hd] at hc
    rw [resume_forward hd hn]
    have hle := h.forward_le hd
    intro l hl
    have hdrop := Body.drop_exchange_labels hi rule.displaced rule.replacement.transform
    rw [show (rule.patched w).body.labels.drop (rule.patched w).index = _ from hdrop, h.body] at hl
    exact hc l (List.drop_subset_drop_left _ (by omega) hl)
  | backward =>
    rw [hd] at hc
    rw [resume_body hn, resume_backward hd hn]
    have hle := h.backward_le hd
    intro l hl
    have htake := Body.take_exchange_labels hi rule.displaced rule.replacement.transform
    rw [show (rule.patched w).body.labels.take _ = _ from htake, h.body] at hl
    exact hc l (List.take_subset_take_left _ (by omega) hl)

end Reaches

/-- A cursor as a pass has left it behind a window: nothing that was added is ahead, and the call of
    the window stands. -/
structure Follows (rule : Rule) (b₀ : Body) (u c : Cursor) : Prop where
  exchanges : ∃ n, Body.Exchanges b₀ n c.body
  untouched : rule.Untouched b₀ c
  place : rule.pattern.direction = .backward → c.index + 1 = u.index
  call : ∃ call, c.body.get? (u.index + rule.offset) = some call ∧ call.label ∉ b₀.labels

theorem Reaches.follows {n : Nat} (h : rule.Reaches c w) (hb : b₀.Numbered)
    (hex : Body.Exchanges b₀ n c.body) (hc : rule.Untouched b₀ c)
    (hn : rule.resume w (rule.patched w) = .ok (some next)) : rule.Follows b₀ w next := by
  rw [← h.body] at hex
  refine ⟨⟨n + 1, ?_⟩, h.untouched hc hn, fun hd => resume_backward hd hn, _,
    by rw [resume_body hn]; exact h.call, hex.nextLabel_notMem hb h.unused⟩
  rw [resume_body hn, patched_body]
  exact .next _ _ _ hex h.fits h.unused

/-- The next window undoes nothing exactly if it spares the call of the one before it. -/
theorem Follows.undone_eq_zero_iff (hf : rule.Follows b₀ u c) (h : rule.Reaches c w) :
    rule.undone b₀ w = 0 ↔ rule.Spares u w := by
  obtain ⟨call, hcall, hnew⟩ := hf.call
  constructor
  · intro h0
    cases hd : rule.pattern.direction with
    | forward => exact Or.inl hd
    | backward =>
      refine Or.inr ?_
      have hplace := hf.place hd
      rw [← hplace] at hcall
      by_contra hreach
      have := h.undone_pos hd hcall hnew (by omega)
      omega
  · intro hs
    cases hd : rule.pattern.direction with
    | forward => exact h.undone_of_spares hf.untouched (Or.inl hd)
    | backward =>
      refine h.undone_of_spares hf.untouched (hs.imp_right fun hle => ?_)
      rwa [hf.place hd]

namespace Course

/-- Behind a window a course adds at most one instruction for each further one, and so many exactly if
    each window spares the call of the one before it. -/
theorem added_of_follows (h : rule.Course c windows c') (hb : b₀.Numbered)
    (hf : rule.Follows b₀ u c) :
    b₀.added c'.body ≤ b₀.added c.body + windows.length ∧
      (b₀.added c'.body = b₀.added c.body + windows.length ↔
        (u :: windows).IsChain rule.Spares) := by
  induction h generalizing u with
  | done hbody _ =>
    rw [hbody]
    simp
  | last hr _ =>
    obtain ⟨n, hex⟩ := hf.exchanges
    have hadd := hr.added (hex.nextLabel_notMem hb (hr.body ▸ hr.unused))
    have hiff := hf.undone_eq_zero_iff hr
    rw [List.isChain_cons_cons, ← hiff]
    simp only [List.length_singleton, List.isChain_singleton, and_true]
    omega
  | @next c w _ _ ws hr hn _ ih =>
    obtain ⟨n, hex⟩ := hf.exchanges
    have hadd := hr.added (hex.nextLabel_notMem hb (hr.body ▸ hr.unused))
    have hiff := hf.undone_eq_zero_iff hr
    obtain ⟨hle, hrest⟩ := ih (hr.follows hb hex hf.untouched hn)
    rw [resume_body hn] at hle hrest
    rw [List.isChain_cons_cons, ← hiff, ← hrest, List.length_cons]
    omega

/-- From a body on which it has not worked before, a rule adds at most one instruction for each
    window, and so many exactly if each window spares the call of the one before it. -/
theorem added (h : rule.Course c windows c') (hb : c.body.Numbered) :
    c.body.added c'.body ≤ windows.length ∧
      (c.body.added c'.body = windows.length ↔ windows.IsChain rule.Spares) := by
  have hun : rule.Untouched c.body c := by
    unfold Untouched
    cases rule.pattern.direction with
    | forward => exact fun l hl => List.mem_of_mem_drop hl
    | backward => exact fun l hl => List.mem_of_mem_take hl
  have hself := c.body.added_self
  have hfirst {w : Cursor} (hr : rule.Reaches c w) : rule.undone c.body w = 0 := by
    rw [← hr.body]
    exact undone_eq_zero fun l hl => List.mem_of_mem_drop (List.mem_of_mem_take hl)
  cases h with
  | done hbody _ =>
    rw [hbody, hself]
    simp
  | last hr _ =>
    have hadd := hr.added (hb.nextLabel_notMem (hr.body ▸ hr.unused))
    rw [hfirst hr, hself] at hadd
    simp only [List.length_singleton, List.isChain_singleton, iff_true]
    omega
  | next hr hn hc =>
    have hadd := hr.added (hb.nextLabel_notMem (hr.body ▸ hr.unused))
    rw [hfirst hr, hself] at hadd
    obtain ⟨hle, hrest⟩ := hc.added_of_follows hb (hr.follows hb (.none _) hun hn)
    rw [resume_body hn] at hle hrest
    rw [← hrest, List.length_cons]
    omega

/-- Backward the windows start further and further to the front. -/
theorem backward_lt (h : rule.Course c windows c') (hd : rule.pattern.direction = .backward) :
    windows.IsChain fun u w => w.index < u.index := by
  induction h with
  | done _ _ => exact .nil
  | last _ _ => exact .singleton _
  | @next _ _ _ _ ws _ hn hc ih =>
    have hlt := resume_backward hd hn
    cases ws with
    | nil => exact .singleton _
    | cons v ws =>
      have := hc.backward_bounds hd v List.mem_cons_self
      exact List.isChain_cons_cons.2 ⟨by omega, ih⟩

/-- A rule that searches forward or displaces one instruction at most spares its calls. -/
theorem spares (h : rule.Course c windows c')
    (hr : rule.pattern.direction = .forward ∨ rule.displaced ≤ 1) :
    windows.IsChain rule.Spares := by
  cases hd : rule.pattern.direction with
  | forward => exact (List.pairwise_of_forall fun _ _ => Or.inl hd).isChain
  | backward =>
    have hle := hr.resolve_left (by rw [hd]; nofun)
    refine (h.backward_lt hd).imp fun u w hlt => Or.inr ?_
    omega

end Course

end Rule

/-! ### Patches by one rule -/

namespace Engine

/-- When one rule patches a body, every new instruction is a call of its transform. There is one for
    each match exactly if each window spares the call of the one before it, as all do that are searched
    forward or displace one instruction at most. -/
theorem patch_output {engine : Engine} {target : Method} {name : String} {rule : Rule} {b p : Body}
    {report : Report} (hb : b.Numbered)
    (h : (engine.patch target ⟨name, [rule]⟩ b).outcome = .ok (p, report)) :
    (∀ i ∈ p.instructions, i.label ∉ b.labels →
      i = .transformCall i.label rule.replacement.transform) ∧
    report.total = (rule.windows (rule.start (.ofBody b))).length ∧
    b.added p ≤ report.total ∧
    (b.added p = report.total ↔ (rule.windows (rule.start (.ofBody b))).IsChain rule.Spares) ∧
    (rule.pattern.direction = .forward ∨ rule.displaced ≤ 1 → b.added p = report.total) := by
  obtain ⟨outcomes, c, hr, -, rfl, rfl⟩ := patch_eq_ok h
  obtain ⟨sites, after, others, hp, -, hrest, rfl⟩ := RuleSet.applyRules_cons_outcome hr
  cases hrest
  obtain ⟨hcourse, hsites⟩ := Rule.applyFrom_course (by rwa [RuleSet.entry_body]) hp
  have hseries := hcourse.series
  have hadded := hcourse.added (by rwa [RuleSet.entry_body])
  have hspares := hcourse.spares
  rw [RuleSet.entry_body] at hseries hadded
  rw [show RuleSet.entry true rule (.ofBody b) = rule.start (.ofBody b) from rfl] at *
  have htotal : sites.length = (rule.windows (rule.start (.ofBody b))).length := by
    simpa using congrArg List.length hsites
  obtain ⟨hle, hiff⟩ := hadded
  rw [show Report.total ⟨target.display, name, [⟨rule.name, sites.length, sites⟩]⟩ = sites.length
    from rfl, htotal]
  refine ⟨fun i hi hl => ?_, rfl, hle, hiff, fun hd => hiff.2 (hspares hd)⟩
  obtain ⟨e, he, hcall⟩ := hseries.mem_new hi hl
  obtain ⟨w, -, rfl⟩ := List.mem_map.1 he
  exact hcall

/-- Three instructions that do nothing. -/
def idleBody : Body :=
  ⟨[⟨⟨0⟩, .other .nop, []⟩, ⟨⟨1⟩, .other .nop, []⟩, ⟨⟨2⟩, .other .nop, []⟩], 3⟩

/-- Substitutes any two instructions, searching backward. -/
def pairing : Rule :=
  { Rule.substitute "pairs" ((Pattern.window "pairs" [.any, .any]).withDirection .backward) .vecAdd
    with occurrence := .all true }

/-- The second window has taken out the call of the first one. -/
def paired : Body := ⟨[.transformCall ⟨4⟩ .vecAdd], 5⟩

theorem patch_output_pairing : ∃ report, idleBody.Numbered ∧
    ((⟨true⟩ : Engine).patch ⟨"Player", "Rest"⟩ ⟨"pairs", [pairing]⟩ idleBody).outcome
      = .ok (paired, report) ∧
    (∀ i ∈ paired.instructions, i.label ∉ idleBody.labels →
      i = .transformCall i.label pairing.replacement.transform) ∧
    report.total = (pairing.windows (pairing.start (.ofBody idleBody))).length ∧
    idleBody.added paired ≤ report.total ∧
    (idleBody.added paired = report.total ↔
      (pairing.windows (pairing.start (.ofBody idleBody))).IsChain pairing.Spares) ∧
    (pairing.pattern.direction = .forward ∨ pairing.displaced ≤ 1 →
      idleBody.added paired = report.total) := by
  have hb : idleBody.Numbered := ⟨by decide, by decide⟩
  obtain ⟨report, h⟩ : ∃ report, ((⟨true⟩ : Engine).patch ⟨"Player", "Rest"⟩ ⟨"pairs", [pairing]⟩
      idleBody).outcome = .ok (paired, report) := ⟨_, by cbv⟩
  exact ⟨report, hb, h, patch_output hb h⟩

/-- Two matches are reported, and there is one new call. -/
theorem pairing_undoes : ∃ report, Body.ofInstructions idleBody.instructions = .ok idleBody ∧
    0 < pairing.pattern.length ∧ 1 ≤ pairing.pattern.consume ∧
    ((⟨true⟩ : Engine).patch ⟨"Player", "Rest"⟩ ⟨"pairs", [pairing]⟩ idleBody).outcome
      = .ok (paired, report) ∧ report.total = 2 ∧ idleBody.added paired = 1 := by
  refine ⟨⟨_, _, [⟨_, 2, _⟩]⟩, rfl, by decide, by decide, by cbv, rfl, by decide⟩

end Engine

end Inversion
