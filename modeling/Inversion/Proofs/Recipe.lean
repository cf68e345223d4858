import Inversion.Proofs.Window

/-!
Patterns as they can be built: a window, further windows behind it, and anchor, span and direction set
in any order and any number of times. Whatever the order, the span that a rule acts on lies inside the
window. It holds an instruction exactly if the window did when the span was last set: a window that
was empty then consumes nothing, however many instructions are put behind it afterwards.
-/

namespace Inversion

namespace Pattern

/-- A pattern whose span was last set when the window had some width. -/
structure Spans (p : Pattern) (width : Nat) : Prop where
  anchored : p.anchor ≤ p.length - 1
  inside : p.anchor + p.consume ≤ p.length
  since : width ≤ p.length
  hollow : p.consume = 0 ↔ width = 0

namespace Spans

variable {p : Pattern} {width : Nat}

theorem window (name : String) (predicates : List Predicate) :
    (Pattern.window name predicates).Spans predicates.length := by
  refine ⟨Nat.zero_le _, ?_, Nat.le_refl _, Iff.rfl⟩
  simp [Pattern.window, Pattern.length]

theorem append (h : p.Spans width) (q : Pattern) : (p.append q).Spans width := by
  have hlength : (p.append q).length = p.length + q.length := List.length_append
  obtain ⟨hanchor, hinside, hsince, hhollow⟩ := h
  refine ⟨?_, ?_, ?_, hhollow⟩
  · show p.anchor ≤ (p.append q).length - 1
    omega
  · show p.anchor + p.consume ≤ (p.append q).length
    omega
  · omega

/-- The anchor stops at the last instruction, so it leaves room for one that is consumed. -/
theorem withAnchor (h : p.Spans width) (anchor : Nat) : (p.withAnchor anchor).Spans width := by
  obtain ⟨hanchor, hinside, hsince, hhollow⟩ := h
  refine ⟨?_, ?_, hsince, ?_⟩
  · exact Nat.min_le_right _ _
  · show min anchor (p.length - 1) + min p.consume (p.length - min anchor (p.length - 1)) ≤ p.length
    omega
  · show min p.consume (p.length - min anchor (p.length - 1)) = 0 ↔ width = 0
    omega

theorem withConsume (h : p.Spans width) (consume : Nat) :
    (p.withConsume consume).Spans p.length := by
  obtain ⟨hanchor, hinside, hsince, hhollow⟩ := h
  refine ⟨hanchor, ?_, Nat.le_refl _, ?_⟩
  · show p.anchor + min (max consume 1) (p.length - p.anchor) ≤ p.length
    omega
  · show min (max consume 1) (p.length - p.anchor) = 0 ↔ p.length = 0
    omega

end Spans

/-- The ways in which patterns are built. -/
inductive Recipe where
  | window (name : String) (predicates : List Predicate)
  | single (name : String) (p : Predicate)
  | append (r behind : Recipe)
  | withAnchor (r : Recipe) (anchor : Nat)
  | withConsume (r : Recipe) (consume : Nat)
  | withDirection (r : Recipe) (d : Direction)

namespace Recipe

/-- The pattern that is built. -/
def pattern : Recipe → Pattern
  | window name predicates => .window name predicates
  | single name p => .single name p
  | append r behind => r.pattern.append behind.pattern
  | withAnchor r anchor => r.pattern.withAnchor anchor
  | withConsume r consume => r.pattern.withConsume consume
  | withDirection r d => r.pattern.withDirection d

/-- How wide the window was when its span was last set. -/
def spanWidth : Recipe → Nat
  | window _ predicates => predicates.length
  | single _ _ => 1
  | append r _ => r.spanWidth
  | withAnchor r _ => r.spanWidth
  | withConsume r _ => r.pattern.length
  | withDirection r _ => r.spanWidth

theorem spans (r : Recipe) : r.pattern.Spans r.spanWidth := by
  induction r with
  | window name predicates => exact .window name predicates
  | single name p => exact .window name [p]
  | append r behind ih _ => exact ih.append behind.pattern
  | withAnchor r anchor ih => exact ih.withAnchor anchor
  | withConsume r consume ih => exact ih.withConsume consume
  | withDirection r d ih => exact ⟨ih.anchored, ih.inside, ih.since, ih.hollow⟩

/-- A pattern that can be built acts inside its window. Its span is empty only if the window was empty
    when the span was last set, and a substitution makes a body longer only if the span is empty. -/
theorem span_sound (r : Recipe) :
    (0 < r.pattern.length → r.pattern.anchor < r.pattern.length ∧
      r.pattern.anchor + r.pattern.consume ≤ r.pattern.length ∧
      (1 ≤ r.pattern.consume ↔ 0 < r.spanWidth)) ∧
    (r.pattern.length = 0 → r.pattern.anchor = 0 ∧ r.pattern.consume = 0) ∧
    ∀ (rule : Rule) (t : Transform) (c c' : Cursor) (events : List Event),
      rule.pattern = r.pattern → rule.replacement = .substitute t → c.body.Numbered →
      rule.patchWindow c = .ok (events, c') →
      (c'.body.length ≤ c.body.length ↔ 0 < r.spanWidth) := by
  obtain ⟨hanchor, hinside, hsince, hhollow⟩ := r.spans
  refine ⟨fun hpos => ⟨by omega, hinside, by omega⟩, fun hempty => ⟨by omega, by omega⟩, ?_⟩
  intro rule t c c' events hp hr hb hw
  obtain ⟨hfit, -, rfl⟩ := Rule.patchWindow_eq_ok hb hw
  have hlength := Body.exchange_length (t := rule.replacement.transform) hfit
  have hdisplaced : rule.displaced = r.pattern.consume := by
    rw [← hp, Rule.displaced, hr]
  rw [hdisplaced] at hlength
  show (c.body.exchange (c.index + rule.offset) rule.displaced
    rule.replacement.transform).length ≤ c.body.length ↔ 0 < r.spanWidth
  rw [hdisplaced]
  omega

/-- Any instruction and an addition, which is what is consumed, and any further one behind them. -/
def sumAfter : Recipe :=
  append (withConsume (withAnchor (window "sum" [.any, .op .add]) 7) 5) (single "after" .any)

/-- An addition between two other instructions. -/
def sumBody : Body :=
  ⟨[⟨⟨0⟩, .other .dup, []⟩, ⟨⟨1⟩, .add, []⟩, ⟨⟨2⟩, .other .pop, []⟩], 3⟩

theorem span_sound_sumAfter : ∃ events c', sumBody.Numbered ∧
    (Rule.substitute "sum" sumAfter.pattern .vecAdd).patchWindow (.ofBody sumBody)
      = .ok (events, c') ∧
    sumAfter.pattern.anchor = 1 ∧ sumAfter.pattern.consume = 1 ∧ sumAfter.pattern.length = 3 ∧
    (1 ≤ sumAfter.pattern.consume ↔ 0 < sumAfter.spanWidth) ∧
    (c'.body.length ≤ sumBody.length ↔ 0 < sumAfter.spanWidth) := by
  have hb : sumBody.Numbered := ⟨by decide, by decide⟩
  obtain ⟨events, c', h⟩ : ∃ events c', (Rule.substitute "sum" sumAfter.pattern .vecAdd).patchWindow
      (.ofBody sumBody) = .ok (events, c') := ⟨_, _, rfl⟩
  obtain ⟨hspan, -, hpatch⟩ := span_sound sumAfter
  exact ⟨events, c', hb, h, rfl, rfl, rfl, (hspan (by decide)).2.2, hpatch _ _ _ _ _ rfl rfl hb h⟩

/-- An empty window with an addition put behind it. -/
def hollow : Recipe := append (window "none" []) (single "add" (.op .add))

/-- The window holds an instruction and the span none, so a substitution puts its call in front of the
    addition and leaves the addition where it is. -/
theorem hollow_consumes_nothing : 0 < hollow.pattern.length ∧ hollow.pattern.consume = 0 ∧
    ∃ report, ((⟨true⟩ : Engine).patch ⟨"Player", "Move"⟩
      ⟨"sums", [Rule.substitute "sum" hollow.pattern .vecAdd]⟩ sumBody).outcome
      = .ok (⟨[⟨⟨0⟩, .other .dup, []⟩, .transformCall ⟨3⟩ .vecAdd, ⟨⟨1⟩, .add, []⟩,
        ⟨⟨2⟩, .other .pop, []⟩], 4⟩, report) ∧ report.total = 1 := by
  refine ⟨by decide, rfl, ⟨_, _, [⟨_, 1, _⟩]⟩, by cbv, rfl⟩

end Recipe

end Pattern

end Inversion
