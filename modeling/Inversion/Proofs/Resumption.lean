import Inversion.Proofs.Course

/-!
Where a rule goes on that does not reset. Forward it goes on behind the last call of the rule before it,
and backward in front of the last window. There is nothing in front of the first instruction, though: a
rule that has patched the window there leaves the cursor behind its call, and the next one searches
backward from there.
-/

namespace Inversion

namespace RuleSet

variable {b : Body} {rules : List Rule} {k : Nat} {r r' : Rule} {start start' w : Cursor}

/-- Where the windows of a rule lie that goes on behind the last window of another one in the same
    direction. -/
structure Resumes (r : Rule) (start w : Cursor) (r' : Rule) (start' : Cursor) : Prop where
  forward : r.pattern.direction = .forward → ∀ v ∈ r'.windows start',
    w.index + r.offset < v.index ∧ v.body.get? (w.index + r.offset)
      = some (.transformCall w.body.nextLabel r.replacement.transform)
  leftmost : r.pattern.direction = .backward → ∀ v ∈ r.windows start, w.index ≤ v.index
  backward : r.pattern.direction = .backward → 0 < w.index →
    ∀ v ∈ r'.windows start', v.index < w.index
  cornered : r.pattern.direction = .backward → w.index = 0 →
    start' = r.patched w ∧ ∀ v ∈ r'.windows start', v.index ≤ r.offset + 1

/-- A rule that does not reset goes on where the one before it has stopped. -/
theorem passes_resume (hb : b.Numbered)
    (h : (passes true rules (.ofBody b))[k]? = some (r, start))
    (h' : (passes true rules (.ofBody b))[k + 1]? = some (r', start'))
    (hd : r'.pattern.direction = r.pattern.direction) (hreset : r'.reset = false)
    (hlast : (r.windows start).getLast? = some w) : Resumes r start w r' start' := by
  obtain ⟨after, hcourse, hafter, hentry⟩ := passes_next hb h h'
  obtain rfl : start' = after := by
    rw [hentry, entry, hreset]
    rfl
  obtain ⟨final, hnext⟩ := r'.windows_course hafter
  refine ⟨fun hf v hv => ?_, fun hbk => (hcourse.backward_last hbk hlast).1, fun hbk h0 v hv => ?_,
    fun hbk h0 => ?_⟩
  · have hend := ((hcourse.forward_bounds hf).2 w (List.mem_of_getLast? hlast)).2
    have hv' := ((hnext.forward_bounds (hd.trans hf)).2 v hv).1
    exact ⟨Nat.lt_of_lt_of_le hend hv', hnext.call_stays (hd.trans hf) hend
      (hcourse.call_of_getLast? hlast) v hv⟩
  · have hend := (hcourse.backward_last hbk hlast).2.1 h0
    have hv' := hnext.backward_bounds (hd.trans hbk) v hv
    omega
  · have hend := (hcourse.backward_last hbk hlast).2.2 h0
    refine ⟨hend, fun v hv => ?_⟩
    have hv' := hnext.backward_bounds (hd.trans hbk) v hv
    rw [hend] at hv'
    simpa [Rule.patched, h0] using hv'

/-- An addition in front of a minimum. -/
def cornerBody : Body := ⟨[⟨⟨0⟩, .add, []⟩, ⟨⟨1⟩, .min, []⟩], 2⟩

/-- Substitutes the last addition. -/
def lastSum : Rule :=
  Rule.substitute "sum" ((Pattern.single "sum" (.op .add)).withDirection .backward) .vecAdd

/-- Substitutes every minimum from where the rule before has stopped to the front. -/
def minimaBefore : Rule :=
  { Rule.substitute "minima" ((Pattern.single "minima" (.op .min)).withDirection .backward) .floatMin
    with occurrence := .all true }

/-- The first instruction has given way, and the cursor stands behind its call. -/
def cornered : Cursor := ⟨⟨[.transformCall ⟨2⟩ .vecAdd, ⟨⟨1⟩, .min, []⟩], 3⟩, 1, some ⟨2⟩⟩

theorem passes_corner : passes true [lastSum, minimaBefore] (.ofBody cornerBody)
    = [(lastSum, (Cursor.ofBody cornerBody).gotoEnd), (minimaBefore, cornered)] := by
  obtain ⟨sites, hp, ha⟩ : ∃ sites, (lastSum.applyFrom [] (Cursor.ofBody cornerBody).gotoEnd).outcome
      = .ok (sites, cornered) ∧ lastSum.occurrence.accepts sites.length = true :=
    ⟨[⟨0⟩], by cbv, rfl⟩
  rw [passes_cons_of_ok hp ha, passes_singleton]
  rfl

theorem windows_corner : lastSum.windows (Cursor.ofBody cornerBody).gotoEnd = [.ofBody cornerBody]
    ∧ minimaBefore.windows cornered = [cornered.placed 1] := by
  constructor <;> cbv

theorem passes_resume_corner : cornerBody.Numbered ∧
    (passes true [lastSum, minimaBefore] (.ofBody cornerBody))[0]?
      = some (lastSum, (Cursor.ofBody cornerBody).gotoEnd) ∧
    (passes true [lastSum, minimaBefore] (.ofBody cornerBody))[0 + 1]?
      = some (minimaBefore, cornered) ∧
    minimaBefore.pattern.direction = lastSum.pattern.direction ∧ minimaBefore.reset = false ∧
    (lastSum.windows (Cursor.ofBody cornerBody).gotoEnd).getLast? = some (.ofBody cornerBody) ∧
    Resumes lastSum (Cursor.ofBody cornerBody).gotoEnd (.ofBody cornerBody) minimaBefore cornered := by
  have hb : cornerBody.Numbered := ⟨by decide, by decide⟩
  have h := congrArg (·[0]?) passes_corner
  have h' := congrArg (·[0 + 1]?) passes_corner
  have hlast := congrArg List.getLast? windows_corner.1
  exact ⟨hb, h, h', rfl, rfl, hlast, passes_resume hb h h' rfl rfl hlast⟩

/-- The second rule goes backward and does not reset, and still it patches a window behind the one
    that the first rule has patched at the very front. -/
theorem corner_passed : ∃ p report, Body.ofInstructions cornerBody.instructions = .ok cornerBody ∧
    ((⟨true⟩ : Engine).patch ⟨"Player", "Fall"⟩ ⟨"corner", [lastSum, minimaBefore]⟩
      cornerBody).outcome = .ok (p, report) ∧ report.rules.map (·.replaced) = [1, 1] ∧
    minimaBefore.pattern.direction = .backward ∧ lastSum.pattern.direction = .backward ∧
    minimaBefore.reset = false ∧
    passes true [lastSum, minimaBefore] (.ofBody cornerBody)
      = [(lastSum, (Cursor.ofBody cornerBody).gotoEnd), (minimaBefore, cornered)] ∧
    (lastSum.windows (Cursor.ofBody cornerBody).gotoEnd).map (·.index) = [0] ∧
    (minimaBefore.windows cornered).map (·.index) = [1] := by
  refine ⟨⟨[.transformCall ⟨2⟩ .vecAdd, .transformCall ⟨3⟩ .floatMin], 4⟩,
    ⟨_, _, [⟨_, 1, _⟩, ⟨_, 1, _⟩]⟩, rfl, by cbv, rfl, rfl, rfl, rfl, passes_corner, ?_, ?_⟩
  · rw [windows_corner.1]
    rfl
  · rw [windows_corner.2]
    rfl

end RuleSet

end Inversion
