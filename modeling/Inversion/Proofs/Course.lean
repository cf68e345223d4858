import Inversion.Proofs.Series
import Inversion.Proofs.Pass

/-!
Where the windows of a pass lie. Each is found onward of where the search went on, in the direction of
the pattern, and is patched by one exchange. So forward the windows move away from the calls that were
put in before; backward they move to the front, one start after the other, but what a window displaces
may still reach to the calls behind it.
-/

namespace Inversion

/-- One place comes no earlier than another for who goes in a direction. -/
def Direction.Onward : Direction → Nat → Nat → Prop
  | .forward, i, j => i ≤ j
  | .backward, i, j => j ≤ i

theorem Pattern.findNext_onward {p : Pattern} {instructions : List Instruction} {start i : Nat}
    {d : Direction} (h : p.findNext instructions start d = some i) : d.Onward start i := by
  cases d with
  | forward => exact (findNext_forward_first h).1
  | backward =>
    unfold findNext at h
    split at h
    · cases h
    · have hm := List.mem_of_find?_eq_some h
      simp only [candidates, List.mem_reverse, List.mem_range] at hm
      show i ≤ start
      omega

namespace Rule

/-! ### The windows -/

/-- The window that a pass which has patched so many comes to next, and the cursor behind its patch. -/
def turn? (rule : Rule) (done : Nat) (c : Cursor) : Option (Cursor × Cursor) :=
  if rule.isSated done then none
  else do
    let found ← c.seek? rule.pattern rule.pattern.direction
    let _ ← found.body.get? (found.index + rule.pattern.anchor)
    let (_, after) ← (rule.patchWindow found).toOption
    return (found, after)

theorem turn?_unused {rule : Rule} {done : Nat} {c found after : Cursor}
    (h : rule.turn? done c = some (found, after)) : after.body.unused < c.body.unused := by
  unfold turn? at h
  split at h
  · cases h
  · obtain ⟨w, hs, h⟩ := Option.bind_eq_some_iff.1 h
    obtain ⟨_, -, h⟩ := Option.bind_eq_some_iff.1 h
    obtain ⟨⟨events, a⟩, hw, h⟩ := Option.bind_eq_some_iff.1 h
    cases h
    rw [← Cursor.seek?_body hs]
    cases hp : rule.patchWindow found with
    | error e => rw [hp] at hw; cases hw
    | ok x =>
      rw [hp] at hw
      cases hw
      exact patchWindow_unused hp

/-- The windows that a pass goes on to patch once it has patched so many, each as the cursor in front
    of it. -/
def windowsFrom (rule : Rule) (done : Nat) (c : Cursor) : List Cursor :=
  match _h : rule.turn? done c with
  | none => []
  | some (found, after) =>
    match _hr : rule.resume found after with
    | .ok (some next) => found :: rule.windowsFrom (done + 1) next
    | _ => [found]
termination_by c.body.unused
decreasing_by
  rw [resume_body _hr]
  exact turn?_unused _h

/-- The windows that a pass patches from a cursor on. -/
def windows (rule : Rule) (c : Cursor) : List Cursor := rule.windowsFrom 0 c

/-- The label of the instruction at the anchor of a window. -/
def site? (rule : Rule) (w : Cursor) : Option Label :=
  (w.body.get? (w.index + rule.pattern.anchor)).map (·.label)

/-- The exchange that patches a window. -/
def exchangeAt (rule : Rule) (w : Cursor) : Exchange :=
  ⟨w.index + rule.offset, rule.displaced, rule.replacement.transform⟩

variable {rule : Rule} {sites : List Label} {c c' w next found after : Cursor}
  {windows : List Cursor} {site : Instruction} {events : List Event}
  {x : Except BodyError (List Label × Cursor)} {done : Nat}

theorem patched_body (rule : Rule) (w : Cursor) :
    (rule.patched w).body = w.body.exchanged (rule.exchangeAt w) := rfl

theorem turn?_of_sated (h : rule.isSated done = true) : rule.turn? done c = none := if_pos h

theorem turn?_of_exhausted (h : c.seek? rule.pattern rule.pattern.direction = none) :
    rule.turn? done c = none := by
  simp [turn?, h]

theorem turn?_of_siteless (h : c.seek? rule.pattern rule.pattern.direction = some found)
    (hsite : found.body.get? (found.index + rule.pattern.anchor) = none) :
    rule.turn? done c = none := by
  simp [turn?, h, hsite]

theorem turn?_of_refused {e : BodyError}
    (h : c.seek? rule.pattern rule.pattern.direction = some found)
    (hw : rule.patchWindow found = .error e) : rule.turn? done c = none := by
  simp [turn?, h, hw, Except.toOption]

theorem Finds.turn? (h : rule.Finds sites c found site)
    (hw : rule.patchWindow found = .ok (events, after)) :
    rule.turn? sites.length c = some (found, after) := by
  simp [Rule.turn?, h.unsated, h.sought, h.anchored, hw, Except.toOption]

theorem windowsFrom_of_turn?_eq_none (h : rule.turn? done c = none) :
    rule.windowsFrom done c = [] := by
  rw [windowsFrom]
  split
  · rfl
  · simp_all

theorem windowsFrom_of_last (h : rule.turn? done c = some (found, after))
    (hr : rule.resume found after = .ok none) : rule.windowsFrom done c = [found] := by
  rw [windowsFrom]
  split
  · simp_all
  · rename_i h'
    cases h.symm.trans h'
    split
    · rename_i hr'
      cases hr.symm.trans hr'
    · rfl

theorem windowsFrom_of_next (h : rule.turn? done c = some (found, after))
    (hr : rule.resume found after = .ok (some next)) :
    rule.windowsFrom done c = found :: rule.windowsFrom (done + 1) next := by
  rw [windowsFrom]
  split
  · simp_all
  · rename_i h'
    cases h.symm.trans h'
    split
    · rename_i hr'
      cases hr.symm.trans hr'
      rfl
    · rename_i hr'
      exact absurd hr (hr' next)

/-! ### Going on -/

theorem resume_eq_none (h : rule.resume w after = .ok none) :
    rule.pattern.direction = .backward ∧ w.index = 0 := by
  unfold resume at h
  split at h
  · cases h
  · rename_i hd
    split at h
    · rename_i h0
      exact ⟨hd, h0⟩
    · cases hg : after.goto (w.index - 1) with
      | error e => rw [hg] at h; cases h
      | ok c => rw [hg] at h; cases h

theorem resume_forward (hd : rule.pattern.direction = .forward)
    (h : rule.resume w after = .ok (some next)) : next = after := by
  unfold resume at h
  rw [hd] at h
  cases h
  rfl

theorem resume_backward (hd : rule.pattern.direction = .backward)
    (h : rule.resume w after = .ok (some next)) : next.index + 1 = w.index := by
  unfold resume at h
  rw [hd] at h
  dsimp only at h
  split at h
  · cases h
  · unfold Cursor.goto at h
    split at h <;> cases h
    show w.index - 1 + 1 = w.index
    omega

/-! ### Courses -/

/-- A window that a pass comes to and patches: it lies onward, and its exchange can be made. -/
structure Reaches (rule : Rule) (c w : Cursor) : Prop where
  body : w.body = c.body
  onward : rule.pattern.direction.Onward c.index w.index
  fits : w.index + rule.offset + rule.displaced ≤ w.body.length
  unused : w.body.next < labelCount

theorem Reaches.forward_le (h : rule.Reaches c w) (hd : rule.pattern.direction = .forward) :
    c.index ≤ w.index := by
  simpa [hd, Direction.Onward] using h.onward

theorem Reaches.backward_le (h : rule.Reaches c w) (hd : rule.pattern.direction = .backward) :
    w.index ≤ c.index := by
  simpa [hd, Direction.Onward] using h.onward

/-- The windows that a rule patches one after the other, from one cursor to another. -/
inductive Course (rule : Rule) : Cursor → List Cursor → Cursor → Prop where
  /-- Nothing more is patched, though the cursor may have moved on. -/
  | done {c c' : Cursor} : c'.body = c.body → rule.pattern.direction.Onward c.index c'.index →
      Course rule c [] c'
  /-- Nothing can follow the window. -/
  | last {c w : Cursor} : rule.Reaches c w → rule.resume w (rule.patched w) = .ok none →
      Course rule c [w] (rule.patched w)
  /-- The search goes on behind the window. -/
  | next {c w next c' : Cursor} {windows : List Cursor} : rule.Reaches c w →
      rule.resume w (rule.patched w) = .ok (some next) → Course rule next windows c' →
      Course rule c (w :: windows) c'

theorem Finds.reaches (h : rule.Finds sites c found site) (hb : c.body.Numbered)
    (hw : rule.patchWindow found = .ok (events, after)) :
    rule.Reaches c found ∧ after = rule.patched found := by
  obtain ⟨hfit, hn, rfl⟩ := patchWindow_eq_ok (by rwa [h.body]) hw
  exact ⟨⟨h.body, Pattern.findNext_onward (Cursor.seek?_eq_some h.sought).2, hfit, hn⟩, rfl⟩

theorem Reaches.numbered (h : rule.Reaches c w) (hb : c.body.Numbered) :
    (rule.patched w).body.Numbered :=
  (h.body ▸ hb).exchange h.unused _ _ _

/-- The call of a window is put where it belongs. -/
theorem Reaches.call (h : rule.Reaches c w) : (rule.patched w).body.get? (w.index + rule.offset)
    = some (.transformCall w.body.nextLabel rule.replacement.transform) :=
  Body.exchange_get?_self (Nat.le_trans (Nat.le_add_right ..) h.fits)

theorem onward_refl (d : Direction) (i : Nat) : d.Onward i i := by
  cases d <;> exact Nat.le_refl i

/-- A pass patches its windows one after the other, even if it cannot go on in the end. If it succeeds
    it ends where they end and reports the labels at their anchors. -/
theorem Pass.course (h : rule.Pass sites c x) (hb : c.body.Numbered) :
    ∃ final, rule.Course c (rule.windowsFrom sites.length c) final ∧
      ∀ sites' c', x = .ok (sites', c') → c' = final ∧
        sites'.map some = sites.map some ++ (rule.windowsFrom sites.length c).map rule.site? := by
  induction h with
  | sated hsat =>
    rw [windowsFrom_of_turn?_eq_none (turn?_of_sated hsat)]
    refine ⟨_, .done rfl (onward_refl _ _), fun sites' c' hx => ?_⟩
    cases hx
    exact ⟨rfl, by simp⟩
  | exhausted _ hs =>
    rw [windowsFrom_of_turn?_eq_none (turn?_of_exhausted hs)]
    refine ⟨_, .done rfl (onward_refl _ _), fun sites' c' hx => ?_⟩
    cases hx
    exact ⟨rfl, by simp⟩
  | siteless _ hs hsite =>
    rw [windowsFrom_of_turn?_eq_none (turn?_of_siteless hs hsite)]
    refine ⟨_, .done (Cursor.seek?_body hs) (Pattern.findNext_onward (Cursor.seek?_eq_some hs).2),
      fun sites' c' hx => ?_⟩
    cases hx
    exact ⟨rfl, by simp⟩
  | refused hf hw =>
    rw [windowsFrom_of_turn?_eq_none (turn?_of_refused hf.sought hw)]
    exact ⟨_, .done rfl (onward_refl _ _), nofun⟩
  | stuck hf hw hr =>
    obtain ⟨hreach, rfl⟩ := hf.reaches hb hw
    exact absurd hr (resume_ne_error hreach.fits)
  | last hf hw hr =>
    obtain ⟨hreach, rfl⟩ := hf.reaches hb hw
    rw [windowsFrom_of_last (hf.turn? hw) hr]
    refine ⟨_, .last hreach hr, fun sites' c' hx => ?_⟩
    cases hx
    exact ⟨rfl, by simp [site?, hf.anchored]⟩
  | next hf hw hr _ ih =>
    obtain ⟨hreach, rfl⟩ := hf.reaches hb hw
    obtain ⟨final, hcourse, hok⟩ := ih (by rw [resume_body hr]; exact hreach.numbered hb)
    rw [List.length_append, List.length_singleton] at hcourse hok
    rw [windowsFrom_of_next (hf.turn? hw) hr]
    refine ⟨final, .next hreach hr hcourse, fun sites' c' hx => ?_⟩
    obtain ⟨hfinal, hsites⟩ := hok sites' c' hx
    refine ⟨hfinal, ?_⟩
    rw [hsites]
    simp [site?, hf.anchored]

/-- The windows of a pass are a course. -/
theorem windows_course (rule : Rule) (hb : c.body.Numbered) :
    ∃ final, rule.Course c (rule.windows c) final := by
  obtain ⟨final, hcourse, -⟩ := (rule.applyFrom_pass [] c).course hb
  exact ⟨final, hcourse⟩

/-- If the pass succeeds the course ends where it does, and its sites are those of the windows. -/
theorem applyFrom_course (hb : c.body.Numbered)
    (h : (rule.applyFrom [] c).outcome = .ok (sites, c')) :
    rule.Course c (rule.windows c) c' ∧ sites.map some = (rule.windows c).map rule.site? := by
  obtain ⟨final, hcourse, hok⟩ := (rule.applyFrom_pass [] c).course hb
  obtain ⟨rfl, hsites⟩ := hok sites c' h
  exact ⟨hcourse, hsites⟩

namespace Course

/-- A course is one exchange for each window. -/
theorem series (h : rule.Course c windows c') :
    Body.Series c.body (windows.map rule.exchangeAt) c'.body := by
  induction h with
  | done hb _ => rw [hb]; exact .none _
  | last hr _ =>
    rw [patched_body, ← hr.body]
    exact .one hr.fits hr.unused
  | next hr hn _ ih =>
    rw [resume_body hn, patched_body] at ih
    rw [← hr.body]
    exact Body.Series.trans (.one hr.fits hr.unused) ih

/-- In the end the call of the last window stands where it was put. -/
theorem call_of_getLast? (h : rule.Course c windows c') (hw : windows.getLast? = some w) :
    c'.body.get? (w.index + rule.offset)
      = some (.transformCall w.body.nextLabel rule.replacement.transform) := by
  induction h with
  | done _ _ => cases hw
  | last hr _ =>
    rw [List.getLast?_singleton] at hw
    cases hw
    exact hr.call
  | @next _ _ _ _ ws hr hn hc ih =>
    cases ws with
    | nil =>
      rw [List.getLast?_singleton] at hw
      cases hw
      cases hc with
      | done hb _ =>
        rw [hb, resume_body hn]
        exact hr.call
    | cons v ws => exact ih (by rwa [List.getLast?_cons_cons] at hw)

/-- Forward no window lies in front of where the course began, and it ends behind every call. -/
theorem forward_bounds (h : rule.Course c windows c') (hd : rule.pattern.direction = .forward) :
    c.index ≤ c'.index ∧ ∀ w ∈ windows, c.index ≤ w.index ∧ w.index + rule.offset < c'.index := by
  induction h with
  | done _ ho =>
    rw [hd] at ho
    exact ⟨ho, by simp⟩
  | last _ hn => rw [(resume_eq_none hn).1] at hd; cases hd
  | @next c w _ _ _ hr hn _ ih =>
    have hw := hr.forward_le hd
    rw [resume_forward hd hn] at ih
    obtain ⟨hle, hall⟩ := ih
    have hi : (rule.patched w).index = w.index + rule.offset + 1 := rfl
    rw [hi] at hle hall
    refine ⟨by omega, fun v hv => ?_⟩
    rcases List.mem_cons.1 hv with rfl | hv
    · exact ⟨hw, hle⟩
    · have := hall v hv
      exact ⟨by omega, this.2⟩

/-- Backward no window lies behind where the course began. -/
theorem backward_bounds (h : rule.Course c windows c')
    (hd : rule.pattern.direction = .backward) : ∀ w ∈ windows, w.index ≤ c.index := by
  induction h with
  | done _ _ => simp
  | last hr _ => simpa using hr.backward_le hd
  | next hr hn _ ih =>
    have hw := hr.backward_le hd
    have hlt := resume_backward hd hn
    intro v hv
    rcases List.mem_cons.1 hv with rfl | hv
    · exact hw
    · have := ih v hv
      omega

/-- Backward the last window is the leftmost one. The course ends in front of it, or behind its call
    if the window is the first one of the body. -/
theorem backward_last (h : rule.Course c windows c') (hd : rule.pattern.direction = .backward)
    (hw : windows.getLast? = some w) : (∀ v ∈ windows, w.index ≤ v.index) ∧
      (0 < w.index → c'.index < w.index) ∧ (w.index = 0 → c' = rule.patched w) := by
  induction h with
  | done _ _ => cases hw
  | last _ hn =>
    rw [List.getLast?_singleton] at hw
    cases hw
    have h0 := (resume_eq_none hn).2
    exact ⟨by simp, by omega, fun _ => rfl⟩
  | @next _ u _ _ ws _ hn hc ih =>
    have hlt : _ < u.index := Nat.le_of_eq (resume_backward hd hn)
    cases ws with
    | nil =>
      rw [List.getLast?_singleton] at hw
      cases hw
      cases hc with
      | done _ ho =>
        rw [hd] at ho
        exact ⟨by simp, fun _ => Nat.lt_of_le_of_lt ho hlt, by omega⟩
    | cons v ws =>
      rw [List.getLast?_cons_cons] at hw
      obtain ⟨hleft, hrest⟩ := ih hw
      have hle := hc.backward_bounds hd w (List.mem_of_getLast? hw)
      refine ⟨fun x hx => ?_, hrest⟩
      rcases List.mem_cons.1 hx with rfl | hx
      · omega
      · exact hleft x hx

/-- Forward a call in front of the course is still there at every window. -/
theorem call_stays (h : rule.Course c windows c') (hd : rule.pattern.direction = .forward)
    {k : Nat} {l : Label} {t : Transform} (hk : k < c.index)
    (hg : c.body.get? k = some (.transformCall l t)) :
    ∀ w ∈ windows, w.body.get? k = some (.transformCall l t) := by
  induction h with
  | done _ _ => simp
  | last _ hn => rw [(resume_eq_none hn).1] at hd; cases hd
  | @next c w _ _ _ hr hn _ ih =>
    have hw := hr.forward_le hd
    have hfit := hr.fits
    rw [← hr.body] at hg
    rw [resume_forward hd hn] at ih
    intro v hv
    rcases List.mem_cons.1 hv with rfl | hv
    · exact hg
    · refine ih ?_ ?_ v hv
      · show k < w.index + rule.offset + 1
        omega
      · rw [patched_body, Body.exchanged, Body.exchange_get?_of_lt (by simp only [exchangeAt]; omega)
          (by simp only [exchangeAt]; omega), hg]
        rfl

end Course

end Rule

/-! ### Rule sets -/

namespace RuleSet

/-- The rules that are applied, each with the cursor from which it starts. A rule is followed by the
    next one if it has as many matches as it asks for. -/
def passes : Bool → List Rule → Cursor → List (Rule × Cursor)
  | _, [], _ => []
  | fresh, rule :: rest, c =>
    (rule, entry fresh rule c) ::
      match (rule.applyFrom [] (entry fresh rule c)).outcome with
      | .ok (sites, after) =>
        if rule.occurrence.accepts sites.length then passes false rest after else []
      | .error _ => []

/-- An outcome tells the windows that a rule has patched from a cursor on. -/
structure Reports (pass : Rule × Cursor) (outcome : RuleOutcome) : Prop where
  rule : outcome.rule = pass.1.name
  replaced : outcome.replaced = (pass.1.windows pass.2).length
  sites : outcome.sites.map some = (pass.1.windows pass.2).map pass.1.site?

variable {target : Method} {fresh : Bool} {rule r r' : Rule} {rest : List Rule}
  {c c' start start' : Cursor}

theorem checkCount_eq_ok {found : Nat} :
    rule.checkCount target found = .ok () ↔ rule.occurrence.accepts found = true := by
  unfold Rule.checkCount
  split
  · rename_i h
    simp [h]
  · rename_i h
    split <;> simp_all

theorem passes_cons_of_ok {sites : List Label} {after : Cursor}
    (h : (rule.applyFrom [] (entry fresh rule c)).outcome = .ok (sites, after))
    (ha : rule.occurrence.accepts sites.length = true) :
    passes fresh (rule :: rest) c = (rule, entry fresh rule c) :: passes false rest after := by
  rw [passes, h]
  exact congrArg _ (if_pos ha)

theorem passes_singleton (fresh : Bool) (rule : Rule) (c : Cursor) :
    passes fresh [rule] c = [(rule, entry fresh rule c)] := by
  rw [passes]
  split
  · split <;> rfl
  · rfl

/-- Rules that succeed are all applied. What they do to the body are the exchanges for all their
    windows, and what they report tells these windows. -/
theorem applyRules_passes : ∀ {rules : List Rule} {fresh : Bool} {c : Cursor}
    {outcomes : List RuleOutcome}, c.body.Numbered →
    (applyRules target fresh rules c).outcome = .ok (outcomes, c') →
    (passes fresh rules c).map Prod.fst = rules ∧
      List.Forall₂ Reports (passes fresh rules c) outcomes ∧
      Body.Series c.body ((passes fresh rules c).flatMap fun pass =>
        (pass.1.windows pass.2).map pass.1.exchangeAt) c'.body
  | [], _, c, _, _, h => by
    cases h
    exact ⟨rfl, .nil, .none _⟩
  | rule :: rest, fresh, c, _, hb, h => by
    obtain ⟨sites, after, others, hp, hc, hr, rfl⟩ := applyRules_cons_outcome h
    obtain ⟨hcourse, hsites⟩ := Rule.applyFrom_course (by rwa [entry_body]) hp
    have hseries := hcourse.series
    rw [entry_body] at hseries
    obtain ⟨hrules, hreports, hothers⟩ := applyRules_passes (hseries.exchanges.numbered hb) hr
    rw [passes_cons_of_ok hp (checkCount_eq_ok.1 hc)]
    refine ⟨by rw [List.map_cons, hrules], .cons ⟨rfl, ?_, hsites⟩ hreports, ?_⟩
    · simpa using congrArg List.length hsites
    · rw [List.flatMap_cons]
      exact hseries.trans hothers

/-- One rule after another starts where that has ended, unless it resets. -/
theorem passes_next : ∀ {rules : List Rule} {fresh : Bool} {c : Cursor} {k : Nat},
    c.body.Numbered → (passes fresh rules c)[k]? = some (r, start) →
    (passes fresh rules c)[k + 1]? = some (r', start') →
    ∃ after, r.Course start (r.windows start) after ∧ after.body.Numbered ∧
      start' = entry false r' after
  | [], _, _, _, _, h, _ => by cases h
  | rule :: rest, fresh, c, k, hb, h, h' => by
    have hb' : (entry fresh rule c).body.Numbered := by rwa [entry_body]
    rw [passes] at h h'
    rw [List.getElem?_cons_succ] at h'
    split at h'
    · rename_i sites after hp
      split at h'
      · rename_i ha
        obtain ⟨hcourse, -⟩ := Rule.applyFrom_course hb' hp
        have hafter := hcourse.series.exchanges.numbered hb'
        rw [hp] at h
        cases k with
        | zero =>
          cases h
          refine ⟨after, hcourse, hafter, ?_⟩
          cases rest with
          | nil => cases h'
          | cons next rest =>
            rw [passes] at h'
            cases h'
            rfl
        | succ k =>
          simp only [List.getElem?_cons_succ, if_pos ha] at h
          exact passes_next hafter h h'
      · cases h'
    · cases h'

end RuleSet

end Inversion
