import Inversion.Proofs.Search
import Inversion.Proofs.Window

/-!
The passes of a rule over a body, and what a rule set makes of it. A pass is described by a relation
that has a case for each way in which it goes on or ends, so that what one patched window preserves
carries over to a whole pass, and from the passes to the rule set. In the end a body that has been
patched is the given one after a number of exchanges.
-/

namespace Inversion

/-! ### Windows that are found -/

theorem Cursor.seek?_eq_some {c found : Cursor} {p : Pattern} {d : Direction}
    (h : c.seek? p d = some found) : found = c.placed found.index ∧
      p.findNext c.body.instructions c.index d = some found.index := by
  obtain ⟨i, hi, rfl⟩ := Option.map_eq_some_iff.1 h
  exact ⟨rfl, hi⟩

/-! ### Passes -/

namespace Rule

/-- The part of the window that a rule acts on lies inside the window. -/
def Fits (rule : Rule) : Prop :=
  rule.pattern.anchor + rule.pattern.consume ≤ rule.pattern.length

instance (rule : Rule) : Decidable rule.Fits := inferInstanceAs (Decidable (_ ≤ _))

/-- A rule that may go on finds a window, and there is an instruction at its anchor. -/
structure Finds (rule : Rule) (sites : List Label) (c found : Cursor) (site : Instruction) :
    Prop where
  unsated : rule.isSated sites.length = false
  sought : c.seek? rule.pattern rule.pattern.direction = some found
  anchored : found.body.get? (found.index + rule.pattern.anchor) = some site

/-- Where the search goes on when the window at one cursor has been patched and has left another:
    there or, backward, in front of the window, if there is such a place. -/
def resume (rule : Rule) (found after : Cursor) : Except BodyError (Option Cursor) :=
  match rule.pattern.direction with
  | .forward => .ok (some after)
  | .backward => if found.index = 0 then .ok none else (after.goto (found.index - 1)).map some

/-- A pass of a rule that has patched some sites before it came to a cursor, and what it comes to. -/
inductive Pass (rule : Rule) :
    List Label → Cursor → Except BodyError (List Label × Cursor) → Prop where
  /-- The rule has done as much as it may. -/
  | sated {sites c} : rule.isSated sites.length = true → Pass rule sites c (.ok (sites, c))
  /-- There is no further window. -/
  | exhausted {sites c} : rule.isSated sites.length = false →
      c.seek? rule.pattern rule.pattern.direction = none → Pass rule sites c (.ok (sites, c))
  /-- The anchor of the window lies behind the end of the body. -/
  | siteless {sites c found} : rule.isSated sites.length = false →
      c.seek? rule.pattern rule.pattern.direction = some found →
      found.body.get? (found.index + rule.pattern.anchor) = none →
      Pass rule sites c (.ok (sites, found))
  /-- The window cannot be patched. -/
  | refused {sites c found site e} : rule.Finds sites c found site →
      rule.patchWindow found = .error e → Pass rule sites c (.error e)
  /-- The window was patched, but the search cannot go on from there. -/
  | stuck {sites c found site events after e} : rule.Finds sites c found site →
      rule.patchWindow found = .ok (events, after) → rule.resume found after = .error e →
      Pass rule sites c (.error e)
  /-- The window was the last one. -/
  | last {sites c found site events after} : rule.Finds sites c found site →
      rule.patchWindow found = .ok (events, after) → rule.resume found after = .ok none →
      Pass rule sites c (.ok (sites ++ [site.label], after))
  /-- The search goes on. -/
  | next {sites c found site events after next x} : rule.Finds sites c found site →
      rule.patchWindow found = .ok (events, after) → rule.resume found after = .ok (some next) →
      Pass rule (sites ++ [site.label]) next x → Pass rule sites c x

variable {rule : Rule} {sites sites' : List Label} {c c' found after next : Cursor}
  {site : Instruction} {events : List Event} {x : Except BodyError (List Label × Cursor)}

theorem Finds.body (h : rule.Finds sites c found site) : found.body = c.body :=
  Cursor.seek?_body h.sought

theorem Finds.window (h : rule.Finds sites c found site) :
    found.index + rule.pattern.length ≤ c.body.length :=
  (Pattern.matchesAt_bounds (Pattern.findNext_matchesAt (Cursor.seek?_eq_some h.sought).2)).2

/-- A rule that acts inside its window acts inside the body. -/
theorem Finds.fits (h : rule.Finds sites c found site) (hr : rule.Fits) :
    found.index + rule.offset + rule.displaced ≤ found.body.length := by
  have hw := h.window
  have hs := (List.getElem?_eq_some_iff.1 h.anchored).1
  rw [h.body] at hs ⊢
  unfold Body.length at *
  unfold Fits at hr
  unfold offset displaced
  cases rule.replacement with
  | substitute t => dsimp only; omega
  | append t => dsimp only; omega

/-- A window that has been patched makes one exchange. -/
theorem Finds.exchanges (h : rule.Finds sites c found site) (hb : c.body.Numbered)
    (hw : rule.patchWindow found = .ok (events, after)) : Body.Exchanges c.body 1 after.body := by
  rw [← h.body] at hb ⊢
  obtain ⟨hfit, hn, rfl⟩ := patchWindow_eq_ok hb hw
  exact .one hfit hn _

/-! ### What passes do to the body -/

/-- What the search for windows comes to is a pass. -/
theorem applyFrom_pass (rule : Rule) (sites : List Label) (c : Cursor) :
    rule.Pass sites c (rule.applyFrom sites c).outcome := by
  induction sites, c using Rule.applyFrom.induct rule with
  | case1 sites c hsat =>
    rw [applyFrom, if_pos hsat]
    exact .sated hsat
  | case2 sites c hsat hs =>
    rw [applyFrom, if_neg hsat]
    split
    · exact .exhausted (by simpa using hsat) hs
    · simp_all
  | case3 sites c hsat found hs ihf ihb =>
    have hsat' : rule.isSated sites.length = false := by simpa using hsat
    rw [applyFrom, if_neg hsat]
    split
    · simp_all
    · rename_i found' hs'
      obtain rfl : found = found' := Option.some.inj (hs.symm.trans hs')
      rw [Attempt.outcome_bind, Attempt.outcome_tell]
      show rule.Pass sites c (Attempt.outcome _)
      split
      · rename_i hsite
        exact .siteless hsat' hs hsite
      · rename_i site hsite
        have hfind : rule.Finds sites c found site := ⟨hsat', hs, hsite⟩
        split
        · rename_i e hw
          exact .refused hfind hw
        · rename_i events after hw
          rw [Attempt.outcome_bind, Attempt.outcome_tellAll]
          show rule.Pass sites c (Attempt.outcome _)
          split
          · rename_i hd
            exact .next hfind hw (by rw [resume, hd]) (ihf site events after hw)
          · rename_i hd
            split
            · rename_i h0
              exact .last hfind hw (by rw [resume, hd]; exact if_pos h0)
            · rename_i h0
              split
              · rename_i e hg
                exact .stuck hfind hw (by rw [resume, hd]; simp only [if_neg h0, hg]; rfl)
              · rename_i next hg
                exact .next hfind hw (by rw [resume, hd]; simp only [if_neg h0, hg]; rfl)
                  (ihb site events after hw next hg)

theorem resume_body (h : rule.resume found after = .ok (some next)) : next.body = after.body := by
  unfold resume at h
  split at h
  · cases h
    rfl
  · split at h
    · cases h
    · cases hg : after.goto (found.index - 1) with
      | error e => rw [hg] at h; cases h
      | ok c =>
        rw [hg] at h
        cases h
        exact Cursor.goto_body hg

/-- A window is never in front of the place where it is patched, so there is a place to go on from. -/
theorem resume_ne_error (hfit : found.index + rule.offset + rule.displaced ≤ found.body.length)
    {e : BodyError} : rule.resume found (rule.patched found) ≠ .error e := by
  intro h
  unfold resume at h
  split at h
  · cases h
  · split at h
    · cases h
    · have hlen := Body.exchange_length (t := rule.replacement.transform) hfit
      rw [Cursor.goto_of_le (by simp only [patched]; omega)] at h
      cases h

/-- A pass that succeeds is a number of exchanges, one for each site. -/
theorem Pass.exchanges (h : rule.Pass sites c x) (hx : x = .ok (sites', c'))
    (hb : c.body.Numbered) :
    ∃ n, sites'.length = sites.length + n ∧ Body.Exchanges c.body n c'.body := by
  induction h with
  | sated _ => cases hx; exact ⟨0, rfl, .none _⟩
  | exhausted _ _ => cases hx; exact ⟨0, rfl, .none _⟩
  | siteless _ hs _ => cases hx; exact ⟨0, rfl, by rw [Cursor.seek?_body hs]; exact .none _⟩
  | refused _ _ => cases hx
  | stuck _ _ _ => cases hx
  | last hf hw _ =>
    cases hx
    exact ⟨1, by simp, hf.exchanges hb hw⟩
  | next hf hw hr _ ih =>
    have hone := hf.exchanges hb hw
    rw [← resume_body hr] at hone
    obtain ⟨n, hlen, hn⟩ := ih hx (hone.numbered hb)
    refine ⟨1 + n, ?_, hone.trans hn⟩
    rw [hlen, List.length_append, List.length_singleton, Nat.add_assoc]

/-- A pass of a rule that acts inside its window fails only when the labels are used up. -/
theorem Pass.eq_labelsExhausted (h : rule.Pass sites c x) {e : BodyError} (hx : x = .error e)
    (hr : rule.Fits) (hb : c.body.Numbered) : e = .labelsExhausted := by
  induction h with
  | sated _ => cases hx
  | exhausted _ _ => cases hx
  | siteless _ _ _ => cases hx
  | refused hf hw =>
    cases hx
    exact patchWindow_eq_error (by rwa [hf.body]) (hf.fits hr) hw
  | stuck hf hw hs =>
    obtain ⟨hfit, -, rfl⟩ := patchWindow_eq_ok (by rwa [hf.body]) hw
    exact absurd hs (resume_ne_error hfit)
  | last _ _ _ => cases hx
  | next hf hw hs _ ih =>
    refine ih hx ?_
    rw [resume_body hs]
    exact (hf.exchanges hb hw).numbered hb

end Rule

/-! ### Rule sets -/

namespace RuleSet

variable {target : Method} {fresh : Bool} {rule : Rule} {rest : List Rule} {c c' : Cursor}
  {outcomes : List RuleOutcome}

/-- The cursor from which a rule starts: the end of the body where its search begins if it is the
    first one or resets, and otherwise where the rule before it stopped. -/
def entry (fresh : Bool) (rule : Rule) (c : Cursor) : Cursor :=
  if fresh || rule.reset then rule.start c else c

theorem entry_body (fresh : Bool) (rule : Rule) (c : Cursor) :
    (entry fresh rule c).body = c.body := by
  unfold entry Rule.start
  split
  · split <;> rfl
  · rfl

/-- Rules succeed when the first one has as many matches as it asks for and the others succeed from
    where it has stopped. -/
theorem applyRules_cons_outcome
    (h : (applyRules target fresh (rule :: rest) c).outcome = .ok (outcomes, c')) :
    ∃ sites after others, (rule.applyFrom [] (entry fresh rule c)).outcome = .ok (sites, after) ∧
      rule.checkCount target sites.length = .ok () ∧
      (applyRules target false rest after).outcome = .ok (others, c') ∧
      outcomes = ⟨rule.name, sites.length, sites⟩ :: others := by
  unfold applyRules at h
  obtain ⟨⟨sites, after⟩, hp, h⟩ := Attempt.outcome_bind_eq_ok.1 h
  obtain ⟨_, hc, h⟩ := Attempt.outcome_bind_eq_ok.1 h
  obtain ⟨_, -, h⟩ := Attempt.outcome_bind_eq_ok.1 h
  obtain ⟨⟨others, last⟩, hr, h⟩ := Attempt.outcome_bind_eq_ok.1 h
  cases h
  exact ⟨sites, after, others, Attempt.outcome_adapt_eq_ok.1 hp, hc, hr, rfl⟩

/-- What the first of some rules that succeed has done is a pass. -/
theorem applyRules_cons_eq_ok
    (h : (applyRules target fresh (rule :: rest) c).outcome = .ok (outcomes, c')) :
    ∃ sites after others, rule.Pass [] (entry fresh rule c) (.ok (sites, after)) ∧
      rule.checkCount target sites.length = .ok () ∧
      (applyRules target false rest after).outcome = .ok (others, c') ∧
      outcomes = ⟨rule.name, sites.length, sites⟩ :: others := by
  obtain ⟨sites, after, others, hp, hc, hr, ho⟩ := applyRules_cons_outcome h
  have hpass := rule.applyFrom_pass [] (entry fresh rule c)
  rw [hp] at hpass
  exact ⟨sites, after, others, hpass, hc, hr, ho⟩

/-- Rules fail when the first pass fails, when it does not have as many matches as it asks for, or
    when the others fail from where it has stopped. -/
theorem applyRules_cons_eq_error {e : Error}
    (h : (applyRules target fresh (rule :: rest) c).outcome = .error e) :
    (∃ e', rule.Pass [] (entry fresh rule c) (.error e') ∧ e = .body e') ∨
      ∃ sites after, rule.Pass [] (entry fresh rule c) (.ok (sites, after)) ∧
        (rule.checkCount target sites.length = .error e ∨
          (applyRules target false rest after).outcome = .error e) := by
  have hpass := rule.applyFrom_pass [] (entry fresh rule c)
  unfold applyRules at h
  rcases Attempt.outcome_bind_eq_error.1 h with hp | ⟨⟨sites, after⟩, hp, h⟩
  · obtain ⟨e', he, rfl⟩ := Attempt.outcome_adapt_eq_error.1 hp
    rw [entry, he] at hpass
    exact Or.inl ⟨e', hpass, rfl⟩
  · rw [entry, Attempt.outcome_adapt_eq_ok.1 hp] at hpass
    refine Or.inr ⟨sites, after, hpass, ?_⟩
    rcases Attempt.outcome_bind_eq_error.1 h with hc | ⟨_, -, h⟩
    · exact Or.inl hc
    · rcases Attempt.outcome_bind_eq_error.1 h with ht | ⟨_, -, h⟩
      · cases ht
      · rcases Attempt.outcome_bind_eq_error.1 h with hr | ⟨_, -, h⟩
        · exact Or.inr hr
        · cases h

/-- Rules that succeed make a number of exchanges, one for each site. -/
theorem applyRules_exchanges : ∀ {rules : List Rule} {fresh : Bool} {c : Cursor}
    {outcomes : List RuleOutcome}, c.body.Numbered →
    (applyRules target fresh rules c).outcome = .ok (outcomes, c') →
    Body.Exchanges c.body (outcomes.foldr (fun outcome n => outcome.replaced + n) 0) c'.body
  | [], _, c, _, _, h => by
    cases h
    exact .none _
  | rule :: rest, fresh, c, _, hb, h => by
    obtain ⟨sites, after, others, hp, -, hr, rfl⟩ := applyRules_cons_eq_ok h
    obtain ⟨n, hlen, hn⟩ := hp.exchanges rfl (by rwa [entry_body])
    rw [entry_body] at hn
    rw [List.length_nil, Nat.zero_add] at hlen
    rw [List.foldr_cons, hlen]
    exact hn.trans (applyRules_exchanges (hn.numbered hb) hr)

/-- Why a rule set can fail: a rule has other matches than it asks for, or the labels are used up. -/
inductive Failure (target : Method) (rules : List Rule) : Error → Prop where
  | noMatch {rule : Rule} : rule ∈ rules → Failure target rules (.noMatch rule.name target)
  | wrongCount {rule : Rule} (found : Nat) : rule ∈ rules →
      Failure target rules (.wrongCount rule.name target rule.occurrence.display found)
  | labelsExhausted : Failure target rules (.body .labelsExhausted)

theorem Failure.cons {e : Error} (h : Failure target rest e) : Failure target (rule :: rest) e := by
  cases h with
  | noMatch hm => exact .noMatch (List.mem_cons_of_mem _ hm)
  | wrongCount found hm => exact .wrongCount found (List.mem_cons_of_mem _ hm)
  | labelsExhausted => exact .labelsExhausted

theorem checkCount_failure {found : Nat} {e : Error} (h : rule.checkCount target found = .error e) :
    Failure target (rule :: rest) e := by
  unfold Rule.checkCount at h
  split at h
  · cases h
  · split at h <;> cases h
    · exact .noMatch List.mem_cons_self
    · exact .noMatch List.mem_cons_self
    · exact .wrongCount found List.mem_cons_self
    · exact .wrongCount found List.mem_cons_self

/-- Rules that act inside their windows fail for no other reason. -/
theorem applyRules_failure : ∀ {rules : List Rule} {fresh : Bool} {c : Cursor} {e : Error},
    c.body.Numbered → (∀ rule ∈ rules, rule.Fits) →
    (applyRules target fresh rules c).outcome = .error e → Failure target rules e
  | [], _, _, _, _, _, h => by cases h
  | rule :: rest, fresh, c, e, hb, hfit, h => by
    have hb' : (entry fresh rule c).body.Numbered := by rwa [entry_body]
    rcases applyRules_cons_eq_error h with ⟨e', hp, rfl⟩ | ⟨sites, after, hp, hc | hr⟩
    · rw [hp.eq_labelsExhausted rfl (hfit rule List.mem_cons_self) hb']
      exact .labelsExhausted
    · exact checkCount_failure hc
    · obtain ⟨n, -, hn⟩ := hp.exchanges rfl hb'
      exact (applyRules_failure (hn.numbered hb')
        (fun r hm => hfit r (List.mem_cons_of_mem _ hm)) hr).cons

end RuleSet

/-! ### Patches -/

theorem Body.check_outcome (b : Body) : b.check.outcome = b.validate := by
  unfold Body.check
  rw [Attempt.outcome_bind, Attempt.outcome_tellAll]
  rfl

namespace Engine

variable {engine : Engine} {target : Method} {rules : RuleSet} {b p : Body} {report : Report}

/-- A patch succeeds with what the rules make of the body, if it is valid or nobody asks. -/
theorem patch_eq_ok (h : (engine.patch target rules b).outcome = .ok (p, report)) :
    ∃ outcomes c,
      (RuleSet.applyRules target true rules.rules (.ofBody b)).outcome = .ok (outcomes, c) ∧
      (engine.validates = true → c.body.validate = .ok ()) ∧ p = c.body ∧
      report = ⟨target.display, rules.name, outcomes⟩ := by
  unfold patch at h
  obtain ⟨⟨outcomes, c⟩, hr, h⟩ := Attempt.outcome_bind_eq_ok.1 h
  refine ⟨outcomes, c, hr, ?_⟩
  cases hval : engine.validates with
  | false =>
    simp only [hval, Bool.false_eq_true, if_false] at h
    cases h
    exact ⟨nofun, rfl, rfl⟩
  | true =>
    simp only [hval, if_true] at h
    obtain ⟨_, hc, h⟩ := Attempt.outcome_bind_eq_ok.1 h
    rw [Attempt.outcome_adapt_eq_ok, Body.check_outcome] at hc
    cases h
    exact ⟨fun _ => hc, rfl, rfl⟩

/-- A patch fails where the rules fail, or when what they make of the body is refused. -/
theorem patch_eq_error {e : Error} (h : (engine.patch target rules b).outcome = .error e) :
    (RuleSet.applyRules target true rules.rules (.ofBody b)).outcome = .error e ∨
      ∃ outcomes c e', (RuleSet.applyRules target true rules.rules (.ofBody b)).outcome
        = .ok (outcomes, c) ∧ c.body.validate = .error e' := by
  unfold patch at h
  rcases Attempt.outcome_bind_eq_error.1 h with hr | ⟨⟨outcomes, c⟩, hr, h⟩
  · exact Or.inl hr
  · cases hval : engine.validates with
    | false =>
      simp only [hval, Bool.false_eq_true, if_false] at h
      cases h
    | true =>
      simp only [hval, if_true] at h
      rcases Attempt.outcome_bind_eq_error.1 h with hc | ⟨_, -, h⟩
      · obtain ⟨e', he, -⟩ := Attempt.outcome_adapt_eq_error.1 hc
        exact Or.inr ⟨outcomes, c, e', hr, by rwa [← Body.check_outcome]⟩
      · cases h

/-- A patched body is the given one after one exchange for each match. -/
theorem patch_exchanges (hb : b.Numbered)
    (h : (engine.patch target rules b).outcome = .ok (p, report)) :
    Body.Exchanges b report.total p := by
  obtain ⟨outcomes, c, hr, -, rfl, rfl⟩ := patch_eq_ok h
  exact RuleSet.applyRules_exchanges hb hr

end Engine

end Inversion
