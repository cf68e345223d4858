import Inversion.Proofs.Batch
import Inversion.Proofs.Relabelling

/-!
One rule that searches forward or backward. If its windows do not accept its own calls, a backward
search comes to windows in front of the call it has put in last, where everything stands as in the given
body. So it patches the matches of the given body from the back, and these are as many as from the
front. Either way no match is left, since a window of the patched body lies between two calls.
-/

namespace Inversion

/-! ### In front of what is filled -/

/-- The gaps at some starts are filled, and a cursor stands in front of them. Windows that can be found
    from there end at an index, behind which the gaps are. -/
structure FilledFrom (p : Pattern) (b : Body) (t : Transform) (starts : List Nat) (index : Nat)
    (c : Cursor) : Prop where
  body : c.body = b.filled p.consume t (b.gapsAt starts)
  inside : index ≤ b.length
  ahead : ∀ s ∈ starts, index ≤ s
  reach : index ≤ c.index + 1
  stop : ∀ j ≤ c.index, p.matchesAt c.body.instructions j = true → j + p.length ≤ index

namespace FilledFrom

variable {p : Pattern} {b : Body} {t : Transform} {starts : List Nat} {index k j q : Nat}
  {c after : Cursor}

theorem clear (h : FilledFrom p b t starts index c) (front : Nat) (hk : k ≤ index) :
    Body.Clear p.consume (b.gapsAt starts) front k :=
  Body.clear_gapsAt fun s hs => Or.inr (Nat.le_trans hk (h.ahead s hs))

/-- In front of the gaps the instructions stand where they were. -/
theorem get? (h : FilledFrom p b t starts index c) (hk : k < index) : c.body.get? k
    = (b.get? k).map (Instruction.rerouted (b.heir? p.consume (b.gapsAt starts))) := by
  have hget := Body.filled_get? (t := t) (m := k) (h.clear 0 (Nat.le_of_eq (Nat.zero_add index)))
    (by rw [Nat.zero_add]; exact h.inside) hk
  rw [← h.body, Nat.zero_add] at hget
  rwa [show b.place p.consume t (b.gapsAt starts) 0 = 0 from rfl, Nat.zero_add] at hget

theorem matchesAt (h : FilledFrom p b t starts index c) (hp : p.Plain) (hj : j + p.length ≤ index) :
    p.matchesAt c.body.instructions j = p.matchesAt b.instructions j :=
  hp.matchesAt_rerouted fun _ hk => h.get? (Nat.lt_of_lt_of_le (Nat.add_lt_add_left hk j) hj)

/-- A search backward finds the last match of the given body that ends in front of the gaps. -/
theorem findNext (h : FilledFrom p b t starts index c) (hp : p.Plain) :
    p.findNext c.body.instructions c.index .backward = p.findLast b.instructions index := by
  cases hq : p.findLast b.instructions index with
  | none =>
    have hnone := Pattern.findLast_eq_none hq
    cases hi : p.findNext c.body.instructions c.index .backward with
    | none => rfl
    | some i =>
      have hmatch := Pattern.findNext_matchesAt hi
      have hend := h.stop i (Pattern.findNext_backward_last hi).1 hmatch
      rw [h.matchesAt hp hend, hnone i hend] at hmatch
      cases hmatch
  | some q =>
    obtain ⟨hpos, hend⟩ := Pattern.findLast_bounds hq
    obtain ⟨hmatch, hlast⟩ := Pattern.findLast_last hq
    have hreach := h.reach
    refine Pattern.findNext_backward_of_last (by omega) ?_ fun j hqj hj => ?_
    · rwa [h.matchesAt hp hend]
    · by_contra hm
      rw [Bool.not_eq_false] at hm
      have hstop := h.stop j hj hm
      rw [h.matchesAt hp hstop, hlast j hqj hstop] at hm
      cases hm

/-- A further gap in front of the index is filled by an exchange where it is. -/
theorem exchange (h : FilledFrom p b t starts index c) (hb : b.Numbered) (hw : 0 < p.consume)
    (hn : starts.length ≤ b.unused) (hq : q + p.consume ≤ index) :
    c.body.exchange q p.consume t = b.filled p.consume t (b.gapsAt (starts ++ [q])) := by
  have hle : q ≤ index := Nat.le_trans (Nat.le_add_right _ _) hq
  have hplace : b.place p.consume t (b.gapsAt starts) q = q :=
    Body.place_eq_self (h.clear 0 hle) (Nat.le_trans hle h.inside)
  rw [hb.filled_gapsAt_concat hw hn (Nat.le_trans hq h.inside) (h.clear q hq), ← h.body, hplace]

/-- From in front of a call no window is found that reaches to it. -/
theorem next (h : FilledFrom p b t starts index c) (hp : p.Plain) (ht : p.Shuns t)
    (hb : b.Numbered) (hw : 0 < p.consume) (hn : starts.length ≤ b.unused)
    (hq : q + p.consume ≤ index) (hbody : after.body = c.body.exchange q p.consume t)
    (hindex : after.index + 1 = q) : FilledFrom p b t (starts ++ [q]) q after := by
  have hle : q ≤ index := Nat.le_trans (Nat.le_add_right _ _) hq
  refine ⟨by rw [hbody]; exact h.exchange hb hw hn hq, Nat.le_trans hle h.inside, fun s hs => ?_,
    Nat.le_of_eq hindex.symm, fun j hj hm => ?_⟩
  · rcases List.mem_append.1 hs with hs | hs
    · exact Nat.le_trans hle (h.ahead s hs)
    · exact Nat.le_of_eq (List.mem_singleton.1 hs).symm
  · have hlength : q < c.body.length := by
      have hinside : q < b.instructions.length := Nat.lt_of_lt_of_le (by omega) h.inside
      have hget := h.get? (k := q) (by omega)
      rw [Body.get?, Body.get?, List.getElem?_eq_getElem (l := b.instructions) hinside] at hget
      exact (List.getElem?_eq_some_iff.1 hget).1
    rw [hbody] at hm
    rcases ht.matchesAt_exchange hp (Nat.le_of_lt hlength) hm with ⟨hend, -⟩ | ⟨hlt, -⟩
    · exact hend
    · omega

end FilledFrom

namespace Rule

variable {rule : Rule} {t : Transform} {b : Body} {sites sites' : List Label}
  {c c' found after : Cursor} {site : Instruction} {events : List Event}
  {x : Except BodyError (List Label × Cursor)}

/-- Backward a pass keeps to the matches of the given body that do not overlap, back to front. -/
theorem Fills.backwardPlan (hr : rule.Fills t) (ha : rule.pattern.anchor = 0)
    (ht : rule.pattern.Shuns t) (hd : rule.pattern.direction = .backward) (hb : b.Numbered) :
    rule.Plan t b fun starts rest c => ∃ index, FilledFrom rule.pattern b t starts index c ∧
      rule.pattern.findAllBefore b.instructions index = rest where
  body := fun ⟨_, hf, _⟩ => hf.body
  halt := by
    rintro starts c ⟨index, hf, hrest⟩
    rw [hd, Cursor.seek?, hf.findNext hr.plain, Pattern.findAllBefore_eq_nil hrest]
    rfl
  turn := by
    rintro starts rest q c ⟨index, hf, hrest⟩ hn
    obtain ⟨hq, rfl⟩ := Pattern.findAllBefore_eq_cons hrest
    obtain ⟨hpos, hend⟩ := Pattern.findLast_bounds hq
    have hspan : rule.pattern.consume = rule.pattern.length := by
      have := hr.ends
      omega
    have hsought : c.seek? rule.pattern .backward = some (c.placed q) := by
      rw [Cursor.seek?, hf.findNext hr.plain, hq]
      rfl
    have hbody : (rule.patched (c.placed q)).body = c.body.exchange q rule.pattern.consume t := by
      rw [hr.patched, ha]
      rfl
    have hwidth : q + rule.pattern.consume ≤ index := by rwa [hspan]
    refine ⟨_, hd ▸ hsought, ?_⟩
    exact {
      inside := Nat.le_trans hend hf.inside
      label := by
        rw [ha]
        show (c.body.get? q).map (·.label) = b.labels[q]?
        exact Body.label_of_rerouted (hf.get? (by omega))
      body := by
        rw [hbody, ha]
        exact hf.exchange hb hr.consumes (Nat.le_of_lt hn) hwidth
      last := by
        intro hlast
        -- in front of the first instruction there is no window
        obtain rfl : q = 0 := (resume_eq_none hlast).2
        cases hfirst : rule.pattern.findAllBefore b.instructions 0 with
        | nil => rfl
        | cons i rest =>
          have := (Pattern.findLast_bounds (Pattern.findAllBefore_eq_cons hfirst).1).2
          omega
      next := by
        intro after hresume
        rw [ha]
        exact ⟨q, hf.next hr.plain ht hb hr.consumes (Nat.le_of_lt hn) hwidth
          ((resume_body hresume).trans hbody) (resume_backward hd hresume), rfl⟩ }

/-- The start of a backward pass, with no gap filled. -/
theorem start_filledFrom (hd : rule.pattern.direction = .backward) (b : Body) (t : Transform) :
    FilledFrom rule.pattern b t [] b.length (rule.start (.ofBody b)) := by
  unfold start
  rw [hd]
  exact ⟨(Body.filled_nil b _ t).symm, Nat.le_refl _, nofun, Nat.le_succ _,
    fun _ _ hm => (Pattern.matchesAt_bounds hm).2⟩

/-! ### What is left behind -/

/-- There is no match where a pass does not go any more. -/
def Cleared (rule : Rule) (c : Cursor) : Prop :=
  ∀ j, ¬rule.pattern.direction.Onward c.index j → rule.pattern.matchesAt c.body.instructions j = false

theorem start_cleared (rule : Rule) (b : Body) : rule.Cleared (rule.start (.ofBody b)) := by
  intro j hj
  unfold start at hj ⊢
  cases hd : rule.pattern.direction with
  | forward =>
    rw [hd] at hj
    exact absurd (Nat.zero_le j) hj
  | backward =>
    rw [hd] at hj
    by_contra hm
    rw [Bool.not_eq_false] at hm
    have hend : j + rule.pattern.length ≤ b.length := (Pattern.matchesAt_bounds hm).2
    exact hj (Nat.le_trans (Nat.le_add_right _ _) hend)

/-- Where a search has gone by there is no match. -/
theorem Cleared.seek (hc : rule.Cleared c)
    (hs : c.seek? rule.pattern rule.pattern.direction = some found) {j : Nat} (hj : j ≠ found.index)
    (ho : rule.pattern.direction.Onward j found.index) :
    rule.pattern.matchesAt c.body.instructions j = false := by
  have hfind := (Cursor.seek?_eq_some hs).2
  by_cases hb : rule.pattern.direction.Onward c.index j
  · cases hd : rule.pattern.direction with
    | forward =>
      rw [hd] at hfind ho hb
      exact (Pattern.findNext_forward_first hfind).2 j hb (Nat.lt_of_le_of_ne ho hj)
    | backward =>
      rw [hd] at hfind ho hb
      exact (Pattern.findNext_backward_last hfind).2 j (Nat.lt_of_le_of_ne ho hj.symm) hb
  · exact hc j hb

/-- Where a search that finds nothing has gone by there is no match at all. -/
theorem Cleared.none (hc : rule.Cleared c)
    (hs : c.seek? rule.pattern rule.pattern.direction = none) (j : Nat) :
    rule.pattern.matchesAt c.body.instructions j = false := by
  rw [Cursor.seek?, Option.map_eq_none_iff] at hs
  by_cases hb : rule.pattern.direction.Onward c.index j
  · cases hd : rule.pattern.direction with
    | forward =>
      rw [hd] at hs hb
      exact Pattern.findNext_forward_eq_none hs j hb
    | backward =>
      rw [hd] at hs hb
      exact Pattern.findNext_backward_eq_none hs j hb
  · exact hc j hb

/-- Up to a window that has just been patched there is no match in the new body. -/
theorem Cleared.patched (hc : rule.Cleared c) (hr : rule.Fills t) (ha : rule.pattern.anchor = 0)
    (ht : rule.pattern.Shuns t) (hs : c.seek? rule.pattern rule.pattern.direction = some found)
    {j : Nat} (ho : rule.pattern.direction.Onward j found.index) :
    rule.pattern.matchesAt (rule.patched found).body.instructions j = false := by
  have hbounds := Pattern.matchesAt_bounds (Pattern.findNext_matchesAt (Cursor.seek?_eq_some hs).2)
  have hends := hr.ends
  by_contra hm
  rw [Bool.not_eq_false, hr.patched, ha, Cursor.seek?_body hs] at hm
  rcases ht.matchesAt_exchange hr.plain (by unfold Body.length; omega) hm with
    ⟨hend, hold⟩ | ⟨hlt, hold⟩
  · rw [hc.seek hs (by omega) ho] at hold
    cases hold
  · have hback : rule.pattern.direction.Onward (j + rule.pattern.consume - 1) found.index := by
      cases hd : rule.pattern.direction with
      | forward =>
        rw [hd] at ho
        exact absurd hlt (Nat.not_lt.2 ho)
      | backward =>
        show found.index ≤ j + rule.pattern.consume - 1
        omega
    rw [hc.seek hs (by omega) hback] at hold
    cases hold

/-- A pass without a limit leaves no match. -/
theorem Pass.cleared (h : rule.Pass sites c x) (hx : x = .ok (sites', c')) (hr : rule.Fills t)
    (ha : rule.pattern.anchor = 0) (ht : rule.pattern.Shuns t) (hl : rule.occurrence.limit? = none)
    (hb : c.body.Numbered) (hc : rule.Cleared c) (j : Nat) :
    rule.pattern.matchesAt c'.body.instructions j = false := by
  induction h with
  | sated hsat =>
    rw [isSated, hl] at hsat
    cases hsat
  | exhausted _ hnone =>
    cases hx
    exact hc.none hnone j
  | siteless _ hs hsite =>
    -- the anchor is the first instruction of the window
    have hbounds := Pattern.matchesAt_bounds (Pattern.findNext_matchesAt (Cursor.seek?_eq_some hs).2)
    rw [ha, Cursor.seek?_body hs, Body.get?, List.getElem?_eq_none_iff] at hsite
    omega
  | refused _ _ => cases hx
  | stuck _ _ _ => cases hx
  | last hf hw hresume =>
    cases hx
    obtain ⟨-, rfl⟩ := hf.reaches hb hw
    obtain ⟨hd, hfirst⟩ := resume_eq_none hresume
    exact hc.patched hr ha ht hf.sought (by rw [hd, hfirst]; exact Nat.zero_le j)
  | @next sites c found site events after next x hf hw hresume _ ih =>
    obtain ⟨hreach, rfl⟩ := hf.reaches hb hw
    refine ih hx (by rw [resume_body hresume]; exact hreach.numbered hb) fun k hk => ?_
    rw [resume_body hresume]
    refine hc.patched hr ha ht hf.sought ?_
    cases hd : rule.pattern.direction with
    | forward =>
      rw [hd, resume_forward hd hresume, hr.patched, ha] at hk
      exact Nat.le_of_lt_succ (Nat.lt_of_not_le hk)
    | backward =>
      rw [hd] at hk
      have hstep := resume_backward hd hresume
      have hbehind : next.index < k := Nat.lt_of_not_le hk
      show found.index ≤ k
      omega

/-- Substitutes all matches of a pattern, however many there are. -/
def sweeping (name : String) (p : Pattern) (t : Transform) (reset : Bool) (d : Direction) : Rule :=
  ⟨name, p.withDirection d, .substitute t, .all true, reset⟩

variable {name : String} {p : Pattern} {reset : Bool} {d : Direction}

theorem sweeping_fills (hplain : p.Plain) (hw : 0 < p.length) (ha : p.anchor = 0)
    (hc : p.consume = p.length) : (sweeping name p t reset d).Fills t where
  replacement := rfl
  plain := hplain
  consumes := by
    show 1 ≤ p.consume
    omega
  ends := by
    show p.anchor + p.consume = p.length
    omega

/-- In either direction the matches of the given body are patched, one after the other, and none is
    left. -/
theorem sweeping_applyFrom (name : String) (reset : Bool) (d : Direction) (hb : b.Numbered)
    (hplain : p.Plain) (ht : p.Shuns t) (hw : 0 < p.length) (ha : p.anchor = 0)
    (hc : p.consume = p.length) (hn : p.countMatches b.instructions ≤ b.unused) :
    ∃ sites c, ((sweeping name p t reset d).applyFrom []
        ((sweeping name p t reset d).start (.ofBody b))).outcome = .ok (sites, c) ∧
      sites.map some = (p.findAllIn b.instructions d).map (fun q => b.labels[q]?) ∧
      c.body = b.filled p.length t (b.gapsAt (p.findAllIn b.instructions d)) ∧
      p.countMatches c.body.instructions = 0 := by
  have hr : (sweeping name p t reset d).Fills t := sweeping_fills hplain hw ha hc
  have hbody : ((sweeping name p t reset d).start (.ofBody b)).body = b :=
    RuleSet.entry_body true _ (.ofBody b)
  have hpass := (sweeping name p t reset d).applyFrom_pass []
    ((sweeping name p t reset d).start (.ofBody b))
  have hleft : ([] : List Nat).length + (p.findAllIn b.instructions d).length ≤ b.unused := by
    rwa [List.length_nil, Nat.zero_add, p.length_findAllIn]
  obtain ⟨sites, c, hok, hsites, hfilled⟩ : ∃ sites c, ((sweeping name p t reset d).applyFrom []
      ((sweeping name p t reset d).start (.ofBody b))).outcome = .ok ([] ++ sites, c) ∧
      sites.map some = (p.findAllIn b.instructions d).map (fun q => b.labels[q + p.anchor]?) ∧
      c.body = b.filled p.consume t
        (b.gapsAt ([] ++ (p.findAllIn b.instructions d).map (· + p.anchor))) := by
    cases d with
    | forward =>
      exact hpass.filled hr (hr.forwardPlan rfl hb) ⟨0, start_filledTo rfl b _ t,
        p.findAllIn_withDirection b.instructions .forward .forward⟩ (by rwa [hbody]) hleft
    | backward =>
      exact hpass.filled hr (hr.backwardPlan ha ht rfl hb) ⟨b.length, start_filledFrom rfl b t,
        p.findAllIn_withDirection b.instructions .backward .backward⟩ (by rwa [hbody]) hleft
  rw [ha] at hsites hfilled
  rw [hc] at hfilled
  refine ⟨sites, c, hok, hsites, by simpa using hfilled, Pattern.countMatches_eq_zero.2 fun j => ?_⟩
  exact hpass.cleared hok hr ha ht rfl (by rwa [hbody]) (start_cleared _ b) j

end Rule

/-! ### Patches -/

namespace Engine

/-- If a pattern does not accept the calls that are put in for it, a rule that substitutes all matches
    makes as many calls searching forward as backward, namely as many as there are matches in the given
    body that do not overlap, and leaves none. If the windows are single instructions, the sites come in
    the opposite order, and the bodies are the same up to a renaming of the new labels. -/
theorem patch_mirrors (engine : Engine) (target : Method) (set name : String) (reset : Bool)
    {p : Pattern} {t : Transform} {b : Body} (hb : b.Numbered) (hv : b.validate = .ok ())
    (hplain : p.Plain) (ht : p.Shuns t) (hw : 0 < p.length) (ha : p.anchor = 0)
    (hc : p.consume = p.length) (hn : p.countMatches b.instructions ≤ b.unused) :
    ∃ front back sites sites',
      (engine.patch target ⟨set, [.sweeping name p t reset .forward]⟩ b).outcome
        = .ok (front, ⟨target.display, set, [⟨name, p.countMatches b.instructions, sites⟩]⟩) ∧
      (engine.patch target ⟨set, [.sweeping name p t reset .backward]⟩ b).outcome
        = .ok (back, ⟨target.display, set, [⟨name, p.countMatches b.instructions, sites'⟩]⟩) ∧
      p.countMatches front.instructions = 0 ∧ p.countMatches back.instructions = 0 ∧
      (p.length = 1 → sites' = sites.reverse ∧ ∃ rename : Label → Label,
        Function.Involutive rename ∧ (∀ l ∈ b.labels, rename l = l) ∧
        back = front.relabelled rename) := by
  have hpatch (d : Direction) : ∃ sites,
      (engine.patch target ⟨set, [.sweeping name p t reset d]⟩ b).outcome
        = .ok (b.filled p.length t (b.gapsAt (p.findAllIn b.instructions d)),
          ⟨target.display, set, [⟨name, p.countMatches b.instructions, sites⟩]⟩) ∧
      sites.map some = (p.findAllIn b.instructions d).map (fun q => b.labels[q]?) ∧
      p.countMatches (b.filled p.length t
        (b.gapsAt (p.findAllIn b.instructions d))).instructions = 0 := by
    obtain ⟨sites, c, hok, hsites, hfilled, hnone⟩ := Rule.sweeping_applyFrom name reset d
      hb hplain ht hw ha hc hn
    have hlength : sites.length = p.countMatches b.instructions := by
      rw [← p.length_findAllIn b.instructions d]
      simpa using congrArg List.length hsites
    rw [hfilled] at hnone
    refine ⟨sites, ?_, hsites, hnone⟩
    rw [patch_singleton (hb.sound hv) hok, hfilled, hlength]
    rfl
  obtain ⟨sites, hfront, hsites, hnone⟩ := hpatch .forward
  obtain ⟨sites', hback, hsites', hnone'⟩ := hpatch .backward
  refine ⟨_, _, sites, sites', hfront, hback, hnone, hnone', fun hone => ?_⟩
  have hreverse : p.findAllIn b.instructions .backward
      = (p.findAllIn b.instructions .forward).reverse :=
    p.findAllBefore_eq_reverse hone b.instructions
  have hclear := (p.findAllFrom_greedy b.instructions 0).pairwise
  refine ⟨?_, b.mirror (p.countMatches b.instructions), Body.mirror_involutive hn,
    fun l hl => hb.mirror_of_mem _ hl, ?_⟩
  · rw [hreverse, List.map_reverse, ← hsites, ← List.map_reverse] at hsites'
    exact (List.map_inj_right fun _ _ => Option.some.inj).1 hsites'
  · rw [hreverse]
    exact (hb.sound hv).filled_reverse hn hclear

/-- Two instructions that put their operand on the stack again. -/
def pairs : Pattern := .window "pairs" [.op (.other .dup), .op (.other .dup)]

/-- One such instruction. -/
def copies : Pattern := .window "copies" [.op (.other .dup)]

/-- The last of seven instructions alike is left. -/
def pairedFront : Body :=
  ⟨[.transformCall ⟨10⟩ .sign, .transformCall ⟨11⟩ .sign, .transformCall ⟨12⟩ .sign,
    ⟨⟨6⟩, .other .dup, []⟩, ⟨⟨7⟩, .branch, [.condition .ifTrue, .target ⟨10⟩]⟩,
    ⟨⟨8⟩, .branch, [.condition .ifFalse, .target ⟨11⟩]⟩, ⟨⟨9⟩, .branch, [.target ⟨6⟩]⟩], 13⟩

/-- The first of seven instructions alike is left. -/
def pairedBack : Body :=
  ⟨[⟨⟨0⟩, .other .dup, []⟩, .transformCall ⟨12⟩ .sign, .transformCall ⟨11⟩ .sign,
    .transformCall ⟨10⟩ .sign, ⟨⟨7⟩, .branch, [.condition .ifTrue, .target ⟨12⟩]⟩,
    ⟨⟨8⟩, .branch, [.condition .ifFalse, .target ⟨12⟩]⟩, ⟨⟨9⟩, .branch, [.target ⟨10⟩]⟩], 13⟩

/-- Pairs of seven instructions overlap, and the windows from the front are others than those from the
    back. Single ones are the same. -/
theorem patch_mirrors_runs : runBody.Numbered ∧ runBody.validate = .ok () ∧
    pairs.Plain ∧ pairs.Shuns .sign ∧ copies.Plain ∧ copies.Shuns .sign ∧
    pairs.countMatches runBody.instructions = 3 ∧ copies.countMatches runBody.instructions = 7 ∧
    7 ≤ runBody.unused ∧
    ((⟨true⟩ : Engine).patch ⟨"Player", "Run"⟩
        ⟨"runs", [.sweeping "pairs" pairs .sign false .forward]⟩ runBody).outcome
      = .ok (pairedFront, ⟨"Player::Run", "runs", [⟨"pairs", 3, [⟨0⟩, ⟨2⟩, ⟨4⟩]⟩]⟩) ∧
    ((⟨true⟩ : Engine).patch ⟨"Player", "Run"⟩
        ⟨"runs", [.sweeping "pairs" pairs .sign false .backward]⟩ runBody).outcome
      = .ok (pairedBack, ⟨"Player::Run", "runs", [⟨"pairs", 3, [⟨5⟩, ⟨3⟩, ⟨1⟩]⟩]⟩) ∧
    pairs.countMatches pairedFront.instructions = 0 ∧
    pairs.countMatches pairedBack.instructions = 0 ∧
    ∃ front back sites rename,
      ((⟨true⟩ : Engine).patch ⟨"Player", "Run"⟩
          ⟨"runs", [.sweeping "copies" copies .sign false .forward]⟩ runBody).outcome
        = .ok (front, ⟨"Player::Run", "runs", [⟨"copies", 7, sites⟩]⟩) ∧
      ((⟨true⟩ : Engine).patch ⟨"Player", "Run"⟩
          ⟨"runs", [.sweeping "copies" copies .sign false .backward]⟩ runBody).outcome
        = .ok (back, ⟨"Player::Run", "runs", [⟨"copies", 7, sites.reverse⟩]⟩) ∧
      Function.Involutive rename ∧ (∀ l ∈ runBody.labels, rename l = l) ∧
      back = front.relabelled rename := by
  have hb : runBody.Numbered := ⟨by decide, by decide⟩
  have hv : runBody.validate = .ok () := by decide
  have hpairs : pairs.Plain := Pattern.plain_of_ops "pairs" [.other .dup, .other .dup]
  have hpairs' : pairs.Shuns .sign :=
    Pattern.shuns_of_ops "pairs" [.other .dup, .other .dup] (by decide) .sign
  have hcopies : copies.Plain := Pattern.plain_of_ops "copies" [.other .dup]
  have hcopies' : copies.Shuns .sign :=
    Pattern.shuns_of_ops "copies" [.other .dup] (by decide) .sign
  have hthree : pairs.countMatches runBody.instructions = 3 := by cbv
  have hseven : copies.countMatches runBody.instructions = 7 := by cbv
  have hleft : 7 ≤ runBody.unused := by decide
  have hfront : ((⟨true⟩ : Engine).patch ⟨"Player", "Run"⟩
      ⟨"runs", [.sweeping "pairs" pairs .sign false .forward]⟩ runBody).outcome
      = .ok (pairedFront, ⟨"Player::Run", "runs", [⟨"pairs", 3, [⟨0⟩, ⟨2⟩, ⟨4⟩]⟩]⟩) := by cbv
  have hback : ((⟨true⟩ : Engine).patch ⟨"Player", "Run"⟩
      ⟨"runs", [.sweeping "pairs" pairs .sign false .backward]⟩ runBody).outcome
      = .ok (pairedBack, ⟨"Player::Run", "runs", [⟨"pairs", 3, [⟨5⟩, ⟨3⟩, ⟨1⟩]⟩]⟩) := by cbv
  obtain ⟨_, _, _, _, hfront', hback', hnone, hnone', -⟩ := patch_mirrors ⟨true⟩
    ⟨"Player", "Run"⟩ "runs" "pairs" false hb hv hpairs hpairs' (by decide) rfl rfl
    (by rw [hthree]; decide)
  rw [hthree] at hfront' hback'
  cases hfront.symm.trans hfront'
  cases hback.symm.trans hback'
  obtain ⟨front, back, sites, sites', hone, hone', -, -, hsame⟩ := patch_mirrors ⟨true⟩
    ⟨"Player", "Run"⟩ "runs" "copies" false hb hv hcopies hcopies' (by decide) rfl rfl
    (by rwa [hseven])
  obtain ⟨rfl, rename, hrename, hfixed, hrelabelled⟩ := hsame rfl
  rw [hseven] at hone hone'
  exact ⟨hb, hv, hpairs, hpairs', hcopies, hcopies', hthree, hseven, hleft, hfront, hback, hnone,
    hnone', front, back, sites, rename, hone, hone', hrename, hfixed, hrelabelled⟩

end Engine

end Inversion
