import Inversion.Proofs.Greedy
import Inversion.Proofs.Filling
import Inversion.Proofs.Course
import Inversion.Proofs.Soundness

/-!
Rewriting in place and all at once. A rule that searches forward works on the body that it changes. But
behind its calls the instructions stand as in the given body, except that branches lead elsewhere, so it
finds there what a search of the given body finds. In the end its calls fill the spans of these matches
as if they had been put in all at once.
-/

namespace Inversion

/-! ### What a rule asks for -/

namespace Occurrence

variable {α : Type}

/-- The matches that are patched of all that do not overlap. -/
def picked : Occurrence → List α → List α
  | first, found => found.take 1
  | _, found => found

/-- The matches that are patched further when so many have been patched before. -/
def pickedAfter (o : Occurrence) (done : Nat) (found : List α) : List α :=
  match o.limit? with
  | some n => found.take (n - done)
  | none => found

theorem pickedAfter_zero (o : Occurrence) (found : List α) :
    o.pickedAfter 0 found = o.picked found := by
  cases o <;> rfl

theorem picked_length_le (o : Occurrence) (found : List α) :
    (o.picked found).length ≤ found.length := by
  cases o with
  | first => exact List.length_take_le' _ _
  | _ => exact Nat.le_refl _

theorem pickedAfter_nil (o : Occurrence) (done : Nat) : o.pickedAfter done ([] : List α) = [] := by
  unfold pickedAfter
  split
  · exact List.take_nil
  · rfl

end Occurrence

namespace Rule

variable {rule : Rule} {target : Method} {done : Nat}

theorem pickedAfter_of_sated {α : Type} (h : rule.isSated done = true) (found : List α) :
    rule.occurrence.pickedAfter done found = [] := by
  obtain ⟨n, hn, hle⟩ := (Option.any_eq_true _ _).1 h
  unfold Occurrence.pickedAfter
  rw [hn]
  simp only [Nat.sub_eq_zero_of_le (of_decide_eq_true hle), List.take_zero]

theorem pickedAfter_of_unsated {α : Type} (h : rule.isSated done = false) (a : α) (found : List α) :
    rule.occurrence.pickedAfter done (a :: found)
      = a :: rule.occurrence.pickedAfter (done + 1) found := by
  unfold isSated at h
  unfold Occurrence.pickedAfter
  cases hl : rule.occurrence.limit? with
  | none => rfl
  | some n =>
    rw [hl, Option.any_some, decide_eq_false_iff_not] at h
    dsimp only
    rw [show n - done = n - (done + 1) + 1 by omega]
    rfl

/-- What is wrong with a number of matches that do not overlap. -/
def fault? (rule : Rule) (target : Method) (found : Nat) : Option Error :=
  match rule.occurrence with
  | .first => if found = 0 then some (.noMatch rule.name target) else none
  | .all allowZero =>
    if found = 0 ∧ allowZero = false then some (.noMatch rule.name target) else none
  | .exactly n =>
    if found ≠ n then some (.wrongCount rule.name target rule.occurrence.display found) else none
  | .atMost n =>
    if n < found then some (.wrongCount rule.name target rule.occurrence.display found) else none

/-- The check of what was patched tells what is wrong with what there was to be patched. -/
theorem checkCount_picked {α : Type} (rule : Rule) (target : Method) (found : List α) :
    rule.checkCount target (rule.occurrence.picked found).length
      = (match rule.fault? target found.length with
        | some e => .error e
        | none => .ok ()) := by
  unfold checkCount fault?
  cases ho : rule.occurrence with
  | first =>
    cases found <;> simp [Occurrence.accepts, Occurrence.picked]
  | all allowZero =>
    cases found <;> cases allowZero <;> simp [Occurrence.accepts, Occurrence.picked]
  | exactly n =>
    by_cases hn : found.length = n <;> simp [Occurrence.accepts, Occurrence.picked, hn]
  | atMost n =>
    by_cases hn : found.length ≤ n
    · simp [Occurrence.accepts, Occurrence.picked, hn, Nat.not_lt.2 hn]
    · simp [Occurrence.accepts, Occurrence.picked, hn, Nat.lt_of_not_le hn]

end Rule

/-! ### Passes that keep to a plan -/

namespace Rule

/-- A rule that looks at instructions alone and puts its call in place of each window from the anchor
    to the end. -/
structure Fills (rule : Rule) (t : Transform) : Prop where
  replacement : rule.replacement = .substitute t
  plain : rule.pattern.Plain
  consumes : 1 ≤ rule.pattern.consume
  ends : rule.pattern.anchor + rule.pattern.consume = rule.pattern.length

/-- A pass comes to the window of a match of a body, with gaps at some starts filled, and patches it.
    Then one gap more is filled, and the matches that are left are still ahead. -/
structure Turn (rule : Rule) (t : Transform) (b : Body) (Keeps : List Nat → List Nat → Cursor → Prop)
    (starts : List Nat) (q : Nat) (rest : List Nat) (found : Cursor) : Prop where
  inside : q + rule.pattern.length ≤ b.length
  label : (found.body.get? (found.index + rule.pattern.anchor)).map (·.label)
    = b.labels[q + rule.pattern.anchor]?
  body : (rule.patched found).body
    = b.filled rule.pattern.consume t (b.gapsAt (starts ++ [q + rule.pattern.anchor]))
  last : rule.resume found (rule.patched found) = .ok none → rest = []
  next : ∀ next, rule.resume found (rule.patched found) = .ok (some next) →
    Keeps (starts ++ [q + rule.pattern.anchor]) rest next

/-- What a pass keeps to, turn by turn: the gaps of a body that are filled at a cursor, by their starts,
    and the matches of the body that are patched from there on. -/
structure Plan (rule : Rule) (t : Transform) (b : Body)
    (Keeps : List Nat → List Nat → Cursor → Prop) : Prop where
  body {starts rest : List Nat} {c : Cursor} : Keeps starts rest c →
    c.body = b.filled rule.pattern.consume t (b.gapsAt starts)
  halt {starts : List Nat} {c : Cursor} : Keeps starts [] c →
    c.seek? rule.pattern rule.pattern.direction = none
  turn {starts rest : List Nat} {q : Nat} {c : Cursor} : Keeps starts (q :: rest) c →
    starts.length < b.unused → ∃ found, c.seek? rule.pattern rule.pattern.direction = some found ∧
      rule.Turn t b Keeps starts q rest found

variable {rule : Rule} {t : Transform} {b : Body} {sites : List Label} {starts rest : List Nat}
  {q done : Nat} {c found : Cursor} {x : Except BodyError (List Label × Cursor)}
  {Keeps : List Nat → List Nat → Cursor → Prop}

theorem Fills.fits (hr : rule.Fills t) : rule.Fits := Nat.le_of_eq hr.ends

theorem Fills.patched (hr : rule.Fills t) (found : Cursor) : rule.patched found
    = ⟨found.body.exchange (found.index + rule.pattern.anchor) rule.pattern.consume t,
      found.index + rule.pattern.anchor + 1, some found.body.nextLabel⟩ := by
  unfold Rule.patched offset displaced
  rw [hr.replacement]
  rfl

/-- The anchor lies inside the window, and the window inside the body. -/
theorem Turn.anchored (h : rule.Turn t b Keeps starts q rest found) (hr : rule.Fills t) :
    found.body.get? (found.index + rule.pattern.anchor) ≠ none := by
  intro hnone
  have hlabel := h.label
  rw [hnone, Option.map_none, eq_comm, List.getElem?_eq_none_iff, Body.labels,
    List.length_map] at hlabel
  have hinside := h.inside
  have hends := hr.ends
  have hconsumes := hr.consumes
  unfold Body.length at hinside
  omega

namespace Plan

/-- A pass that finds nothing has no match left to patch. -/
theorem halted (hplan : rule.Plan t b Keeps) (hk : Keeps starts rest c)
    (hsat : rule.isSated done = false)
    (hnone : c.seek? rule.pattern rule.pattern.direction = none)
    (hn : starts.length + (rule.occurrence.pickedAfter done rest).length ≤ b.unused) :
    rule.occurrence.pickedAfter done rest = [] := by
  cases rest with
  | nil => exact Occurrence.pickedAfter_nil _ _
  | cons q rest =>
    rw [pickedAfter_of_unsated hsat, List.length_cons] at hn
    obtain ⟨found, hsought, -⟩ := hplan.turn hk (by omega)
    cases hnone.symm.trans hsought

/-- What a pass finds is the next match that it has to patch. -/
theorem sought (hplan : rule.Plan t b Keeps) (hk : Keeps starts rest c)
    (hsat : rule.isSated done = false)
    (hsought : c.seek? rule.pattern rule.pattern.direction = some found)
    (hn : starts.length + (rule.occurrence.pickedAfter done rest).length ≤ b.unused) :
    ∃ q rest', rule.occurrence.pickedAfter done rest
        = q :: rule.occurrence.pickedAfter (done + 1) rest' ∧
      rule.Turn t b Keeps starts q rest' found := by
  cases rest with
  | nil => cases hsought.symm.trans (hplan.halt hk)
  | cons q rest =>
    rw [pickedAfter_of_unsated hsat, List.length_cons] at hn
    obtain ⟨_, hfound, hturn⟩ := hplan.turn hk (by omega)
    cases hsought.symm.trans hfound
    exact ⟨q, rest, pickedAfter_of_unsated hsat q rest, hturn⟩

/-- The labels of the calls are handed out one by one. -/
theorem next_lt (hplan : rule.Plan t b Keeps) (hk : Keeps starts rest c)
    (hn : starts.length < b.unused) : c.body.next < labelCount := by
  have hnext := congrArg Body.next (hplan.body hk)
  rw [Body.filled, Body.gapsAt_length] at hnext
  rw [hnext]
  exact Nat.add_lt_of_lt_sub' hn

/-- Where a pass stops, the gaps are filled to which it has come. -/
theorem stopped (hplan : rule.Plan t b Keeps) (hk : Keeps starts rest c) {picked : List Nat}
    (hp : picked = []) :
    ∃ more c', (.ok (sites, c) : Except BodyError _) = .ok (sites ++ more, c') ∧
      more.map some = picked.map (fun q => b.labels[q + rule.pattern.anchor]?) ∧
      c'.body = b.filled rule.pattern.consume t
        (b.gapsAt (starts ++ picked.map (· + rule.pattern.anchor))) := by
  subst hp
  refine ⟨[], c, by rw [List.append_nil], rfl, ?_⟩
  rw [List.map_nil, List.append_nil]
  exact hplan.body hk

end Plan

/-- A pass that keeps to a plan fills the gaps of the matches it asks for, one after the other. It does
    not fail while labels are left for them. -/
theorem Pass.filled (h : rule.Pass sites c x) (hr : rule.Fills t) (hplan : rule.Plan t b Keeps)
    (hk : Keeps starts rest c) (hc : c.body.Numbered)
    (hn : starts.length + (rule.occurrence.pickedAfter sites.length rest).length ≤ b.unused) :
    ∃ more c', x = .ok (sites ++ more, c') ∧
      more.map some = (rule.occurrence.pickedAfter sites.length rest).map
        (fun q => b.labels[q + rule.pattern.anchor]?) ∧
      c'.body = b.filled rule.pattern.consume t (b.gapsAt (starts ++
        (rule.occurrence.pickedAfter sites.length rest).map (· + rule.pattern.anchor))) := by
  -- each turn takes the first of the matches that are left and keeps to the plan for the others
  induction h generalizing starts rest with
  | sated hsat => exact hplan.stopped hk (pickedAfter_of_sated hsat rest)
  | exhausted hsat hnone => exact hplan.stopped hk (hplan.halted hk hsat hnone hn)
  | siteless hsat hsought hsite =>
    obtain ⟨q, rest', -, hturn⟩ := hplan.sought hk hsat hsought hn
    exact absurd hsite (hturn.anchored hr)
  | refused hfind hw =>
    obtain ⟨q, rest', hp, -⟩ := hplan.sought hk hfind.unsated hfind.sought hn
    rw [hp, List.length_cons] at hn
    obtain ⟨events, hok⟩ := patchWindow_of_fits (by rwa [hfind.body])
      (by rw [hfind.body]; exact hplan.next_lt hk (by omega)) (hfind.fits hr.fits)
    cases hw.symm.trans hok
  | stuck hfind hw hresume =>
    obtain ⟨hreach, rfl⟩ := hfind.reaches hc hw
    exact absurd hresume (resume_ne_error hreach.fits)
  | @last sites c found site _ _ hfind hw hresume =>
    obtain ⟨-, rfl⟩ := hfind.reaches hc hw
    obtain ⟨q, rest', hp, hturn⟩ := hplan.sought hk hfind.unsated hfind.sought hn
    have hlabel := hturn.label
    rw [hfind.anchored, Option.map_some] at hlabel
    rw [hturn.last hresume, Occurrence.pickedAfter_nil] at hp
    rw [hp, List.map_singleton, List.map_singleton]
    exact ⟨[site.label], _, rfl, by rw [List.map_singleton, hlabel], hturn.body⟩
  | @next sites c found site _ _ next x hfind hw hresume _ ih =>
    obtain ⟨hreach, rfl⟩ := hfind.reaches hc hw
    obtain ⟨q, rest', hp, hturn⟩ := hplan.sought hk hfind.unsated hfind.sought hn
    have hlabel := hturn.label
    rw [hfind.anchored, Option.map_some] at hlabel
    have hsites : (sites ++ [site.label]).length = sites.length + 1 := List.length_append
    have hnumbered : next.body.Numbered := by
      rw [resume_body hresume]
      exact hreach.numbered hc
    rw [hp, List.length_cons] at hn
    obtain ⟨more, c', hx, hmore, hfilled⟩ := ih (hturn.next next hresume) hnumbered
      (by rw [hsites, List.length_append, List.length_singleton]; omega)
    rw [hsites] at hmore hfilled
    rw [hp, List.map_cons, List.map_cons]
    refine ⟨site.label :: more, c', ?_, ?_, ?_⟩
    · rw [hx, List.append_assoc, List.singleton_append]
    · rw [List.map_cons, hmore, hlabel]
    · rw [hfilled, List.append_assoc, List.singleton_append]

end Rule

/-! ### Behind what is filled -/

/-- The gaps at some starts are filled, and a cursor stands behind them, where an index of the body has
    been moved to. -/
structure FilledTo (b : Body) (width : Nat) (t : Transform) (starts : List Nat) (index : Nat)
    (c : Cursor) : Prop where
  body : c.body = b.filled width t (b.gapsAt starts)
  place : c.index = b.place width t (b.gapsAt starts) index
  inside : index ≤ b.length
  behind : ∀ s ∈ starts, s + width ≤ index

namespace FilledTo

variable {b : Body} {width index s : Nat} {t : Transform} {starts : List Nat} {c : Cursor}
  {p : Pattern}

theorem clear (h : FilledTo b width t starts index c) (back : Nat) :
    Body.Clear width (b.gapsAt starts) index back :=
  Body.clear_gapsAt fun s hs => Or.inl (h.behind s hs)

theorem place_add (h : FilledTo b width t starts index c) {n : Nat} (hn : index + n ≤ b.length) :
    b.place width t (b.gapsAt starts) (index + n) = c.index + n := by
  rw [h.place]
  exact Body.place_add (h.clear _) hn

theorem length_add (h : FilledTo b width t starts index c) :
    c.body.length + index = c.index + b.length := by
  have hend := h.place_add (n := b.length - index) (by have := h.inside; omega)
  rw [Nat.add_sub_cancel' h.inside, ← Body.filled_length, ← h.body] at hend
  have := h.inside
  omega

/-- From the cursor on the instructions stand as from the index on, but for where branches lead. -/
theorem get? (h : FilledTo b width t starts index c) (k : Nat) : c.body.get? (c.index + k)
    = (b.get? (index + k)).map (Instruction.rerouted (b.heir? width (b.gapsAt starts))) := by
  have hlength := h.length_add
  rcases Nat.lt_or_ge (index + k) b.length with hin | hout
  · rw [h.body, h.place]
    exact Body.filled_get? (h.clear _) (n := k + 1) hin (Nat.lt_succ_self k)
  · unfold Body.length at hlength hout
    unfold Body.get?
    rw [List.getElem?_eq_none (by omega), List.getElem?_eq_none hout]
    rfl

/-- A plain window matches behind the cursor where it matches behind the index. -/
theorem matchesAt (h : FilledTo b width t starts index c) (hp : p.Plain) (k : Nat) :
    p.matchesAt c.body.instructions (c.index + k) = p.matchesAt b.instructions (index + k) := by
  have hget (j : Nat) := h.get? (k + j)
  simp only [← Nat.add_assoc] at hget
  exact hp.matchesAt_rerouted fun j _ => hget j

/-- A search forward finds behind the cursor what it finds behind the index. -/
theorem findNext (h : FilledTo b width t starts index c) (hp : p.Plain) :
    p.findNext c.body.instructions c.index .forward
      = (p.findNext b.instructions index .forward).map fun q => c.index + (q - index) := by
  cases hq : p.findNext b.instructions index .forward with
  | none =>
    have hnone := Pattern.findNext_forward_eq_none hq
    cases hi : p.findNext c.body.instructions c.index .forward with
    | none => rfl
    | some i =>
      have hmatch := Pattern.findNext_matchesAt hi
      obtain ⟨k, rfl⟩ := Nat.exists_eq_add_of_le (Pattern.findNext_forward_first hi).1
      rw [h.matchesAt hp, hnone _ (Nat.le_add_right _ _)] at hmatch
      cases hmatch
  | some q =>
    obtain ⟨hle, hfirst⟩ := Pattern.findNext_forward_first hq
    have hmatch := Pattern.findNext_matchesAt hq
    refine Pattern.findNext_forward_of_first (Nat.le_add_right _ _) ?_ fun j hj hlt => ?_
    · rwa [h.matchesAt hp, Nat.add_sub_cancel' hle]
    · obtain ⟨k, rfl⟩ := Nat.exists_eq_add_of_le hj
      rw [h.matchesAt hp]
      exact hfirst _ (Nat.le_add_right _ _) (Nat.add_lt_of_lt_sub' (Nat.lt_of_add_lt_add_left hlt))

/-- A further gap behind the index is filled by an exchange behind the cursor. -/
theorem next (h : FilledTo b width t starts index c) (hb : b.Numbered) (hw : 0 < width)
    (hn : starts.length ≤ b.unused) (hle : index ≤ s) (hfit : s + width ≤ b.length)
    (inserted : Option Label) : FilledTo b width t (starts ++ [s]) (s + width)
      ⟨c.body.exchange (c.index + (s - index)) width t, c.index + (s - index) + 1, inserted⟩ := by
  obtain ⟨n, rfl⟩ := Nat.exists_eq_add_of_le hle
  have hplace := h.place_add (n := n) (Nat.le_trans (Nat.le_add_right _ _) hfit)
  have hbehind : ∀ s ∈ starts, s + width ≤ index + n := fun s hs =>
    Nat.le_trans (h.behind s hs) hle
  have hclear : Body.Clear width (b.gapsAt starts) (index + n) (index + n + width) :=
    Body.clear_gapsAt fun s hs => Or.inl (hbehind s hs)
  rw [Nat.add_sub_cancel_left]
  refine ⟨?_, ?_, hfit, fun s hs => ?_⟩
  · rw [hb.filled_gapsAt_concat hw hn hfit hclear, ← h.body, hplace]
  · rw [Body.gapsAt_concat, Body.place_concat hw hfit hclear (hb.gapsAt_fresh hn), hplace]
  · rcases List.mem_append.1 hs with hs | hs
    · exact Nat.le_trans (hbehind s hs) (Nat.le_add_right _ _)
    · exact Nat.le_of_eq (congrArg (· + width) (List.mem_singleton.1 hs))

end FilledTo

namespace Rule

variable {rule : Rule} {t : Transform} {b : Body}

/-- Forward a pass keeps to the matches of the given body that do not overlap, front to back. -/
theorem Fills.forwardPlan (hr : rule.Fills t) (hd : rule.pattern.direction = .forward)
    (hb : b.Numbered) : rule.Plan t b fun starts rest c => ∃ index,
      FilledTo b rule.pattern.consume t starts index c ∧
      rule.pattern.findAllFrom b.instructions index = rest where
  body := fun ⟨_, hf, _⟩ => hf.body
  halt := by
    rintro starts c ⟨index, hf, hrest⟩
    rw [hd, Cursor.seek?, hf.findNext hr.plain, Pattern.findAllFrom_eq_nil hrest]
    rfl
  turn := by
    rintro starts rest q c ⟨index, hf, hrest⟩ hn
    obtain ⟨hq, rfl⟩ := Pattern.findAllFrom_eq_cons hrest
    obtain ⟨-, hle, hend⟩ := Pattern.findNext_forward_bounds hq
    have hspan := hr.ends
    have hsought : c.seek? rule.pattern .forward = some (c.placed (c.index + (q - index))) := by
      rw [Cursor.seek?, hf.findNext hr.plain, hq]
      rfl
    have hplace : c.index + (q - index) + rule.pattern.anchor
        = c.index + (q + rule.pattern.anchor - index) := by omega
    have hlabel := Body.label_of_rerouted (hf.get? (q + rule.pattern.anchor - index))
    have hnext := hf.next hb hr.consumes (Nat.le_of_lt hn) (s := q + rule.pattern.anchor)
      (Nat.le_trans hle (Nat.le_add_right _ _)) (by rw [Nat.add_assoc, hspan]; exact hend)
      (some c.body.nextLabel)
    rw [← hplace, Nat.add_sub_cancel' (Nat.le_trans hle (Nat.le_add_right _ _))] at hlabel
    rw [← hplace, Nat.add_assoc q, hspan] at hnext
    refine ⟨_, hd ▸ hsought, ?_⟩
    exact {
      inside := hend
      label := hlabel
      body := by
        rw [hr.patched]
        exact hnext.body
      last := by
        intro hlast
        rw [(resume_eq_none hlast).1] at hd
        cases hd
      next := by
        intro next hresume
        rw [resume_forward hd hresume, hr.patched]
        exact ⟨_, hnext, rfl⟩ }

/-- The start of a forward pass, with no gap filled. -/
theorem start_filledTo (hd : rule.pattern.direction = .forward) (b : Body) (width : Nat)
    (t : Transform) : FilledTo b width t [] 0 (rule.start (.ofBody b)) := by
  unfold start
  rw [hd]
  exact ⟨(Body.filled_nil b width t).symm, rfl, Nat.zero_le _, nofun⟩

end Rule

/-! ### Patches -/

namespace Engine

/-- A rule that searches forward patches a valid body as if the spans of the matches that it asks for
    gave way to their calls all at once, in order, and every branch into a span led to its call. It
    fails exactly if it does not ask for so many matches as there are. -/
theorem patch_all_at_once (engine : Engine) (target : Method) (name : String) {rule : Rule}
    {t : Transform} {b : Body} (hb : b.Numbered) (hv : b.validate = .ok ()) (hr : rule.Fills t)
    (hd : rule.pattern.direction = .forward)
    (hn : (rule.pattern.findAll b.instructions).length ≤ b.unused) :
    ∃ sites, sites.map some = (rule.occurrence.picked (rule.pattern.findAll b.instructions)).map
        (fun q => b.labels[q + rule.pattern.anchor]?) ∧
      (engine.patch target ⟨name, [rule]⟩ b).outcome
        = match rule.fault? target (rule.pattern.findAll b.instructions).length with
          | some e => .error e
          | none => .ok (b.filled rule.pattern.consume t (b.gapsAt
              ((rule.occurrence.picked (rule.pattern.findAll b.instructions)).map
                (· + rule.pattern.anchor))),
            ⟨target.display, name, [⟨rule.name, sites.length, sites⟩]⟩) := by
  have hbody : (rule.start (.ofBody b)).body = b := RuleSet.entry_body true rule (.ofBody b)
  have hall : rule.pattern.findAllFrom b.instructions 0 = rule.pattern.findAll b.instructions := rfl
  have hleft : ([] : List Nat).length + (rule.occurrence.pickedAfter 0
      (rule.pattern.findAll b.instructions)).length ≤ b.unused := by
    rw [List.length_nil, Nat.zero_add, Occurrence.pickedAfter_zero]
    exact Nat.le_trans (Occurrence.picked_length_le _ _) hn
  obtain ⟨sites, c, hok, hsites, hfilled⟩ := (rule.applyFrom_pass [] (rule.start (.ofBody b))).filled
    hr (hr.forwardPlan hd hb) ⟨0, Rule.start_filledTo hd b rule.pattern.consume t, hall⟩
    (by rwa [hbody]) hleft
  rw [List.length_nil, Occurrence.pickedAfter_zero] at hsites hfilled
  rw [List.nil_append] at hok hfilled
  refine ⟨sites, hsites, ?_⟩
  have hlength : sites.length
      = (rule.occurrence.picked (rule.pattern.findAll b.instructions)).length := by
    simpa using congrArg List.length hsites
  rw [patch_singleton (hb.sound hv) hok, hfilled, hlength, Rule.checkCount_picked]
  cases rule.fault? target (rule.pattern.findAll b.instructions).length <;> rfl

/-- Seven instructions alike, and branches to the second, the third and the last one. -/
def runBody : Body :=
  ⟨[⟨⟨0⟩, .other .dup, []⟩, ⟨⟨1⟩, .other .dup, []⟩, ⟨⟨2⟩, .other .dup, []⟩, ⟨⟨3⟩, .other .dup, []⟩,
    ⟨⟨4⟩, .other .dup, []⟩, ⟨⟨5⟩, .other .dup, []⟩, ⟨⟨6⟩, .other .dup, []⟩,
    ⟨⟨7⟩, .branch, [.condition .ifTrue, .target ⟨1⟩]⟩,
    ⟨⟨8⟩, .branch, [.condition .ifFalse, .target ⟨2⟩]⟩, ⟨⟨9⟩, .branch, [.target ⟨6⟩]⟩], 10⟩

/-- Puts a call in place of the last two of three instructions alike. -/
def tripling : Rule :=
  { Rule.substitute "triples" ((Pattern.window "triple"
      [.op (.other .dup), .op (.other .dup), .op (.other .dup)]).withAnchor 1) .sign with
    occurrence := .exactly 2 }

/-- The first two branches lead to the first call. -/
def tripled : Body :=
  ⟨[⟨⟨0⟩, .other .dup, []⟩, .transformCall ⟨10⟩ .sign, ⟨⟨3⟩, .other .dup, []⟩,
    .transformCall ⟨11⟩ .sign, ⟨⟨6⟩, .other .dup, []⟩,
    ⟨⟨7⟩, .branch, [.condition .ifTrue, .target ⟨10⟩]⟩,
    ⟨⟨8⟩, .branch, [.condition .ifFalse, .target ⟨10⟩]⟩, ⟨⟨9⟩, .branch, [.target ⟨6⟩]⟩], 12⟩

theorem patch_all_at_once_tripling : runBody.Numbered ∧ runBody.validate = .ok () ∧
    tripling.Fills .sign ∧ tripling.pattern.direction = .forward ∧
    tripling.pattern.findAll runBody.instructions = [0, 3] ∧ 2 ≤ runBody.unused ∧
    runBody.filled 2 .sign (runBody.gapsAt [1, 4]) = tripled ∧
    ((⟨true⟩ : Engine).patch ⟨"Player", "Run"⟩ ⟨"runs", [tripling]⟩ runBody).outcome
      = .ok (tripled, ⟨"Player::Run", "runs", [⟨"triples", 2, [⟨1⟩, ⟨4⟩]⟩]⟩) := by
  have hb : runBody.Numbered := ⟨by decide, by decide⟩
  have hv : runBody.validate = .ok () := by decide
  have hplain : tripling.pattern.Plain :=
    Pattern.plain_of_ops "triple" [.other .dup, .other .dup, .other .dup]
  have hr : tripling.Fills .sign := ⟨rfl, hplain, by decide, by decide⟩
  have hfound : tripling.pattern.findAll runBody.instructions = [0, 3] := by cbv
  have hn : 2 ≤ runBody.unused := by decide
  have hfilled : runBody.filled 2 .sign (runBody.gapsAt [1, 4]) = tripled := by decide
  obtain ⟨sites, hsites, hpatch⟩ := patch_all_at_once ⟨true⟩ ⟨"Player", "Run"⟩ "runs"
    hb hv hr rfl (by rwa [hfound])
  rw [hfound] at hsites hpatch
  obtain rfl : sites = [⟨1⟩, ⟨4⟩] := (List.map_inj_right fun _ _ => Option.some.inj).1 hsites
  refine ⟨hb, hv, hr, rfl, hfound, hn, hfilled, ?_⟩
  rw [hpatch, ← hfilled]
  rfl

end Engine

end Inversion
