import Inversion.Proofs.Output

/-!
What a pass visits. A rule that takes out the instruction at its anchor, or puts its call behind it,
leaves that instruction behind for good: every further window has its anchor ahead of it, among the
instructions that stood there when the pass began. So the sites of a pass are instructions of the body
with which it began, each at most once and in the order of the search, and there is no pass without end.
-/

namespace Inversion

/-- A list as it is met by who goes in a direction. -/
def Direction.along {α : Type} : Direction → List α → List α
  | .forward, l => l
  | .backward, l => l.reverse

namespace Rule

variable {rule : Rule} {sites : List Label} {c c' w next : Cursor} {windows : List Cursor}
  {x : Except BodyError (List Label × Cursor)} {e : BodyError}

/-- A rule that leaves the instruction at its anchor behind: it takes it out or keeps its call
    behind it. -/
def Advances (rule : Rule) : Prop :=
  1 ≤ rule.pattern.consume ∨ ∃ t, rule.replacement = .append t

theorem Advances.anchor_lt (h : rule.Advances) :
    rule.pattern.anchor < rule.offset + rule.displaced := by
  rcases h with hc | ⟨t, ht⟩
  · unfold offset displaced
    cases rule.replacement with
    | substitute t => exact Nat.lt_add_of_pos_right hc
    | append t => exact Nat.lt_succ_self _
  · unfold offset displaced
    rw [ht]
    exact Nat.lt_succ_self _

theorem anchor_le_offset (rule : Rule) : rule.pattern.anchor ≤ rule.offset := by
  unfold offset
  cases rule.replacement with
  | substitute t => exact Nat.le_refl _
  | append t => exact Nat.le_succ _

/-! ### What is ahead -/

/-- The labels that a pass can still visit from a cursor on, in the order of its search. -/
def ahead (rule : Rule) (c : Cursor) : List Label :=
  match rule.pattern.direction with
  | .forward => c.body.labels.drop c.index
  | .backward => (c.body.labels.take (c.index + 1 + rule.pattern.anchor)).reverse

theorem ahead_sublist (rule : Rule) (c : Cursor) :
    (rule.ahead c).Sublist (rule.pattern.direction.along c.body.labels) := by
  unfold ahead
  cases rule.pattern.direction with
  | forward => exact List.drop_sublist _ _
  | backward => exact (List.take_sublist _ _).reverse

/-- The instruction at the anchor of a window is ahead, and behind it is all that is ahead of the
    place where the search goes on. -/
theorem Reaches.visits (h : rule.Reaches c w) (hr : rule.Advances) : ∃ l, rule.site? w = some l ∧
    l ∈ rule.ahead c ∧ ∀ next, rule.resume w (rule.patched w) = .ok (some next) →
      (l :: rule.ahead next).Sublist (rule.ahead c) := by
  have hanchor := hr.anchor_lt
  have hoffset := rule.anchor_le_offset
  have hfits := h.fits
  have hlength : w.body.labels.length = w.body.length := List.length_map _
  have hat : w.index + rule.pattern.anchor < w.body.labels.length := by omega
  have hput : w.index + rule.offset ≤ w.body.length := by omega
  refine ⟨w.body.labels[w.index + rule.pattern.anchor], ?_, ?_⟩
  · show (w.body.instructions[w.index + rule.pattern.anchor]?).map (·.label) = _
    rw [← List.getElem?_map]
    exact List.getElem?_eq_getElem hat
  · unfold ahead
    cases hd : rule.pattern.direction with
    | forward =>
      have hle := h.forward_le hd
      have hcons : (w.body.labels[w.index + rule.pattern.anchor]
          :: w.body.labels.drop (w.index + rule.pattern.anchor + 1)).Sublist
          (c.body.labels.drop c.index) := by
        rw [List.getElem_cons_drop hat, h.body]
        exact List.drop_sublist_drop_left _ (by omega)
      refine ⟨hcons.subset List.mem_cons_self, fun next hn => ?_⟩
      rw [resume_forward hd hn]
      show (_ :: List.drop (w.index + rule.offset + 1) (w.body.exchange (w.index + rule.offset)
        rule.displaced rule.replacement.transform).labels).Sublist _
      rw [Body.drop_exchange_labels hput]
      exact ((List.drop_sublist_drop_left _ (by omega)).cons_cons _).trans hcons
    | backward =>
      have hle := h.backward_le hd
      have hcons : (w.body.labels[w.index + rule.pattern.anchor]
          :: (w.body.labels.take (w.index + rule.pattern.anchor)).reverse).Sublist
          (c.body.labels.take (c.index + 1 + rule.pattern.anchor)).reverse := by
        rw [← List.reverse_concat, ← List.take_succ_eq_append_getElem hat, h.body]
        exact (List.take_sublist_take_left (by omega)).reverse
      refine ⟨hcons.subset List.mem_cons_self, fun next hn => ?_⟩
      rw [resume_body hn, resume_backward hd hn]
      have hfront := congrArg (List.take (w.index + rule.pattern.anchor))
        (Body.take_exchange_labels hput rule.displaced rule.replacement.transform)
      rw [List.take_take, List.take_take, Nat.min_eq_left (by omega)] at hfront
      show (_ :: (List.take (w.index + rule.pattern.anchor) (w.body.exchange (w.index + rule.offset)
        rule.displaced rule.replacement.transform).labels).reverse).Sublist _
      rwa [hfront]

/-- The sites of a course are ahead of where it begins, in this order. -/
theorem Course.visits (h : rule.Course c windows c') (hr : rule.Advances) :
    ∃ visited : List Label, windows.map rule.site? = visited.map some ∧
      visited.Sublist (rule.ahead c) := by
  induction h with
  | done _ _ => exact ⟨[], rfl, List.nil_sublist _⟩
  | @last c w hreach _ =>
    obtain ⟨l, hl, hmem, -⟩ := hreach.visits hr
    exact ⟨[l], by simp [hl], List.singleton_sublist.2 hmem⟩
  | next hreach hn _ ih =>
    obtain ⟨l, hl, -, hcons⟩ := hreach.visits hr
    obtain ⟨visited, hvisited, hsub⟩ := ih
    exact ⟨l :: visited, by simp [hl, hvisited], (hsub.cons_cons l).trans (hcons _ hn)⟩

/-- A patched window uses up one label. -/
theorem Reaches.patched_unused (h : rule.Reaches c w) :
    (rule.patched w).body.unused + 1 = c.body.unused := by
  have hleft := h.unused
  rw [← h.body]
  show labelCount - (w.body.next + 1) + 1 = labelCount - w.body.next
  omega

/-- A pass that fails has used up the labels: one for each window that it has patched. -/
theorem Pass.exhausts (h : rule.Pass sites c x) (hx : x = .error e) (hr : rule.Fits)
    (hb : c.body.Numbered) : (rule.windowsFrom sites.length c).length = c.body.unused := by
  induction h with
  | sated _ => cases hx
  | exhausted _ _ => cases hx
  | siteless _ _ _ => cases hx
  | @refused _ _ found _ _ hf hw =>
    rw [windowsFrom_of_turn?_eq_none (turn?_of_refused hf.sought hw)]
    have hfull : labelCount ≤ found.body.next := by
      by_contra hn
      obtain ⟨events, hok⟩ := patchWindow_of_fits (hf.body ▸ hb) (Nat.lt_of_not_le hn) (hf.fits hr)
      cases hw.symm.trans hok
    rw [hf.body] at hfull
    exact (Nat.sub_eq_zero_of_le hfull).symm
  | stuck hf hw hs =>
    obtain ⟨hreach, rfl⟩ := hf.reaches hb hw
    exact absurd hs (resume_ne_error hreach.fits)
  | last _ _ _ => cases hx
  | @next _ c _ _ _ _ _ _ hf hw hn _ ih =>
    obtain ⟨hreach, rfl⟩ := hf.reaches hb hw
    have hrest := ih hx (by rw [resume_body hn]; exact hreach.numbered hb)
    rw [List.length_append, List.length_singleton] at hrest
    rw [windowsFrom_of_next (hf.turn? hw) hn, List.length_cons, hrest, resume_body hn,
      hreach.patched_unused]

/-- A rule that acts inside its window and leaves its anchors behind visits instructions of the body
    with which it begins, each at most once and in the order of its search. It fails only if there are
    no labels left for so many calls. -/
theorem applyFrom_visits (hb : c.body.Numbered) (hfit : rule.Fits) (hr : rule.Advances) :
    ∃ visited : List Label, (rule.windows c).map rule.site? = visited.map some ∧
      visited.Sublist (rule.pattern.direction.along c.body.labels) ∧ visited.Nodup ∧
      visited.length ≤ c.body.length ∧
      (∀ sites c', (rule.applyFrom [] c).outcome = .ok (sites, c') → sites = visited) ∧
      ∀ e, (rule.applyFrom [] c).outcome = .error e →
        e = .labelsExhausted ∧ visited.length = c.body.unused := by
  obtain ⟨final, hcourse⟩ := rule.windows_course hb
  obtain ⟨visited, hvisited, hahead⟩ := hcourse.visits hr
  have hsub := hahead.trans (rule.ahead_sublist c)
  have hperm : (rule.pattern.direction.along c.body.labels).Perm c.body.labels := by
    cases rule.pattern.direction with
    | forward => exact .refl _
    | backward => exact List.reverse_perm _
  have hlength : visited.length ≤ c.body.length := by
    have hle := hsub.length_le
    rw [hperm.length_eq] at hle
    exact Nat.le_trans hle (Nat.le_of_eq (List.length_map _))
  refine ⟨visited, hvisited, hsub, (hperm.nodup_iff.2 hb.nodup).sublist hsub, hlength, ?_, ?_⟩
  · intro sites c' h
    have hsites := (applyFrom_course hb h).2
    rw [hvisited] at hsites
    exact (List.map_inj_right fun _ _ => Option.some.inj).1 hsites
  · intro e h
    have hpass := rule.applyFrom_pass [] c
    rw [h] at hpass
    have hcount := congrArg List.length hvisited
    rw [List.length_map, List.length_map] at hcount
    exact ⟨hpass.eq_labelsExhausted rfl hfit hb, hcount ▸ hpass.exhausts rfl hfit hb⟩

/-- The sites of any two instructions of three, searched for backward. -/
def pairedSites : List Label := [⟨1⟩, ⟨0⟩]

/-- The second window takes out the call of the first one, and still no instruction is a site twice. -/
theorem applyFrom_visits_pairing : ∃ c', Engine.idleBody.Numbered ∧ Engine.pairing.Fits ∧
    Engine.pairing.Advances ∧
    (Engine.pairing.applyFrom [] (Cursor.ofBody Engine.idleBody).gotoEnd).outcome
      = .ok (pairedSites, c') ∧ c'.body = Engine.paired ∧
    pairedSites.Sublist (Engine.pairing.pattern.direction.along Engine.idleBody.labels) ∧
    pairedSites.Nodup ∧ pairedSites.length ≤ Engine.idleBody.length := by
  have hb : Engine.idleBody.Numbered := ⟨by decide, by decide⟩
  have hfit : Engine.pairing.Fits := by decide
  have hr : Engine.pairing.Advances := Or.inl (by decide)
  obtain ⟨c', h, hbody⟩ : ∃ c', (Engine.pairing.applyFrom []
      (Cursor.ofBody Engine.idleBody).gotoEnd).outcome = .ok (pairedSites, c') ∧
      c'.body = Engine.paired := ⟨⟨Engine.paired, 1, some ⟨4⟩⟩, by cbv, rfl⟩
  obtain ⟨visited, -, hsub, hnodup, hlength, hok, -⟩ := applyFrom_visits
    (c := (Cursor.ofBody Engine.idleBody).gotoEnd) hb hfit hr
  rw [← hok _ _ h] at hsub hnodup hlength
  exact ⟨c', hb, hfit, hr, h, hbody, hsub, hnodup, hlength⟩

end Rule

end Inversion
