import Mathlib.Data.List.Nodup
import Inversion.Proofs.Search
import Inversion.Proofs.Window

/-!
Single edits of a valid body. It stays valid if an instruction is inserted under the next label, where
a branch needs a target that is there, and if a span is removed without being refused.
-/

namespace Inversion

namespace Body

theorem mem_labels_of_contains {b : Body} {l : Label} (h : b.contains l = true) : l ∈ b.labels := by
  obtain ⟨index, hp⟩ := Option.isSome_iff_exists.1 h
  obtain ⟨hlt, hl, -⟩ := List.findIdx?_eq_some_iff_getElem.1 hp
  rw [← of_decide_eq_true hl]
  exact mem_labels (List.getElem_mem hlt)

variable {b : Body} {index count : Nat} {i : Instruction} {l : Label}

theorem insertAt_labels : (b.insertAt index i).labels
    = b.labels.take index ++ i.label :: b.labels.drop index := by
  simp only [insertAt, labels, List.map_append, List.map_cons, List.map_take, List.map_drop]

theorem mem_insertAt_labels : l ∈ (b.insertAt index i).labels ↔ l = i.label ∨ l ∈ b.labels := by
  rw [insertAt_labels, List.mem_append, List.mem_cons, or_left_comm, ← List.mem_append,
    List.take_append_drop]

theorem mem_insertAt {j : Instruction} (h : j ∈ (b.insertAt index i).instructions) :
    j = i ∨ j ∈ b.instructions := by
  rcases List.mem_append.1 h with h | h
  · exact Or.inr (List.mem_of_mem_take h)
  · rcases List.mem_cons.1 h with h | h
    · exact Or.inl h
    · exact Or.inr (List.mem_of_mem_drop h)

theorem insertAt_length (h : index ≤ b.length) : (b.insertAt index i).length = b.length + 1 := by
  unfold length at *
  simp only [insertAt, List.length_append, List.length_cons, List.length_take, List.length_drop]
  omega

/-- Inserting under the next label, and a branch only to an instruction that is there. -/
theorem Sound.insertAt (hb : b.Sound) (hn : b.next < labelCount) (index : Nat) {op : Opcode}
    {operands : List Operand} (hop : op = .branch →
      ∃ t ∈ b.labels, operands.findSome? Operand.target? = some t) :
    (insertAt ⟨b.instructions, b.next + 1⟩ index ⟨b.nextLabel, op, operands⟩).Sound := by
  refine ⟨⟨?_, ?_⟩, ?_⟩
  · rw [insertAt_labels, List.nodup_middle, List.take_append_drop, List.nodup_cons]
    exact ⟨hb.nextLabel_notMem hn, hb.nodup⟩
  · intro l hl
    rcases mem_insertAt_labels.1 hl with rfl | hl
    · show b.nextLabel.number.toNat < b.next + 1
      rw [nextLabel_number hn]
      omega
    · exact Nat.lt_succ_of_lt (hb.below l hl)
  · intro j hj hbr
    rcases mem_insertAt hj with rfl | hj
    · have hbranch : op = .branch := of_decide_eq_true hbr
      obtain ⟨t, ht, hfound⟩ := hop hbranch
      exact ⟨t, mem_insertAt_labels.2 (Or.inr ht), by rw [Instruction.target?, if_pos hbr]; exact hfound⟩
    · obtain ⟨t, ht, hit⟩ := hb.resolves j hj hbr
      exact ⟨t, mem_insertAt_labels.2 (Or.inr ht), hit⟩

theorem removeSpan_labels :
    (b.removeSpan index count).labels = b.labels.take index ++ b.labels.drop (index + count) := by
  simp only [removeSpan, labels, List.map_append, List.map_take, List.map_drop]

theorem mem_removeSpan {j : Instruction} (h : j ∈ (b.removeSpan index count).instructions) :
    j ∈ b.instructions := by
  rcases List.mem_append.1 h with h | h
  · exact List.mem_of_mem_take h
  · exact List.mem_of_mem_drop h

theorem removeSpan_length (h : index + count ≤ b.length) :
    (b.removeSpan index count).length + count = b.length := by
  unfold length at *
  simp only [removeSpan, List.length_append, List.length_take, List.length_drop]
  omega

theorem removeSpan_labels_sublist : (b.removeSpan index count).labels.Sublist b.labels := by
  rw [removeSpan_labels]
  exact labels_outside_sublist index count

/-- A label stays unless it is one of the span. -/
theorem mem_removeSpan_labels_of_mem (h : l ∈ b.labels)
    (hs : l ∉ (b.span index count).map (·.label)) : l ∈ (b.removeSpan index count).labels := by
  rw [removeSpan_labels]
  rw [labels_eq_append index count] at h
  simp only [List.mem_append] at h ⊢
  rcases h with h | h | h
  · exact Or.inl h
  · exact absurd h hs
  · exact Or.inr h

/-- Taking a span out, with the branches that stay pointed to labels that stay. -/
theorem Sound.removed (hb : b.Sound) {f : Instruction → Instruction}
    (hlabel : ∀ i, (f i).label = i.label)
    (hres : ∀ i ∈ (b.removeSpan index count).instructions, (f i).isBranch →
      ∃ t ∈ (b.removeSpan index count).labels, (f i).target? = some t) :
    (⟨(b.removeSpan index count).instructions.map f, b.next⟩ : Body).Sound := by
  have hlabels : labels ⟨(b.removeSpan index count).instructions.map f, b.next⟩
      = (b.removeSpan index count).labels := by
    simp only [labels, List.map_map, Function.comp_def, hlabel]
  refine ⟨⟨?_, ?_⟩, ?_⟩
  · rw [hlabels]
    exact hb.nodup.sublist removeSpan_labels_sublist
  · intro l hl
    rw [hlabels] at hl
    exact hb.below l (removeSpan_labels_sublist.subset hl)
  · intro j hj hbr
    obtain ⟨i, hi, rfl⟩ := List.mem_map.1 hj
    rw [hlabels]
    exact hres i hi hbr

end Body

namespace Cursor

variable {c after : Cursor} {count : Nat} {l : Label} {r : Removal}

theorem standIn?_eq_some (h : c.standIn? = some l) :
    0 < c.index ∧ ∃ i, c.body.get? (c.index - 1) = some i ∧ i.label = l := by
  unfold standIn? at h
  split at h
  · cases h
  · rename_i h0
    split at h
    · rename_i i hi
      split at h
      · cases h
        exact ⟨Nat.pos_of_ne_zero h0, i, hi, rfl⟩
      · cases h
    · cases h

/-- What stands in for a span stands in front of it. -/
theorem standIn?_mem_take (h : c.standIn? = some l) : l ∈ c.body.labels.take c.index := by
  obtain ⟨hpos, i, hi, rfl⟩ := standIn?_eq_some h
  refine List.mem_of_getElem? (i := c.index - 1) ?_
  rw [List.getElem?_take_of_lt (by omega), Body.labels, List.getElem?_map]
  exact congrArg (Option.map _) hi

/-- Without an instruction to stand in, only a span that no branch outside it targets is removed. -/
theorem targeted_of_alone (hs : c.standIn? = none) : ∀ {labels ls : List Label},
    c.targeted count labels = .ok ls →
      ∀ l ∈ labels, ((c.outsideReferrer? count l).bind c.body.get?).isSome = false
  | [], _, _ => by simp
  | l :: rest, ls, h => by
    unfold targeted at h
    cases hl : (c.outsideReferrer? count l).bind c.body.get? with
    | none =>
      rw [hl] at h
      intro x hx
      rcases List.mem_cons.1 hx with rfl | hx
      · rw [hl]
        rfl
      · exact targeted_of_alone hs h x hx
    | some branch =>
      rw [hl] at h
      simp only [if_pos hs] at h
      cases h

theorem remove_of_alone (hs : c.standIn? = none) (h : c.remove count = .ok (r, after)) :
    c.index + count ≤ c.body.length ∧
      after = { c with body := c.body.removeSpan c.index count } ∧
      ∀ l ∈ (c.body.span c.index count).map (·.label),
        ((c.outsideReferrer? count l).bind c.body.get?).isSome = false := by
  unfold remove at h
  split at h
  · cases h
  · rename_i hlen
    refine ⟨by omega, ?_⟩
    split at h
    · rename_i hc
      cases h
      subst hc
      simp [Body.removeSpan, Body.span]
    · split at h
      · cases h
      · rename_i labels ht
        simp only [cut, hs] at h
        cases h
        exact ⟨rfl, targeted_of_alone hs ht⟩

theorem remove_le (h : c.remove count = .ok (r, after)) : c.index + count ≤ c.body.length := by
  by_contra hlen
  rw [remove, if_pos (by omega)] at h
  cases h

/-! ### One operation -/

/-- A valid body with a place inside it. -/
structure Sound (c : Cursor) : Prop where
  body : c.body.Sound
  within : c.index ≤ c.body.length

theorem Sound.placed (hc : c.Sound) {index : Nat} (h : index ≤ c.body.length) :
    (c.placed index).Sound := ⟨hc.body, h⟩

theorem Sound.goto (hc : c.Sound) {index : Nat} (h : c.goto index = .ok after) : after.Sound := by
  by_cases hlen : c.body.length < index
  · rw [goto_of_lt hlen] at h
    cases h
  · rw [goto_of_le (Nat.le_of_not_lt hlen)] at h
    cases h
    exact hc.placed (Nat.le_of_not_lt hlen)

/-- A window that is found lies inside the body. -/
theorem Sound.seek (hc : c.Sound) {p : Pattern} {d : Direction} (h : c.seek? p d = some after) :
    after.Sound := by
  obtain ⟨index, hfind, rfl⟩ := Option.map_eq_some_iff.1 h
  have hbounds := Pattern.matchesAt_bounds (Pattern.findNext_matchesAt hfind)
  exact hc.placed (Nat.le_of_add_right_le hbounds.2)

/-- A removal that is not refused leaves every branch with a target: either no branch targets the
    span, or those that do are pointed to what stands in for it. -/
theorem Sound.remove (hc : c.Sound) (h : c.remove count = .ok (r, after)) : after.Sound := by
  have hlen := remove_le h
  have hindex : c.index ≤ (c.body.removeSpan c.index count).length := by
    have := Body.removeSpan_length hlen
    omega
  cases hs : c.standIn? with
  | none =>
    obtain ⟨-, rfl, halone⟩ := remove_of_alone hs h
    refine ⟨?_, hindex⟩
    suffices h : (⟨(c.body.removeSpan c.index count).instructions.map id, c.body.next⟩ : Body).Sound by
      rwa [List.map_id] at h
    refine hc.body.removed (fun _ => rfl) fun i hi hbr => ?_
    obtain ⟨t, ht, hit⟩ := hc.body.resolves i (Body.mem_removeSpan hi) hbr
    refine ⟨t, Body.mem_removeSpan_labels_of_mem ht fun hspan => ?_, hit⟩
    obtain ⟨index, hg, ho⟩ := outside_of_mem_removeSpan hi
    have houtside := outsideReferrer?_isSome.2 ⟨index, i, hg, hit, ho⟩
    rw [halone t hspan] at houtside
    cases houtside
  | some l =>
    have hl := standIn?_mem_take hs
    have hnot : l ∉ (c.body.span c.index count).map (·.label) := by
      have hnodup := hc.body.nodup
      rw [Body.labels_eq_append c.index count] at hnodup
      intro hspan
      exact (List.nodup_append.1 hnodup).2.2 l hl l (List.mem_append_left _ hspan) rfl
    obtain ⟨r', hr⟩ := remove_of_standIn? hs count hlen hnot
    rw [hr] at h
    cases h
    refine ⟨?_, by rwa [Body.length, List.length_map]⟩
    refine hc.body.removed (Instruction.redirected_label _ _) fun i hi hbr => ?_
    rw [Instruction.redirected_isBranch] at hbr
    obtain ⟨t, ht, hit⟩ := hc.body.resolves i (Body.mem_removeSpan hi) hbr
    rw [Instruction.target?_redirected, hit]
    by_cases hspan : t ∈ (c.body.span c.index count).map (·.label)
    · refine ⟨l, ?_, by simp only [Option.map_some, if_pos hspan]⟩
      rw [Body.removeSpan_labels]
      exact List.mem_append_left _ hl
    · exact ⟨t, Body.mem_removeSpan_labels_of_mem ht hspan,
        by simp only [Option.map_some, if_neg hspan]⟩

end Cursor

end Inversion
