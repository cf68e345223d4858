import Inversion.Patching
import Inversion.Proofs.Exchange

/-!
What patching one window does. A removal behind an instruction that the cursor has just inserted is
never refused inside the body, and it points exactly the branches into the span to that instruction.
So a patched window is an exchange of a span for a call, and the only thing that can go wrong with a
window that fits is that the labels are used up. Places are added up as natural numbers, and a machine
word has the same sums as long as they fit.
-/

namespace Inversion

/-! ### Sums of places -/

namespace Body

theorem mem_branchesTo {b : Body} {l : Label} {index : Nat} :
    index ∈ b.branchesTo l ↔ ∃ i, b.get? index = some i ∧ i.target? = some l := by
  unfold branchesTo
  simp only [List.mem_map, List.mem_filter, decide_eq_true_eq, Prod.exists]
  constructor
  · rintro ⟨i, n, ⟨hz, ht⟩, rfl⟩
    exact ⟨i, List.mem_zipIdx_iff_getElem?.1 hz, ht⟩
  · rintro ⟨i, hg, ht⟩
    exact ⟨i, index, ⟨List.mem_zipIdx_iff_getElem?.2 hg, ht⟩, rfl⟩

theorem retarget_instructions (b : Body) (old new : Label) :
    (b.retarget old new).instructions = b.instructions.map (Instruction.redirected [old] new) := by
  refine List.map_congr_left fun i _ => ?_
  cases h : i.target? with
  | none => rw [Instruction.redirected_of_target?_eq_none h]; rfl
  | some t =>
    by_cases ht : t = old
    · rw [Instruction.redirected_of_mem h (by simpa using ht), if_pos (by rw [ht])]
    · rw [Instruction.redirected_of_notMem h (by simpa using ht), if_neg (by simpa using ht)]

end Body

theorem Instruction.redirected_redirected {rest : List Label} {old new : Label}
    (h : new ∉ rest) (i : Instruction) :
    (i.redirected [old] new).redirected rest new = i.redirected (old :: rest) new := by
  cases ht : i.target? with
  | none => rw [redirected_of_target?_eq_none ht, redirected_of_target?_eq_none ht,
      redirected_of_target?_eq_none ht]
  | some t =>
    by_cases ho : t = old
    · rw [redirected_of_mem ht (List.mem_singleton.2 ho),
        redirected_of_mem ht (List.mem_cons.2 (Or.inl ho)), redirected_of_notMem (t := new) ?_ h]
      rw [target?_retargeted, ht]
      rfl
    · rw [redirected_of_notMem ht (by simpa using ho)]
      by_cases hr : t ∈ rest
      · rw [redirected_of_mem ht hr, redirected_of_mem ht (List.mem_cons_of_mem _ hr)]
      · rw [redirected_of_notMem ht hr, redirected_of_notMem ht (by simp [ho, hr])]

namespace Cursor

theorem redirect_instructions {target : Label} : ∀ {ls : List Label} (b : Body), target ∉ ls →
    (redirect target ls b).2.instructions = b.instructions.map (Instruction.redirected ls target)
  | [], b, _ => by simp [redirect]
  | l :: rest, b, h => by
    have hr : target ∉ rest := fun hm => h (List.mem_cons_of_mem _ hm)
    rw [show (redirect target (l :: rest) b).2
        = (redirect target rest (b.retarget l target)).2 from rfl,
      redirect_instructions _ hr, Body.retarget_instructions, List.map_map]
    exact List.map_congr_left fun i _ => Instruction.redirected_redirected hr i

theorem outsideReferrer?_isSome {c : Cursor} {count : Nat} {l : Label} :
    ((c.outsideReferrer? count l).bind c.body.get?).isSome ↔ ∃ index i,
      c.body.get? index = some i ∧ i.target? = some l ∧
        ¬(c.index ≤ index ∧ index < c.index + count) := by
  constructor
  · intro h
    obtain ⟨branch, hb⟩ := Option.isSome_iff_exists.1 h
    obtain ⟨index, hf, -⟩ := Option.bind_eq_some_iff.1 hb
    unfold outsideReferrer? at hf
    obtain ⟨i, hg, ht⟩ := Body.mem_branchesTo.1 (List.mem_of_find?_eq_some hf)
    have ho := List.find?_some hf
    simp only [decide_eq_true_eq] at ho
    exact ⟨index, i, hg, ht, ho⟩
  · rintro ⟨index, i, hg, ht, ho⟩
    have hm : index ∈ c.body.branchesTo l := Body.mem_branchesTo.2 ⟨i, hg, ht⟩
    unfold outsideReferrer?
    cases hf : (c.body.branchesTo l).find? _ with
    | none => exact absurd (List.find?_eq_none.1 hf index hm) (by simpa using ho)
    | some found =>
      obtain ⟨j, hj, -⟩ := Body.mem_branchesTo.1 (List.mem_of_find?_eq_some hf)
      rw [Option.bind_some, hj]
      rfl

/-- With an instruction to stand in, the removal picks out the labels of the span that are targeted
    from outside, and is not refused. -/
theorem targeted_of_standIn? {c : Cursor} {l : Label} (h : c.standIn? = some l) (count : Nat) :
    ∀ labels : List Label, c.targeted count labels
      = .ok (labels.filter fun x => ((c.outsideReferrer? count x).bind c.body.get?).isSome)
  | [] => rfl
  | x :: rest => by
    have ih := targeted_of_standIn? h count rest
    unfold targeted
    cases hx : (c.outsideReferrer? count x).bind c.body.get? with
    | none => simpa [hx] using ih
    | some branch => simp [h, ih, hx, Except.map]

/-- An instruction that a removal leaves stands outside the span. -/
theorem outside_of_mem_removeSpan {c : Cursor} {count : Nat} {i : Instruction}
    (h : i ∈ (c.body.removeSpan c.index count).instructions) :
    ∃ index, c.body.get? index = some i ∧ ¬(c.index ≤ index ∧ index < c.index + count) := by
  rcases List.mem_append.1 h with h | h
  · obtain ⟨n, hn, hg⟩ := List.mem_take_iff_getElem.1 h
    exact ⟨n, by rw [← hg]; exact List.getElem?_eq_getElem _, by omega⟩
  · obtain ⟨n, hn, hg⟩ := List.mem_drop_iff_getElem.1 h
    exact ⟨c.index + count + n, by rw [← hg]; exact List.getElem?_eq_getElem _, by omega⟩

/-- A removal behind an inserted instruction: the span is gone, and exactly the branches into it
    target that instruction. -/
theorem remove_of_standIn? {c : Cursor} {l : Label} (h : c.standIn? = some l) (count : Nat)
    (hlen : c.index + count ≤ c.body.length)
    (hl : l ∉ (c.body.span c.index count).map (·.label)) :
    ∃ r, c.remove count = .ok (r, { c with body :=
      ⟨(c.body.instructions.take c.index ++ c.body.instructions.drop (c.index + count)).map
        (Instruction.redirected ((c.body.span c.index count).map (·.label)) l), c.body.next⟩ }) := by
  unfold remove
  rw [if_neg (by omega)]
  by_cases hc : count = 0
  · subst hc
    refine ⟨⟨[], [], none⟩, ?_⟩
    simp [Body.span]
  · rw [if_neg hc, targeted_of_standIn? h]
    simp only [cut, h]
    refine ⟨_, congrArg Except.ok (Prod.ext rfl ?_)⟩
    simp only [Body.removeSpan, redirect_next]
    rw [redirect_instructions _ fun hm => hl (List.mem_of_mem_filter hm), ← List.map_take,
      ← List.map_drop, ← List.map_append]
    refine congrArg (fun x => { c with body := ⟨x, c.body.next⟩ })
      (List.map_congr_left fun i hi => ?_)
    -- outside the span the labels that were picked out are the ones that count
    cases ht : i.target? with
    | none => rw [Instruction.redirected_of_target?_eq_none ht,
        Instruction.redirected_of_target?_eq_none ht]
    | some t =>
      by_cases hs : t ∈ (c.body.span c.index count).map (·.label)
      · rw [Instruction.redirected_of_mem ht hs, Instruction.redirected_of_mem ht]
        obtain ⟨index, hg, ho⟩ := outside_of_mem_removeSpan hi
        exact List.mem_filter.2 ⟨hs, outsideReferrer?_isSome.2 ⟨index, i, hg, ht, ho⟩⟩
      · rw [Instruction.redirected_of_notMem ht hs, Instruction.redirected_of_notMem ht]
        exact fun hm => hs (List.mem_of_mem_filter hm)

/-! ### Patching a window -/

/-- The cursor after a move. -/
def placed (c : Cursor) (index : Nat) : Cursor := { c with index, inserted := none }

theorem goto_of_le {c : Cursor} {index : Nat} (h : index ≤ c.body.length) :
    c.goto index = .ok (c.placed index) := if_neg (by omega)

theorem goto_of_lt {c : Cursor} {index : Nat} (h : c.body.length < index) :
    c.goto index = .error (.outOfBounds index c.body.length) := if_pos h

/-- The cursor behind a call that has just been inserted. -/
def behindCall (c : Cursor) (t : Transform) : Cursor :=
  ⟨⟨c.body.instructions.take c.index
      ++ .transformCall c.body.nextLabel t :: c.body.instructions.drop c.index, c.body.next + 1⟩,
    c.index + 1, some c.body.nextLabel⟩

theorem insertCall_of_lt {c : Cursor} (h : c.body.next < labelCount) (t : Transform) :
    c.insertCall t = .ok (c.body.nextLabel, c.behindCall t) := by
  unfold insertCall insert
  rw [Body.freshLabel_of_lt h]
  rfl

theorem insertCall_of_le {c : Cursor} (h : labelCount ≤ c.body.next) (t : Transform) :
    c.insertCall t = .error .labelsExhausted := by
  unfold insertCall insert
  rw [Body.freshLabel_of_le h]
  rfl

theorem length_take_index {c : Cursor} (h : c.index ≤ c.body.length) :
    (c.body.instructions.take c.index).length = c.index := by
  rw [List.length_take]
  exact Nat.min_eq_left h

theorem behindCall_standIn? {c : Cursor} (h : c.index ≤ c.body.length) (t : Transform) :
    (c.behindCall t).standIn? = some c.body.nextLabel := by
  have hg : (c.behindCall t).body.get? c.index = some (.transformCall c.body.nextLabel t) := by
    simp only [Body.get?, behindCall]
    rw [List.getElem?_append_right (Nat.le_of_eq (length_take_index h)), length_take_index h,
      Nat.sub_self]
    rfl
  unfold standIn?
  rw [if_neg (by simp [behindCall]), show (c.behindCall t).index - 1 = c.index from rfl, hg]
  exact if_pos rfl

theorem behindCall_take {c : Cursor} (h : c.index ≤ c.body.length) (t : Transform) :
    (c.behindCall t).body.instructions.take (c.index + 1)
      = c.body.instructions.take c.index ++ [.transformCall c.body.nextLabel t] := by
  have hl := length_take_index h
  have ht := @List.take_length_add_append _ (c.body.instructions.take c.index)
    (.transformCall c.body.nextLabel t :: c.body.instructions.drop c.index) 1
  rwa [hl] at ht

theorem behindCall_drop {c : Cursor} (h : c.index ≤ c.body.length) (t : Transform) (count : Nat) :
    (c.behindCall t).body.instructions.drop (c.index + 1 + count)
      = c.body.instructions.drop (c.index + count) := by
  have hd := @List.drop_length_add_append _ (c.body.instructions.take c.index)
    (.transformCall c.body.nextLabel t :: c.body.instructions.drop c.index) (count + 1)
  rw [length_take_index h, List.drop_succ_cons, List.drop_drop] at hd
  rwa [show c.index + 1 + count = c.index + (count + 1) by omega]

theorem behindCall_span {c : Cursor} (h : c.index ≤ c.body.length) (t : Transform) (count : Nat) :
    (c.behindCall t).body.span (c.index + 1) count = c.body.span c.index count :=
  congrArg (List.take count) (behindCall_drop h t 0)

theorem behindCall_length {c : Cursor} (h : c.index ≤ c.body.length) (t : Transform) :
    (c.behindCall t).body.length = c.body.length + 1 := by
  unfold Body.length at *
  simp only [behindCall, List.length_append, List.length_cons, List.length_take, List.length_drop]
  omega

theorem behindCall_eq_exchange (c : Cursor) (t : Transform) :
    c.behindCall t = ⟨c.body.exchange c.index 0 t, c.index + 1, some c.body.nextLabel⟩ := by
  simp [behindCall, Body.exchange, Body.span]

/-- Inserting a call and removing what stands behind it exchanges the one for the other. -/
theorem remove_behindCall {c : Cursor} (hb : c.body.Numbered) (hn : c.body.next < labelCount)
    {count : Nat} (h : c.index + count ≤ c.body.length) (t : Transform) :
    ∃ r, (c.behindCall t).remove count
      = .ok (r, ⟨c.body.exchange c.index count t, c.index + 1, some c.body.nextLabel⟩) := by
  have hi : c.index ≤ c.body.length := by omega
  have hspan := behindCall_span hi t count
  have hnew : c.body.nextLabel ∉ (c.body.span c.index count).map (·.label) := by
    intro hm
    obtain ⟨i, hs, hl⟩ := List.mem_map.1 hm
    exact hb.nextLabel_notMem hn
      (hl ▸ Body.mem_labels (List.mem_of_mem_drop (List.mem_of_mem_take hs)))
  obtain ⟨r, hr⟩ := remove_of_standIn? (behindCall_standIn? hi t) count
    (by rw [behindCall_length hi]; simp only [behindCall]; omega) (hspan ▸ hnew)
  refine ⟨r, hr.trans ?_⟩
  simp only [show (c.behindCall t).index = c.index + 1 from rfl, hspan, behindCall_take hi,
    behindCall_drop hi, List.map_append, List.map_cons,
    Instruction.redirected_transformCall, List.append_assoc, List.singleton_append]
  rfl

end Cursor

namespace Rule

/-- Where the call of a rule goes, counted from the start of the window. -/
def offset (rule : Rule) : Nat :=
  match rule.replacement with
  | .substitute _ => rule.pattern.anchor
  | .append _ => rule.pattern.anchor + 1

/-- How many instructions give way to the call of a rule. -/
def displaced (rule : Rule) : Nat :=
  match rule.replacement with
  | .substitute _ => rule.pattern.consume
  | .append _ => 0

/-- The cursor after the window that starts at it has been patched. -/
def patched (rule : Rule) (c : Cursor) : Cursor :=
  ⟨c.body.exchange (c.index + rule.offset) rule.displaced rule.replacement.transform,
    c.index + rule.offset + 1, some c.body.nextLabel⟩

variable {rule : Rule} {c : Cursor}

/-- A window is patched by an exchange if the labels last. -/
theorem patchWindow_of_fits (hb : c.body.Numbered) (hn : c.body.next < labelCount)
    (hfit : c.index + rule.offset + rule.displaced ≤ c.body.length) :
    ∃ events, rule.patchWindow c = .ok (events, rule.patched c) := by
  unfold patchWindow patched offset displaced at *
  cases hr : rule.replacement with
  | substitute t =>
    simp only [hr] at hfit ⊢
    obtain ⟨r, hrem⟩ := Cursor.remove_behindCall
      (c := c.placed (c.index + rule.pattern.anchor)) hb hn hfit t
    refine ⟨r.events, ?_⟩
    rw [Cursor.goto_of_le (by omega)]
    simp only [bind, Except.bind]
    rw [Cursor.insertCall_of_lt (c := c.placed _) hn]
    simp only
    rw [hrem]
    rfl
  | append t =>
    simp only [hr] at hfit ⊢
    refine ⟨[], ?_⟩
    rw [Cursor.goto_of_le (by omega)]
    simp only [bind, Except.bind]
    rw [Cursor.insertCall_of_lt (c := c.placed _) hn, Cursor.behindCall_eq_exchange]
    rfl

theorem patchWindow_of_exhausted (hn : labelCount ≤ c.body.next)
    (hfit : c.index + rule.offset ≤ c.body.length) :
    rule.patchWindow c = .error .labelsExhausted := by
  unfold patchWindow offset at *
  cases hr : rule.replacement with
  | substitute t =>
    simp only [hr] at hfit ⊢
    rw [Cursor.goto_of_le hfit]
    simp only [bind, Except.bind]
    rw [Cursor.insertCall_of_le (c := c.placed _) hn]
  | append t =>
    simp only [hr] at hfit ⊢
    rw [Cursor.goto_of_le (by omega)]
    simp only [bind, Except.bind]
    rw [Cursor.insertCall_of_le (c := c.placed _) hn]

theorem patchWindow_of_outside
    (hfit : c.body.length < c.index + rule.offset + rule.displaced) :
    ∃ e, rule.patchWindow c = .error e := by
  unfold patchWindow offset displaced at *
  cases hr : rule.replacement with
  | substitute t =>
    simp only [hr] at hfit ⊢
    by_cases hg : c.index + rule.pattern.anchor ≤ c.body.length
    · rw [Cursor.goto_of_le hg]
      simp only [bind, Except.bind]
      by_cases hn : c.body.next < labelCount
      · refine ⟨.outOfBounds (c.index + rule.pattern.anchor + 1 + rule.pattern.consume)
          (c.body.length + 1), ?_⟩
        rw [Cursor.insertCall_of_lt (c := c.placed _) hn]
        simp only [Cursor.remove, Cursor.behindCall_length (c := c.placed _) hg]
        rw [if_pos (by simp only [Cursor.behindCall, Cursor.placed]; omega)]
        rfl
      · refine ⟨.labelsExhausted, ?_⟩
        rw [Cursor.insertCall_of_le (c := c.placed _) (Nat.le_of_not_lt hn)]
    · rw [Cursor.goto_of_lt (by omega)]
      exact ⟨_, rfl⟩
  | append t =>
    simp only [hr] at hfit ⊢
    rw [Cursor.goto_of_lt (by omega)]
    exact ⟨_, rfl⟩

/-- What a patched window says of the cursor before and behind it. -/
theorem patchWindow_eq_ok (hb : c.body.Numbered) {events : List Event} {c' : Cursor}
    (h : rule.patchWindow c = .ok (events, c')) :
    c.index + rule.offset + rule.displaced ≤ c.body.length ∧ c.body.next < labelCount ∧
      c' = rule.patched c := by
  have hfit : c.index + rule.offset + rule.displaced ≤ c.body.length := by
    by_contra hf
    obtain ⟨e, he⟩ : ∃ e, rule.patchWindow c = .error e := patchWindow_of_outside (by omega)
    rw [he] at h
    cases h
  have hn : c.body.next < labelCount := by
    by_contra hx
    rw [patchWindow_of_exhausted (by omega) (by omega)] at h
    cases h
  obtain ⟨events', he⟩ := patchWindow_of_fits hb hn hfit
  rw [he] at h
  cases h
  exact ⟨hfit, hn, rfl⟩

/-- A window that fits fails only when the labels are used up. -/
theorem patchWindow_eq_error (hb : c.body.Numbered)
    (hfit : c.index + rule.offset + rule.displaced ≤ c.body.length) {e : BodyError}
    (h : rule.patchWindow c = .error e) : e = .labelsExhausted := by
  by_cases hn : c.body.next < labelCount
  · obtain ⟨events, he⟩ := patchWindow_of_fits hb hn hfit
    rw [he] at h
    cases h
  · rw [patchWindow_of_exhausted (by omega) (by omega)] at h
    cases h
    rfl

end Rule

end Inversion
