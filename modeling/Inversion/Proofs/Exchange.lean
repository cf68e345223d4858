import Mathlib.Data.List.Nodup
import Inversion.Body.Validity
import Inversion.Cursor

/-!
One edit of a body: a span gives way to the call of a transform, and the branches into the span lead
to the call. Every window that a rule patches comes down to this edit, an appended call to the one
whose span is empty. It keeps the labels distinct and below the next one, and every branch that had a
target still has one.
-/

namespace Inversion

/-! ### Branches under a redirection -/

namespace Instruction

/-- The instruction, pointed to another target if it is a branch to one of some labels. -/
def redirected (old : List Label) (new : Label) (i : Instruction) : Instruction :=
  if i.target?.any (· ∈ old) then i.retargeted new else i

theorem retargeted_isBranch (i : Instruction) (l : Label) :
    (i.retargeted l).isBranch = i.isBranch := rfl

theorem findSome?_target_retargeted (new : Label) : ∀ operands : List Operand,
    (operands.map fun | .target _ => .target new | other => other).findSome? Operand.target?
      = (operands.findSome? Operand.target?).map fun _ => new
  | [] => rfl
  | o :: rest => by
    have ih := findSome?_target_retargeted new rest
    cases o with
    | target l => rfl
    | _ => simpa only [List.map_cons, List.findSome?_cons, Operand.target?] using ih

/-- What is found among the operands other than targets is found there whatever the targets are. -/
theorem findSome?_retargeted {α : Type} {f : Operand → Option α} (hf : ∀ l, f (.target l) = none)
    (new : Label) : ∀ operands : List Operand,
    (operands.map fun | .target _ => .target new | other => other).findSome? f
      = operands.findSome? f
  | [] => rfl
  | o :: rest => by
    have ih := findSome?_retargeted hf new rest
    cases o with
    | target l => simpa only [List.map_cons, List.findSome?_cons, hf] using ih
    | _ => simp only [List.map_cons, List.findSome?_cons, ih]

theorem target?_retargeted (i : Instruction) (new : Label) :
    (i.retargeted new).target? = i.target?.map fun _ => new := by
  unfold target?
  rw [retargeted_isBranch]
  split
  · exact findSome?_target_retargeted new i.operands
  · rfl

theorem condition?_retargeted (i : Instruction) (new : Label) :
    (i.retargeted new).condition? = i.condition? := by
  unfold condition?
  rw [retargeted_isBranch]
  split
  · have hfound := findSome?_retargeted (f := Operand.condition?) (fun _ => rfl) new i.operands
    exact congrArg (fun c => some (c.getD .always)) hfound
  · rfl

theorem isBranch_of_target? {i : Instruction} {t : Label} (h : i.target? = some t) :
    i.isBranch = true := by
  unfold target? at h
  split at h
  · assumption
  · cases h

@[simp] theorem redirected_label (old : List Label) (new : Label) (i : Instruction) :
    (i.redirected old new).label = i.label := by
  unfold redirected
  split <;> rfl

@[simp] theorem redirected_op (old : List Label) (new : Label) (i : Instruction) :
    (i.redirected old new).op = i.op := by
  unfold redirected
  split <;> rfl

@[simp] theorem redirected_isBranch (old : List Label) (new : Label) (i : Instruction) :
    (i.redirected old new).isBranch = i.isBranch := by
  unfold isBranch
  rw [redirected_op]

theorem redirected_of_target?_eq_none {old : List Label} {new : Label} {i : Instruction}
    (h : i.target? = none) : i.redirected old new = i := by
  unfold redirected
  rw [h]
  rfl

theorem redirected_of_mem {old : List Label} {new t : Label} {i : Instruction}
    (h : i.target? = some t) (ht : t ∈ old) : i.redirected old new = i.retargeted new := by
  unfold redirected
  rw [h, if_pos (by simpa using ht)]

theorem redirected_of_notMem {old : List Label} {new t : Label} {i : Instruction}
    (h : i.target? = some t) (ht : t ∉ old) : i.redirected old new = i := by
  unfold redirected
  rw [h, if_neg (by simpa using ht)]

@[simp] theorem redirected_nil (new : Label) : redirected [] new = id := by
  funext i
  cases h : i.target? with
  | none => exact redirected_of_target?_eq_none h
  | some t => exact redirected_of_notMem h (by simp)

theorem target?_redirected (old : List Label) (new : Label) (i : Instruction) :
    (i.redirected old new).target? = i.target?.map fun t => if t ∈ old then new else t := by
  cases h : i.target? with
  | none => rw [redirected_of_target?_eq_none h, h]; rfl
  | some t =>
    by_cases ht : t ∈ old
    · rw [redirected_of_mem h ht, target?_retargeted, h]
      simp [ht]
    · rw [redirected_of_notMem h ht, h]
      simp [ht]

@[simp] theorem transformCall_label (l : Label) (t : Transform) :
    (transformCall l t).label = l := rfl

@[simp] theorem redirected_transformCall (old : List Label) (new l : Label) (t : Transform) :
    (transformCall l t).redirected old new = transformCall l t := rfl

end Instruction

namespace Body

/-! ### Numbered and sound bodies -/

/-- Labels differ and lie below the next one. Every body that can be built is numbered: the empty
    body, the body of some instructions, and what pushing and patching make of it. -/
structure Numbered (b : Body) : Prop where
  nodup : b.labels.Nodup
  below : ∀ l ∈ b.labels, l.number.toNat < b.next

/-- A numbered body in which every branch has the label of an instruction as its target. -/
structure Sound (b : Body) : Prop extends b.Numbered where
  resolves : ∀ i ∈ b.instructions, i.isBranch → ∃ t ∈ b.labels, i.target? = some t

theorem Sound.target_mem {b : Body} {i : Instruction} {l : Label} (hb : b.Sound)
    (hi : i ∈ b.instructions) (ht : i.target? = some l) : l ∈ b.labels := by
  obtain ⟨target, hm, hit⟩ := hb.resolves i hi (Instruction.isBranch_of_target? ht)
  rwa [Option.some.inj (ht.symm.trans hit)]

theorem mem_labels {b : Body} {i : Instruction} (h : i ∈ b.instructions) : i.label ∈ b.labels :=
  List.mem_map_of_mem h

theorem Numbered.eq_of_label_eq {b : Body} (hb : b.Numbered) {i j : Instruction}
    (hi : i ∈ b.instructions) (hj : j ∈ b.instructions) (h : i.label = j.label) : i = j :=
  List.inj_on_of_nodup_map hb.nodup hi hj h

theorem firstRepeated_eq_none : ∀ (labels seen : List Label),
    firstRepeated seen labels = none ↔ labels.Nodup ∧ ∀ l ∈ labels, l ∉ seen
  | [], seen => by simp [firstRepeated]
  | l :: rest, seen => by
    unfold firstRepeated
    by_cases hl : l ∈ seen
    · simp [hl]
    · rw [if_neg hl, firstRepeated_eq_none rest (l :: seen)]
      simp only [List.nodup_cons, List.mem_cons, not_or, forall_eq_or_imp]
      constructor
      · rintro ⟨hd, hs⟩
        exact ⟨⟨fun hm => (hs l hm).1 rfl, hd⟩, hl, fun x hx => (hs x hx).2⟩
      · rintro ⟨⟨hn, hd⟩, -, hs⟩
        exact ⟨hd, fun x hx => ⟨fun he => hn (he ▸ hx), hs x hx⟩⟩

theorem branchFault?_eq_none {labels : List Label} {i : Instruction} :
    branchFault? labels i = none ↔ (i.isBranch → ∃ t ∈ labels, i.target? = some t) := by
  unfold branchFault?
  cases hb : i.isBranch with
  | false => simp
  | true =>
    cases ht : i.target? with
    | none => simp
    | some t => by_cases hm : t ∈ labels <;> simp [hm]

/-- The check accepts a body exactly if labels differ and every branch has a target that exists. -/
theorem validate_eq_ok {b : Body} :
    b.validate = .ok () ↔
      b.labels.Nodup ∧ ∀ i ∈ b.instructions, i.isBranch → ∃ t ∈ b.labels, i.target? = some t := by
  have hf : b.branchFaults = [] ↔
      ∀ i ∈ b.instructions, i.isBranch → ∃ t ∈ b.labels, i.target? = some t := by
    simp only [branchFaults, List.filterMap_eq_nil_iff, branchFault?_eq_none]
  have hr : firstRepeated [] b.labels = none ↔ b.labels.Nodup := by
    simp [firstRepeated_eq_none]
  rw [← hr, ← hf]
  unfold validate
  cases firstRepeated [] b.labels with
  | some l => simp
  | none => cases b.branchFaults <;> simp

theorem Sound.validate {b : Body} (h : b.Sound) : b.validate = .ok () :=
  validate_eq_ok.2 ⟨h.nodup, h.resolves⟩

theorem Numbered.sound {b : Body} (h : b.Numbered) (hv : b.validate = .ok ()) : b.Sound :=
  ⟨h, (validate_eq_ok.1 hv).2⟩

theorem lt_nextAfter : ∀ {instructions : List Instruction} {i : Instruction}, i ∈ instructions →
    i.label.number.toNat < nextAfter instructions
  | j :: rest, i, h => by
    rw [show nextAfter (j :: rest) = max (j.label.number.toNat + 1) (nextAfter rest) from rfl]
    rcases List.mem_cons.1 h with rfl | hr
    · omega
    · have := lt_nextAfter hr
      omega

theorem empty_numbered : empty.Numbered := ⟨List.nodup_nil, by simp [empty, labels]⟩

theorem ofInstructions_numbered {instructions : List Instruction} {b : Body}
    (h : ofInstructions instructions = .ok b) : b.Numbered := by
  unfold ofInstructions at h
  split at h
  · cases h
  · rename_i hr
    cases h
    refine ⟨((firstRepeated_eq_none _ _).1 hr).1, fun l hl => ?_⟩
    obtain ⟨i, hi, rfl⟩ := List.mem_map.1 hl
    exact lt_nextAfter hi

/-! ### The next label -/

/-- The label that is given out next. -/
def nextLabel (b : Body) : Label := ⟨UInt32.ofNat b.next⟩

theorem freshLabel_of_lt {b : Body} (h : b.next < labelCount) :
    b.freshLabel = .ok (b.nextLabel, { b with next := b.next + 1 }) := if_pos h

theorem freshLabel_of_le {b : Body} (h : labelCount ≤ b.next) :
    b.freshLabel = .error .labelsExhausted := if_neg (by omega)

theorem nextLabel_number {b : Body} (h : b.next < labelCount) :
    b.nextLabel.number.toNat = b.next := UInt32.toNat_ofNat_of_lt h

theorem Numbered.nextLabel_notMem {b : Body} (hb : b.Numbered) (h : b.next < labelCount) :
    b.nextLabel ∉ b.labels := by
  intro hm
  have := hb.below _ hm
  rw [nextLabel_number h] at this
  omega

theorem push_numbered {b b' : Body} {op : Opcode} {operands : List Operand} {l : Label}
    (hb : b.Numbered) (h : b.push op operands = .ok (l, b')) : b'.Numbered := by
  unfold push at h
  by_cases hn : b.next < labelCount
  · rw [freshLabel_of_lt hn] at h
    cases h
    have hnew := hb.nextLabel_notMem hn
    refine ⟨?_, ?_⟩
    · simpa [labels, List.nodup_append] using ⟨hb.nodup, fun i hi he => hnew (he ▸ mem_labels hi)⟩
    · intro x hx
      simp only [labels, List.map_append, List.map_cons, List.map_nil, List.mem_append,
        List.mem_singleton] at hx
      rcases hx with hx | rfl
      · exact Nat.lt_succ_of_lt (hb.below x hx)
      · show b.nextLabel.number.toNat < b.next + 1
        rw [nextLabel_number hn]
        omega
  · rw [freshLabel_of_le (by omega)] at h
    cases h

/-! ### Exchanging a span for a call -/

/-- The body with a span exchanged for a call of a transform under the next label; branches into the
    span lead to the call. -/
def exchange (b : Body) (index count : Nat) (t : Transform) : Body :=
  let kept := Instruction.redirected ((b.span index count).map (·.label)) b.nextLabel
  ⟨(b.instructions.take index).map kept
    ++ .transformCall b.nextLabel t :: (b.instructions.drop (index + count)).map kept, b.next + 1⟩

@[simp] theorem exchange_next (b : Body) (index count : Nat) (t : Transform) :
    (b.exchange index count t).next = b.next + 1 := rfl

theorem exchange_labels (b : Body) (index count : Nat) (t : Transform) :
    (b.exchange index count t).labels
      = b.labels.take index ++ b.nextLabel :: b.labels.drop (index + count) := by
  simp only [exchange, labels, List.map_append, List.map_cons, List.map_map, List.map_take,
    List.map_drop, Instruction.transformCall_label]
  simp only [Function.comp_def, Instruction.redirected_label]

theorem exchange_length {b : Body} {index count : Nat} {t : Transform}
    (h : index + count ≤ b.length) : (b.exchange index count t).length + count = b.length + 1 := by
  unfold length at *
  simp only [exchange, List.length_append, List.length_cons, List.length_map, List.length_take,
    List.length_drop]
  omega

theorem mem_exchange_labels {b : Body} {index count : Nat} {t : Transform} {l : Label}
    (h : l ∈ (b.exchange index count t).labels) : l = b.nextLabel ∨ l ∈ b.labels := by
  rw [exchange_labels] at h
  rcases List.mem_append.1 h with h | h
  · exact Or.inr (List.mem_of_mem_take h)
  · rcases List.mem_cons.1 h with h | h
    · exact Or.inl h
    · exact Or.inr (List.mem_of_mem_drop h)

theorem span_labels (b : Body) (index count : Nat) :
    (b.span index count).map (·.label) = (b.labels.drop index).take count := by
  simp only [span, labels, List.map_take, List.map_drop]

/-- The labels in front of a span, those of the span, and those behind it. -/
theorem labels_eq_append {b : Body} (index count : Nat) :
    b.labels = b.labels.take index
      ++ ((b.span index count).map (·.label) ++ b.labels.drop (index + count)) := by
  rw [span_labels, ← List.drop_drop, List.take_append_drop, List.take_append_drop]

/-- A label survives the exchange unless it is one of the span. -/
theorem mem_exchange_labels_of_mem {b : Body} {index count : Nat} {t : Transform} {l : Label}
    (h : l ∈ b.labels) (hs : l ∉ (b.span index count).map (·.label)) :
    l ∈ (b.exchange index count t).labels := by
  rw [exchange_labels]
  rw [labels_eq_append index count] at h
  simp only [List.mem_append, List.mem_cons] at h ⊢
  rcases h with h | h | h
  · exact Or.inl h
  · exact absurd h hs
  · exact Or.inr (Or.inr h)

theorem take_cons_drop {b : Body} {index : Nat} {i : Instruction} (h : b.get? index = some i) :
    b.instructions.take index ++ i :: b.instructions.drop (index + 1) = b.instructions := by
  obtain ⟨hlt, rfl⟩ := List.getElem?_eq_some_iff.1 h
  rw [List.getElem_cons_drop, List.take_append_drop]

theorem span_one {b : Body} {index : Nat} {i : Instruction} (h : b.get? index = some i) :
    b.span index 1 = [i] := by
  obtain ⟨hlt, rfl⟩ := List.getElem?_eq_some_iff.1 h
  rw [span, ← List.getElem_cons_drop hlt]
  rfl

/-- In front of the span the instructions stay where they are. -/
theorem exchange_get?_of_lt {b : Body} {index count k : Nat} {t : Transform} (hk : k < index)
    (hi : index ≤ b.length) : (b.exchange index count t).get? k = (b.get? k).map
      (Instruction.redirected ((b.span index count).map (·.label)) b.nextLabel) := by
  unfold get? length exchange at *
  have hl : k < ((b.instructions.take index).map (Instruction.redirected
      ((b.span index count).map (·.label)) b.nextLabel)).length := by
    rw [List.length_map, List.length_take]
    omega
  rw [List.getElem?_append_left hl, List.getElem?_map, List.getElem?_take_of_lt hk]

theorem exchange_get?_self {b : Body} {index count : Nat} {t : Transform} (hi : index ≤ b.length) :
    (b.exchange index count t).get? index = some (.transformCall b.nextLabel t) := by
  unfold get? length exchange at *
  have hl : ((b.instructions.take index).map (Instruction.redirected
      ((b.span index count).map (·.label)) b.nextLabel)).length = index := by
    rw [List.length_map, List.length_take]
    exact Nat.min_eq_left hi
  rw [List.getElem?_append_right (Nat.le_of_eq hl), hl, Nat.sub_self]
  rfl

/-- An instruction of the new body is the call, or one of the old body, redirected. -/
theorem mem_exchange {b : Body} {index count : Nat} {t : Transform} {i : Instruction}
    (h : i ∈ (b.exchange index count t).instructions) :
    i = .transformCall b.nextLabel t ∨ ∃ j ∈ b.instructions,
      i = j.redirected ((b.span index count).map (·.label)) b.nextLabel := by
  rcases List.mem_append.1 h with h | h
  · obtain ⟨j, hj, rfl⟩ := List.mem_map.1 h
    exact Or.inr ⟨j, List.mem_of_mem_take hj, rfl⟩
  · rcases List.mem_cons.1 h with h | h
    · exact Or.inl h
    · obtain ⟨j, hj, rfl⟩ := List.mem_map.1 h
      exact Or.inr ⟨j, List.mem_of_mem_drop hj, rfl⟩

/-- An instruction whose label is still there is still there, redirected. -/
theorem mem_exchange_of_label {b : Body} (hb : b.Numbered) {index count : Nat} {t : Transform}
    {i : Instruction} (hi : i ∈ b.instructions) (hne : i.label ≠ b.nextLabel)
    (hl : i.label ∈ (b.exchange index count t).labels) :
    i.redirected ((b.span index count).map (·.label)) b.nextLabel
      ∈ (b.exchange index count t).instructions := by
  obtain ⟨j, hj, hji⟩ := List.mem_map.1 hl
  rcases mem_exchange hj with rfl | ⟨k, hk, rfl⟩
  · exact absurd hji.symm hne
  · rw [Instruction.redirected_label] at hji
    rwa [hb.eq_of_label_eq hi hk hji.symm]

/-- The labels outside a span keep their order. -/
theorem labels_outside_sublist {b : Body} (index count : Nat) :
    (b.labels.take index ++ b.labels.drop (index + count)).Sublist b.labels := by
  conv_rhs => rw [labels_eq_append index count]
  exact (List.Sublist.refl _).append (List.sublist_append_right ..)

theorem Numbered.exchange {b : Body} (hb : b.Numbered) (hn : b.next < labelCount)
    (index count : Nat) (t : Transform) : (b.exchange index count t).Numbered := by
  have hkept := labels_outside_sublist (b := b) index count
  refine ⟨?_, ?_⟩
  · rw [exchange_labels, List.nodup_middle, List.nodup_cons]
    exact ⟨fun hm => hb.nextLabel_notMem hn (hkept.subset hm), hb.nodup.sublist hkept⟩
  · intro l hl
    rw [exchange_next]
    rcases mem_exchange_labels hl with rfl | hm
    · rw [nextLabel_number hn]
      omega
    · exact Nat.lt_succ_of_lt (hb.below l hm)

/-- No branch loses its target: one into the span has the call instead. -/
theorem Sound.exchange {b : Body} (hb : b.Sound) (hn : b.next < labelCount) (index count : Nat)
    (t : Transform) : (b.exchange index count t).Sound := by
  refine ⟨hb.toNumbered.exchange hn index count t, fun i hi hbr => ?_⟩
  have hcall : b.nextLabel ∈ (b.exchange index count t).labels := by
    rw [exchange_labels]
    simp
  rcases mem_exchange hi with rfl | ⟨j, hj, rfl⟩
  · cases hbr
  · rw [Instruction.redirected_isBranch] at hbr
    obtain ⟨target, hm, ht⟩ := hb.resolves j hj hbr
    rw [Instruction.target?_redirected, ht]
    by_cases hs : target ∈ (b.span index count).map (·.label)
    · exact ⟨b.nextLabel, hcall, by simp only [Option.map_some, if_pos hs]⟩
    · exact ⟨target, mem_exchange_labels_of_mem hm hs, by simp only [Option.map_some, if_neg hs]⟩

/-! ### Any number of exchanges -/

/-- A body becomes another by so many exchanges, each inside the body and while labels were left. -/
inductive Exchanges : Body → Nat → Body → Prop where
  | none (b : Body) : Exchanges b 0 b
  | next {b b' : Body} {n : Nat} (index count : Nat) (t : Transform) : Exchanges b n b' →
      index + count ≤ b'.length → b'.next < labelCount →
      Exchanges b (n + 1) (b'.exchange index count t)

namespace Exchanges

variable {b b' b'' : Body} {m n : Nat}

theorem trans (h : Exchanges b m b') (h' : Exchanges b' n b'') : Exchanges b (m + n) b'' := by
  induction h' with
  | none => exact h
  | next index count t _ hfit hn ih => exact .next index count t ih hfit hn

theorem one {index count : Nat} (hfit : index + count ≤ b.length) (hn : b.next < labelCount)
    (t : Transform) : Exchanges b 1 (b.exchange index count t) :=
  .next index count t (.none b) hfit hn

theorem next_eq (h : Exchanges b n b') : b'.next = b.next + n := by
  induction h with
  | none => rfl
  | next index count t _ _ _ ih =>
    rw [exchange_next, ih]
    omega

theorem numbered (h : Exchanges b n b') (hb : b.Numbered) : b'.Numbered := by
  induction h with
  | none => exact hb
  | next index count t _ _ hn ih => exact ih.exchange hn index count t

theorem sound (h : Exchanges b n b') (hb : b.Sound) : b'.Sound := by
  induction h with
  | none => exact hb
  | next index count t _ _ hn ih => exact ih.exchange hn index count t

/-- A label of the new body is one of the old body or has been given out since. -/
theorem mem_labels {l : Label} (h : Exchanges b n b') (hl : l ∈ b'.labels) :
    l ∈ b.labels ∨ (b.next ≤ l.number.toNat ∧ l.number.toNat < b'.next) := by
  induction h with
  | none => exact Or.inl hl
  | @next b' n index count t h _ hn ih =>
    have hnext := h.next_eq
    rw [exchange_next]
    rcases mem_exchange_labels hl with rfl | hl
    · rw [nextLabel_number hn]
      exact Or.inr (by omega)
    · exact (ih hl).imp_right fun hr => by omega

/-- The next label is none of the first body. -/
theorem nextLabel_notMem (h : Exchanges b n b') (hb : b.Numbered) (hn : b'.next < labelCount) :
    b'.nextLabel ∉ b.labels := by
  intro hm
  have hbelow := hb.below _ hm
  have hnext := h.next_eq
  rw [nextLabel_number hn] at hbelow
  omega

end Exchanges

end Body

end Inversion
