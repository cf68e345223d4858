import Inversion.Proofs.Exchange

/-!
Exchanges one after the other, each with its place, and what they leave of the first body. The
instructions that stay keep their order, and they stay as they are but for branches whose targets are
gone, which lead to one of the calls that were put in. Everything else in the last body is such a call.
-/

namespace Inversion

/-- An exchange: where it is made, how many instructions give way, and what is called for them. -/
structure Exchange where
  index : Nat
  count : Nat
  transform : Transform

namespace Exchange

/-- How much longer an exchange makes a body. -/
def growth (e : Exchange) : Int := 1 - e.count

/-- How much longer some exchanges make a body together. -/
def growthAll : List Exchange → Int
  | [] => 0
  | e :: es => e.growth + growthAll es

theorem growthAll_append : ∀ es es' : List Exchange,
    growthAll (es ++ es') = growthAll es + growthAll es'
  | [], es' => (Int.zero_add _).symm
  | e :: es, es' => by
    rw [List.cons_append, growthAll, growthAll, growthAll_append es es', Int.add_assoc]

end Exchange

theorem Instruction.retargeted_retargeted (i : Instruction) (l l' : Label) :
    (i.retargeted l).retargeted l' = i.retargeted l' := by
  simp only [retargeted, List.map_map]
  congr 1
  refine List.map_congr_left fun o _ => ?_
  cases o <;> rfl

namespace Body

/-- The labels of a span are gone after its exchange. -/
theorem Numbered.notMem_exchange_labels {b : Body} {index count : Nat} {t : Transform} {l : Label}
    (hb : b.Numbered) (hn : b.next < labelCount)
    (hl : l ∈ (b.span index count).map (·.label)) : l ∉ (b.exchange index count t).labels := by
  have hparts := labels_eq_append (b := b) index count
  have hnodup := hb.nodup
  rw [hparts, List.nodup_append, List.nodup_append] at hnodup
  obtain ⟨-, ⟨-, -, hbehind⟩, hfront⟩ := hnodup
  rw [exchange_labels]
  intro hm
  rcases List.mem_append.1 hm with hm | hm
  · exact hfront l hm l (List.mem_append_left _ hl) rfl
  · rcases List.mem_cons.1 hm with rfl | hm
    · refine hb.nextLabel_notMem hn ?_
      rw [hparts]
      exact List.mem_append_right _ (List.mem_append_left _ hl)
    · exact hbehind l hl l hm rfl

/-- What one exchange does to an instruction that stays: nothing, or its target has gone and it leads
    to the call. -/
theorem Numbered.exchange_survives {b : Body} (hb : b.Numbered) (hn : b.next < labelCount)
    {index count : Nat} {t : Transform} {i : Instruction} (hi : i ∈ b.instructions)
    (hl : i.label ∈ (b.exchange index count t).labels) :
    i ∈ (b.exchange index count t).instructions ∨ ∃ x, i.target? = some x ∧
      x ∉ (b.exchange index count t).labels ∧
      i.retargeted b.nextLabel ∈ (b.exchange index count t).instructions := by
  have hne : i.label ≠ b.nextLabel := fun he => hb.nextLabel_notMem hn (he ▸ mem_labels hi)
  have hkept := mem_exchange_of_label hb hi hne hl
  cases ht : i.target? with
  | none =>
    rw [Instruction.redirected_of_target?_eq_none ht] at hkept
    exact Or.inl hkept
  | some x =>
    by_cases hs : x ∈ (b.span index count).map (·.label)
    · rw [Instruction.redirected_of_mem ht hs] at hkept
      exact Or.inr ⟨x, rfl, hb.notMem_exchange_labels hn hs, hkept⟩
    · rw [Instruction.redirected_of_notMem ht hs] at hkept
      exact Or.inl hkept

/-- The body after an exchange. -/
def exchanged (b : Body) (e : Exchange) : Body := b.exchange e.index e.count e.transform

/-- A body becomes another by some exchanges, each inside the body and while labels were left. -/
inductive Series : Body → List Exchange → Body → Prop where
  | none (b : Body) : Series b [] b
  | next {b b' : Body} {es : List Exchange} (e : Exchange) : Series b es b' →
      e.index + e.count ≤ b'.length → b'.next < labelCount → Series b (es ++ [e]) (b'.exchanged e)

namespace Series

variable {b p p' : Body} {es es' : List Exchange}

theorem one {e : Exchange} (hfit : e.index + e.count ≤ b.length) (hn : b.next < labelCount) :
    Series b [e] (b.exchanged e) := .next e (.none b) hfit hn

theorem trans (h : Series b es p) (h' : Series p es' p') : Series b (es ++ es') p' := by
  induction h' with
  | none => rwa [List.append_nil]
  | next e _ hfit hn ih =>
    rw [← List.append_assoc]
    exact .next e ih hfit hn

theorem exchanges (h : Series b es p) : Exchanges b es.length p := by
  induction h with
  | none => exact .none _
  | next e _ hfit hn ih =>
    rw [List.length_append]
    exact .next e.index e.count e.transform ih hfit hn

theorem length_eq (h : Series b es p) : (p.length : Int) = b.length + Exchange.growthAll es := by
  induction h with
  | none => exact (Int.add_zero _).symm
  | next e _ hfit _ ih =>
    have hlen := exchange_length (t := e.transform) hfit
    rw [Exchange.growthAll_append, ← Int.add_assoc, ← ih]
    simp only [Exchange.growthAll, Exchange.growth, exchanged]
    omega

/-- The labels of the first body that are left have kept their order. -/
theorem order (h : Series b es p) (hb : b.Numbered) :
    (p.labels.filter (· ∈ b.labels)).Sublist b.labels := by
  induction h with
  | none => exact List.filter_sublist
  | next e h' _ hn ih =>
    have hnew := h'.exchanges.nextLabel_notMem hb hn
    rw [exchanged, exchange_labels, List.filter_append, List.filter_cons_of_neg (by simpa using hnew),
      ← List.filter_append]
    exact ((labels_outside_sublist e.index e.count).filter _).trans ih

/-- What does not come from the first body is the call of an exchange. -/
theorem mem_new (h : Series b es p) {j : Instruction} (hj : j ∈ p.instructions)
    (hl : j.label ∉ b.labels) : ∃ e ∈ es, j = .transformCall j.label e.transform := by
  induction h generalizing j with
  | none => exact absurd (mem_labels hj) hl
  | next e _ _ _ ih =>
    rcases mem_exchange hj with rfl | ⟨k, hk, rfl⟩
    · exact ⟨e, by simp, rfl⟩
    · rw [Instruction.redirected_label] at hl
      obtain ⟨e', he', hcall⟩ := ih hk hl
      refine ⟨e', List.mem_append_left _ he', ?_⟩
      rw [hcall]
      rfl

/-- An instruction that is left is as it was, or it is a branch whose target is gone and now has a
    label that was not yet given out. -/
theorem survives (h : Series b es p) (hb : b.Sound) {i : Instruction} (hi : i ∈ b.instructions)
    (hl : i.label ∈ p.labels) : i ∈ p.instructions ∨ ∃ t l, i.target? = some t ∧ t ∉ p.labels ∧
      b.next ≤ l.number.toNat ∧ i.retargeted l ∈ p.instructions := by
  induction h with
  | none => exact Or.inl hi
  | @next b' es e h' _ hn ih =>
    have hnew := h'.exchanges.nextLabel_notMem hb.toNumbered hn
    have hnum := h'.exchanges.numbered hb.toNumbered
    have hcall : b.next ≤ b'.nextLabel.number.toNat := by
      have := h'.exchanges.next_eq
      rw [nextLabel_number hn]
      omega
    have hold : i.label ∈ b'.labels := (mem_exchange_labels hl).resolve_left fun he =>
      hnew (he ▸ mem_labels hi)
    rcases ih hold with hmem | ⟨t, l, ht, hgone, hlab, hmem⟩
    · rcases hnum.exchange_survives hn hmem hl with hstay | ⟨t, ht, hgone, hto⟩
      · exact Or.inl hstay
      · exact Or.inr ⟨t, b'.nextLabel, ht, hgone, hcall, hto⟩
    · -- the target was lost before, and the instruction may be pointed elsewhere once more
      have hgone' : t ∉ (b'.exchanged e).labels := fun hm =>
        (mem_exchange_labels hm).elim (fun he => hnew (he ▸ hb.target_mem hi ht)) hgone
      rcases hnum.exchange_survives hn hmem hl with hstay | ⟨_, -, -, hto⟩
      · exact Or.inr ⟨t, l, ht, hgone', hlab, hstay⟩
      · rw [Instruction.retargeted_retargeted] at hto
        exact Or.inr ⟨t, b'.nextLabel, ht, hgone', hcall, hto⟩

end Series

end Body

end Inversion
