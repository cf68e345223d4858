import Inversion.Rule.Library
import Inversion.Proofs.Pass

/-!
Branches whose target is missing when a body is patched. A branch is left as it is unless its target
is one of the body or one of the labels that the patch gives out. So a patch whose result is checked
lets a broken branch pass in one case only: the branch names a label that was still to be given out,
and after the patch leads to an inserted call. That case does happen, since the next label lies above
the labels of the instructions but not above the targets of the branches.
-/

namespace Inversion

namespace Body

variable {b b' : Body} {n : Nat} {i : Instruction}

namespace Exchanges

/-- A branch stays as it is while its target is neither one of the body nor one of those given out. -/
theorem mem_of_missing (h : Exchanges b n b') (hb : b.Numbered) (hi : i ∈ b.instructions)
    (hl : i.label ∈ b'.labels) (ht : ∀ t, i.target? = some t →
      t ∉ b.labels ∧ ¬(b.next ≤ t.number.toNat ∧ t.number.toNat < b'.next)) :
    i ∈ b'.instructions := by
  induction h with
  | none => exact hi
  | @next b' n index count t h _ hn ih =>
    have hnext := h.next_eq
    have hbelow := hb.below _ (Body.mem_labels hi)
    have hne : i.label ≠ b'.nextLabel := by
      intro he
      rw [he, nextLabel_number hn] at hbelow
      omega
    have hmem : i ∈ b'.instructions := by
      refine ih ((mem_exchange_labels hl).resolve_left hne) fun t hit => ?_
      have := (ht t hit).2
      rw [exchange_next] at this
      exact ⟨(ht t hit).1, by omega⟩
    have hkept := mem_exchange_of_label (h.numbered hb) hmem hne hl
    rwa [show i.redirected _ _ = i from ?_] at hkept
    -- its target cannot be in the span, whose labels are all labels of the body before
    cases hit : i.target? with
    | none => exact Instruction.redirected_of_target?_eq_none hit
    | some x =>
      refine Instruction.redirected_of_notMem hit fun hx => ?_
      obtain ⟨j, hj, rfl⟩ := List.mem_map.1 hx
      have hspan := Body.mem_labels (List.mem_of_mem_drop (List.mem_of_mem_take hj))
      have := ht _ hit
      rw [exchange_next] at this
      rcases h.mem_labels hspan with hold | hnew
      · exact this.1 hold
      · exact this.2 (by omega)

end Exchanges

end Body

namespace Engine

/-- A branch that is still there after a patch whose result was checked had a target, and that
    target was an instruction of the given body exactly if it is none of the labels that the patch
    gave out. -/
theorem patch_target {b p : Body} {target : Method} {rules : RuleSet} {report : Report}
    (hb : b.Numbered) (h : ((⟨true⟩ : Engine).patch target rules b).outcome = .ok (p, report)) :
    ∀ i ∈ b.instructions, i.isBranch → i.label ∈ p.labels →
      ∃ t, i.target? = some t ∧ (t ∈ b.labels ↔
        ¬(b.next ≤ t.number.toNat ∧ t.number.toNat < b.next + report.total)) := by
  intro i hi hbr hl
  have hex := patch_exchanges hb h
  obtain ⟨_, c, -, hval, rfl, -⟩ := patch_eq_ok h
  have hresolves := (Body.validate_eq_ok.1 (hval rfl)).2
  rw [← hex.next_eq]
  cases ht : i.target? with
  | none =>
    have hmem := hex.mem_of_missing hb hi hl (by simp [ht])
    obtain ⟨t, -, hit⟩ := hresolves i hmem hbr
    rw [ht] at hit
    cases hit
  | some t =>
    refine ⟨t, rfl, fun hm hout => ?_, fun hout => ?_⟩
    · have := hb.below t hm
      omega
    · by_contra hm
      have hmem := hex.mem_of_missing hb hi hl (by simpa [ht] using ⟨hm, by simpa using hout⟩)
      obtain ⟨t', hm', hit⟩ := hresolves i hmem hbr
      obtain rfl : t = t' := Option.some.inj (ht.symm.trans hit)
      rcases hex.mem_labels hm' with hold | hnew
      · exact hm hold
      · exact hout hnew

/-- An addition, and a branch to the label that is given out next. -/
def strayBody : Body :=
  ⟨[⟨⟨0⟩, .add, []⟩, ⟨⟨1⟩, .branch, [.condition .always, .target ⟨2⟩]⟩], 2⟩

/-- The addition gives way to a call with just that label, and the check accepts the body. -/
def strayPatched : Body :=
  ⟨[.transformCall ⟨2⟩ .vecAdd, ⟨⟨1⟩, .branch, [.condition .always, .target ⟨2⟩]⟩], 3⟩

theorem stray_patch : ∃ report, report.total = 1 ∧ ((⟨true⟩ : Engine).patch ⟨"Player", "Jump"⟩
    (RuleSet.arithmetic "jump") strayBody).outcome = .ok (strayPatched, report) :=
  ⟨⟨_, _, [⟨_, 1, _⟩, ⟨_, 0, _⟩, ⟨_, 0, _⟩, ⟨_, 0, _⟩, ⟨_, 0, _⟩]⟩, rfl, by cbv⟩

theorem patch_target_stray : ∃ report, strayBody.Numbered ∧
    ((⟨true⟩ : Engine).patch ⟨"Player", "Jump"⟩ (RuleSet.arithmetic "jump") strayBody).outcome
      = .ok (strayPatched, report) ∧
    ∀ i ∈ strayBody.instructions, i.isBranch → i.label ∈ strayPatched.labels →
      ∃ t, i.target? = some t ∧ (t ∈ strayBody.labels ↔
        ¬(strayBody.next ≤ t.number.toNat ∧ t.number.toNat < strayBody.next + report.total)) := by
  obtain ⟨report, -, h⟩ := stray_patch
  have hb : strayBody.Numbered := ⟨by decide, by decide⟩
  exact ⟨report, hb, h, patch_target hb h⟩

/-- The branch had no instruction of the given body as its target. -/
theorem stray_captured : ∃ report, Body.ofInstructions strayBody.instructions = .ok strayBody ∧
    ((⟨true⟩ : Engine).patch ⟨"Player", "Jump"⟩ (RuleSet.arithmetic "jump") strayBody).outcome
      = .ok (strayPatched, report) ∧
    ∃ i ∈ strayBody.instructions, i.isBranch ∧ i.label ∈ strayPatched.labels ∧
      ¬∃ t ∈ strayBody.labels, i.target? = some t := by
  obtain ⟨report, -, h⟩ := stray_patch
  exact ⟨report, rfl, h, ⟨⟨1⟩, .branch, [.condition .always, .target ⟨2⟩]⟩, by decide⟩

end Engine

end Inversion
