import Mathlib.Logic.Function.Basic
import Inversion.Rule.Library
import Inversion.Proofs.Pass

/-!
What the arithmetic rule set makes of a valid body. Each of its rules replaces every instruction with
one opcode, in place and under a new label, and the branches follow their targets. So there is a
renaming of labels under which the patched body is the given one, instruction by instruction.
-/

namespace Inversion

/-- The transform that takes the place of an arithmetic opcode. -/
def Opcode.transform? : Opcode → Option Transform
  | .add => some .vecAdd
  | .subtract => some .vecSub
  | .min => some .floatMin
  | .max => some .floatMax
  | .sign => some .sign
  | _ => none

theorem Opcode.isArithmetic_eq (op : Opcode) : op.isArithmetic = op.transform?.isSome := by
  cases op <;> rfl

theorem Instruction.target?_of_transform? {i : Instruction} {t : Transform}
    (h : i.op.transform? = some t) : i.target? = none := by
  cases ht : i.target? with
  | none => rfl
  | some l =>
    have hb := isBranch_of_target? ht
    unfold isBranch at hb
    rw [of_decide_eq_true hb] at h
    cases h

/-! ### Bodies under a renaming -/

/-- The instruction under a renaming of labels: an arithmetic one that is renamed is a call of its
    transform, and a branch follows its target. -/
def Instruction.renamed (name : Label → Label) (i : Instruction) : Instruction :=
  match i.op.transform? with
  | some t => if name i.label = i.label then i else .transformCall (name i.label) t
  | none =>
    match i.target? with
    | some l => if name l = l then i else i.retargeted (name l)
    | none => i

namespace Instruction

variable {name : Label → Label} {i : Instruction} {t : Transform} {l : Label}

theorem renamed_of_kept (h : name i.label = i.label) (ht : i.op.transform? = some t) :
    i.renamed name = i := by
  unfold renamed
  simp only [ht, if_pos h]

theorem renamed_of_moved (h : name i.label ≠ i.label) (ht : i.op.transform? = some t) :
    i.renamed name = .transformCall (name i.label) t := by
  unfold renamed
  simp only [ht, if_neg h]

theorem renamed_of_plain (ho : i.op.transform? = none) (ht : i.target? = none) :
    i.renamed name = i := by
  unfold renamed
  simp only [ho, ht]

theorem renamed_of_target (ho : i.op.transform? = none) (ht : i.target? = some l) :
    i.renamed name = if name l = l then i else i.retargeted (name l) := by
  unfold renamed
  simp only [ho, ht]

theorem renamed_op_of_transform?_eq_none (ho : i.op.transform? = none) :
    (i.renamed name).op = i.op := by
  cases ht : i.target? with
  | none => rw [renamed_of_plain ho ht]
  | some l =>
    rw [renamed_of_target ho ht]
    split <;> rfl

theorem renamed_label (h : i.op.transform? = none → name i.label = i.label) :
    (i.renamed name).label = name i.label := by
  cases ho : i.op.transform? with
  | some t =>
    by_cases hn : name i.label = i.label
    · rw [renamed_of_kept hn ho, hn]
    · rw [renamed_of_moved hn ho]
      rfl
  | none =>
    rw [h ho]
    cases ht : i.target? with
    | none => rw [renamed_of_plain ho ht]
    | some l =>
      rw [renamed_of_target ho ht]
      split <;> rfl

theorem renamed_target? : (i.renamed name).target? = i.target?.map name := by
  cases ho : i.op.transform? with
  | some t =>
    rw [target?_of_transform? ho]
    by_cases hn : name i.label = i.label
    · rw [renamed_of_kept hn ho, target?_of_transform? ho]
      rfl
    · rw [renamed_of_moved hn ho]
      rfl
  | none =>
    cases ht : i.target? with
    | none =>
      rw [renamed_of_plain ho ht, ht]
      rfl
    | some l =>
      rw [renamed_of_target ho ht]
      split
      · rename_i hl
        rw [ht, Option.map_some, hl]
      · rw [target?_retargeted, ht]
        rfl

/-- Redirecting one more label renames it. -/
theorem renamed_redirected {old new : Label} (hold : name old = old) (hne : new ≠ old)
    (hop : i.op.transform?.isSome → i.label ≠ old)
    (hinj : ∀ l, i.target? = some l → name l = old → l = old) :
    (i.renamed name).redirected [old] new = i.renamed (Function.update name old new) := by
  cases ho : i.op.transform? with
  | some t =>
    have hl : Function.update name old new i.label = name i.label :=
      Function.update_of_ne (hop (by rw [ho]; rfl)) new name
    have ht : (i.renamed name).target? = none := by
      rw [renamed_target?, target?_of_transform? ho]
      rfl
    rw [redirected_of_target?_eq_none ht]
    by_cases hn : name i.label = i.label
    · rw [renamed_of_kept hn ho, renamed_of_kept (hl.trans hn) ho]
    · rw [renamed_of_moved hn ho, renamed_of_moved (by rwa [hl]) ho, hl]
  | none =>
    cases ht : i.target? with
    | none =>
      rw [renamed_of_plain ho ht, renamed_of_plain ho ht, redirected_of_target?_eq_none ht]
    | some l =>
      have hl : (i.renamed name).target? = some (name l) := by
        rw [renamed_target?, ht]
        rfl
      by_cases he : l = old
      · subst he
        rw [redirected_of_mem hl (by rw [hold]; exact List.mem_singleton_self l),
          renamed_of_target ho ht, renamed_of_target ho ht, if_pos hold, Function.update_self,
          if_neg hne]
      · rw [redirected_of_notMem hl fun hm => he (hinj l ht (List.mem_singleton.1 hm)),
          renamed_of_target ho ht, renamed_of_target ho ht, Function.update_of_ne he]

/-- An instruction that is still arithmetic under a renaming has not been renamed. -/
theorem eq_of_renamed_transform? (h : (i.renamed name).op.transform? = some t) :
    i.op.transform? = some t ∧ i.renamed name = i ∧ name i.label = i.label := by
  cases ho : i.op.transform? with
  | some t' =>
    by_cases hn : name i.label = i.label
    · rw [renamed_of_kept hn ho, ho] at h
      exact ⟨h, renamed_of_kept hn ho, hn⟩
    · rw [renamed_of_moved hn ho] at h
      cases h
  | none =>
    rw [renamed_op_of_transform?_eq_none ho, ho] at h
    cases h

end Instruction

namespace Body

/-- A body is another one under a renaming that only moves the labels of arithmetic instructions. -/
structure Follows (b : Body) (name : Label → Label) (b' : Body) : Prop where
  numbered : b'.Numbered
  instructions : b'.instructions = b.instructions.map (Instruction.renamed name)
  fixed : ∀ i ∈ b.instructions, i.op.transform? = none → name i.label = i.label

variable {b b' : Body} {name : Label → Label} {index : Nat} {j : Instruction} {t : Transform}

theorem Numbered.follows (hb : b.Numbered) : b.Follows id b where
  numbered := hb
  instructions := by
    conv_lhs => rw [← List.map_id b.instructions]
    refine List.map_congr_left fun i _ => ?_
    cases ho : i.op.transform? with
    | some t => exact (Instruction.renamed_of_kept rfl ho).symm
    | none =>
      cases ht : i.target? with
      | none => exact (Instruction.renamed_of_plain ho ht).symm
      | some l =>
        rw [Instruction.renamed_of_target ho ht]
        exact (if_pos rfl).symm
  fixed := fun _ _ _ => rfl

namespace Follows

theorem labels (h : b.Follows name b') : b'.labels = b.labels.map name := by
  unfold Body.labels
  rw [h.instructions, List.map_map, List.map_map]
  exact List.map_congr_left fun i hi => Instruction.renamed_label (h.fixed i hi)

theorem get? (h : b.Follows name b') (k : Nat) :
    b'.get? k = (b.get? k).map (Instruction.renamed name) := by
  unfold Body.get?
  rw [h.instructions, List.getElem?_map]

theorem inj (h : b.Follows name b') {l l' : Label} (hl : l ∈ b.labels) (hl' : l' ∈ b.labels)
    (he : name l = name l') : l = l' :=
  List.inj_on_of_nodup_map (h.labels ▸ h.numbered.nodup) hl hl' he

/-- The instructions beside one that is renamed have other labels, so only their targets change. -/
theorem redirected_beside (h : b.Follows name b') (hb : b.Sound) {i x : Instruction} {new : Label}
    (hi : b.get? index = some i) (hold : name i.label = i.label) (hne : new ≠ i.label)
    (hx : x ∈ b.instructions.take index ++ b.instructions.drop (index + 1)) :
    (x.renamed name).redirected [i.label] new = x.renamed (Function.update name i.label new) := by
  have hsplit := take_cons_drop hi
  have hxm : x ∈ b.instructions := by
    rw [← hsplit]
    simp only [List.mem_append, List.mem_cons] at hx ⊢
    tauto
  have hnodup := hb.nodup
  rw [Body.labels, ← hsplit, List.map_append, List.map_cons, List.nodup_middle, ← List.map_append,
    List.nodup_cons] at hnodup
  refine Instruction.renamed_redirected hold hne
    (fun _ he => hnodup.1 (he ▸ List.mem_map_of_mem hx)) fun l hl he => ?_
  exact h.inj (hb.target_mem hxm hl) (Body.mem_labels (List.mem_of_getElem? hi)) (he.trans hold.symm)

/-- Exchanging an arithmetic instruction that is left for its transform renames its label. -/
theorem exchange (h : b.Follows name b') (hb : b.Sound) (hj : b'.get? index = some j)
    (ht : j.op.transform? = some t) (hn : b'.next < labelCount) :
    b.Follows (Function.update name j.label b'.nextLabel) (b'.exchange index 1 t) := by
  obtain ⟨i, hi, hij⟩ := Option.map_eq_some_iff.1 ((h.get? index).symm.trans hj)
  rw [← hij] at ht
  obtain ⟨ho, hren, hold⟩ := Instruction.eq_of_renamed_transform? ht
  obtain rfl : i = j := hren.symm.trans hij
  have him : i ∈ b.instructions := List.mem_of_getElem? hi
  have hne : b'.nextLabel ≠ i.label := by
    intro he
    refine h.numbered.nextLabel_notMem hn ?_
    rw [he, h.labels, ← hold]
    exact List.mem_map_of_mem (Body.mem_labels him)
  refine ⟨h.numbered.exchange hn index 1 t, ?_, fun x hx hox => ?_⟩
  · have hcall : i.renamed (Function.update name i.label b'.nextLabel)
        = .transformCall b'.nextLabel t := by
      rw [Instruction.renamed_of_moved (by rwa [Function.update_self]) ho, Function.update_self]
    have hbeside : ∀ x ∈ b.instructions.take index ++ b.instructions.drop (index + 1), _ :=
      fun x hx => h.redirected_beside hb hi hold hne hx
    rw [← take_cons_drop hi, List.map_append, List.map_cons, hcall]
    simp only [Body.exchange, span_one hj, List.map_cons, List.map_nil, h.instructions,
      ← List.map_take, ← List.map_drop, List.map_map]
    exact congrArg₂ _ (List.map_congr_left fun x hx => hbeside x (List.mem_append_left _ hx))
      (congrArg _ (List.map_congr_left fun x hx => hbeside x (List.mem_append_right _ hx)))
  · have hx' : x.label ≠ i.label := by
      intro he
      rw [hb.eq_of_label_eq hx him he, ho] at hox
      cases hox
    rw [Function.update_of_ne hx']
    exact h.fixed x hx hox

end Follows

/-! ### Opcodes that are gone -/

/-- No instruction has this opcode. -/
def Lacks (b : Body) (op : Opcode) : Prop := ∀ i ∈ b.instructions, i.op ≠ op

theorem Exchanges.lacks {n : Nat} {op : Opcode} (h : Exchanges b n b') (hl : b.Lacks op)
    (hop : op ≠ .call) : b'.Lacks op := by
  induction h with
  | none => exact hl
  | next index count t _ _ _ ih =>
    intro i hi
    rcases mem_exchange hi with rfl | ⟨j, hj, rfl⟩
    · exact hop.symm
    · rw [Instruction.redirected_op]
      exact ih j hj

end Body

/-! ### The rules of the set -/

/-- A rule that replaces an opcode wherever it stands. -/
def Rule.replacingAll (name : String) (op : Opcode) (t : Transform) : Rule :=
  { Rule.replacing name op t with occurrence := .all true, reset := true }

namespace Rule

variable {name : String} {op : Opcode} {t : Transform} {b : Body} {sites sites' : List Label}
  {c c' : Cursor}

theorem replacingAll_matchesAt (b : Body) (k : Nat) :
    (replacingAll name op t).pattern.matchesAt b.instructions k
      = (b.get? k).any fun i => i.op = op :=
  Pattern.single_matchesAt name op.name fun i => i.op = op

theorem replacingAll_patched (c : Cursor) : (replacingAll name op t).patched c
    = ⟨c.body.exchange c.index 1 t, c.index + 1, some c.body.nextLabel⟩ := rfl

/-- The search of such a rule stops at the first place with its opcode. -/
theorem Finds.replacingAll {found : Cursor} {site : Instruction}
    (h : (replacingAll name op t).Finds sites c found site) :
    c.body.get? found.index = some site ∧ site.op = op ∧
      ∀ k j, c.index ≤ k → k < found.index → c.body.get? k = some j → j.op ≠ op := by
  have hsite : c.body.get? found.index = some site := by
    rw [← h.body]
    exact h.anchored
  have hfind := (Cursor.seek?_eq_some h.sought).2
  refine ⟨hsite, ?_, fun k j hle hlt hk => ?_⟩
  · have hm := Pattern.findNext_matchesAt hfind
    rw [replacingAll_matchesAt, hsite] at hm
    simpa using hm
  · have hm := (Pattern.findNext_forward_first hfind).2 k hle hlt
    rw [replacingAll_matchesAt, hk] at hm
    simpa using hm

/-- A pass from behind the last place where an opcode has been looked for replaces it up to the end
    of the body. -/
theorem Pass.replacingAll_follows {x : Except BodyError (List Label × Cursor)}
    (h : (replacingAll name op t).Pass sites c x) (hx : x = .ok (sites', c')) (hb : b.Sound)
    (ht : op.transform? = some t) (hc : ∃ f, b.Follows f c.body)
    (hbefore : ∀ k j, k < c.index → c.body.get? k = some j → j.op ≠ op) :
    (∃ f, b.Follows f c'.body) ∧ c'.body.Lacks op := by
  have hop : op ≠ .call := by
    rintro rfl
    cases ht
  induction h with
  | sated hs => cases hs
  | exhausted _ hs =>
    cases hx
    refine ⟨hc, fun j hj => ?_⟩
    obtain ⟨k, hk⟩ : ∃ k, c'.body.get? k = some j := List.mem_iff_getElem?.1 hj
    by_cases hlt : k < c'.index
    · exact hbefore k j hlt hk
    · have hnone := Pattern.findNext_forward_eq_none (Option.map_eq_none_iff.1 hs) k (by omega)
      rw [replacingAll_matchesAt, hk] at hnone
      simpa using hnone
  | siteless _ hs hg =>
    have hm := Pattern.findNext_matchesAt (Cursor.seek?_eq_some hs).2
    rw [Cursor.seek?_body hs, show (replacingAll name op t).pattern.anchor = 0 from rfl,
      Nat.add_zero] at hg
    rw [replacingAll_matchesAt, hg] at hm
    cases hm
  | refused _ _ => cases hx
  | stuck _ _ _ => cases hx
  | last _ _ hr => cases hr
  | @next sites c found site events after next x hf hw hr _ ih =>
    obtain ⟨hsite, rfl, hfirst⟩ := hf.replacingAll
    obtain ⟨f, hfol⟩ := hc
    have hnum : found.body.Numbered := hf.body ▸ hfol.numbered
    obtain ⟨hfit, hn, rfl⟩ := patchWindow_eq_ok hnum hw
    cases hr
    have hlen : found.index ≤ found.body.length := by omega
    rw [replacingAll_patched] at ih
    refine ih hx ⟨_, (hf.body ▸ hfol).exchange hb hf.anchored ht hn⟩ fun k j hk hj => ?_
    rcases Nat.lt_or_eq_of_le (Nat.le_of_lt_succ hk) with hlt | rfl
    · rw [Body.exchange_get?_of_lt hlt hlen] at hj
      obtain ⟨i, hi, rfl⟩ := Option.map_eq_some_iff.1 hj
      rw [hf.body] at hi
      rw [Instruction.redirected_op]
      by_cases hki : k < c.index
      · exact hbefore k i hki hi
      · exact hfirst k i (by omega) hlt hi
    · rw [Body.exchange_get?_self hlen] at hj
      cases hj
      exact hop.symm

end Rule

namespace RuleSet

/-- The rule names of the arithmetic rule set, with what is replaced and by what. -/
def arithmeticTable : List (String × Opcode × Transform) :=
  [("vector addition", .add, .vecAdd), ("vector subtraction", .subtract, .vecSub),
    ("min", .min, .floatMin), ("max", .max, .floatMax), ("sign", .sign, .sign)]

theorem arithmetic_rules (name : String) : (arithmetic name).rules
    = arithmeticTable.map fun (name, op, t) => Rule.replacingAll name op t := rfl

/-- Rules that replace opcodes wherever they stand rename labels and leave none of the opcodes. -/
theorem applyRules_follows {b : Body} (hb : b.Sound) {target : Method} {c' : Cursor} :
    ∀ {table : List (String × Opcode × Transform)} {fresh : Bool} {c : Cursor}
      {outcomes : List RuleOutcome}, (∀ e ∈ table, e.2.1.transform? = some e.2.2) →
      (∃ f, b.Follows f c.body) → (applyRules target fresh
        (table.map fun (name, op, t) => Rule.replacingAll name op t) c).outcome = .ok (outcomes, c') →
      (∃ f, b.Follows f c'.body) ∧ ∀ e ∈ table, c'.body.Lacks e.2.1
  | [], _, _, _, _, hc, h => by
    cases h
    exact ⟨hc, fun e he => (nomatch he)⟩
  | (name, op, t) :: rest, fresh, c, _, ht, hc, h => by
    obtain ⟨sites, after, others, hp, -, hr, -⟩ := applyRules_cons_eq_ok h
    have hentry : entry fresh (Rule.replacingAll name op t) c = c.reset := if_pos (Bool.or_true _)
    rw [hentry] at hp
    have hop := ht (name, op, t) List.mem_cons_self
    obtain ⟨⟨f, hf⟩, hlacks⟩ := hp.replacingAll_follows rfl hb hop hc
      fun k j hk _ => absurd hk (Nat.not_lt_zero k)
    obtain ⟨hlast, hrest⟩ := applyRules_follows hb
      (fun e he => ht e (List.mem_cons_of_mem _ he)) ⟨f, hf⟩ hr
    have hex := applyRules_exchanges hf.numbered hr
    refine ⟨hlast, fun e he => ?_⟩
    rcases List.mem_cons.1 he with rfl | he
    · exact hex.lacks hlacks (by rintro rfl; cases hop)
    · exact hrest e he

end RuleSet

namespace Engine

/-- A valid body patched with the arithmetic rule set: there is a renaming under which the result is
    the given body, and it moves every arithmetic instruction. -/
theorem patch_follows {engine : Engine} {target : Method} {name : String} {b p : Body}
    {report : Report} (hb : b.Sound)
    (h : (engine.patch target (RuleSet.arithmetic name) b).outcome = .ok (p, report)) :
    ∃ f, b.Follows f p ∧ ∀ i ∈ b.instructions, i.op.transform?.isSome → f i.label ≠ i.label := by
  obtain ⟨outcomes, c, hr, -, rfl, -⟩ := patch_eq_ok h
  rw [RuleSet.arithmetic_rules] at hr
  obtain ⟨⟨f, hf⟩, hlacks⟩ :=
    RuleSet.applyRules_follows hb (by decide) ⟨id, hb.toNumbered.follows⟩ hr
  refine ⟨f, hf, fun i hi ho hfix => ?_⟩
  obtain ⟨t, ht⟩ := Option.isSome_iff_exists.1 ho
  have hi' : i ∈ c.body.instructions := by
    rw [hf.instructions, ← Instruction.renamed_of_kept hfix ht]
    exact List.mem_map_of_mem hi
  have hmem : ∀ op : Opcode, op.transform?.isSome → ∃ e ∈ RuleSet.arithmeticTable, e.2.1 = op := by
    intro op hop
    cases op <;> simp [RuleSet.arithmeticTable, Opcode.transform?] at hop ⊢
  obtain ⟨e, he, heo⟩ := hmem i.op ho
  exact hlacks e he i hi' heo.symm

end Engine

end Inversion
