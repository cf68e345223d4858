import Inversion.Proofs.Search
import Inversion.Proofs.Exchange

/-!
Predicates that look at one instruction alone, and at no label of it. Such a window matches wherever
instructions stand that agree in opcode, callee and constant, so it does not matter where branches
lead. If besides no predicate accepts the calls that are put in, a match in an exchanged body is a
match of the body before, in front of the call or behind it.
-/

namespace Inversion

/-! ### What predicates see -/

/-- What there is to an instruction apart from labels. -/
def Instruction.gist (i : Instruction) : Opcode × Option Callee × Option Value :=
  (i.op, i.callee?, i.constant?)

namespace Instruction

@[simp] theorem gist_retargeted (i : Instruction) (l : Label) : (i.retargeted l).gist = i.gist := by
  have hcallee : (i.retargeted l).callee? = i.callee? :=
    congrArg (fun c => if i.op = .call then c else none)
      (findSome?_retargeted (f := Operand.callee?) (fun _ => rfl) l i.operands)
  have hconstant : (i.retargeted l).constant? = i.constant? :=
    congrArg (fun c => if i.op = .loadConstant then c else none)
      (findSome?_retargeted (f := Operand.value?) (fun _ => rfl) l i.operands)
  unfold gist
  rw [hcallee, hconstant]
  rfl

@[simp] theorem gist_redirected (old : List Label) (new : Label) (i : Instruction) :
    (i.redirected old new).gist = i.gist := by
  unfold redirected
  split
  · exact gist_retargeted i new
  · rfl

end Instruction

namespace Predicate

/-- The predicates on the instruction alone, and what is made of them. -/
inductive Plain : Predicate → Prop where
  | any : Plain .any
  | op (opcode : Opcode) : Plain (.op opcode)
  | branch : Plain .branch
  | rewritable : Plain .rewritable
  | callTo (name : String) : Plain (.callTo name)
  | callTransform (t : Transform) : Plain (.callTransform t)
  | constantWhere (name : String) (test : Value → Bool) : Plain (.constantWhere name test)
  | and {p q : Predicate} : Plain p → Plain q → Plain (.and p q)
  | or {p q : Predicate} : Plain p → Plain q → Plain (.or p q)
  | not {p : Predicate} : Plain p → Plain (.not p)

theorem Plain.constant (v : Value) : Plain (.constant v) := .constantWhere _ _

theorem Plain.unitY : Plain .unitY := .constantWhere _ _

/-- A plain predicate gives the same answer for instructions that differ in labels only. -/
theorem Plain.test_congr {p : Predicate} (h : p.Plain) {s s' : Site}
    (hs : s.instruction.gist = s'.instruction.gist) : p.test s = p.test s' := by
  have hop : s.instruction.op = s'.instruction.op := congrArg Prod.fst hs
  have hcallee : s.instruction.callee? = s'.instruction.callee? := congrArg (·.2.1) hs
  have hconstant : s.instruction.constant? = s'.instruction.constant? := congrArg (·.2.2) hs
  induction h with
  | any => rfl
  | op opcode =>
    show decide (s.instruction.op = opcode) = decide (s'.instruction.op = opcode)
    rw [hop]
  | branch =>
    show decide (s.instruction.op = .branch) = decide (s'.instruction.op = .branch)
    rw [hop]
  | rewritable =>
    show s.instruction.op.isArithmetic = s'.instruction.op.isArithmetic
    rw [hop]
  | callTo name => simp only [Predicate.callTo, ofInstruction, hcallee]
  | callTransform t => simp only [Predicate.callTransform, ofInstruction, hcallee]
  | constantWhere name test => simp only [Predicate.constantWhere, ofInstruction, hconstant]
  | and _ _ ihp ihq => simp only [Predicate.and, ihp, ihq]
  | or _ _ ihp ihq => simp only [Predicate.or, ihp, ihq]
  | not _ ih => simp only [Predicate.not, ih]

end Predicate

namespace Pattern

variable {p : Pattern} {is js : List Instruction} {i j : Nat} {t : Transform}

/-- A pattern of predicates on the instruction alone. -/
def Plain (p : Pattern) : Prop := ∀ q ∈ p.predicates, q.Plain

/-- A pattern none of whose predicates accepts a call of a transform. -/
def Shuns (p : Pattern) (t : Transform) : Prop :=
  ∀ q ∈ p.predicates, ∀ s : Site, s.instruction.callee? = some (.transform t) → q.test s = false

/-- A window of opcodes is plain. -/
theorem plain_of_ops (name : String) (ops : List Opcode) :
    (window name (ops.map Predicate.op)).Plain := by
  intro q hq
  obtain ⟨opcode, -, rfl⟩ := List.mem_map.1 hq
  exact .op opcode

/-- A window of opcodes without calls shuns every transform. -/
theorem shuns_of_ops (name : String) (ops : List Opcode) (hops : .call ∉ ops) (t : Transform) :
    (window name (ops.map Predicate.op)).Shuns t := by
  intro q hq s hs
  obtain ⟨opcode, hop, rfl⟩ := List.mem_map.1 hq
  have hcall : s.instruction.op = .call := by
    unfold Instruction.callee? at hs
    split at hs
    · assumption
    · cases hs
  refine decide_eq_false fun he => hops ?_
  rwa [← hcall, he]

/-! ### Windows of plain predicates -/

theorem at?_any_congr {q : Predicate} (hq : q.Plain)
    (h : is[i]?.map Instruction.gist = js[j]?.map Instruction.gist) :
    (Site.at? is i).any q.test = (Site.at? js j).any q.test := by
  unfold Site.at?
  by_cases hi : i < is.length
  · by_cases hj : j < js.length
    · rw [List.getElem?_eq_getElem hi, List.getElem?_eq_getElem hj] at h
      rw [dif_pos hi, dif_pos hj]
      exact hq.test_congr (Option.some.inj h)
    · rw [List.getElem?_eq_getElem hi, List.getElem?_eq_none (by omega)] at h
      cases h
  · by_cases hj : j < js.length
    · rw [List.getElem?_eq_none (by omega), List.getElem?_eq_getElem hj] at h
      cases h
    · rw [dif_neg hi, dif_neg hj]

theorem passesFrom_congr : ∀ {ps : List Predicate} {i j : Nat}, (∀ q ∈ ps, q.Plain) →
    (∀ k < ps.length, is[i + k]?.map Instruction.gist = js[j + k]?.map Instruction.gist) →
    passesFrom is i ps = passesFrom js j ps
  | [], _, _, _, _ => rfl
  | q :: rest, i, j, hp, h => by
    have hfirst := at?_any_congr (i := i) (j := j) (hp q List.mem_cons_self) (h 0 (Nat.succ_pos _))
    have hrest := passesFrom_congr (i := i + 1) (j := j + 1)
      (fun r hr => hp r (List.mem_cons_of_mem q hr)) fun k hk => by
        have hnext := h (k + 1) (Nat.succ_lt_succ hk)
        rwa [← Nat.add_assoc, ← Nat.add_assoc, Nat.add_right_comm i, Nat.add_right_comm j] at hnext
    rw [passesFrom, passesFrom, hfirst, hrest]

/-- Whether a plain window matches depends on the instructions in it alone, labels aside. -/
theorem Plain.matchesAt_congr (hp : p.Plain)
    (h : ∀ k < p.length, is[i + k]?.map Instruction.gist = js[j + k]?.map Instruction.gist) :
    p.matchesAt is i = p.matchesAt js j := by
  rcases Nat.eq_zero_or_pos p.length with hempty | hpos
  · have hnil : p.predicates = [] := List.length_eq_zero_iff.1 hempty
    simp [matchesAt, hnil]
  · have hlast : is[i + (p.length - 1)]? = none ↔ js[j + (p.length - 1)]? = none := by
      rw [← Option.map_eq_none_iff (f := Instruction.gist), h (p.length - 1) (by omega),
        Option.map_eq_none_iff]
    rw [List.getElem?_eq_none_iff, List.getElem?_eq_none_iff] at hlast
    have hfits : decide (i + p.length ≤ is.length) = decide (j + p.length ≤ js.length) := by
      rw [decide_eq_decide]
      omega
    rw [matchesAt, matchesAt, hfits, passesFrom_congr hp h]

theorem passesFrom_test : ∀ {ps : List Predicate} {i k : Nat}, passesFrom is i ps = true →
    k < ps.length → ∃ q ∈ ps, ∃ s : Site, s.instructions = is ∧ s.index = i + k ∧ q.test s = true
  | q :: rest, i, k, h, hk => by
    rw [passesFrom, Bool.and_eq_true, Option.any_eq_true] at h
    obtain ⟨⟨s, hs, hq⟩, hrest⟩ := h
    cases k with
    | zero =>
      unfold Site.at? at hs
      split at hs
      · cases hs
        exact ⟨q, List.mem_cons_self, _, rfl, rfl, hq⟩
      · cases hs
    | succ k =>
      obtain ⟨r, hr, s', his, hindex, htest⟩ := passesFrom_test hrest (Nat.lt_of_succ_lt_succ hk)
      exact ⟨r, List.mem_cons_of_mem q hr, s', his, by omega, htest⟩

/-- No window of a pattern that shuns a transform holds a call of it. -/
theorem Shuns.notMem_window (hp : p.Shuns t) (h : p.matchesAt is i = true) {k : Nat}
    (hk : k < p.length) {l : Label} : is[i + k]? ≠ some (.transformCall l t) := by
  intro hcall
  unfold matchesAt at h
  rw [Bool.and_eq_true] at h
  obtain ⟨q, hq, s, rfl, hindex, htest⟩ := passesFrom_test h.2 hk
  have hat : s.instruction = .transformCall l t := by
    rw [← hindex, List.getElem?_eq_getElem s.inside] at hcall
    exact Option.some.inj hcall
  rw [hp q hq s (by rw [hat]; rfl)] at htest
  cases htest

/-! ### Windows of an exchanged body -/

/-- Behind the call the instructions follow that stood behind the span. -/
theorem exchange_gist_of_gt {b : Body} {index count k : Nat} (hi : index ≤ b.length)
    (hk : index < k) : (b.exchange index count t).instructions[k]?.map Instruction.gist
      = b.instructions[k + count - 1]?.map Instruction.gist := by
  have hfront : ((b.instructions.take index).map (Instruction.redirected
      ((b.span index count).map (·.label)) b.nextLabel)).length = index := by
    rw [List.length_map]
    exact List.length_take_of_le hi
  obtain ⟨m, rfl⟩ := Nat.exists_eq_add_of_lt hk
  unfold Body.exchange
  rw [List.getElem?_append_right (by omega), hfront, Nat.add_assoc, Nat.add_sub_cancel_left,
    List.getElem?_cons_succ, List.getElem?_map, List.getElem?_drop, Option.map_map,
    show index + (m + 1) + count - 1 = index + count + m by omega]
  exact Option.map_congr fun i _ => Instruction.gist_redirected _ _ i

theorem exchange_gist_of_lt {b : Body} {index count k : Nat} (hi : index ≤ b.length)
    (hk : k < index) : (b.exchange index count t).instructions[k]?.map Instruction.gist
      = b.instructions[k]?.map Instruction.gist := by
  have hat : (b.exchange index count t).instructions[k]? = b.instructions[k]?.map _ :=
    Body.exchange_get?_of_lt hk hi
  rw [hat, Option.map_map]
  exact Option.map_congr fun i _ => Instruction.gist_redirected _ _ i

/-- A window that shuns the call of an exchange lies in front of it or behind it. -/
theorem Shuns.matchesAt_exchange (hp : p.Plain) (ht : p.Shuns t) {b : Body} {index count : Nat}
    (hi : index ≤ b.length) (h : p.matchesAt (b.exchange index count t).instructions j = true) :
    (j + p.length ≤ index ∧ p.matchesAt b.instructions j = true) ∨
      (index < j ∧ p.matchesAt b.instructions (j + count - 1) = true) := by
  have hcall : (b.exchange index count t).instructions[index]?
      = some (.transformCall b.nextLabel t) := Body.exchange_get?_self hi
  rcases Nat.lt_or_ge index j with hbehind | hfront
  · refine Or.inr ⟨hbehind, ?_⟩
    rw [← h]
    refine hp.matchesAt_congr fun k _ => ?_
    rw [exchange_gist_of_gt hi (by omega), show j + k + count - 1 = j + count - 1 + k by omega]
  · have hclear : j + p.length ≤ index := by
      by_contra hover
      have hnot := ht.notMem_window h (k := index - j) (l := b.nextLabel) (by omega)
      rw [show j + (index - j) = index by omega] at hnot
      exact hnot hcall
    refine Or.inl ⟨hclear, ?_⟩
    rw [← h]
    refine hp.matchesAt_congr fun k hk => ?_
    rw [exchange_gist_of_lt hi (by omega)]

end Pattern

end Inversion
