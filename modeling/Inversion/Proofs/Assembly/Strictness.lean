import Inversion.Proofs.Assembly.Grammar

/-!
How strict the reader of assembly text is. A line without any token beyond its operand text is strict.
The reader takes all strict lines, and of the others those that call a method without a result and have
something behind the word `void`: it reads them as if that were not there.
-/

namespace Inversion

namespace Assembly

open Text Mnemonic

/-- A line with nothing behind its operand text. -/
def Strict (line : List Char) (i : Instruction) : Prop := Line (· = []) line i

/-- Whether a method is called that returns nothing. -/
def CallsVoid (i : Instruction) : Prop := ∃ name n, i.operands = [.callee (.method name n false)]

/-- A strict line of a call without a result, with something behind it. -/
def StrayBehindVoid (line : List Char) (i : Instruction) : Prop :=
  CallsVoid i ∧ ∃ strict gap stray, Strict strict i ∧ Gap gap ∧ line = strict ++ gap ++ stray

/-! ### Lines -/

theorem OperandText.mono {S T : List Char → Prop} (hST : ∀ tail, S tail → T tail) {shape : Shape}
    {operand : List Char} {ops : List Operand} (h : OperandText S shape operand ops) :
    OperandText T shape operand ops := by
  cases h with
  | plain => exact .plain
  | constant h => exact .constant h
  | branch h => exact .branch h
  | transform t => exact .transform t
  | slot h => exact .slot h
  | method hname hgap harity => exact .method hname hgap harity
  | void hname hgap harity hgap' htail => exact .void hname hgap harity hgap' (hST _ htail)

theorem Line.mono {S T : List Char → Prop} (hST : ∀ tail, S tail → T tail) {line : List Char}
    {i : Instruction} (h : Line S line i) : Line T line i := by
  obtain ⟨hid, hbefore, hshape, hoperand, hgap, hnil, hafter⟩ := h
  exact .mk hid hbefore hshape (hoperand.mono hST) hgap hnil hafter

theorem Strict.line {line : List Char} {i : Instruction} (h : Strict line i) : Line Apart line i :=
  h.mono fun tail htail => by rw [htail]; trivial

theorem OperandText.strict_or_void {shape : Shape} {operand : List Char} {ops : List Operand}
    (h : OperandText Apart shape operand ops) : OperandText (· = []) shape operand ops ∨
      (∃ name n, ops = [.callee (.method name n false)]) ∧ ∃ core tail,
        OperandText (· = []) shape core ops ∧ Apart tail ∧ operand = core ++ tail := by
  cases h with
  | plain => exact .inl .plain
  | constant h => exact .inl (.constant h)
  | branch h => exact .inl (.branch h)
  | transform t => exact .inl (.transform t)
  | slot h => exact .inl (.slot h)
  | method hname hgap harity => exact .inl (.method hname hgap harity)
  | void hname hgap harity hgap' htail =>
    refine .inr ⟨⟨_, _, rfl⟩, _, _, .void hname hgap harity hgap' rfl, htail, ?_⟩
    rw [List.append_nil]

theorem OperandText.extend {shape : Shape} {operand : List Char} {name : String} {n : UInt8}
    (h : OperandText (· = []) shape operand [.callee (.method name n false)]) {tail : List Char}
    (htail : Apart tail) :
    operand ≠ [] ∧ OperandText Apart shape (operand ++ tail) [.callee (.method name n false)] := by
  cases h with
  | void hname hgap harity hgap' hnil =>
    subst hnil
    rw [List.append_nil]
    exact ⟨by simp, .void hname hgap harity hgap' htail⟩

/-- The lines that are read: the strict ones, and those with something behind `void`. -/
theorem line_iff {line : List Char} {i : Instruction} :
    Line Apart line i ↔ Strict line i ∨ StrayBehindVoid line i := by
  constructor
  · rintro @⟨id, before, mnemonic, gap, operand, after, l, shape, ops, hid, hbefore, hshape, hoperand,
      hgap, hnil, a, b, ha, hb, rfl⟩
    rcases hoperand.strict_or_void with hstrict | ⟨hvoid, core, tail, hcore, htail, rfl⟩
    · exact .inl (.mk hid hbefore hshape hstrict hgap hnil ⟨a, b, ha, hb, rfl⟩)
    · have hnil' : gap = [] → core = [] := fun h => (List.append_eq_nil_iff.1 (hnil h)).1
      have hline : Strict (before ++ ':' :: (a ++ (mnemonic ++ gap ++ core) ++ []))
          ⟨l, shape.opcode, ops⟩ :=
        .mk hid hbefore hshape hcore hgap hnil' ⟨a, [], ha, Blank.nil, rfl⟩
      cases tail with
      | nil =>
        rw [List.append_nil]
        exact .inl (.mk hid hbefore hshape hcore hgap hnil' ⟨a, b, ha, hb, rfl⟩)
      | cons c tail =>
        have hc : isBlank c = true := htail
        refine .inr ⟨hvoid, _, [c], tail ++ b, hline, ⟨List.cons_ne_nil _ _, ?_⟩, ?_⟩
        · simpa [Blank] using hc
        · simp
  · rintro (h | ⟨⟨name, n, hvoid⟩, strict, gap', stray, h, ⟨hne, hblank⟩, rfl⟩)
    · exact h.line
    · obtain @⟨id, before, mnemonic, gap, operand, after, l, shape, ops, hid, hbefore, hshape,
        hoperand, hgap, hnil, a, b, ha, hb, rfl⟩ := h
      obtain rfl : ops = _ := hvoid
      have hapart : Apart ((b ++ gap') ++ stray) :=
        Gap.apart ⟨by simp [hne], hb.append hblank⟩ stray
      obtain ⟨hoperand, hextended⟩ := hoperand.extend hapart
      have h := Line.mk hid hbefore hshape hextended hgap (fun hempty => absurd (hnil hempty) hoperand)
        ⟨a, [], ha, Blank.nil, rfl⟩
      simpa using h

/-! ### Words of a line -/

/-- What the words behind the colon of a line are. -/
theorem Line.words {Tail : List Char → Prop} {line : List Char} {i : Instruction}
    (h : Line Tail line i) : ∃ before after mnemonic shape operand,
      cutAt? (· == ':') line = some (before, after) ∧
        Text.words after = mnemonic :: Text.words operand ∧
        shape? (String.ofList mnemonic) = some shape ∧ OperandText Tail shape operand i.operands := by
  obtain @⟨id, before, mnemonic, gap, operand, after, l, shape, ops, hid, hbefore, hshape, hoperand,
    hgap, hnil, hafter⟩ := h
  refine ⟨before, after, mnemonic, shape, operand, cutAt?_append after (no_colon hid hbefore) rfl, ?_,
    hshape, hoperand⟩
  have hapart : Apart (gap ++ operand) := by
    by_cases hempty : gap = []
    · rw [hempty, hnil hempty]
      trivial
    · exact Gap.apart ⟨hempty, hgap⟩ operand
  rw [words_around hafter, List.append_assoc, words_append hapart, (shape?_word hshape).words,
    words_blank_append hgap]
  rfl

theorem words_length_of_methodCall {operand : List Char} {ops : List Operand}
    (h : OperandText (· = []) .methodCall operand ops) : (words operand).length ≤ 3 := by
  have hend : Apart [] := trivial
  cases h with
  | method hname hgap harity =>
    have hwords := words_method hname hgap harity hend
    rw [List.append_nil] at hwords
    rw [hwords]
    exact Nat.le_succ 2
  | void hname hgap harity hgap' hnil =>
    subst hnil
    rw [words_void hname hgap harity hgap' hend]
    exact Nat.le_refl 3

end Assembly

namespace Body

open Assembly

/-- Exactly the texts that are read: at least one line holds anything, every such line is strict or has
    something behind `void`, and no label is repeated. -/
theorem parse_eq_ok_iff_strict (text : String) (b : Body) :
    Body.parse text = .ok b ↔
      List.Forall₂ (fun line i => Strict line i ∨ StrayBehindVoid line i)
          (contents (Text.lines text.toList)) b.instructions ∧
        b.instructions ≠ [] ∧ b.labels.Nodup ∧ b.next = nextAfter b.instructions := by
  have hlines : (fun line i => Strict line i ∨ StrayBehindVoid line i) = Line Text.Apart := by
    funext line i
    exact propext line_iff.symm
  rw [hlines, parse_eq_ok]

/-- A word behind `void` is passed over: the line is read, though it is not strict. -/
theorem parse_stray_word :
    Body.parse "0000: call f 1 void junk\n" =
        .ok ⟨[⟨⟨0⟩, .call, [.callee (.method "f" 1 false)]⟩], 1⟩ ∧
      "0000: call f 1 void junk".toList ∈ contents (Text.lines "0000: call f 1 void junk\n".toList) ∧
      ∀ i, ¬ Strict "0000: call f 1 void junk".toList i := by
  refine ⟨by decide, by decide, ?_⟩
  rintro i h
  obtain ⟨before, after, mnemonic, shape, operand, hcut, hwords, hshape, hoperand⟩ := h.words
  obtain ⟨-, rfl⟩ : "0000".toList = before ∧ " call f 1 void junk".toList = after :=
    Prod.mk.inj (Option.some.inj hcut)
  obtain ⟨rfl, hfour⟩ := List.cons.inj hwords
  obtain rfl : Mnemonic.Shape.methodCall = shape := Option.some.inj hshape
  have hlength := words_length_of_methodCall hoperand
  rw [← hfour] at hlength
  exact absurd hlength (by decide)

end Body

end Inversion
