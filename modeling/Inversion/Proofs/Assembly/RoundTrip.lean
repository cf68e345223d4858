import Inversion.Assembly.Printer
import Inversion.Proofs.Assembly.Grammar

/-!
Writing a body as assembly text and reading it back. The text form of an opcode fixes its operands: a
body whose instructions have exactly these is read back as it was, and nothing else can come out of
reading. Values that hold what is not a number are written and read like all others, but no value that
holds one is the same as itself.
-/

namespace Inversion

/-! ### Instructions of the text form -/

/-- Holds what is not a number. -/
def Value.HoldsNaN : Value → Prop
  | .float x => x = .nan
  | .vector v => v.x = .nan ∨ v.y = .nan
  | .int _ | .bool _ => False

/-- The constants of an instruction hold what is not a number. -/
def Instruction.HoldsNaN (i : Instruction) : Prop := ∃ v, .value v ∈ i.operands ∧ v.HoldsNaN

/-- A callee that can be written: the name of a method is one word without a hash. -/
def Callee.Nameable : Callee → Prop
  | .method name _ _ => Text.Word name.toList ∧ '#' ∉ name.toList
  | .transform _ => True

/-- Exactly the operands of an opcode's text form. -/
inductive Opcode.Takes : Opcode → List Operand → Prop where
  | arithmetic {op : Opcode} : op.isArithmetic = true → Takes op []
  | constant (v : Value) : Takes .loadConstant [.value v]
  | branch (c : Condition) (l : Label) : Takes .branch [.condition c, .target l]
  | call {c : Callee} : c.Nameable → Takes .call [.callee c]
  | slot {op : StackOp} (n : UInt16) : op.takesSlot = true → Takes (.other op) [.slot n]
  | host {op : StackOp} : op.takesSlot = false → Takes (.other op) []

/-- Has exactly the operands of its opcode's text form. -/
def Instruction.Formed (i : Instruction) : Prop := i.op.Takes i.operands

/-! ### Sameness -/

theorem Single.same_self_iff (x : Single) : x.same x = true ↔ x ≠ .nan := by
  cases x <;> simp [Single.same, Single.place?]

theorem Single.ne_nan_of_same {x y : Single} (h : x.same y = true) : y ≠ .nan := by
  rintro rfl
  cases x <;> cases h

namespace Value

theorem same_self_iff (v : Value) : v.same v = true ↔ ¬ v.HoldsNaN := by
  cases v with
  | int i => simp [same, HoldsNaN]
  | float x => exact x.same_self_iff
  | vector v => simp [same, Vec2.same, HoldsNaN, Single.same_self_iff]
  | bool b => simp [same, HoldsNaN]

theorem not_holdsNaN_of_same {v w : Value} (h : v.same w = true) : ¬ w.HoldsNaN := by
  cases w with
  | int i => exact id
  | bool b => exact id
  | float y =>
    cases v with
    | float x => exact Single.ne_nan_of_same h
    | _ => cases h
  | vector y =>
    cases v with
    | vector x =>
      obtain ⟨hx, hy⟩ := Bool.and_eq_true_iff.1 h
      exact not_or.2 ⟨Single.ne_nan_of_same hx, Single.ne_nan_of_same hy⟩
    | _ => cases h

end Value

namespace Operand

theorem same_value {v : Value} {b : Operand} (h : (value v).same b = true) :
    ∃ w, b = value w ∧ v.same w = true := by
  cases b with
  | value w => exact ⟨w, rfl, h⟩
  | _ => cases h

theorem eq_of_same {a b : Operand} (ha : a.value? = none) (h : a.same b = true) : a = b := by
  cases a with
  | value v => cases ha
  | _ => exact beq_iff_eq.1 h

end Operand

theorem Opcode.Takes.of_same {op : Opcode} {as bs : List Operand} (h : op.Takes as)
    (hsame : List.Forall₂ (fun a b => a.same b = true) as bs) : op.Takes bs := by
  cases h with
  | arithmetic hop =>
    rcases hsame with _ | _
    exact .arithmetic hop
  | constant v =>
    rcases hsame with _ | ⟨hv, _ | _⟩
    obtain ⟨w, rfl, -⟩ := Operand.same_value hv
    exact .constant w
  | branch c l =>
    rcases hsame with _ | ⟨hc, _ | ⟨hl, _ | _⟩⟩
    rw [← Operand.eq_of_same rfl hc, ← Operand.eq_of_same rfl hl]
    exact .branch c l
  | call hname =>
    rcases hsame with _ | ⟨hc, _ | _⟩
    rw [← Operand.eq_of_same rfl hc]
    exact .call hname
  | slot n hop =>
    rcases hsame with _ | ⟨hn, _ | _⟩
    rw [← Operand.eq_of_same rfl hn]
    exact .slot n hop
  | host hop =>
    rcases hsame with _ | _
    exact .host hop

namespace Instruction

theorem sameOperands_iff {as bs : List Operand} :
    sameOperands as bs = true ↔ List.Forall₂ (fun a b => a.same b = true) as bs := by
  induction as generalizing bs with
  | nil => cases bs <;> simp [sameOperands]
  | cons a as ih => cases bs <;> simp [sameOperands, ih]

theorem same_iff {i j : Instruction} : i.same j = true ↔ i.label = j.label ∧ i.op = j.op ∧
    List.Forall₂ (fun a b => a.same b = true) i.operands j.operands := by
  simp [same, sameOperands_iff, and_assoc]

theorem same_self {i : Instruction} (h : ¬ i.HoldsNaN) : i.same i = true := by
  refine same_iff.2 ⟨rfl, rfl, List.forall₂_same.2 fun a ha => ?_⟩
  cases a with
  | value v => exact v.same_self_iff.2 fun hv => h ⟨v, ha, hv⟩
  | _ => exact beq_self_eq_true _

/-- What is the same as something holds nothing but numbers. -/
theorem not_holdsNaN_of_same {i j : Instruction} (h : i.same j = true) : ¬ j.HoldsNaN := by
  obtain ⟨-, -, hoperands⟩ := same_iff.1 h
  rintro ⟨w, hw, hnan⟩
  generalize i.operands = as at hoperands
  generalize j.operands = bs at hoperands hw
  induction hoperands with
  | nil => cases hw
  | @cons a b _ _ hab _ ih =>
    rcases List.mem_cons.1 hw with rfl | hw
    · cases a with
      | value v => exact Value.not_holdsNaN_of_same hab hnan
      | _ => cases hab
    · exact ih hw

theorem Formed.of_same {i j : Instruction} (hi : i.Formed) (h : i.same j = true) : j.Formed := by
  obtain ⟨-, hop, hoperands⟩ := same_iff.1 h
  have hj := Opcode.Takes.of_same hi hoperands
  rwa [hop] at hj

end Instruction

theorem Body.same_iff {a b : Body} :
    a.same b = true ↔ List.Forall₂ (fun i j => i.same j = true) a.instructions b.instructions := by
  unfold Body.same
  generalize a.instructions = is
  generalize b.instructions = js
  induction is generalizing js with
  | nil => cases js <;> simp [Body.same.go]
  | cons i is ih => cases js <;> simp [Body.same.go, ih]

namespace Assembly

open Text Mnemonic

/-! ### What is read -/

/-- Whether a shape without operands, or with a slot, goes with an opcode that has it so. -/
def regular : Shape → Bool
  | .plain (.other op) => !op.takesSlot
  | .plain op => op.isArithmetic
  | .slot op => op.takesSlot
  | _ => true

theorem regular_of_shape? {mnemonic : String} {shape : Shape} (h : shape? mnemonic = some shape) :
    regular shape = true := by
  have hall : ∀ entry ∈ table, regular entry.2 = true := by decide
  obtain ⟨front, back, htable, -⟩ := List.lookup_eq_some_iff.1 h
  exact hall (mnemonic, shape) (by rw [htable]; simp)

/-- A line without a hash is read as an instruction of the text form. -/
theorem Line.formed {Tail : List Char → Prop} {line : List Char} {i : Instruction}
    (h : Line Tail line i) (hhash : '#' ∉ line) : i.Formed := by
  obtain @⟨id, before, mnemonic, gap, operand, after, l, shape, ops, -, -, hshape, hoperand, -, -,
    a, b, -, -, rfl⟩ := h
  have hregular := regular_of_shape? hshape
  have hname {name : List Char} (hword : Word name) (hmem : name ⊆ operand) (n : UInt8) (r : Bool) :
      (Callee.method (String.ofList name) n r).Nameable := by
    refine ⟨by rwa [String.toList_ofList], ?_⟩
    rw [String.toList_ofList]
    intro hin
    exact hhash (by simp [hmem hin])
  unfold Instruction.Formed
  cases hoperand with
  | @plain op =>
    cases op with
    | other op => exact .host (by simpa [regular] using hregular)
    | _ => exact .arithmetic hregular
  | constant _ => exact .constant _
  | branch _ => exact .branch _ _
  | transform t => exact .call trivial
  | slot _ => exact .slot _ hregular
  | method hword _ _ => exact .call (hname hword (by simp) _ _)
  | void hword _ _ _ _ => exact .call (hname hword (by simp) _ _)

theorem hash_not_mem_of_mem_contents {raws : List (List Char)} {line : List Char}
    (h : line ∈ contents raws) : '#' ∉ line := by
  obtain ⟨raw, -, rfl⟩ := List.mem_map.1 (List.mem_filter.1 h).1
  intro hmem
  obtain ⟨a, b, -, -, hraw⟩ := around_trim (raw.takeWhile (· ≠ '#'))
  have hin : '#' ∈ raw.takeWhile (· ≠ '#') := by
    rw [hraw]
    exact List.mem_append_left _ (List.mem_append_right _ hmem)
  simpa using List.mem_takeWhile_imp hin

end Assembly

theorem Body.formed_of_parse {text : String} {b : Body} (h : Body.parse text = .ok b) :
    ∀ i ∈ b.instructions, i.Formed := by
  obtain ⟨hlines, -⟩ := parse_eq_ok.1 h
  have hhash : ∀ line ∈ Assembly.contents (Text.lines text.toList), '#' ∉ line := fun line hline =>
    Assembly.hash_not_mem_of_mem_contents hline
  generalize Assembly.contents (Text.lines text.toList) = ls at hlines hhash
  generalize b.instructions = is at hlines ⊢
  induction hlines with
  | nil => exact nofun
  | cons hline _ ih =>
    obtain ⟨hfirst, hrest⟩ := List.forall_mem_cons.1 hhash
    exact List.forall_mem_cons.2 ⟨hline.formed hfirst, ih hrest⟩

/-! ### What is written -/

namespace Assembly

open Text Mnemonic

/-- Neither a hash nor a line feed. -/
def Clean (cs : List Char) : Prop := ∀ c ∈ cs, c ≠ '#' ∧ c ≠ '\n'

instance (cs : List Char) : Decidable (Clean cs) :=
  List.decidableBAll (fun c => c ≠ '#' ∧ c ≠ '\n') cs

theorem Clean.append {a b : List Char} (ha : Clean a) (hb : Clean b) : Clean (a ++ b) :=
  List.forall_mem_append.2 ⟨ha, hb⟩

theorem Clean.of_word {w : List Char} (hw : Word w) (hhash : '#' ∉ w) : Clean w := by
  rintro c hc
  refine ⟨fun h => hhash (h ▸ hc), ?_⟩
  rintro rfl
  exact absurd (hw.2 _ hc) (by decide)

theorem clean_of_literalChar {cs : List Char} (h : ∀ c ∈ cs, Single.isLiteralChar c = true) :
    Clean cs := by
  rintro c hc
  exact ⟨Single.ne_of_isLiteralChar (h c hc) (by decide),
    Single.ne_of_isLiteralChar (h c hc) (by decide)⟩

theorem clean_natural {cs : List Char} {n : Nat} (h : Natural cs n) : Clean cs :=
  clean_of_literalChar (Single.integer_chars (.inl ⟨n, h, rfl⟩))

theorem clean_value (v : Value) : Clean v.text := by
  have hfloat (x : Single) : Clean x.display := clean_of_literalChar (x.textIn_literal _).chars
  cases v with
  | int i => exact clean_of_literalChar (Single.integer_chars (Value.intText_integer i))
  | float x => exact hfloat x
  | vector v =>
    have hopen : Clean ['('] := by decide
    have hcomma : Clean [',', ' '] := by decide
    have hclose : Clean [')'] := by decide
    have h := hopen.append ((hfloat v.x).append (hcomma.append ((hfloat v.y).append hclose)))
    simpa [Value.text, Vec2.text] using h
  | bool b => cases b <;> decide

/-- What is written behind the label: a mnemonic, and behind a space an operand text if the shape of
    the mnemonic asks for one. -/
structure Shown (i : Instruction) (mnemonic gap operand : List Char) (shape : Shape) : Prop where
  operation : i.operation = mnemonic ++ gap ++ operand
  known : shape? (String.ofList mnemonic) = some shape
  opcode : shape.opcode = i.op
  operands : OperandText Apart shape operand i.operands
  spaced : gap = [] ∧ operand = [] ∨ gap = [' '] ∧ operand ≠ []
  tight : Tight operand
  clean : Clean operand

theorem shape?_stackOp (op : StackOp) : shape? op.mnemonic =
    some (if op.takesSlot then .slot op else .plain (.other op)) := by
  cases op <;> rfl

theorem natural_digitsOf (n : Nat) : Natural (digitsOf n) n := .inl (digits_digitsOf n)

theorem text_method (name : String) (arity : UInt8) (returns : Bool) :
    (Callee.method name arity returns).text = "call".toList ++ [' '] ++
      (name.toList ++ [' '] ++ digitsOf arity.toNat ++ if returns then [] else " void".toList) := by
  have hcall : "call ".toList = "call".toList ++ [' '] := rfl
  unfold Callee.text
  simp only [hcall, List.append_assoc, List.cons_append, List.nil_append]

/-- An instruction of the text form that calls a method. -/
theorem shown_method {label : Label} {name : String} (arity : UInt8) (returns : Bool)
    (hword : Word name.toList) (hhash : '#' ∉ name.toList) : ∃ operand,
      Shown ⟨label, .call, [.callee (.method name arity returns)]⟩ "call".toList [' '] operand
        .methodCall := by
  have hspace : Gap [' '] := ⟨List.cons_ne_nil _ _, by decide⟩
  have harity := natural_digitsOf arity.toNat
  have hclean : Clean (name.toList ++ [' '] ++ digitsOf arity.toNat) :=
    ((Clean.of_word hword hhash).append (by decide)).append (clean_natural harity)
  cases returns with
  | true =>
    have htext : OperandText Apart .methodCall _ _ := .method hword hspace harity
    rw [String.ofList_toList] at htext
    have htight := Tight.append [' '] hword.tight harity.word.tight hword.1 harity.word.1
    refine ⟨_, (text_method name arity true).trans ?_, rfl, rfl, htext, .inr ⟨rfl, by simp⟩, htight,
      hclean⟩
    rw [if_pos rfl, List.append_nil]
  | false =>
    have hend : Word "void".toList := by decide
    have hnone : Apart [] := trivial
    have htext : OperandText Apart .methodCall _ _ := .void hword hspace harity hspace hnone
    rw [String.ofList_toList, List.append_nil] at htext
    have htight := Tight.append ([' '] ++ digitsOf arity.toNat ++ [' ']) hword.tight hend.tight
      hword.1 hend.1
    refine ⟨_, (text_method name arity false).trans ?_, rfl, rfl, htext, .inr ⟨rfl, by simp⟩,
      by simpa only [List.append_assoc] using htight, (hclean.append (by decide)).append (by decide)⟩
    rw [if_neg Bool.false_ne_true, List.append_assoc _ [' '] "void".toList]
    rfl

/-- An instruction of the text form without operands. -/
theorem shown_arithmetic {label : Label} {op : Opcode} (hop : op.isArithmetic = true) :
    ∃ mnemonic, Shown ⟨label, op, []⟩ mnemonic [] [] (.plain op) := by
  have hbare (mnemonic : String) (hshape : shape? mnemonic = some (.plain op))
      (htext : (Instruction.mk label op []).operation = mnemonic.toList) :
      Shown ⟨label, op, []⟩ mnemonic.toList [] [] (.plain op) :=
    ⟨by simp [htext], by rwa [String.ofList_toList], rfl, .plain, .inl ⟨rfl, rfl⟩, Tight.nil,
      by decide⟩
  cases op with
  | add => exact ⟨_, hbare "add" rfl rfl⟩
  | subtract => exact ⟨_, hbare "sub" rfl rfl⟩
  | min => exact ⟨_, hbare "min" rfl rfl⟩
  | max => exact ⟨_, hbare "max" rfl rfl⟩
  | sign => exact ⟨_, hbare "sign" rfl rfl⟩
  | _ => cases hop

theorem exists_shown {i : Instruction} (h : i.Formed) :
    ∃ mnemonic gap operand shape, Shown i mnemonic gap operand shape := by
  obtain ⟨label, op, operands⟩ := i
  obtain h : op.Takes operands := h
  cases h with
  | arithmetic hop =>
    obtain ⟨mnemonic, h⟩ := shown_arithmetic hop
    exact ⟨mnemonic, [], [], .plain op, h⟩
  | constant v =>
    have hv := v.text_literal
    exact ⟨"ldc".toList, [' '], v.text, .constant, rfl, rfl, rfl, .constant hv,
      .inr ⟨rfl, hv.ne_nil⟩, hv.tight, clean_value v⟩
  | branch c l =>
    have hl : Natural l.text l.number.toNat := .inl (digits_zeroPadded 4 _)
    refine ⟨c.mnemonic.toList, [' '], l.text, .branch c, ?_, ?_, rfl, .branch hl,
      .inr ⟨rfl, hl.word.1⟩, hl.word.tight, clean_natural hl⟩
    · simp [Instruction.operation, Instruction.condition?, Instruction.target?, Instruction.isBranch,
        List.findSome?_cons, Operand.condition?, Operand.target?]
    · cases c <;> rfl
  | @call c hname =>
    cases c with
    | transform t =>
      have hword : Word t.name.toList := by cases t <;> decide
      have hclean : Clean t.name.toList := by cases t <;> decide
      exact ⟨"call.transform".toList, [' '], t.name.toList, .transformCall, rfl, rfl, rfl,
        .transform t, .inr ⟨rfl, hword.1⟩, hword.tight, hclean⟩
    | method name arity returns =>
      obtain ⟨operand, h⟩ := shown_method arity returns hname.1 hname.2
      exact ⟨_, _, operand, _, h⟩
  | @slot op n hop =>
    have hn := natural_digitsOf n.toNat
    refine ⟨op.mnemonic.toList, [' '], digitsOf n.toNat, .slot op, ?_, ?_, rfl, .slot hn,
      .inr ⟨rfl, hn.word.1⟩, hn.word.tight, clean_natural hn⟩
    · simp [Instruction.operation, Instruction.slot?, Operand.slot?, hop]
    · rw [String.ofList_toList, shape?_stackOp, if_pos hop]
  | @host op hop =>
    refine ⟨op.mnemonic.toList, [], [], .plain (.other op), ?_, ?_, rfl, .plain, .inl ⟨rfl, rfl⟩,
      Tight.nil, by decide⟩
    · simp [Instruction.operation, Instruction.slot?]
    · rw [String.ofList_toList, shape?_stackOp, if_neg (by simp [hop])]

/-- The text of an instruction is a line of the grammar, and nothing of it is lost between the lines of
    a text. -/
theorem Shown.line {i : Instruction} {mnemonic gap operand : List Char} {shape : Shape}
    (h : Shown i mnemonic gap operand shape) :
    Line Apart i.text i ∧ Tight i.text ∧ Clean i.text := by
  obtain ⟨hoperation, hknown, hopcode, hoperands, hspaced, htight, hclean⟩ := h
  have hlabel : Natural i.label.text i.label.number.toNat := .inl (digits_zeroPadded 4 _)
  have hmnemonic := shape?_word hknown
  have hblank : Blank gap := by
    rcases hspaced with ⟨rfl, -⟩ | ⟨rfl, -⟩ <;> decide
  have hmnemonicClean : Clean mnemonic := by
    have hall : ∀ entry ∈ table, Clean entry.1.toList := by decide
    obtain ⟨front, back, htable, -⟩ := List.lookup_eq_some_iff.1 hknown
    simpa using hall (String.ofList mnemonic, shape) (by rw [htable]; simp)
  have hgapClean : Clean gap := by
    rcases hspaced with ⟨rfl, -⟩ | ⟨rfl, -⟩ <;> decide
  have htext : i.text = i.label.text ++ ':' :: ' ' :: (mnemonic ++ gap ++ operand) := by
    rw [Instruction.text, hoperation]
  refine ⟨?_, ?_, ?_⟩
  · have hafter : Around (mnemonic ++ gap ++ operand) (' ' :: (mnemonic ++ gap ++ operand)) :=
      .behind (a := [' ']) (by decide) _
    have hnil : gap = [] → operand = [] := by
      rintro rfl
      rcases hspaced with ⟨-, hnil⟩ | ⟨hgap, -⟩
      · exact hnil
      · cases hgap
    have hline := Line.mk hlabel (.refl _) hknown hoperands hblank hnil hafter
    rwa [hopcode, ← htext] at hline
  · rw [htext]
    rcases hspaced with ⟨rfl, rfl⟩ | ⟨rfl, hne⟩
    · simpa using Tight.append [':', ' '] hlabel.word.tight hmnemonic.tight hlabel.word.1 hmnemonic.1
    · simpa using Tight.append ([':', ' '] ++ mnemonic ++ [' ']) hlabel.word.tight htight
        hlabel.word.1 hne
  · rw [htext]
    have hcolon : Clean [':', ' '] := by decide
    have h := (clean_natural hlabel).append (hcolon.append ((hmnemonicClean.append hgapClean).append hclean))
    simpa using h

theorem content_text {i : Instruction} (h : i.Formed) : content i.text = i.text := by
  obtain ⟨_, _, _, _, hshown⟩ := exists_shown h
  obtain ⟨-, htight, hclean⟩ := hshown.line
  have hhash : i.text.takeWhile (· ≠ '#') = i.text :=
    List.takeWhile_eq_self_iff.2 fun c hc => by simpa using (hclean c hc).1
  rw [content, hhash, trim_of_tight htight]

theorem lined_text {i : Instruction} (h : i.Formed) : Lined i.text := by
  obtain ⟨_, _, _, _, hshown⟩ := exists_shown h
  obtain ⟨-, htight, hclean⟩ := hshown.line
  refine ⟨fun hfeed => (hclean _ hfeed).2 rfl, fun hreturn => ?_⟩
  exact absurd (htight.2 _ hreturn) (by decide)

end Assembly

namespace Body

open Assembly

/-- A body of the text form is read back as it was written, its next label recomputed. -/
theorem parse_render {b : Body} (hnodup : b.labels.Nodup) (hne : b.instructions ≠ [])
    (hformed : ∀ i ∈ b.instructions, i.Formed) :
    Body.parse b.render = .ok ⟨b.instructions, nextAfter b.instructions⟩ := by
  refine parse_eq_ok.2 ⟨?_, hne, hnodup, rfl⟩
  have hlines : Text.lines b.render.toList = b.instructions.map Instruction.text := by
    have hlined : ∀ l ∈ b.instructions.map Instruction.text, Text.Lined l :=
      List.forall_mem_map.2 fun i hi => lined_text (hformed i hi)
    rw [render, String.toList_ofList, ← Text.lines_flatMap hlined, List.flatMap_map]
  have hcontents : contents (b.instructions.map Instruction.text) =
      b.instructions.map Instruction.text := by
    have hmap : (b.instructions.map Instruction.text).map content =
        b.instructions.map Instruction.text := by
      rw [List.map_map]
      exact List.map_congr_left fun i hi => content_text (hformed i hi)
    rw [contents, hmap, List.filter_eq_self]
    intro l hl
    obtain ⟨i, -, rfl⟩ := List.mem_map.1 hl
    simp [Instruction.text]
  rw [hlines, hcontents, List.forall₂_map_left_iff, List.forall₂_same]
  intro i hi
  obtain ⟨_, _, _, _, hshown⟩ := exists_shown (hformed i hi)
  exact hshown.line.1

theorem formed_of_same {a b : Body} (ha : ∀ i ∈ a.instructions, i.Formed) (h : a.same b = true) :
    ∀ j ∈ b.instructions, j.Formed ∧ ¬ j.HoldsNaN := by
  have hsame := same_iff.1 h
  generalize a.instructions = is at ha hsame
  generalize b.instructions = js at hsame ⊢
  induction hsame with
  | nil => exact nofun
  | cons hij _ ih =>
    obtain ⟨hi, his⟩ := List.forall_mem_cons.1 ha
    exact List.forall_mem_cons.2 ⟨⟨hi.of_same hij, Instruction.not_holdsNaN_of_same hij⟩, ih his⟩

/-- Writing and reading are inverse to each other on the bodies of the text form. Exactly those that
    hold nothing but numbers are read back as the same; what has been read is always of the text form,
    and is read back as it is. -/
theorem render_parse_inverse :
    (∀ b : Body, b.labels.Nodup → ((∃ b', Body.parse b.render = .ok b' ∧ b'.same b = true) ↔
      b.instructions ≠ [] ∧ ∀ i ∈ b.instructions, i.Formed ∧ ¬ i.HoldsNaN)) ∧
    ∀ (text : String) (b : Body), Body.parse text = .ok b →
      b.instructions ≠ [] ∧ (∀ i ∈ b.instructions, i.Formed) ∧ Body.parse b.render = .ok b := by
  refine ⟨fun b hnodup => ⟨?_, ?_⟩, fun text b h => ?_⟩
  · rintro ⟨b', hparse, hsame⟩
    obtain ⟨-, hne, -, -⟩ := parse_eq_ok.1 hparse
    refine ⟨?_, formed_of_same (formed_of_parse hparse) hsame⟩
    intro hnil
    have hinstructions := same_iff.1 hsame
    rw [hnil, List.forall₂_nil_right_iff] at hinstructions
    exact hne hinstructions
  · rintro ⟨hne, hall⟩
    refine ⟨_, parse_render hnodup hne fun i hi => (hall i hi).1, same_iff.2 ?_⟩
    exact List.forall₂_same.2 fun i hi => Instruction.same_self (hall i hi).2
  · obtain ⟨-, hne, hnodup, hnext⟩ := parse_eq_ok.1 h
    have hformed := formed_of_parse h
    refine ⟨hne, hformed, ?_⟩
    rw [parse_render hnodup hne hformed, ← hnext]

/-- A body with a vector, a branch and a call is read back as the same; a constant that is not a number
    is read back as it was read. -/
theorem render_parse_vector_branch_call :
    (∃ b' : Body, Body.parse (Body.render ⟨[⟨⟨3⟩, .loadConstant, [.value (.vector ⟨.one true, .zero true⟩)]⟩,
        ⟨⟨0⟩, .branch, [.condition .ifTrue, .target ⟨3⟩]⟩,
        ⟨⟨1⟩, .call, [.callee (.method "f:g" 2 false)]⟩], 9⟩) = .ok b' ∧
      b'.same ⟨[⟨⟨3⟩, .loadConstant, [.value (.vector ⟨.one true, .zero true⟩)]⟩,
        ⟨⟨0⟩, .branch, [.condition .ifTrue, .target ⟨3⟩]⟩,
        ⟨⟨1⟩, .call, [.callee (.method "f:g" 2 false)]⟩], 9⟩ = true) ∧
    Body.parse "7: ldc NaN # none\n" = .ok ⟨[⟨⟨7⟩, .loadConstant, [.value (.float .nan)]⟩], 8⟩ ∧
    Body.parse (Body.render ⟨[⟨⟨7⟩, .loadConstant, [.value (.float .nan)]⟩], 8⟩) =
      .ok ⟨[⟨⟨7⟩, .loadConstant, [.value (.float .nan)]⟩], 8⟩ := by
  have hread : Body.parse "7: ldc NaN # none\n" =
      .ok ⟨[⟨⟨7⟩, .loadConstant, [.value (.float .nan)]⟩], 8⟩ := by decide
  refine ⟨(render_parse_inverse.1 _ (by decide)).2 ⟨by decide, ?_⟩, hread,
    (render_parse_inverse.2 _ _ hread).2.2⟩
  simp only [List.forall_mem_cons]
  refine ⟨⟨.constant _, ?_⟩, ⟨.branch _ _, ?_⟩, ⟨.call ⟨by decide, by decide⟩, ?_⟩, nofun⟩
  · simp [Instruction.HoldsNaN, Value.HoldsNaN, Single.one, Single.zero]
  · simp [Instruction.HoldsNaN]
  · simp [Instruction.HoldsNaN]

end Body

end Inversion
