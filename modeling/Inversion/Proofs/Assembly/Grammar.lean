import Mathlib.Data.List.Forall2
import Inversion.Assembly.Parser
import Inversion.Proofs.Exchange
import Inversion.Proofs.Value.Literal

/-!
The grammar of assembly text, and the reader as its recogniser. Every line is taken apart into tokens,
each of the form that the mnemonic asks for, with white space between and around them; nothing else may
stand on a line, with one exception: whatever comes behind the word `void` of a call is passed over.
-/

namespace Inversion

namespace Assembly

open Text Mnemonic

/-! ### The grammar -/

/-- The operand texts of a shape, and the operands that they stand for. `Tail` says what may stand
    behind the word `void` of a call. -/
inductive OperandText (Tail : List Char → Prop) : Shape → List Char → List Operand → Prop where
  | plain {op : Opcode} : OperandText Tail (.plain op) [] []
  | constant {cs : List Char} {v : Value} : Value.Literal cs v →
      OperandText Tail .constant cs [.value v]
  | branch {c : Condition} {cs : List Char} {l : Label} : Natural cs l.number.toNat →
      OperandText Tail (.branch c) cs [.condition c, .target l]
  | transform (t : Transform) :
      OperandText Tail .transformCall t.name.toList [.callee (.transform t)]
  | slot {op : StackOp} {cs : List Char} {n : UInt16} : Natural cs n.toNat →
      OperandText Tail (.slot op) cs [.slot n]
  | method {name gap arity : List Char} {n : UInt8} : Word name → Gap gap → Natural arity n.toNat →
      OperandText Tail .methodCall (name ++ gap ++ arity)
        [.callee (.method (String.ofList name) n true)]
  | void {name gap arity gap' tail : List Char} {n : UInt8} : Word name → Gap gap →
      Natural arity n.toNat → Gap gap' → Tail tail →
      OperandText Tail .methodCall (name ++ gap ++ arity ++ gap' ++ "void".toList ++ tail)
        [.callee (.method (String.ofList name) n false)]

/-- The content of a line: a label, a colon, a mnemonic and an operand text of its shape, with white
    space around them. -/
inductive Line (Tail : List Char → Prop) : List Char → Instruction → Prop where
  | mk {id before mnemonic gap operand after : List Char} {l : Label} {shape : Shape}
      {ops : List Operand} :
      Natural id l.number.toNat → Around id before →
      shape? (String.ofList mnemonic) = some shape → OperandText Tail shape operand ops →
      Blank gap → (gap = [] → operand = []) → Around (mnemonic ++ gap ++ operand) after →
      Line Tail (before ++ ':' :: after) ⟨l, shape.opcode, ops⟩

/-- The lines of a text that hold anything, without their comments. -/
def contents (raws : List (List Char)) : List (List Char) := (raws.map content).filter (· ≠ [])

/-! ### Tokens -/

theorem bind_eq_ok {ε α β : Type} {x : Except ε α} {f : α → Except ε β} {b : β} :
    (x >>= f) = .ok b ↔ ∃ a, x = .ok a ∧ f a = .ok b := by
  cases x with
  | error e => exact ⟨nofun, nofun⟩
  | ok a => exact ⟨fun h => ⟨a, rfl, h⟩, by rintro ⟨_, ⟨⟩, h⟩; exact h⟩

theorem orFault_eq_ok {α : Type} {fault : LineFault} {x : Option α} {a : α} :
    orFault fault x = .ok a ↔ x = some a := by
  cases x with
  | none => exact ⟨nofun, nofun⟩
  | some b => exact ⟨fun h => congrArg some (Except.ok.inj h), fun h => congrArg _ (Option.some.inj h)⟩

theorem label?_eq_some {cs : List Char} {l : Label} :
    label? cs = some l ↔ Natural cs l.number.toNat := by
  unfold label?
  simp only [Option.map_eq_some_iff, natural?_eq_some]
  constructor
  · rintro ⟨n, ⟨h, hn⟩, rfl⟩
    rwa [UInt32.toNat_ofNat_of_lt' hn]
  · intro h
    exact ⟨_, ⟨h, l.number.toNat_lt⟩, by rw [UInt32.ofNat_toNat]⟩

/-! ### Mnemonics -/

theorem shape?_word {mnemonic : List Char} {shape : Shape}
    (h : shape? (String.ofList mnemonic) = some shape) : Word mnemonic := by
  have hall : ∀ entry ∈ table, Word entry.1.toList := by decide
  obtain ⟨front, back, htable, -⟩ := List.lookup_eq_some_iff.1 h
  have hmem : (String.ofList mnemonic, shape) ∈ table := by
    rw [htable]
    exact List.mem_append_right _ (List.mem_cons_self ..)
  simpa using hall _ hmem

/-- A mnemonic is split off at the white space behind it. -/
theorem splitMnemonic_trim {a w rest : List Char} (ha : Blank a) (hw : Word w) (hrest : Apart rest) :
    splitMnemonic (trim (a ++ w ++ rest)) = (w, trim rest) := by
  obtain ⟨c, b, hc, hb, hcb, htight⟩ := trim_spec rest
  by_cases hnil : trim rest = []
  · rw [hnil]
    have hblank := (trim_eq_nil_iff rest).1 hnil
    rw [trim_append ha hw.tight hblank, splitMnemonic, cutAt?_eq_none.2 hw.2]
  · generalize trim rest = t at *
    subst hcb
    obtain ⟨hne, -⟩ := gap_of_apart hc htight.1 hnil hrest
    have hinner : trim (a ++ w ++ (c ++ t ++ b)) = w ++ c ++ t := by
      have h := trim_append ha (Tight.append c hw.tight htight hw.1 hnil) hb
      simpa using h
    obtain ⟨x, c, rfl⟩ := List.exists_cons_of_ne_nil hne
    obtain ⟨hx, hc⟩ := List.forall_mem_cons.1 hc
    rw [hinner, splitMnemonic, List.append_assoc, List.cons_append, cutAt?_append _ hw.2 hx]
    exact congrArg (Prod.mk w) (trim_of_around htight (.behind hc t))

/-- What the mnemonic and the operand text are parts of. -/
theorem splitMnemonic_spec {cs mnemonic operand : List Char}
    (h : splitMnemonic (trim cs) = (mnemonic, operand)) :
    Tight operand ∧ ∃ gap, Blank gap ∧ (gap = [] → operand = []) ∧
      Around (mnemonic ++ gap ++ operand) cs := by
  obtain ⟨p, q, hp, hq, hcs, -⟩ := trim_spec cs
  unfold splitMnemonic at h
  split at h
  · rename_i m rest hcut
    cases h
    obtain ⟨c, hc, htrim, -⟩ := cutAt?_eq_some.1 hcut
    obtain ⟨a, b, ha, hb, hrest, htight⟩ := trim_spec rest
    refine ⟨htight, c :: a, List.forall_mem_cons.2 ⟨hc, ha⟩, nofun, p, b ++ q, hp, hb.append hq, ?_⟩
    rw [hcs, htrim]
    conv_lhs => rw [hrest]
    simp
  · cases h
    exact ⟨Tight.nil, [], Blank.nil, fun _ => rfl, p, q, hp, hq, by simpa using hcs⟩

/-! ### Operands -/

theorem methodCall_eq_ok {operand : List Char} {c : Callee} :
    methodCall operand = .ok c ↔ ∃ name arity suffix, ∃ n : UInt8,
      words operand = name :: arity :: suffix ∧ Natural arity n.toNat ∧
        (suffix = [] ∧ c = .method (String.ofList name) n true ∨
          suffix.head? = some "void".toList ∧ c = .method (String.ofList name) n false) := by
  unfold methodCall
  constructor
  · intro h
    split at h
    · cases h
    · cases h
    · rename_i name arity suffix hwords
      split at h
      · cases h
      · rename_i n hn
        obtain ⟨hnatural, hlt⟩ := natural?_eq_some.1 hn
        have harity : Natural arity (UInt8.ofNat n).toNat := by rwa [UInt8.toNat_ofNat_of_lt' hlt]
        split at h
        · cases h
          exact ⟨name, arity, [], _, hwords, harity, .inl ⟨rfl, rfl⟩⟩
        · rename_i word rest
          obtain ⟨hvoid, h⟩ := (ite_eq_iff.1 h).resolve_right fun h => by cases h.2
          cases h
          exact ⟨name, arity, word :: rest, _, hwords, harity, .inr ⟨congrArg some hvoid, rfl⟩⟩
  · rintro ⟨name, arity, suffix, n, hwords, harity, hsuffix⟩
    have hn : natural? UInt8.size arity = some n.toNat := natural?_eq_some.2 ⟨harity, n.toNat_lt⟩
    simp only [hwords, hn, UInt8.ofNat_toNat]
    rcases hsuffix with ⟨rfl, rfl⟩ | ⟨hvoid, rfl⟩
    · rfl
    · obtain ⟨rest, rfl⟩ := List.head?_eq_some_iff.1 hvoid
      exact if_pos rfl

/-- Two words and the rest of a text. -/
theorem words_pair {cs a b : List Char} {ws : List (List Char)} (h : words cs = a :: b :: ws) :
    ∃ front gap rest, Blank front ∧ Word a ∧ Gap gap ∧ Word b ∧ Apart rest ∧
      cs = front ++ (a ++ gap ++ b ++ rest) ∧ words rest = ws := by
  obtain ⟨front, back, hfront, ha, hback, rfl, htail⟩ := words_eq_cons_iff.1 h
  obtain ⟨gap, rest, hgap, hb, hrest, rfl, hws⟩ := words_eq_cons_iff.1 htail
  exact ⟨front, gap, rest, hfront, ha, gap_of_apart hgap hb.tight.1 hb.1 hback, hb, hrest, by simp,
    hws⟩

theorem words_method {name gap arity rest : List Char} {n : Nat} (hname : Word name) (hgap : Gap gap)
    (harity : Natural arity n) (hrest : Apart rest) :
    words (name ++ gap ++ arity ++ rest) = name :: arity :: words rest := by
  rw [words_append hrest, List.append_assoc, words_append (hgap.apart arity),
    words_blank_append hgap.2, hname.words, harity.word.words]
  rfl

theorem words_void {name gap arity gap' tail : List Char} {n : Nat} (hname : Word name)
    (hgap : Gap gap) (harity : Natural arity n) (hgap' : Gap gap') (htail : Apart tail) :
    words (name ++ gap ++ arity ++ gap' ++ "void".toList ++ tail) =
      name :: arity :: "void".toList :: words tail := by
  have hvoid : Word "void".toList := by decide
  rw [List.append_assoc, List.append_assoc, words_method hname hgap harity (hgap'.apart _),
    words_blank_append hgap'.2, words_append htail, hvoid.words]
  rfl

theorem operandText_of_ok {shape : Shape} {operand : List Char} {ops : List Operand}
    (htight : Tight operand) (h : operands shape operand = .ok ops) :
    OperandText Apart shape operand ops := by
  cases shape with
  | plain op =>
    obtain ⟨rfl, h⟩ := (ite_eq_iff.1 h).resolve_right fun h => by cases h.2
    cases h
    exact .plain
  | constant =>
    obtain ⟨v, hv, h⟩ := bind_eq_ok.1 h
    cases h
    obtain ⟨literal, hliteral, haround⟩ := Value.ofText?_eq_some.1 (orFault_eq_ok.1 hv)
    rw [← trim_of_around hliteral.tight haround, trim_of_tight htight] at hliteral
    exact .constant hliteral
  | branch c =>
    obtain ⟨l, hl, h⟩ := bind_eq_ok.1 h
    cases h
    exact .branch (label?_eq_some.1 (orFault_eq_ok.1 hl))
  | methodCall =>
    obtain ⟨c, hc, h⟩ := bind_eq_ok.1 h
    cases h
    obtain ⟨name, arity, suffix, n, hwords, harity, hsuffix⟩ := methodCall_eq_ok.1 hc
    obtain ⟨front, gap, rest, hfront, hname, hgap, -, hrest, hoperand, hsuffixes⟩ := words_pair hwords
    rw [hoperand] at htight
    obtain rfl := htight.front hfront
    rw [List.nil_append] at htight hoperand
    rw [hoperand]
    rcases hsuffix with ⟨hnone, rfl⟩ | ⟨hvoid, rfl⟩
    · rw [htight.back ((words_eq_nil_iff rest).1 (hsuffixes.trans hnone)), List.append_nil]
      exact .method hname hgap harity
    · obtain ⟨more, hmore⟩ := List.head?_eq_some_iff.1 hvoid
      obtain ⟨gap', tail, hgap', hword, htail, rfl, -⟩ :=
        words_eq_cons_iff.1 (hsuffixes.trans hmore)
      have htext := OperandText.void hname hgap harity
        (gap_of_apart hgap' hword.tight.1 hword.1 hrest) htail
      simpa using htext
  | transformCall =>
    obtain ⟨t, ht, h⟩ := bind_eq_ok.1 h
    cases h
    have hname := List.find?_some (orFault_eq_ok.1 ht)
    rw [decide_eq_true_eq] at hname
    rw [← String.toList_ofList (l := operand), ← hname]
    exact .transform t
  | slot op =>
    obtain ⟨n, hn, h⟩ := bind_eq_ok.1 h
    cases h
    obtain ⟨hnatural, hlt⟩ := natural?_eq_some.1 (orFault_eq_ok.1 hn)
    refine .slot ?_
    rwa [UInt16.toNat_ofNat_of_lt' hlt]

theorem OperandText.read {shape : Shape} {operand : List Char} {ops : List Operand}
    (h : OperandText Apart shape operand ops) : operands shape (trim operand) = .ok ops := by
  have hcall {c : Callee} {cs : List Char} (h : methodCall cs = .ok c) :
      operands .methodCall (trim cs) = .ok [.callee c] := by
    obtain ⟨name, arity, suffix, n, hwords, hc⟩ := methodCall_eq_ok.1 h
    rw [words_around (around_trim cs)] at hwords
    exact bind_eq_ok.2 ⟨c, methodCall_eq_ok.2 ⟨name, arity, suffix, n, hwords, hc⟩, rfl⟩
  cases h with
  | plain => rfl
  | constant h =>
    rw [trim_of_tight h.tight]
    exact bind_eq_ok.2 ⟨_, orFault_eq_ok.2 (Value.ofText?_eq_some.2 ⟨_, h, .refl _⟩), rfl⟩
  | branch h =>
    rw [trim_of_tight h.word.tight]
    exact bind_eq_ok.2 ⟨_, orFault_eq_ok.2 (label?_eq_some.2 h), rfl⟩
  | transform t =>
    have hword : Word t.name.toList := by cases t <;> decide
    rw [trim_of_tight hword.tight]
    refine bind_eq_ok.2 ⟨t, orFault_eq_ok.2 ?_, rfl⟩
    rw [String.ofList_toList]
    exact t.ofName?_name
  | @slot op cs n h =>
    rw [trim_of_tight h.word.tight]
    refine bind_eq_ok.2 ⟨_, orFault_eq_ok.2 (natural?_eq_some.2 ⟨h, n.toNat_lt⟩), ?_⟩
    rw [UInt16.ofNat_toNat]
    rfl
  | method hname hgap harity =>
    have hend : Apart [] := trivial
    have hwords := words_method hname hgap harity hend
    rw [List.append_nil] at hwords
    exact hcall (methodCall_eq_ok.2 ⟨_, _, _, _, hwords, harity, .inl ⟨rfl, rfl⟩⟩)
  | void hname hgap harity hgap' htail =>
    exact hcall (methodCall_eq_ok.2 ⟨_, _, _, _, words_void hname hgap harity hgap' htail, harity,
      .inr ⟨rfl, rfl⟩⟩)

/-! ### Lines -/

/-- The colon behind the label is the first one of a line. -/
theorem no_colon {id before : List Char} {n : Nat} (hid : Natural id n) (h : Around id before) :
    ∀ c ∈ before, (c == ':') = false := by
  rintro c hc
  rw [beq_eq_false_iff_ne]
  rintro rfl
  rcases h.mem hc with hc | hc
  · exact absurd hc (by decide)
  · exact absurd (Integer.chars (.inl ⟨n, hid, rfl⟩) _ hc) (by decide)

/-- Which lines are read, and as which instructions. -/
theorem instruction_eq_ok {line : List Char} {i : Instruction} :
    instruction line = .ok i ↔ Line Apart line i := by
  constructor
  · intro h
    obtain ⟨⟨before, after⟩, hcut, h⟩ := bind_eq_ok.1 h
    obtain ⟨l, hl, h⟩ := bind_eq_ok.1 h
    obtain ⟨c, hc, hline, -⟩ := cutAt?_eq_some.1 (orFault_eq_ok.1 hcut)
    obtain rfl := beq_iff_eq.1 hc
    cases hsplit : splitMnemonic (trim after) with
    | mk mnemonic operand =>
      simp only [hsplit] at h
      split at h
      · cases h
      · obtain ⟨shape, hshape, h⟩ := bind_eq_ok.1 h
        obtain ⟨ops, hops, h⟩ := bind_eq_ok.1 h
        cases h
        obtain ⟨htight, gap, hgap, hnil, haround⟩ := splitMnemonic_spec hsplit
        rw [hline]
        exact .mk (label?_eq_some.1 (orFault_eq_ok.1 hl)) (around_trim before)
          (orFault_eq_ok.1 hshape) (operandText_of_ok htight hops) hgap hnil haround
  · rintro @⟨id, before, mnemonic, gap, operand, after, l, shape, ops, hid, hbefore, hshape, hoperand,
      hgap, hnil, a, b, ha, hb, rfl⟩
    have hlabel : label? (trim before) = some l := by
      rw [trim_of_around hid.word.tight hbefore]
      exact label?_eq_some.2 hid
    have hmnemonic := shape?_word hshape
    have hapart : Apart (gap ++ operand ++ b) := by
      by_cases hempty : gap = []
      · rw [hempty, hnil hempty]
        exact hb.apart
      · rw [List.append_assoc]
        exact Gap.apart ⟨hempty, hgap⟩ _
    have hsplit := splitMnemonic_trim ha hmnemonic hapart
    rw [trim_around ⟨gap, b, hgap, hb, rfl⟩] at hsplit
    refine bind_eq_ok.2 ⟨_, orFault_eq_ok.2 (cutAt?_append _ (no_colon hid hbefore) rfl), ?_⟩
    refine bind_eq_ok.2 ⟨l, orFault_eq_ok.2 hlabel, ?_⟩
    have hafter : a ++ (mnemonic ++ gap ++ operand) ++ b = a ++ mnemonic ++ (gap ++ operand ++ b) := by
      simp
    simp only [hafter, hsplit, if_neg hmnemonic.1]
    exact bind_eq_ok.2 ⟨shape, orFault_eq_ok.2 hshape, bind_eq_ok.2 ⟨ops, hoperand.read, rfl⟩⟩

/-! ### Texts -/

theorem instructions_eq_ok {number : Nat} {raws : List (List Char)} {is : List Instruction} :
    instructions number raws = .ok is ↔ List.Forall₂ (Line Apart) (contents raws) is := by
  induction raws generalizing number is with
  | nil =>
    rw [contents, List.map_nil, List.filter_nil, List.forall₂_nil_left_iff]
    exact ⟨fun h => (Except.ok.inj h).symm, fun h => congrArg Except.ok h.symm⟩
  | cons raw rest ih =>
    unfold instructions
    dsimp only
    by_cases hline : content raw = []
    · have hcontents : contents (raw :: rest) = contents rest := by simp [contents, hline]
      rw [if_pos hline, hcontents, ih]
    · have hcontents : contents (raw :: rest) = content raw :: contents rest := by
        simp [contents, hline]
      rw [if_neg hline, hcontents, List.forall₂_cons_left_iff]
      constructor
      · intro h
        split at h
        · cases h
        · rename_i i hi
          cases hrest : instructions (number + 1) rest with
          | error e =>
            rw [hrest] at h
            cases h
          | ok js =>
            rw [hrest] at h
            cases h
            exact ⟨i, js, instruction_eq_ok.1 hi, ih.1 hrest, rfl⟩
      · rintro ⟨i, js, hi, hjs, rfl⟩
        rw [instruction_eq_ok.2 hi, ih.2 hjs]
        rfl

end Assembly

namespace Body

open Assembly

theorem ofInstructions_eq_ok {is : List Instruction} {b : Body} :
    ofInstructions is = .ok b ↔ (is.map (·.label)).Nodup ∧ b = ⟨is, nextAfter is⟩ := by
  have hfirst := firstRepeated_eq_none (is.map (·.label)) []
  simp only [List.not_mem_nil, not_false_eq_true, implies_true, and_true] at hfirst
  unfold ofInstructions
  rw [← hfirst]
  cases firstRepeated [] (is.map (·.label)) with
  | none => exact ⟨fun h => ⟨rfl, (Except.ok.inj h).symm⟩, fun h => congrArg Except.ok h.2.symm⟩
  | some l => exact ⟨nofun, nofun⟩

/-- What reading a text comes to: every line that holds anything is a line of the grammar, there is
    at least one, and no label is repeated. -/
theorem parse_eq_ok {text : String} {b : Body} :
    Body.parse text = .ok b ↔
      List.Forall₂ (Line Text.Apart) (contents (Text.lines text.toList)) b.instructions ∧
        b.instructions ≠ [] ∧ b.labels.Nodup ∧ b.next = nextAfter b.instructions := by
  have hread : Body.parse text = .ok b ↔ ∃ is, Text.trim text.toList ≠ [] ∧ is ≠ [] ∧
      Assembly.instructions 0 (Text.lines text.toList) = .ok is ∧ ofInstructions is = .ok b := by
    unfold Body.parse
    by_cases hblank : Text.trim text.toList = []
    · simp [hblank]
    · rw [if_neg hblank]
      cases Assembly.instructions 0 (Text.lines text.toList) with
      | error e => simp
      | ok is => cases is <;> simp [hblank]
  rw [hread]
  simp only [instructions_eq_ok, ofInstructions_eq_ok]
  constructor
  · rintro ⟨is, -, hne, hlines, hnodup, rfl⟩
    exact ⟨hlines, hne, hnodup, rfl⟩
  · rintro ⟨hlines, hne, hnodup, hnext⟩
    refine ⟨b.instructions, ?_, hne, hlines, hnodup, ?_⟩
    · -- a text of white space has no line that holds anything
      intro hblank
      have hblank := (Text.trim_eq_nil_iff _).1 hblank
      have hempty : contents (Text.lines text.toList) = [] := by
        rw [contents, List.filter_eq_nil_iff]
        rintro line hline
        obtain ⟨raw, hraw, rfl⟩ := List.mem_map.1 hline
        have hcontent : Text.Blank (raw.takeWhile (· ≠ '#')) := fun c hc =>
          hblank c (Text.mem_of_mem_lines hraw ((List.takeWhile_prefix _).subset hc))
        simpa [content] using (Text.trim_eq_nil_iff _).2 hcontent
      rw [hempty, List.forall₂_nil_left_iff] at hlines
      exact hne hlines
    · rw [← hnext]

end Body

end Inversion
