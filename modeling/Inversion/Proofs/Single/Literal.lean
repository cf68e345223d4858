import Inversion.Proofs.Single.Rounding
import Inversion.Proofs.Text.Integer

/-!
Floating literals: which texts are one, and of which number. What is displayed of a number is a literal
of that number.
-/

namespace Inversion

namespace Single

/-! ### The grammar -/

/-- A point with the digits behind it, or nothing. -/
inductive Behind : List Char → List Char → Prop where
  | none : Behind [] []
  | point {fraction : List Char} : (∀ c ∈ fraction, c.isDigit = true) →
      Behind ('.' :: fraction) fraction

/-- An exponent, or nothing. -/
inductive Scaled : List Char → Int → Prop where
  | none : Scaled [] 0
  | exponent {c : Char} {cs : List Char} {e : Int} : c = 'e' ∨ c = 'E' → Text.Integer cs e →
      Scaled (c :: cs) e

/-- A decimal literal without a sign: digits in front of the point or behind it, and an exponent. -/
inductive DecimalLiteral : List Char → Decimal → Prop where
  | mk {whole behind fraction tail : List Char} {e : Int} : (∀ c ∈ whole, c.isDigit = true) →
      Behind behind fraction → ¬ (whole = [] ∧ fraction = []) → Scaled tail e →
      DecimalLiteral (whole ++ behind ++ tail) ⟨valueOf (whole ++ fraction), e - fraction.length⟩

/-- A literal behind its sign. Words may be in upper or lower case. -/
inductive Unsigned (negative : Bool) : List Char → Single → Prop where
  | infinite {cs : List Char} : cs.map Char.toLower = "inf".toList ∨
      cs.map Char.toLower = "infinity".toList → Unsigned negative cs (infinite negative)
  | nan {cs : List Char} : cs.map Char.toLower = "nan".toList → Unsigned negative cs nan
  | decimal {cs : List Char} {d : Decimal} : DecimalLiteral cs d →
      Unsigned negative cs (ofDecimal negative d)

/-- A floating literal, with or without a sign. -/
inductive Literal : List Char → Single → Prop where
  | bare {cs : List Char} {x : Single} : Unsigned false cs x → Literal cs x
  | plus {cs : List Char} {x : Single} : Unsigned false cs x → Literal ('+' :: cs) x
  | minus {cs : List Char} {x : Single} : Unsigned true cs x → Literal ('-' :: cs) x

/-! ### Characters of a literal -/

/-- The characters that literals are made of. -/
def isLiteralChar (c : Char) : Bool :=
  c.isDigit || "+-.eE".toList.contains c || "infatyINFATY".toList.contains c

theorem isLiteralChar_of_isDigit {c : Char} (h : c.isDigit = true) : isLiteralChar c = true := by
  simp [isLiteralChar, h]

theorem toLower_of_not_isUpper {c : Char} (h : ¬ c.isUpper = true) : c.toLower = c :=
  dif_neg fun hupper => h (decide_eq_true hupper)

theorem isAlpha_toLower_of_isDigit {c : Char} (h : c.isDigit = true) : c.toLower.isAlpha = false := by
  obtain ⟨hlow, hhigh⟩ := (Text.isDigit_iff c).1 h
  have hmem : c.toNat ∈ List.range' 48 10 := by
    rw [List.mem_range'_1]
    omega
  have hall : ∀ n ∈ List.range' 48 10, (Char.ofNat n).toLower.isAlpha = false := by decide
  simpa [Char.ofNat_toNat] using hall _ hmem

theorem toLower_mem {c : Char} (h : c.toLower ∈ "infaty".toList) : isLiteralChar c = true := by
  by_cases hupper : c.isUpper = true
  · -- a capital letter is one of 26
    have hcode : c.toNat ∈ List.range' 65 26 := by
      have hbounds : 65 ≤ c.toNat ∧ c.toNat ≤ 90 := by
        obtain ⟨hlow, hhigh⟩ := of_decide_eq_true hupper
        exact ⟨UInt32.le_iff_toNat_le.1 hlow, UInt32.le_iff_toNat_le.1 hhigh⟩
      rw [List.mem_range'_1]
      omega
    have hall : ∀ n ∈ List.range' 65 26, (Char.ofNat n).toLower ∈ "infaty".toList →
        isLiteralChar (Char.ofNat n) = true := by decide
    have hc := hall _ hcode
    rw [Char.ofNat_toNat] at hc
    exact hc h
  · rw [toLower_of_not_isUpper hupper] at h
    have hall : "infaty".toList.all isLiteralChar = true := by decide
    exact List.all_eq_true.1 hall c h

theorem isBlank_of_isLiteralChar {c : Char} (h : isLiteralChar c = true) :
    Text.isBlank c = false := by
  simp only [isLiteralChar, Bool.or_eq_true, List.contains_iff_mem] at h
  rcases h with (h | h) | h
  · exact Text.isBlank_of_isDigit h
  · have hmarks : Text.Word "+-.eE".toList := by decide
    exact hmarks.2 c h
  · have hletters : Text.Word "infatyINFATY".toList := by decide
    exact hletters.2 c h

theorem ne_of_isLiteralChar {c d : Char} (hc : isLiteralChar c = true)
    (hd : isLiteralChar d = false) : c ≠ d := by
  rintro rfl
  rw [hc] at hd
  cases hd

theorem integer_chars {cs : List Char} {i : Int} (h : Text.Integer cs i) :
    ∀ c ∈ cs, isLiteralChar c = true := by
  rintro c hc
  rcases h.chars c hc with h | rfl | rfl
  · exact isLiteralChar_of_isDigit h
  · rfl
  · rfl

theorem DecimalLiteral.chars {cs : List Char} {d : Decimal} (h : DecimalLiteral cs d) :
    ∀ c ∈ cs, isLiteralChar c = true := by
  obtain ⟨hwhole, hbehind, -, htail⟩ := h
  simp only [List.forall_mem_append]
  refine ⟨⟨fun c hc => isLiteralChar_of_isDigit (hwhole c hc), ?_⟩, ?_⟩
  · cases hbehind with
    | none => simp
    | point hfraction =>
      exact List.forall_mem_cons.2 ⟨rfl, fun c hc => isLiteralChar_of_isDigit (hfraction c hc)⟩
  · cases htail with
    | none => simp
    | exponent hc he =>
      refine List.forall_mem_cons.2 ⟨?_, integer_chars he⟩
      rcases hc with rfl | rfl <;> rfl

/-- A decimal literal begins with a digit or a point. -/
theorem DecimalLiteral.head? {cs : List Char} {d : Decimal} (h : DecimalLiteral cs d) :
    ∃ c rest, cs = c :: rest ∧ (c.isDigit = true ∨ c = '.') := by
  obtain @⟨whole, behind, fraction, tail, e, hwhole, hbehind, hsome, -⟩ := h
  cases whole with
  | cons c whole => exact ⟨c, _, rfl, .inl (hwhole c (List.mem_cons_self ..))⟩
  | nil =>
    cases hbehind with
    | none => simp at hsome
    | point _ => exact ⟨'.', _, rfl, .inr rfl⟩

theorem word_chars {cs word : List Char} (h : cs.map Char.toLower = word)
    (hword : word ⊆ "infaty".toList) : ∀ c ∈ cs, isLiteralChar c = true := by
  rintro c hc
  refine toLower_mem (hword ?_)
  rw [← h]
  exact List.mem_map_of_mem hc

theorem Unsigned.chars {negative : Bool} {cs : List Char} {x : Single} (h : Unsigned negative cs x) :
    ∀ c ∈ cs, isLiteralChar c = true := by
  cases h with
  | infinite h => rcases h with h | h <;> exact word_chars h (by decide)
  | nan h => exact word_chars h (by decide)
  | decimal h => exact h.chars

/-- Behind its sign a literal begins with no other. -/
theorem Unsigned.head? {negative : Bool} {cs : List Char} {x : Single} (h : Unsigned negative cs x) :
    ∃ c rest, cs = c :: rest ∧ c ≠ '+' ∧ c ≠ '-' := by
  have hletter {first : Char} {word : List Char} (h : cs.map Char.toLower = first :: word)
      (hplus : first ≠ '+') (hminus : first ≠ '-') : ∃ c rest, cs = c :: rest ∧ c ≠ '+' ∧ c ≠ '-' := by
    obtain ⟨c, rest, rfl, rfl, -⟩ := List.map_eq_cons_iff.1 h
    refine ⟨c, rest, rfl, ?_, ?_⟩ <;> rintro rfl
    · exact hplus rfl
    · exact hminus rfl
  cases h with
  | infinite h => rcases h with h | h <;> exact hletter h (by decide) (by decide)
  | nan h => exact hletter h (by decide) (by decide)
  | decimal h =>
    obtain ⟨c, rest, rfl, hc⟩ := h.head?
    refine ⟨c, rest, rfl, ?_, ?_⟩ <;> rintro rfl <;> simp at hc

theorem Literal.chars {cs : List Char} {x : Single} (h : Literal cs x) :
    ∀ c ∈ cs, isLiteralChar c = true := by
  cases h with
  | bare h => exact h.chars
  | plus h => exact List.forall_mem_cons.2 ⟨rfl, h.chars⟩
  | minus h => exact List.forall_mem_cons.2 ⟨rfl, h.chars⟩

theorem Literal.word {cs : List Char} {x : Single} (h : Literal cs x) : Text.Word cs := by
  refine ⟨?_, fun c hc => isBlank_of_isLiteralChar (h.chars c hc)⟩
  cases h with
  | bare h =>
    obtain ⟨c, rest, rfl, -⟩ := h.head?
    exact List.cons_ne_nil _ _
  | plus h => exact List.cons_ne_nil _ _
  | minus h => exact List.cons_ne_nil _ _

/-! ### Reading a literal -/

/-- In front of a literal there is a minus sign, a plus sign, or none. -/
theorem splitSign_cases (cs : List Char) :
    (∃ rest, cs = '-' :: rest ∧ splitSign cs = (true, rest)) ∨
      (∃ rest, cs = '+' :: rest ∧ splitSign cs = (false, rest)) ∨
      (∀ rest, cs ≠ '-' :: rest) ∧ (∀ rest, cs ≠ '+' :: rest) ∧ splitSign cs = (false, cs) := by
  unfold splitSign
  split
  · exact .inl ⟨_, rfl, rfl⟩
  · exact .inr (.inl ⟨_, rfl, rfl⟩)
  · rename_i hminus hplus
    exact .inr (.inr ⟨hminus, hplus, rfl⟩)

theorem exponent?_eq_some {cs : List Char} {e : Int} :
    exponent? cs = some e ↔ Text.Integer cs e := by
  have hdigits {ds : List Char} {v : Int} :
      (if ds ≠ [] ∧ ds.all Char.isDigit then some v else none) = some e ↔
        (∃ n, Text.Digits ds n) ∧ v = e := by
    rw [Option.ite_none_right_eq_some, List.all_eq_true]
    refine and_congr ⟨fun h => ⟨_, h.1, h.2, rfl⟩, ?_⟩ Option.some_inj
    rintro ⟨n, h⟩
    exact ⟨h.ne_nil, h.all⟩
  unfold exponent? Text.Integer Text.Natural
  rcases splitSign_cases cs with ⟨rest, rfl, h⟩ | ⟨rest, rfl, h⟩ | ⟨hminus, hplus, h⟩ <;> rw [h] <;>
    dsimp only <;> rw [hdigits]
  · rw [if_pos rfl]
    constructor
    · rintro ⟨⟨n, h⟩, rfl⟩
      exact .inr ⟨rest, n, rfl, h, by rw [h.value]⟩
    · rintro (⟨n, h | ⟨_, heq, -⟩, -⟩ | ⟨_, n, heq, h, rfl⟩)
      · exact absurd h (Text.digits_sign (by decide))
      · cases heq
      · cases heq
        exact ⟨⟨n, h⟩, by rw [h.value]⟩
  · rw [if_neg (by decide)]
    constructor
    · rintro ⟨⟨n, h⟩, rfl⟩
      exact .inl ⟨n, .inr ⟨rest, rfl, h⟩, by rw [h.value]⟩
    · rintro (⟨n, h | ⟨_, heq, h⟩, rfl⟩ | ⟨_, n, heq, -, -⟩)
      · exact absurd h (Text.digits_sign (by decide))
      · cases heq
        exact ⟨⟨n, h⟩, by rw [h.value]⟩
      · cases heq
  · rw [if_neg (by decide)]
    constructor
    · rintro ⟨⟨n, h⟩, rfl⟩
      exact .inl ⟨n, .inl h, by rw [h.value]⟩
    · rintro (⟨n, h | ⟨rest, rfl, -⟩, rfl⟩ | ⟨rest, n, rfl, -, -⟩)
      · exact ⟨⟨n, h⟩, by rw [h.value]⟩
      · exact absurd rfl (hplus rest)
      · exact absurd rfl (hminus rest)

/-- What can stand behind the digits of a literal: neither a digit nor, unless there has been one, a
    point. -/
def Stops (behind tail : List Char) : Prop :=
  ∀ c ∈ tail.head?, c.isDigit = false ∧ (behind = [] → c ≠ '.')

theorem Scaled.stops {tail : List Char} {e : Int} (h : Scaled tail e) (behind : List Char) :
    Stops behind tail := by
  cases h with
  | none => simp [Stops]
  | exponent hc he =>
    rintro c hhead
    cases hhead
    rcases hc with rfl | rfl <;> exact ⟨rfl, fun _ => by decide⟩

/-- Every text falls into digits, a point with digits, and what stands behind them. -/
theorem exists_split (cs : List Char) : ∃ whole behind fraction tail,
    cs = whole ++ behind ++ tail ∧ (∀ c ∈ whole, c.isDigit = true) ∧ Behind behind fraction ∧
      Stops behind tail := by
  have hcs : cs = cs.takeWhile Char.isDigit ++ cs.dropWhile Char.isDigit :=
    List.takeWhile_append_dropWhile.symm
  have hwhole : ∀ c ∈ cs.takeWhile Char.isDigit, c.isDigit = true :=
    fun c hc => List.mem_takeWhile_imp hc
  have hhead := Text.dropWhile_head? Char.isDigit cs
  generalize cs.takeWhile Char.isDigit = whole at hcs hwhole
  generalize cs.dropWhile Char.isDigit = rest at hcs hhead
  by_cases hpoint : ∃ r, rest = '.' :: r
  · obtain ⟨r, rfl⟩ := hpoint
    refine ⟨whole, '.' :: r.takeWhile Char.isDigit, r.takeWhile Char.isDigit,
      r.dropWhile Char.isDigit, ?_, hwhole, .point fun c hc => List.mem_takeWhile_imp hc, ?_⟩
    · rw [List.append_assoc, List.cons_append, List.takeWhile_append_dropWhile, hcs]
    · rintro c hc
      exact ⟨Text.dropWhile_head? Char.isDigit r c hc, nofun⟩
  · refine ⟨whole, [], [], rest, by rw [List.append_nil, hcs], hwhole, .none, ?_⟩
    rintro c hc
    refine ⟨hhead c hc, fun _ => ?_⟩
    rintro rfl
    obtain ⟨r, hr⟩ := List.head?_eq_some_iff.1 hc
    exact hpoint ⟨r, hr⟩

/-- Reading a decimal literal finds its parts. -/
theorem decimal?_append {whole behind fraction tail : List Char}
    (hwhole : ∀ c ∈ whole, c.isDigit = true) (hbehind : Behind behind fraction)
    (htail : Stops behind tail) : decimal? (whole ++ behind ++ tail) =
      if whole = [] ∧ fraction = [] then none
      else match tail with
        | [] => some ⟨valueOf (whole ++ fraction), 0 - fraction.length⟩
        | c :: r => if c = 'e' ∨ c = 'E' then
            (exponent? r).map fun e => ⟨valueOf (whole ++ fraction), e - fraction.length⟩
          else none := by
  cases hbehind with
  | none =>
    have hhead : ∀ c ∈ tail.head?, c.isDigit = false := fun c hc => (htail c hc).1
    rw [List.append_nil]
    unfold decimal?
    rw [Text.takeWhile_append hwhole hhead, Text.dropWhile_append hwhole hhead]
    dsimp only
    split
    · rename_i r
      exact absurd rfl ((htail '.' rfl).2 rfl)
    · dsimp only
      rewrite [List.append_nil]
      rfl
  | point hfraction =>
    have hpoint : ∀ c ∈ (('.' :: fraction) ++ tail).head?, c.isDigit = false := by
      rintro c hc
      cases hc
      rfl
    have hhead : ∀ c ∈ tail.head?, c.isDigit = false := fun c hc => (htail c hc).1
    rw [List.append_assoc]
    unfold decimal?
    rw [Text.takeWhile_append hwhole hpoint, Text.dropWhile_append hwhole hpoint, List.cons_append]
    dsimp only
    split
    · rename_i r heq
      cases heq
      rewrite [Text.takeWhile_append hfraction hhead, Text.dropWhile_append hfraction hhead]
      rfl
    · rename_i hnot
      exact absurd rfl (hnot _)

theorem decimal?_eq_some {cs : List Char} {d : Decimal} :
    decimal? cs = some d ↔ DecimalLiteral cs d := by
  constructor
  · obtain ⟨whole, behind, fraction, tail, rfl, hwhole, hbehind, htail⟩ := exists_split cs
    rw [decimal?_append hwhole hbehind htail, Option.ite_none_left_eq_some]
    rintro ⟨hsome, h⟩
    cases tail with
    | nil =>
      cases h
      exact .mk hwhole hbehind hsome .none
    | cons c r =>
      obtain ⟨hc, h⟩ := Option.ite_none_right_eq_some.1 h
      obtain ⟨e, he, rfl⟩ := Option.map_eq_some_iff.1 h
      exact .mk hwhole hbehind hsome (.exponent hc (exponent?_eq_some.1 he))
  · rintro ⟨hwhole, hbehind, hsome, htail⟩
    rw [decimal?_append hwhole hbehind (htail.stops _), if_neg hsome]
    cases htail with
    | none => rfl
    | exponent hc he =>
      dsimp only
      rw [if_pos hc, exponent?_eq_some.2 he]
      rfl

/-- A decimal literal does not begin with a letter. -/
theorem DecimalLiteral.ne_word {body : List Char} {d : Decimal} (h : DecimalLiteral body d)
    {word : List Char} (hfirst : word.head?.any Char.isAlpha = true) :
    body.map Char.toLower ≠ word := by
  rintro rfl
  obtain ⟨c, rest, rfl, hc⟩ := h.head?
  have halpha : c.toLower.isAlpha = true := hfirst
  rcases hc with hc | rfl
  · rw [isAlpha_toLower_of_isDigit hc] at halpha
    cases halpha
  · cases halpha

/-- What is read behind the sign. -/
theorem unsigned_iff {negative : Bool} {body : List Char} {x : Single} :
    (if body.map Char.toLower = "inf".toList ∨ body.map Char.toLower = "infinity".toList then
        some (infinite negative)
      else if body.map Char.toLower = "nan".toList then some nan
      else (decimal? body).map (ofDecimal negative)) = some x ↔ Unsigned negative body x := by
  constructor
  · split
    · rename_i h
      rintro ⟨⟩
      exact .infinite h
    · split
      · rename_i h
        rintro ⟨⟩
        exact .nan h
      · intro h
        obtain ⟨d, hd, rfl⟩ := Option.map_eq_some_iff.1 h
        exact .decimal (decimal?_eq_some.1 hd)
  · rintro (h | h | h)
    · rw [if_pos h]
    · rw [if_neg (by rw [h]; decide), if_pos h]
    · have hinf : body.map Char.toLower ≠ "inf".toList := h.ne_word rfl
      have hinfinity : body.map Char.toLower ≠ "infinity".toList := h.ne_word rfl
      have hnan : body.map Char.toLower ≠ "nan".toList := h.ne_word rfl
      simp only [hinf, hinfinity, hnan, or_self, if_false, decimal?_eq_some.2 h, Option.map_some]

/-- Which texts are read as a number, and as which. -/
theorem ofLiteral?_eq_some {cs : List Char} {x : Single} :
    ofLiteral? cs = some x ↔ Literal cs x := by
  have hread : ofLiteral? cs = some x ↔ Unsigned (splitSign cs).1 (splitSign cs).2 x := unsigned_iff
  rw [hread]
  rcases splitSign_cases cs with ⟨rest, rfl, h⟩ | ⟨rest, rfl, h⟩ | ⟨hminus, hplus, h⟩ <;> rw [h]
  · constructor
    · exact .minus
    · rintro (h | h | h)
      · obtain ⟨c, rest, heq, -, hminus⟩ := h.head?
        exact absurd (List.cons.inj heq).1.symm hminus
      · exact h
  · constructor
    · exact .plus
    · rintro (h | h | h)
      · obtain ⟨c, rest, heq, hplus, -⟩ := h.head?
        exact absurd (List.cons.inj heq).1.symm hplus
      · exact h
  · constructor
    · exact .bare
    · rintro (h | h | h)
      · exact h
      · exact absurd rfl (hplus _)
      · exact absurd rfl (hminus _)

/-! ### What is displayed -/

theorem exponentText_integer (plus : Bool) (e : Int) :
    ∃ cs, Numeral.exponentText plus e = 'e' :: cs ∧ Text.Integer cs e := by
  have hdigits := Text.digits_digitsOf e.natAbs
  refine ⟨_, rfl, ?_⟩
  by_cases he : e < 0
  · rw [if_pos he]
    exact .inr ⟨_, e.natAbs, rfl, hdigits, by omega⟩
  · rw [if_neg he]
    refine .inl ⟨e.natAbs, ?_, by omega⟩
    cases plus
    · exact .inl hdigits
    · exact .inr ⟨_, rfl, hdigits⟩

/-- A numeral in writing is a literal of its decimal. -/
theorem numeral_literal (plus : Bool) {n : Numeral} (h : n.Formed) :
    Literal (n.text plus) (ofDecimal n.negative n.decimal) := by
  have hbehind : Behind (if n.fraction = [] then [] else '.' :: n.fraction) n.fraction := by
    by_cases hnil : n.fraction = []
    · rw [hnil]
      exact .none
    · rw [if_neg hnil]
      exact .point (List.all_eq_true.1 h)
  have htail : Scaled ((n.exponent.map (Numeral.exponentText plus)).getD []) (n.exponent.getD 0) := by
    cases n.exponent with
    | none => exact .none
    | some e =>
      obtain ⟨cs, hcs, he⟩ := exponentText_integer plus e
      rw [Option.map_some, Option.getD_some, Option.getD_some, hcs]
      exact .exponent (.inl rfl) he
  have hunsigned : DecimalLiteral (digitsOf n.whole
      ++ (if n.fraction = [] then [] else '.' :: n.fraction)
      ++ (n.exponent.map (Numeral.exponentText plus)).getD []) n.decimal :=
    .mk (fun _ => isDigit_of_mem_digitsOf) hbehind (fun hnil => digitsOf_ne_nil n.whole hnil.1) htail
  unfold Numeral.text
  rw [List.append_assoc, List.append_assoc, ← List.append_assoc (digitsOf n.whole)]
  cases n.negative with
  | false => exact .bare (.decimal hunsigned)
  | true => exact .minus (.decimal hunsigned)

/-- The text of a number is a literal of that number, whatever the layout. -/
theorem textIn_literal (l : Layout) (x : Single) : Literal (x.textIn l) x := by
  cases x with
  | finite negative code =>
    have h := numeral_literal false (l.write_formed negative (shortest .up code))
    rwa [Layout.write_negative, ofDecimal_write_shortest] at h
  | infinite negative =>
    cases negative with
    | false => exact .bare (.infinite (.inl rfl))
    | true => exact .minus (.infinite (.inl rfl))
  | nan => exact .bare (.nan rfl)

end Single

end Inversion
