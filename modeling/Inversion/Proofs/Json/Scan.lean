import Inversion.Json.Parser
import Inversion.Proofs.Single.Literal

/-!
Scanning printed strings and numbers. A string comes back from its escapes, whatever stands behind it,
and a number from its digits, if it is not followed by what could still belong to it.
-/

namespace Inversion

namespace Json

/-- A value that can be printed and read back: all strings stand for a text, and behind a point there
    are digits. -/
inductive Formed : Json → Prop where
  | null : Formed null
  | bool (b : Bool) : Formed (bool b)
  | number {n : Numeral} : n.Formed → Formed (number n)
  | string (s : String) : Formed (string (some s))
  | array {items : List Json} : (∀ item ∈ items, Formed item) → Formed (array items)
  | object {members : List (Option String × Json)} :
      (∀ m ∈ members, m.1 ≠ none) → (∀ m ∈ members, Formed m.2) → Formed (object members)

/-- Does not begin with what could belong to a number. -/
def Apart (rest : List Char) : Prop :=
  ∀ c ∈ rest.head?, c.isDigit = false ∧ c ≠ '.' ∧ c ≠ 'e' ∧ c ≠ 'E'

/-! ### Strings -/

theorem unit?_control : ∀ n < 32,
    unit? '0' '0' (hexDigit (n / 16)) (hexDigit (n % 16)) = some n := by decide

/-- A character that needs no escape is scanned as it stands. -/
theorem scanString_plain {c : Char} (hquote : c ≠ '"') (hslash : c ≠ '\\') (hcontrol : ¬ c.toNat < 32)
    (rest : List Char) : scanString (c :: rest) = (scanString rest).map (push c) := by
  rw [scanString.eq_def]
  split
  · cases ‹_ = []›
  · rename_i heq
    cases heq
    exact absurd rfl hquote
  · rename_i heq
    cases heq
    exact absurd rfl hslash
  · rename_i heq
    cases heq
    exact absurd rfl hslash
  · rename_i heq
    cases heq
    rw [if_neg]
    rintro (h | h)
    · exact hcontrol h
    · exact hslash h

/-- An escape of one letter is scanned as its character. -/
theorem scanString_escape {e c : Char} (h : escapeChar? e = some c) (rest : List Char) :
    scanString ('\\' :: e :: rest) = (scanString rest).map (push c) := by
  have hu : e ≠ 'u' := by
    rintro rfl
    cases h
  rw [scanString.eq_def]
  split
  · cases ‹_ = []›
  · rename_i heq
    cases heq
  · rename_i heq
    cases heq
    exact absurd rfl hu
  · rename_i heq
    cases heq
    rw [h]
  · rename_i hnot heq
    cases heq
    exact (hnot e rest rfl rfl).elim

/-- Four hexadecimal digits of a control character are scanned as it. -/
theorem scanString_control {c : Char} (hc : c.toNat < 32) (rest : List Char) :
    scanString ('\\' :: 'u' :: '0' :: '0' :: hexDigit (c.toNat / 16) :: hexDigit (c.toNat % 16) :: rest) =
      (scanString rest).map (push c) := by
  have hhigh : isHigh c.toNat = false := by
    simp only [isHigh, Bool.and_eq_false_iff, decide_eq_false_iff_not]
    omega
  have hlow : isLow c.toNat = false := by
    simp only [isLow, Bool.and_eq_false_iff, decide_eq_false_iff_not]
    omega
  rw [scanString, unit?_control c.toNat hc]
  simp only [hhigh, hlow, Bool.false_eq_true, if_false, Char.ofNat_toNat]

theorem scanString_quoteChar (c : Char) (rest : List Char) :
    scanString (quoteChar c ++ rest) = (scanString rest).map (push c) := by
  unfold quoteChar
  split_ifs with hquote hslash _ _ _ _ _ hcontrol
  on_goal 8 => exact scanString_control hcontrol rest
  on_goal 8 => exact scanString_plain hquote hslash hcontrol rest
  -- each of the others has an escape of its own
  all_goals
    subst_vars
    exact scanString_escape rfl rest

/-- A string is scanned back from its quotes. -/
theorem scanString_quote (s : String) (rest : List Char) :
    scanString (quoteBody (some s) ++ '"' :: rest) = some (some s.toList, rest) := by
  unfold quoteBody
  dsimp only
  induction s.toList with
  | nil => rw [List.flatMap_nil, List.nil_append, scanString]
  | cons c cs ih =>
    rw [List.flatMap_cons, List.append_assoc, scanString_quoteChar, ih]
    rfl

theorem quote_append (key : String) (rest : List Char) :
    quote (some key) ++ rest = '"' :: (quoteBody (some key) ++ '"' :: rest) := by
  simp [quote]

/-! ### Numbers -/

theorem scanExponentDigits_append (negative : Bool) (n : Nat) {rest : List Char} (hrest : Apart rest) :
    scanExponentDigits negative (digitsOf n ++ rest) =
      some (some (if negative then -(n : Int) else n), rest) := by
  have hdigits : ∀ c ∈ digitsOf n, c.isDigit = true := fun _ => isDigit_of_mem_digitsOf
  have hhead : ∀ c ∈ rest.head?, c.isDigit = false := fun c hc => (hrest c hc).1
  unfold scanExponentDigits
  rw [Text.takeWhile_append hdigits hhead, Text.dropWhile_append hdigits hhead]
  simp only [digitsOf_ne_nil, if_false, valueOf_digitsOf]

theorem scanExponent_append (exponent : Option Int) {rest : List Char} (hrest : Apart rest) :
    scanExponent ((exponent.map (Numeral.exponentText true)).getD [] ++ rest) =
      some (exponent, rest) := by
  cases exponent with
  | none =>
    cases rest with
    | nil => rfl
    | cons c rest =>
      obtain ⟨-, -, he, hE⟩ := hrest c rfl
      simp [scanExponent, he, hE]
  | some e =>
    have hnegative : (if e < 0 then ['-'] else if true then ['+'] else [] : List Char)
        = [if e < 0 then '-' else '+'] := by
      split <;> rfl
    have habs : (if e < 0 then -(e.natAbs : Int) else e.natAbs) = e := by
      split <;> omega
    rw [Option.map_some, Option.getD_some, Numeral.exponentText, hnegative]
    by_cases he : e < 0
    · rw [if_pos he] at habs ⊢
      have h := scanExponentDigits_append true e.natAbs hrest
      rw [if_pos rfl, habs] at h
      exact h
    · rw [if_neg he] at habs ⊢
      have h := scanExponentDigits_append false e.natAbs hrest
      rw [if_neg Bool.false_ne_true, habs] at h
      exact h

theorem scanFraction_append {fraction rest : List Char} (h : ∀ c ∈ fraction, c.isDigit = true)
    (hrest : ∀ c ∈ rest.head?, c.isDigit = false ∧ c ≠ '.') :
    scanFraction ((if fraction = [] then [] else '.' :: fraction) ++ rest) = some (fraction, rest) := by
  have hhead : ∀ c ∈ rest.head?, c.isDigit = false := fun c hc => (hrest c hc).1
  by_cases hnil : fraction = []
  · subst hnil
    rw [if_pos rfl, List.nil_append]
    cases rest with
    | nil => rfl
    | cons c rest =>
      have hc := (hrest c rfl).2
      unfold scanFraction
      split
      · rename_i heq
        cases heq
        exact absurd rfl hc
      · rfl
  · rw [if_neg hnil, List.cons_append, scanFraction]
    simp only [Text.takeWhile_append h hhead, Text.dropWhile_append h hhead, if_neg hnil]

/-- The whole part of a numeral has no zero in front that could be left out. -/
theorem digitsOf_canonical (n : Nat) :
    ¬ (digitsOf n = [] ∨ ((digitsOf n).length > 1 ∧ (digitsOf n).head? = some '0')) := by
  rintro (h | ⟨hlen, hhead⟩)
  · exact digitsOf_ne_nil n h
  · by_cases hn : n = 0
    · subst hn
      exact absurd hlen (by decide)
    · exact digitsOf_head? hn hhead

theorem scanMagnitude_append (negative : Bool) (whole : Nat) {fraction : List Char}
    (hfraction : ∀ c ∈ fraction, c.isDigit = true) (exponent : Option Int) {rest : List Char}
    (hrest : Apart rest) :
    scanMagnitude negative (digitsOf whole ++ ((if fraction = [] then [] else '.' :: fraction) ++
        ((exponent.map (Numeral.exponentText true)).getD [] ++ rest))) =
      some (number ⟨negative, whole, fraction, exponent⟩, rest) := by
  have hexponent := scanExponent_append exponent hrest
  generalize htail : (exponent.map (Numeral.exponentText true)).getD [] ++ rest = tail at hexponent ⊢
  have htailhead : ∀ c ∈ tail.head?, c.isDigit = false ∧ c ≠ '.' := by
    subst htail
    cases exponent with
    | none => exact fun c hc => ⟨(hrest c hc).1, (hrest c hc).2.1⟩
    | some e =>
      rintro c hc
      cases hc
      exact ⟨rfl, by decide⟩
  have hbehind : ∀ c ∈ ((if fraction = [] then [] else '.' :: fraction) ++ tail).head?,
      c.isDigit = false := by
    by_cases hnil : fraction = []
    · rw [if_pos hnil]
      exact fun c hc => (htailhead c hc).1
    · rw [if_neg hnil]
      rintro c hc
      cases hc
      rfl
  have hwhole : ∀ c ∈ digitsOf whole, c.isDigit = true := fun _ => isDigit_of_mem_digitsOf
  unfold scanMagnitude
  simp only [Text.takeWhile_append hwhole hbehind, Text.dropWhile_append hwhole hbehind,
    if_neg (digitsOf_canonical whole), scanFraction_append hfraction htailhead,
    Option.bind_eq_bind, Option.bind_some, hexponent, valueOf_digitsOf, Option.pure_def]

/-- A numeral is scanned back from its text. -/
theorem scanNumber_append {n : Numeral} (hn : n.Formed) {rest : List Char} (hrest : Apart rest) :
    scanNumber (n.text true ++ rest) = some (number n, rest) := by
  obtain ⟨negative, whole, fraction, exponent⟩ := n
  have hmagnitude := scanMagnitude_append negative whole (List.all_eq_true.1 hn) exponent hrest
  simp only [Numeral.text, List.append_assoc]
  cases negative with
  | true => exact hmagnitude
  | false =>
    rw [if_neg Bool.false_ne_true, List.nil_append, ← hmagnitude]
    obtain ⟨c, cs, hdigits⟩ := List.exists_cons_of_ne_nil (digitsOf_ne_nil whole)
    have hc : c.isDigit = true := isDigit_of_mem_digitsOf (hdigits ▸ List.mem_cons_self ..)
    rw [hdigits, List.cons_append, scanNumber]
    rintro _ heq
    cases heq
    cases hc

/-! ### Values -/

theorem skipSpace_cons {c : Char} (hc : isSpace c = false) (cs : List Char) :
    skipSpace (c :: cs) = c :: cs :=
  List.dropWhile_cons_of_neg (by simp [hc])

/-- How a number begins. -/
theorem text_head {n : Numeral} (plus : Bool) :
    ∃ c cs, n.text plus = c :: cs ∧ (c.isDigit = true ∨ c = '-') := by
  obtain ⟨d, ds, hdigits⟩ := List.exists_cons_of_ne_nil (digitsOf_ne_nil n.whole)
  have hd : d.isDigit = true := isDigit_of_mem_digitsOf (by rw [hdigits]; exact List.mem_cons_self ..)
  unfold Numeral.text
  cases n.negative with
  | true => exact ⟨'-', _, rfl, .inr rfl⟩
  | false =>
    rw [hdigits]
    exact ⟨d, _, rfl, .inl hd⟩

/-- What begins like a number is scanned as one. -/
theorem scanValue_number {c : Char} (hc : c.isDigit = true ∨ c = '-') (fuel : Nat) (cs : List Char) :
    scanValue (fuel + 1) (c :: cs) = scanNumber (c :: cs) := by
  have hne {d : Char} (hdigit : d.isDigit = false) (hminus : d ≠ '-') : c ≠ d := by
    rintro rfl
    rcases hc with hc | hc
    · rw [hc] at hdigit
      cases hdigit
    · exact hminus hc
  have hspace : isSpace c = false := by
    simp only [isSpace, Bool.or_eq_false_iff, beq_eq_false_iff_ne]
    exact ⟨⟨⟨hne rfl (by decide), hne rfl (by decide)⟩, hne rfl (by decide)⟩, hne rfl (by decide)⟩
  rw [scanValue, skipSpace_cons hspace]
  split
  case h_7 => rfl
  -- all other values begin with a character of their own
  all_goals
    rename_i heq
    exact absurd (List.cons.inj heq).1 (hne rfl (by decide))

/-- A string of a value is scanned back from its quotes. -/
theorem scanValue_string (fuel : Nat) (s : String) (rest : List Char) :
    scanValue (fuel + 1) (quote (some s) ++ rest) = some (string (some s), rest) := by
  rw [quote_append, scanValue, skipSpace_cons rfl]
  simp only [scanString_quote]
  simp [ofScanned]

end Json

end Inversion
