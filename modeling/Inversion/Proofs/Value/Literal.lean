import Inversion.Value.Literal
import Inversion.Proofs.Single.Literal

/-!
The literals of values: which texts are read as a value, and as which. The text of a value is a literal
of that value, so it is read back.
-/

namespace Inversion

namespace Value

/-- A literal of a value. Its looks tell whether a number is an integer or a float. -/
inductive Literal : List Char → Value → Prop where
  | true : Literal "true".toList (bool true)
  | false : Literal "false".toList (bool false)
  | int {cs : List Char} {i : Int64} : Text.Integer cs i.toInt → Literal cs (int i)
  | float {cs : List Char} {x : Single} : Single.Literal cs x → meansFloat cs = true →
      Literal cs (float x)
  | vector {xs ys left right : List Char} {x y : Single} : Single.Literal xs x → Single.Literal ys y →
      Text.Around xs left → Text.Around ys right →
      Literal ('(' :: (left ++ ',' :: right ++ [')'])) (vector ⟨x, y⟩)

/-! ### Reading -/

theorem parenthesized?_eq_some {cs inner : List Char} :
    parenthesized? cs = some inner ↔ cs = '(' :: (inner ++ [')']) := by
  unfold parenthesized?
  split
  · rename_i rest
    rw [Option.ite_none_right_eq_some, Option.some.injEq, List.cons.injEq, and_iff_right rfl]
    constructor
    · rintro ⟨hlast, rfl⟩
      exact (List.dropLast_append_getLast? ')' hlast).symm
    · rintro rfl
      simp
  · rename_i hnot
    exact ⟨nofun, fun h => absurd h (hnot _)⟩

theorem vector?_eq_some {inner : List Char} {v : Value} :
    vector? inner = some v ↔ ∃ xs ys left right x y, Single.Literal xs x ∧ Single.Literal ys y ∧
      Text.Around xs left ∧ Text.Around ys right ∧ inner = left ++ ',' :: right ∧
      v = vector ⟨x, y⟩ := by
  unfold vector?
  constructor
  · intro h
    obtain ⟨⟨left, right⟩, hcut, hparts⟩ := Option.bind_eq_some_iff.1 h
    obtain ⟨x, hx, hrest⟩ := Option.bind_eq_some_iff.1 hparts
    obtain ⟨y, hy, hv⟩ := Option.bind_eq_some_iff.1 hrest
    obtain ⟨c, hc, rfl, -⟩ := Text.cutAt?_eq_some.1 hcut
    rw [beq_iff_eq.1 hc]
    exact ⟨_, _, left, right, x, y, Single.ofLiteral?_eq_some.1 hx, Single.ofLiteral?_eq_some.1 hy,
      Text.around_trim left, Text.around_trim right, rfl, (Option.some.inj hv).symm⟩
  · rintro ⟨xs, ys, left, right, x, y, hx, hy, hleft, hright, rfl, rfl⟩
    -- the comma between the parts is the first one
    have hcomma : ∀ c ∈ left, (c == ',') = false := by
      rintro c hc
      rw [beq_eq_false_iff_ne]
      rintro rfl
      rcases hleft.mem hc with hc | hc
      · exact absurd hc (by decide)
      · exact absurd (hx.chars _ hc) (by decide)
    rw [Text.cutAt?_append right hcomma rfl]
    simp only [Option.bind_eq_bind, Option.bind_some, Option.pure_def,
      Text.trim_of_around hx.word.tight hleft, Text.trim_of_around hy.word.tight hright,
      Single.ofLiteral?_eq_some.2 hx, Single.ofLiteral?_eq_some.2 hy]

theorem meansFloat_integer {cs : List Char} {i : Int} (h : Text.Integer cs i) :
    meansFloat cs = false := by
  have hnot {d : Char} (hd : d ∈ cs) (hdigit : d.isDigit = false) (hplus : d ≠ '+') :
      d ≠ '-' → False := by
    intro hminus
    rcases h.chars d hd with h | h | h
    · exact Text.ne_of_isDigit h hdigit rfl
    · exact hplus h
    · exact hminus h
  simp only [meansFloat, Bool.or_eq_false_iff, List.any_eq_false]
  refine ⟨⟨?_, ?_⟩, ?_⟩
  · rintro c hc hfloat
    simp only [Bool.or_eq_true, beq_iff_eq] at hfloat
    rcases hfloat with (rfl | rfl) | rfl <;> exact hnot hc (by decide) (by decide) (by decide)
  · rw [Bool.eq_false_iff]
    intro hsuffix
    have hmem : 'f' ∈ cs := (List.isSuffixOf_iff_suffix.1 hsuffix).subset (by decide)
    exact hnot hmem (by decide) (by decide) (by decide)
  · rw [beq_eq_false_iff_ne]
    rintro rfl
    exact hnot (List.mem_cons_self ..) (by decide) (by decide) (by decide)

theorem Literal.tight {cs : List Char} {v : Value} (h : Literal cs v) : Text.Tight cs := by
  cases h with
  | true =>
    have hword : Text.Word "true".toList := by decide
    exact hword.tight
  | false =>
    have hword : Text.Word "false".toList := by decide
    exact hword.tight
  | int h => exact h.word.tight
  | float h _ => exact h.word.tight
  | vector _ _ _ _ =>
    refine ⟨?_, ?_⟩ <;> rintro c hc
    · cases hc
      rfl
    · rw [← List.cons_append, List.getLast?_concat] at hc
      cases hc
      rfl

theorem Literal.ne_nil {cs : List Char} {v : Value} (h : Literal cs v) : cs ≠ [] := by
  cases h with
  | true => exact List.cons_ne_nil _ _
  | false => exact List.cons_ne_nil _ _
  | int h => exact h.word.1
  | float h _ => exact h.word.1
  | vector _ _ _ _ => exact List.cons_ne_nil _ _

theorem literal_of_ofText? {cs : List Char} {v : Value} (h : ofText? cs = some v) :
    Literal (Text.trim cs) v := by
  unfold ofText? at h
  dsimp only at h
  generalize Text.trim cs = literal at h ⊢
  split at h
  · rename_i inner hinner
    obtain ⟨xs, ys, left, right, x, y, hx, hy, hleft, hright, rfl, rfl⟩ := vector?_eq_some.1 h
    rw [parenthesized?_eq_some.1 hinner]
    exact .vector hx hy hleft hright
  · split at h
    · rename_i htrue
      cases h
      rw [htrue]
      exact .true
    · split at h
      · rename_i hfalse
        cases h
        rw [hfalse]
        exact .false
      · split at h
        · rename_i hfloat
          obtain ⟨x, hx, rfl⟩ := Option.map_eq_some_iff.1 h
          exact .float (Single.ofLiteral?_eq_some.1 hx) hfloat
        · obtain ⟨i, hi, rfl⟩ := Option.map_eq_some_iff.1 h
          exact .int (Text.integer?_eq_some.1 hi)

/-- No number has a parenthesis, or an `r` or an `s` as the words for truth values have. -/
theorem number_ne_word {literal : List Char}
    (hchars : ∀ c ∈ literal, Single.isLiteralChar c = true) : parenthesized? literal = none ∧
      literal ≠ ['t', 'r', 'u', 'e'] ∧ literal ≠ ['f', 'a', 'l', 's', 'e'] := by
  refine ⟨?_, ?_, ?_⟩
  · rw [Option.eq_none_iff_forall_ne_some]
    rintro inner hinner
    rw [parenthesized?_eq_some.1 hinner] at hchars
    exact absurd (hchars '(' (List.mem_cons_self ..)) (by decide)
  · rintro rfl
    exact absurd (hchars 'r' (by decide)) (by decide)
  · rintro rfl
    exact absurd (hchars 's' (by decide)) (by decide)

/-- Which texts are read as a value, and as which. -/
theorem ofText?_eq_some {cs : List Char} {v : Value} :
    ofText? cs = some v ↔ ∃ literal, Literal literal v ∧ Text.Around literal cs := by
  constructor
  · intro h
    exact ⟨Text.trim cs, literal_of_ofText? h, Text.around_trim cs⟩
  · rintro ⟨literal, h, hcs⟩
    unfold ofText?
    rw [Text.trim_of_around h.tight hcs]
    cases h with
    | true => rfl
    | false => rfl
    | int h =>
      obtain ⟨hvector, htrue, hfalse⟩ := number_ne_word (Single.integer_chars h)
      simp only [hvector, htrue, hfalse, meansFloat_integer h, if_false, Text.integer?_eq_some.2 h,
        Option.map_some, Bool.false_eq_true]
    | float h hfloat =>
      obtain ⟨hvector, htrue, hfalse⟩ := number_ne_word h.chars
      simp only [hvector, htrue, hfalse, hfloat, if_false, if_true, Single.ofLiteral?_eq_some.2 h,
        Option.map_some]
    | vector hx hy hleft hright =>
      dsimp only
      rw [parenthesized?_eq_some.2 rfl]
      exact vector?_eq_some.2 ⟨_, _, _, _, _, _, hx, hy, hleft, hright, rfl, rfl⟩

/-! ### What is written -/

theorem intText_integer (i : Int64) : Text.Integer (intText i) i.toInt := by
  have hdigits := Text.digits_digitsOf i.toInt.natAbs
  unfold intText
  by_cases hi : i.toInt < 0
  · rw [if_pos hi]
    exact .inr ⟨_, i.toInt.natAbs, rfl, hdigits, by omega⟩
  · rw [if_neg hi]
    exact .inl ⟨i.toInt.natAbs, .inl hdigits, by omega⟩

/-- A number that is displayed has a point or an exponent. -/
theorem write_displayLayout (negative : Bool) (d : Decimal) :
    (Single.displayLayout.write negative d).fraction ≠ [] ∨
      (Single.displayLayout.write negative d).exponent ≠ none := by
  unfold Layout.write
  split
  · left
    unfold Layout.plain
    dsimp only
    split
    · exact List.cons_ne_nil _ _
    · rename_i hexponent
      rw [← List.length_pos_iff, List.length_append, List.length_replicate, List.length_drop]
      have hlen := List.length_pos_iff.2 (digitsOf_ne_nil d.digits)
      omega
  · exact .inr nofun

theorem meansFloat_display (x : Single) : meansFloat x.display = true := by
  cases x with
  | finite negative code =>
    have hlooks {n : Numeral} (h : n.fraction ≠ [] ∨ n.exponent ≠ none) :
        meansFloat (n.text false) = true := by
      have hchar : ∃ c ∈ n.text false, c = '.' ∨ c = 'e' := by
        rcases h with h | h
        · exact ⟨'.', by simp [Numeral.text, h], .inl rfl⟩
        · obtain ⟨e, he⟩ := Option.ne_none_iff_exists'.1 h
          exact ⟨'e', by simp [Numeral.text, Numeral.exponentText, he], .inr rfl⟩
      obtain ⟨c, hc, hpoint⟩ := hchar
      have hany : (n.text false).any (fun c => c == '.' || c == 'e' || c == 'E') = true := by
        rw [List.any_eq_true]
        exact ⟨c, hc, by rcases hpoint with rfl | rfl <;> rfl⟩
      simp [meansFloat, hany]
    exact hlooks (write_displayLayout negative _)
  | infinite negative => cases negative <;> rfl
  | nan => rfl

/-- The text of a value is a literal of that value. -/
theorem text_literal (v : Value) : Literal v.text v := by
  cases v with
  | int i => exact .int (intText_integer i)
  | float x => exact .float (x.textIn_literal _) (meansFloat_display x)
  | vector v =>
    have hspace : Text.Blank [' '] := by decide
    have h := Literal.vector (v.x.textIn_literal _) (v.y.textIn_literal _) (.refl v.x.display)
      (.behind hspace v.y.display)
    simpa [text, Vec2.text] using h
  | bool b =>
    cases b with
    | false => exact .false
    | true => exact .true

end Value

end Inversion
