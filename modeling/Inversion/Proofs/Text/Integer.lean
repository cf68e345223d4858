import Inversion.Text.Integer
import Inversion.Proofs.Numeral
import Inversion.Proofs.Text.Cut

/-!
The integers of a text: which texts are read as one, and that the digits of a number are among them.
-/

namespace Inversion.Text

/-- Digits, at least one, and the number that they write. -/
structure Digits (cs : List Char) (n : Nat) : Prop where
  ne_nil : cs ≠ []
  all : ∀ c ∈ cs, c.isDigit = true
  value : valueOf cs = n

/-- A natural number in writing: digits, which a plus sign may precede. -/
def Natural (cs : List Char) (n : Nat) : Prop := Digits cs n ∨ ∃ ds, cs = '+' :: ds ∧ Digits ds n

/-- An integer in writing: a natural number, or digits behind a minus sign. -/
def Integer (cs : List Char) (i : Int) : Prop :=
  (∃ n : Nat, Natural cs n ∧ i = n) ∨ ∃ ds n, cs = '-' :: ds ∧ Digits ds n ∧ i = -(n : Int)

/-! ### Digits -/

theorem isDigit_iff (c : Char) : c.isDigit = true ↔ 48 ≤ c.toNat ∧ c.toNat ≤ 57 := by
  simp only [Char.isDigit, ge_iff_le, Bool.and_eq_true, decide_eq_true_eq, UInt32.le_iff_toNat_le]
  exact Iff.rfl

theorem isBlank_of_isDigit {c : Char} (h : c.isDigit = true) : isBlank c = false := by
  obtain ⟨hlow, hhigh⟩ := (isDigit_iff c).1 h
  simp only [isBlank, Bool.or_eq_false_iff, Bool.and_eq_false_iff, decide_eq_false_iff_not,
    beq_eq_false_iff_ne]
  omega

theorem ne_of_isDigit {c d : Char} (hc : c.isDigit = true) (hd : d.isDigit = false) : c ≠ d := by
  rintro rfl
  rw [hc] at hd
  cases hd

theorem digits_digitsOf (n : Nat) : Digits (digitsOf n) n :=
  ⟨digitsOf_ne_nil n, fun _ => isDigit_of_mem_digitsOf, valueOf_digitsOf n⟩

theorem digits_zeroPadded (width n : Nat) : Digits (zeroPadded width n) n := by
  refine ⟨?_, ?_, ?_⟩
  · simp [zeroPadded, digitsOf_ne_nil]
  · rintro c hc
    rcases List.mem_append.1 hc with hc | hc
    · rw [List.eq_of_mem_replicate hc]
      rfl
    · exact isDigit_of_mem_digitsOf hc
  · rw [zeroPadded, valueOf_zeros, valueOf_digitsOf]

theorem Digits.word {cs : List Char} {n : Nat} (h : Digits cs n) : Word cs :=
  ⟨h.ne_nil, fun c hc => isBlank_of_isDigit (h.all c hc)⟩

theorem digits?_eq_some {cs : List Char} {n : Nat} : digits? cs = some n ↔ Digits cs n := by
  unfold digits?
  split
  · rename_i h
    rw [List.all_eq_true] at h
    exact ⟨fun hn => ⟨h.1, h.2, Option.some.inj hn⟩, fun hn => congrArg some hn.value⟩
  · rename_i h
    rw [List.all_eq_true] at h
    exact ⟨nofun, fun hn => absurd ⟨hn.ne_nil, hn.all⟩ h⟩

theorem digits_sign {c : Char} {cs : List Char} {n : Nat} (hc : c.isDigit = false) :
    ¬ Digits (c :: cs) n := by
  intro h
  have hdigit := h.all c (List.mem_cons_self ..)
  rw [hc] at hdigit
  cases hdigit

/-! ### Integers -/

theorem Natural.word {cs : List Char} {n : Nat} (h : Natural cs n) : Word cs := by
  rcases h with h | ⟨ds, rfl, h⟩
  · exact h.word
  · exact ⟨List.cons_ne_nil _ _, List.forall_mem_cons.2 ⟨by decide, h.word.2⟩⟩

theorem Integer.chars {cs : List Char} {i : Int} (h : Integer cs i) :
    ∀ c ∈ cs, c.isDigit = true ∨ c = '+' ∨ c = '-' := by
  rcases h with ⟨n, h | ⟨ds, rfl, h⟩, -⟩ | ⟨ds, n, rfl, h, -⟩
  · exact fun c hc => .inl (h.all c hc)
  · exact List.forall_mem_cons.2 ⟨.inr (.inl rfl), fun c hc => .inl (h.all c hc)⟩
  · exact List.forall_mem_cons.2 ⟨.inr (.inr rfl), fun c hc => .inl (h.all c hc)⟩

theorem Integer.word {cs : List Char} {i : Int} (h : Integer cs i) : Word cs := by
  rcases h with ⟨n, h, -⟩ | ⟨ds, n, rfl, h, -⟩
  · exact h.word
  · exact ⟨List.cons_ne_nil _ _, List.forall_mem_cons.2 ⟨by decide, h.word.2⟩⟩

theorem natural?_eq_some {bound n : Nat} {cs : List Char} :
    natural? bound cs = some n ↔ Natural cs n ∧ n < bound := by
  unfold natural? Natural
  simp only [Option.filter_eq_some_iff, digits?_eq_some, decide_eq_true_eq]
  refine and_congr_left fun _ => ?_
  split
  · rename_i ds
    constructor
    · rintro h
      exact .inr ⟨ds, rfl, h⟩
    · rintro (h | ⟨_, heq, h⟩)
      · exact absurd h (digits_sign (by decide))
      · cases heq
        exact h
  · rename_i hplus
    constructor
    · exact .inl
    · rintro (h | ⟨ds, rfl, -⟩)
      · exact h
      · exact absurd rfl (hplus ds)

theorem ofInt_eq_iff {v : Int} {i : Int64}
    (h : Int64.minValue.toInt ≤ v ∧ v ≤ Int64.maxValue.toInt) : Int64.ofInt v = i ↔ v = i.toInt := by
  have htoInt : (Int64.ofInt v).toInt = v := Int64.toInt_ofInt_of_le h.1 (by
    have hmax : Int64.maxValue.toInt = 2 ^ 63 - 1 := by decide
    omega)
  constructor
  · rintro rfl
    exact htoInt.symm
  · rintro rfl
    exact Int64.ofInt_toInt i

/-- What digits stand for, if it is in range. -/
theorem ranged_eq_some {ds : List Char} {f : Nat → Int} {i : Int64} :
    (((digits? ds).map f).filter fun i =>
        Int64.minValue.toInt ≤ i ∧ i ≤ Int64.maxValue.toInt).map Int64.ofInt = some i ↔
      ∃ n, Digits ds n ∧ i.toInt = f n := by
  simp only [Option.map_eq_some_iff, Option.filter_eq_some_iff, digits?_eq_some, decide_eq_true_eq]
  constructor
  · rintro ⟨_, ⟨⟨n, hn, rfl⟩, hbound⟩, hi⟩
    exact ⟨n, hn, ((ofInt_eq_iff hbound).1 hi).symm⟩
  · rintro ⟨n, hn, hi⟩
    have hbound : Int64.minValue.toInt ≤ f n ∧ f n ≤ Int64.maxValue.toInt := by
      rw [← hi]
      exact ⟨i.minValue_le_toInt, i.toInt_le⟩
    exact ⟨f n, ⟨⟨n, hn, rfl⟩, hbound⟩, (ofInt_eq_iff hbound).2 hi.symm⟩

theorem integer?_eq_some {cs : List Char} {i : Int64} :
    integer? cs = some i ↔ Integer cs i.toInt := by
  unfold integer? Integer Natural
  dsimp only
  split
  · rename_i ds
    have hneg : Option.map (fun n : Int => -n) (do let n ← digits? ds; pure (n : Int))
        = (digits? ds).map fun n : Nat => -(n : Int) := by
      cases digits? ds <;> rfl
    rw [hneg, ranged_eq_some]
    constructor
    · rintro ⟨n, hn, hi⟩
      exact .inr ⟨ds, n, rfl, hn, hi⟩
    · rintro (⟨n, hn | ⟨_, heq, -⟩, -⟩ | ⟨_, n, heq, hn, hi⟩)
      · exact absurd hn (digits_sign (by decide))
      · cases heq
      · cases heq
        exact ⟨n, hn, hi⟩
  · rename_i ds
    rw [ranged_eq_some]
    constructor
    · rintro ⟨n, hn, hi⟩
      exact .inl ⟨n, .inr ⟨ds, rfl, hn⟩, hi⟩
    · rintro (⟨n, hn | ⟨_, heq, hn⟩, hi⟩ | ⟨_, _, heq, -, -⟩)
      · exact absurd hn (digits_sign (by decide))
      · cases heq
        exact ⟨n, hn, hi⟩
      · cases heq
  · rename_i hminus hplus
    rw [ranged_eq_some]
    constructor
    · rintro ⟨n, hn, hi⟩
      exact .inl ⟨n, .inl hn, hi⟩
    · rintro (⟨n, hn | ⟨ds, rfl, -⟩, hi⟩ | ⟨ds, _, rfl, -, -⟩)
      · exact ⟨n, hn, hi⟩
      · exact absurd rfl (hplus ds)
      · exact absurd rfl (hminus ds)

end Inversion.Text
