import Mathlib.Algebra.Order.Field.Power
import Mathlib.Data.Rat.Cast.Order
import Mathlib.Tactic.FieldSimp
import Mathlib.Tactic.Linarith
import Mathlib.Tactic.Positivity
import Mathlib.Tactic.Ring
import Inversion.Numeral

/-!
What written numbers are worth. Digits stand for a natural number and a decimal for a rational one; a
layout decides how a decimal is written and never what it is worth. The place of the leading digit
tells between which two powers of ten a decimal lies, so it is the same for all decimals of one value.
-/

namespace Inversion

/-! ### Digits -/

theorem valueOf_eq (cs : List Char) : valueOf cs = Nat.ofDigitChars 10 cs 0 :=
  Nat.ofDigitChars_eq_foldl.symm

@[simp] theorem valueOf_digitsOf (n : Nat) : valueOf (digitsOf n) = n := by
  rw [valueOf_eq, digitsOf, Nat.ofDigitChars_ten_toDigits]

@[simp] theorem valueOf_nil : valueOf [] = 0 := rfl

theorem valueOf_append (a b : List Char) :
    valueOf (a ++ b) = 10 ^ b.length * valueOf a + valueOf b := by
  simp only [valueOf_eq, Nat.ofDigitChars_append]
  exact Nat.ofDigitChars_eq_ofDigitChars_zero

@[simp] theorem valueOf_zeros (n : Nat) (cs : List Char) :
    valueOf (List.replicate n '0' ++ cs) = valueOf cs := by
  rw [valueOf_eq, Nat.ofDigitChars_append, Nat.ofDigitChars_replicate_zero, Nat.mul_zero, ← valueOf_eq]

theorem isDigit_of_mem_digitsOf {n : Nat} {c : Char} (h : c ∈ digitsOf n) : c.isDigit = true :=
  Nat.isDigit_of_mem_toDigits (by decide) (by decide) h

theorem digitsOf_ne_nil (n : Nat) : digitsOf n ≠ [] := Nat.toDigits_ne_nil

theorem digitsOf_length_le_iff {n k : Nat} (hk : 0 < k) : (digitsOf n).length ≤ k ↔ n < 10 ^ k :=
  Nat.length_toDigits_le_iff (by decide) hk

/-- A number other than zero is written without a zero in front. -/
theorem digitsOf_head? {n : Nat} (hn : n ≠ 0) : (digitsOf n).head? ≠ some '0' := by
  induction n using Nat.strongRecOn with
  | _ n ih =>
    rcases Nat.lt_or_ge n 10 with hlt | hge
    · rw [digitsOf, Nat.toDigits_of_lt_base hlt, List.head?_cons, ne_eq, Option.some.injEq,
        Nat.digitChar_eq_zero]
      exact hn
    · have hhead : (digitsOf n).head? = (digitsOf (n / 10)).head? := by
        rw [digitsOf, Nat.toDigits_of_base_le (by decide) hge]
        exact List.head?_append_of_ne_nil _ (digitsOf_ne_nil (n / 10))
      rw [hhead]
      exact ih (n / 10) (by omega) (by omega)

/-! ### Decimals -/

namespace Decimal

/-- The number that a decimal stands for. -/
def value (d : Decimal) : ℚ := d.digits * 10 ^ d.exponent

theorem value_eq_zero_iff (d : Decimal) : d.value = 0 ↔ d.digits = 0 := by
  have hpow : (10 : ℚ) ^ d.exponent ≠ 0 := by positivity
  simp [value, hpow]

/-- Which power of ten a decimal stays below. -/
theorem place_le_iff {d : Decimal} (hd : d.digits ≠ 0) (k : Int) :
    d.place ≤ k ↔ d.value < 10 ^ k := by
  have hpow : (0 : ℚ) < 10 ^ d.exponent := by positivity
  have hk : (10 : ℚ) ^ k = 10 ^ (k - d.exponent) * 10 ^ d.exponent := by
    rw [← zpow_add₀ (by norm_num), sub_add_cancel]
  rw [value, hk, mul_lt_mul_iff_left₀ hpow, place]
  rcases lt_or_ge 0 (k - d.exponent) with hpos | hneg
  · obtain ⟨m, hm⟩ := Int.eq_ofNat_of_zero_le hpos.le
    have hlen : (digitsOf d.digits).length + d.exponent ≤ k ↔ (digitsOf d.digits).length ≤ m := by
      omega
    rw [hlen, digitsOf_length_le_iff (by omega), hm, zpow_natCast]
    exact_mod_cast Iff.rfl
  · -- below one there is no decimal of so many digits
    have hlen := List.length_pos_iff.2 (digitsOf_ne_nil d.digits)
    have hone : (1 : ℚ) ≤ d.digits := by exact_mod_cast Nat.one_le_iff_ne_zero.2 hd
    have hle : (10 : ℚ) ^ (k - d.exponent) ≤ 1 := zpow_le_one_of_nonpos₀ (by norm_num) hneg
    constructor
    · intro h
      omega
    · intro h
      linarith

/-- The place of the leading digit depends on nothing but the value. -/
theorem place_congr {a b : Decimal} (ha : a.digits ≠ 0) (h : a.value = b.value) :
    a.place = b.place := by
  have hb : b.digits ≠ 0 := by rwa [ne_eq, ← value_eq_zero_iff, ← h, value_eq_zero_iff]
  have hle (k : Int) : a.place ≤ k ↔ b.place ≤ k := by
    rw [place_le_iff ha, place_le_iff hb, h]
  exact le_antisymm ((hle _).2 le_rfl) ((hle _).1 le_rfl)

@[simp] theorem value_trimmed (bound : Nat) (d : Decimal) : (d.trimmed bound).value = d.value := by
  induction bound generalizing d with
  | zero => rfl
  | succ bound ih =>
    unfold trimmed
    split
    · rename_i h
      have hten : d.digits = d.digits / 10 * 10 := by omega
      rw [ih, value, value, zpow_add_one₀ (by norm_num)]
      conv_rhs => rw [hten]
      push_cast
      ring
    · rfl

end Decimal

/-! ### Numerals -/

/-- A numeral with nothing but digits behind its point. -/
def Numeral.Formed (n : Numeral) : Prop := n.fraction.all Char.isDigit = true

namespace Layout

theorem plain_formed (l : Layout) (negative : Bool) (d : Decimal) : (l.plain negative d).Formed := by
  unfold plain Numeral.Formed
  dsimp only
  split
  · cases l.point <;> rfl
  · rw [List.all_append, Bool.and_eq_true, List.all_eq_true, List.all_eq_true]
    refine ⟨?_, fun c hc => isDigit_of_mem_digitsOf (List.mem_of_mem_drop hc)⟩
    rintro c hc
    rw [List.eq_of_mem_replicate hc]
    rfl

theorem scientific_formed (negative : Bool) (d : Decimal) : (scientific negative d).Formed :=
  List.all_eq_true.2 fun _ hc => isDigit_of_mem_digitsOf (List.mem_of_mem_drop hc)

theorem write_formed (l : Layout) (negative : Bool) (d : Decimal) : (l.write negative d).Formed := by
  unfold write
  split
  · exact l.plain_formed negative d
  · exact scientific_formed negative d

@[simp] theorem write_negative (l : Layout) (negative : Bool) (d : Decimal) :
    (l.write negative d).negative = negative := by
  unfold write plain scientific
  split <;> dsimp only
  split <;> rfl

theorem plain_value (l : Layout) (negative : Bool) (d : Decimal) :
    (l.plain negative d).decimal.value = d.value := by
  unfold plain Numeral.decimal
  dsimp only
  split
  · rename_i hexp
    obtain ⟨e, he⟩ := Int.eq_ofNat_of_zero_le hexp
    -- the digit behind the point, if there is one, is a zero
    have hbare : valueOf (if l.point then ['0'] else []) = 0 := by cases l.point <;> rfl
    rw [Decimal.value, Decimal.value, valueOf_append, valueOf_digitsOf, hbare, he]
    dsimp only [Option.getD_none]
    generalize (if l.point then ['0'] else [] : List Char).length = k
    rw [zero_sub, zpow_neg, zpow_natCast, zpow_natCast, Int.toNat_natCast, Nat.pow_eq]
    push_cast
    field_simp
    ring
  · rename_i hexp
    have hdigits := valueOf_digitsOf d.digits
    generalize digitsOf d.digits = ds at hdigits ⊢
    have hfraction : (List.replicate (d.exponent.natAbs - ds.length) '0'
        ++ ds.drop (ds.length - d.exponent.natAbs)).length = d.exponent.natAbs := by
      rw [List.length_append, List.length_replicate, List.length_drop]
      omega
    have hvalue : valueOf (digitsOf (valueOf (ds.take (ds.length - d.exponent.natAbs)))
        ++ (List.replicate (d.exponent.natAbs - ds.length) '0'
          ++ ds.drop (ds.length - d.exponent.natAbs))) = d.digits := by
      rcases Nat.le_total d.exponent.natAbs ds.length with hle | hle
      · rw [Nat.sub_eq_zero_of_le hle, List.replicate_zero, List.nil_append, valueOf_append,
          valueOf_digitsOf, ← valueOf_append, List.take_append_drop, hdigits]
      · rw [Nat.sub_eq_zero_of_le hle, List.take_zero, List.drop_zero, valueOf_append,
          valueOf_digitsOf, valueOf_nil, Nat.mul_zero, Nat.zero_add, valueOf_zeros, hdigits]
    have hexponent : (0 : Int) - (d.exponent.natAbs : Int) = d.exponent := by omega
    dsimp only [Option.getD_none]
    rw [hfraction, hvalue, hexponent]

theorem scientific_decimal (negative : Bool) (d : Decimal) :
    (scientific negative d).decimal = d := by
  have hdigits := valueOf_digitsOf d.digits
  have hlen := List.length_pos_iff.2 (digitsOf_ne_nil d.digits)
  obtain ⟨digits, exponent⟩ := d
  dsimp only at hdigits hlen
  simp only [scientific, Numeral.decimal, Decimal.place, Option.getD_some, Decimal.mk.injEq]
  generalize digitsOf digits = ds at hdigits hlen ⊢
  refine ⟨?_, ?_⟩
  · rw [valueOf_append, valueOf_digitsOf, ← valueOf_append, List.take_append_drop, hdigits]
  · rw [List.length_drop]
    omega

/-- Writing a decimal keeps its value. -/
theorem write_value (l : Layout) (negative : Bool) (d : Decimal) :
    (l.write negative d).decimal.value = d.value := by
  unfold write
  split
  · exact l.plain_value negative d
  · rw [scientific_decimal]

end Layout

end Inversion
