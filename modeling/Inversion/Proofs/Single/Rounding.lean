import Mathlib.Tactic.NormNum
import Inversion.Single.Decimal
import Inversion.Proofs.Numeral

/-!
Rounding to a binary format. A number of the format is rounded to its own code, and rounding depends on
nothing but the value that is rounded: it makes no difference in which way a fraction or a decimal is
written. So the shortest decimal of a number reads back as that number, in whatever layout it is
written.
-/

namespace Inversion

namespace Format

theorem roundHalfEven_scale {k : Nat} (hk : 0 < k) (num den : Nat) :
    roundHalfEven (k * num) (k * den) = roundHalfEven num den := by
  have hlt (a b : Nat) : a * (k * b) < k * den ↔ a * b < den := by
    rw [Nat.mul_left_comm, Nat.mul_lt_mul_left hk]
  have hgt (a b : Nat) : k * den < a * (k * b) ↔ den < a * b := by
    rw [Nat.mul_left_comm, Nat.mul_lt_mul_left hk]
  simp only [roundHalfEven, Nat.mul_div_mul_left num den hk, Nat.mul_mod_mul_left, hlt, hgt]

theorem nearest_scale (f : Format) {k : Nat} (hk : 0 < k) (num den : Nat) :
    f.nearest (k * num) (k * den) = f.nearest num den := by
  simp only [nearest, Nat.mul_div_mul_left num den hk, Nat.mul_assoc, roundHalfEven_scale hk]

/-- Fractions of one value are rounded to one code. -/
theorem nearest_congr (f : Format) {a b c d : Nat} (hb : 0 < b) (hd : 0 < d) (h : a * d = c * b) :
    f.nearest a b = f.nearest c d := by
  rw [← f.nearest_scale hd a b, ← f.nearest_scale hb c d, Nat.mul_comm d a, h, Nat.mul_comm c b,
    Nat.mul_comm d b]

theorem roundHalfEven_exact {den : Nat} (hden : 0 < den) (n : Nat) :
    roundHalfEven (n * den) den = n := by
  simp only [roundHalfEven, Nat.mul_div_cancel n hden, Nat.mul_mod_left, Nat.mul_zero, hden, if_true]

/-- The first two binades are spaced by one unit. -/
theorem units_of_lt {f : Format} {code : Nat} (h : code < 2 ^ (f.fractionBits + 1)) :
    f.units code = code := by
  have hcode := Nat.div_add_mod code (2 ^ f.fractionBits)
  rw [units, Nat.pow_eq]
  split
  · rfl
  · rename_i hge
    rw [Nat.pow_succ] at h
    have hone : code / 2 ^ f.fractionBits = 1 := Nat.div_eq_of_lt_le (by omega) (by omega)
    rw [hone] at hcode ⊢
    simp only [Nat.sub_self, Nat.pow_eq, Nat.pow_zero, Nat.mul_one]
    omega

/-- From the third binade on the spacing is the power of two that the binade gives. -/
theorem units_of_ge {f : Format} {code : Nat} (h : 2 ^ (f.fractionBits + 1) ≤ code) :
    ∃ e r, r < 2 ^ f.fractionBits ∧ code = 2 ^ f.fractionBits * (e + 2) + r ∧
      f.units code = (2 ^ f.fractionBits + r) * 2 ^ (e + 1) := by
  have hpos : 0 < 2 ^ f.fractionBits := Nat.two_pow_pos _
  obtain ⟨e, he⟩ : ∃ e, code / 2 ^ f.fractionBits = e + 2 := by
    have htwo : 2 ≤ code / 2 ^ f.fractionBits := by
      rw [Nat.le_div_iff_mul_le hpos]
      rwa [Nat.pow_succ, Nat.mul_comm] at h
    exact ⟨code / 2 ^ f.fractionBits - 2, by omega⟩
  have hge : ¬ code < 2 ^ f.fractionBits := by
    rw [Nat.pow_succ] at h
    omega
  refine ⟨e, code % 2 ^ f.fractionBits, Nat.mod_lt code hpos, ?_, ?_⟩
  · rw [← he, Nat.div_add_mod]
  · simp only [units, Nat.pow_eq, hge, if_false, he]
    rfl

theorem log2_scaled {k r : Nat} (hr : r < 2 ^ k) (e : Nat) : ((2 ^ k + r) * 2 ^ e).log2 = k + e := by
  refine (Nat.log2_eq_iff (by positivity)).2 ⟨?_, ?_⟩
  · rw [Nat.pow_add]
    exact Nat.mul_le_mul_right _ (Nat.le_add_right _ _)
  · have hsum : 2 ^ k + r < 2 ^ (k + 1) := by
      rw [Nat.pow_succ]
      omega
    calc (2 ^ k + r) * 2 ^ e < 2 ^ (k + 1) * 2 ^ e :=
          Nat.mul_lt_mul_of_pos_right hsum (Nat.two_pow_pos _)
      _ = 2 ^ (k + e + 1) := by ring

/-- A number of the format is rounded to its own code. -/
theorem nearest_units (f : Format) (code : Nat) : f.nearest (f.units code) 1 = code := by
  rcases Nat.lt_or_ge code (2 ^ (f.fractionBits + 1)) with hlow | hhigh
  · simp only [nearest, units_of_lt hlow, Nat.div_one, Nat.pow_eq, hlow, if_true, Nat.pow_zero,
      Nat.mul_one, Nat.zero_mul, Nat.add_zero]
    simpa using roundHalfEven_exact Nat.one_pos code
  · obtain ⟨e, r, hr, hcode, hunits⟩ := units_of_ge hhigh
    have hlog : (f.units code).log2 = f.fractionBits + (e + 1) := by
      rw [hunits, log2_scaled hr]
    have hbig : ¬ f.units code < 2 ^ (f.fractionBits + 1) := by
      rw [← Nat.log2_lt (by rw [hunits]; positivity), hlog]
      omega
    simp only [nearest, Nat.div_one, Nat.pow_eq, hbig, if_false, hlog, Nat.add_sub_cancel_left,
      Nat.one_mul]
    rw [hunits, roundHalfEven_exact (Nat.two_pow_pos _), hcode]
    ring

end Format

/-! ### Decimals of single precision numbers -/

namespace Single

theorem ofUnits_congr (negative : Bool) {a b c d : Nat} (hb : 0 < b) (hd : 0 < d)
    (h : a * d = c * b) : ofUnits negative a b = ofUnits negative c d := by
  simp only [ofUnits, Format.single.nearest_congr hb hd h]

/-- Between the huge decimals and the tiny ones, a decimal is rounded as any fraction of its value. -/
theorem ofDecimal_eq_ofUnits (negative : Bool) {d : Decimal} {num den : Nat} (hd : d.digits ≠ 0)
    (hlow : -45 ≤ d.place) (hhigh : d.place ≤ 39) (hden : 0 < den)
    (h : d.value * (2 ^ 149 : ℚ) = num / den) : ofDecimal negative d = ofUnits negative num den := by
  have hdenq : (den : ℚ) ≠ 0 := by exact_mod_cast hden.ne'
  have hunits : (Format.single.unitsPerOne : ℚ) = 2 ^ 149 := by norm_num [Format.single]
  rw [eq_div_iff hdenq, ← hunits, Decimal.value] at h
  unfold ofDecimal
  rw [if_neg (by omega), if_neg (by omega)]
  split
  · rename_i hexp
    obtain ⟨e, he⟩ := Int.eq_ofNat_of_zero_le hexp
    refine ofUnits_congr negative Nat.one_pos hden ?_
    rw [he, zpow_natCast] at h
    rw [he, Int.toNat_natCast, Nat.pow_eq, Nat.mul_one]
    exact_mod_cast h
  · rename_i hexp
    obtain ⟨e, he⟩ : ∃ e : Nat, d.exponent = -(e : Int) := ⟨d.exponent.natAbs, by omega⟩
    refine ofUnits_congr negative (by rw [Nat.pow_eq]; positivity) hden ?_
    have hten : (10 : ℚ) ^ e ≠ 0 := by positivity
    rw [he, zpow_neg, zpow_natCast] at h
    field_simp at h
    rw [he, Int.natAbs_neg, Int.natAbs_natCast, Nat.pow_eq]
    have h' : (d.digits : ℚ) * Format.single.unitsPerOne * den = num * 10 ^ e := by linarith
    exact_mod_cast h'

/-- What a decimal is rounded to depends on nothing but its value. -/
theorem ofDecimal_congr (negative : Bool) {a b : Decimal} (h : a.value = b.value) :
    ofDecimal negative a = ofDecimal negative b := by
  by_cases ha : a.digits = 0
  · have hb : b.digits = 0 := by rwa [← b.value_eq_zero_iff, ← h, a.value_eq_zero_iff]
    rw [ofDecimal, ofDecimal, if_pos (.inl ha), if_pos (.inl hb)]
  · have hb : b.digits ≠ 0 := by rwa [ne_eq, ← b.value_eq_zero_iff, ← h, a.value_eq_zero_iff]
    have hplace := Decimal.place_congr ha h
    by_cases hlow : a.place < -45
    · rw [ofDecimal, ofDecimal, if_pos (.inr hlow), if_pos (.inr (hplace ▸ hlow))]
    by_cases hhigh : 39 < a.place
    · rw [ofDecimal, ofDecimal, if_neg (by simp [ha, hlow]), if_pos hhigh,
        if_neg (by simp [hb, ← hplace, hlow]), if_pos (hplace ▸ hhigh)]
    · have hnum : 0 ≤ a.value * 2 ^ 149 := by
        unfold Decimal.value
        positivity
      have hfraction : a.value * (2 ^ 149 : ℚ)
          = ((a.value * 2 ^ 149).num.natAbs : Nat) / ((a.value * 2 ^ 149).den : Nat) := by
        conv_lhs => rw [← Rat.num_div_den (a.value * 2 ^ 149)]
        congr 1
        rw [← Int.cast_natCast, Int.natAbs_of_nonneg (Rat.num_nonneg.2 hnum)]
      rw [ofDecimal_eq_ofUnits negative ha (by omega) (by omega) (Rat.den_pos _) hfraction,
        ofDecimal_eq_ofUnits negative hb (by omega) (by omega) (Rat.den_pos _) (h ▸ hfraction), h]

theorem ofUnits_magnitude (negative : Bool) (code : Fin Format.single.limit) :
    ofUnits negative (magnitude code) 1 = finite negative code := by
  simp only [ofUnits, magnitude, Format.nearest_units, code.isLt, dif_pos]

theorem magnitude_lt (code : Fin Format.single.limit) : magnitude code < 2 ^ 128 * 2 ^ 149 := by
  obtain ⟨code, hcode⟩ := code
  have hcode : code < 0x7F800000 := hcode
  have hunits : Format.single.units code
      = if code < 2 ^ 23 then code else (2 ^ 23 + code % 2 ^ 23) * 2 ^ (code / 2 ^ 23 - 1) := rfl
  rw [magnitude, hunits]
  by_cases hlow : code < 2 ^ 23
  · rw [if_pos hlow]
    exact Nat.lt_trans hlow (by norm_num)
  · rw [if_neg hlow]
    have hdiv : code / 2 ^ 23 - 1 ≤ 253 := by omega
    have hmod := Nat.mod_lt code (Nat.two_pow_pos 23)
    calc (2 ^ 23 + code % 2 ^ 23) * 2 ^ (code / 2 ^ 23 - 1)
        < 2 ^ 24 * 2 ^ (code / 2 ^ 23 - 1) :=
          Nat.mul_lt_mul_of_pos_right (by omega) (Nat.two_pow_pos _)
      _ ≤ 2 ^ 24 * 2 ^ 253 := Nat.mul_le_mul_left _ (Nat.pow_le_pow_right (by decide) hdiv)
      _ = 2 ^ 128 * 2 ^ 149 := by norm_num

theorem magnitude_pos {code : Fin Format.single.limit} (h : code.val ≠ 0) : 0 < magnitude code := by
  simp only [magnitude, Format.units, Nat.pow_eq]
  split
  · omega
  · positivity

theorem exactDecimal_value (code : Fin Format.single.limit) :
    (exactDecimal code).value = magnitude code / 2 ^ 149 := by
  simp only [exactDecimal, Decimal.value, Nat.pow_eq]
  push_cast
  rw [show (10 : ℚ) = 2 * 5 by norm_num, zpow_neg, mul_zpow]
  have htwo : (2 : ℚ) ^ (149 : Int) = 2 ^ 149 := zpow_natCast 2 149
  have hfive : (5 : ℚ) ^ (149 : Int) = 5 ^ 149 := zpow_natCast 5 149
  rw [htwo, hfive]
  norm_num
  ring

/-- A decimal with every digit of a number reads back as the number. -/
theorem ofDecimal_exactDecimal (negative : Bool) {code : Fin Format.single.limit}
    (h : code.val ≠ 0) : ofDecimal negative (exactDecimal code) = finite negative code := by
  have hpos := magnitude_pos h
  have hdigits : (exactDecimal code).digits ≠ 0 := by
    simp only [exactDecimal, Nat.pow_eq]
    positivity
  have hvalue := exactDecimal_value code
  have hlow : ¬ (exactDecimal code).place ≤ -46 := by
    rw [Decimal.place_le_iff hdigits, hvalue, not_lt]
    have hone : (1 : ℚ) ≤ magnitude code := by exact_mod_cast hpos
    calc (10 : ℚ) ^ (-46 : Int) ≤ 1 / 2 ^ 149 := by norm_num
      _ ≤ magnitude code / 2 ^ 149 := by gcongr
  have hhigh : (exactDecimal code).place ≤ 39 := by
    rw [Decimal.place_le_iff hdigits, hvalue]
    have hlt : (magnitude code : ℚ) < 2 ^ 128 * 2 ^ 149 := by exact_mod_cast magnitude_lt code
    calc (magnitude code / 2 ^ 149 : ℚ) < 2 ^ 128 * 2 ^ 149 / 2 ^ 149 := by gcongr
      _ = 2 ^ 128 := by rw [mul_div_assoc, div_self (by positivity), mul_one]
      _ ≤ 10 ^ (39 : Int) := by norm_num
  have hunits : (exactDecimal code).value * (2 ^ 149 : ℚ) = (magnitude code : ℕ) / (1 : ℕ) := by
    rw [hvalue, Nat.cast_one, div_one, div_mul_cancel₀ _ (by positivity)]
  rw [ofDecimal_eq_ofUnits negative hdigits (by omega) hhigh Nat.one_pos hunits, ofUnits_magnitude]

/-- The sign of a decimal is carried along. -/
theorem ofDecimal_true (d : Decimal) : ofDecimal true d = (ofDecimal false d).negate := by
  have hunits (num den : Nat) : ofUnits true num den = (ofUnits false num den).negate := by
    simp only [ofUnits]
    split <;> rfl
  unfold ofDecimal
  repeat' split
  all_goals first
    | rfl
    | exact hunits _ _

theorem ofDecimal_of_readsBack {code : Fin Format.single.limit} {d : Decimal}
    (h : readsBack code d = true) (negative : Bool) : ofDecimal negative d = finite negative code := by
  rw [readsBack, decide_eq_true_eq] at h
  cases negative with
  | false => exact h
  | true => rw [ofDecimal_true, h]; rfl

theorem onGrid?_readsBack {tie : Tie} {code : Fin Format.single.limit} {exponent : Int} {d : Decimal}
    (h : onGrid? tie code exponent = some d) : readsBack code d = true := by
  unfold onGrid? at h
  extract_lets num den lower upper remainder at h
  -- whichever neighbour is taken, it has been read back before
  cases hlower : readsBack code lower <;> cases hupper : readsBack code upper <;>
    simp only [hlower, hupper] at h
  case false.false => cases h
  case false.true => rwa [← Option.some.inj h]
  case true.false => rwa [← Option.some.inj h]
  case true.true =>
    have hboth : d = lower ∨ d = upper := by
      cases tie <;> grind
    rcases hboth with hd | hd
    · rw [hd, hlower]
    · rw [hd, hupper]

/-- The shortest decimal of a number reads back as the number. -/
theorem ofDecimal_shortest (tie : Tie) (negative : Bool) (code : Fin Format.single.limit) :
    ofDecimal negative (shortest tie code) = finite negative code := by
  unfold shortest
  split
  · rename_i h
    have hcode : code = ⟨0, by decide⟩ := Fin.ext h
    rw [hcode]
    rfl
  · rename_i h
    rw [ofDecimal_congr negative (Decimal.value_trimmed _ _)]
    cases hfound : (List.range 9).findSome? fun n => onGrid? tie code (leadingPlace code - (n + 1 : Nat)) with
    | none => exact ofDecimal_exactDecimal negative h
    | some d =>
      obtain ⟨n, -, hn⟩ := List.exists_of_findSome?_eq_some hfound
      exact ofDecimal_of_readsBack (onGrid?_readsBack hn) negative

/-- So does the shortest decimal in any layout. -/
theorem ofDecimal_write_shortest (l : Layout) (tie : Tie) (negative : Bool)
    (code : Fin Format.single.limit) :
    ofDecimal negative (l.write negative (shortest tie code)).decimal = finite negative code := by
  rw [ofDecimal_congr negative (l.write_value negative _), ofDecimal_shortest]

end Single

end Inversion
