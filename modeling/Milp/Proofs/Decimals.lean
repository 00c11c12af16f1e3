import Milp.Decimal.Shortest
import Milp.Proofs.Rounding

/-! Decimals: reading one is rounding the number that it stands for, and the fewest digits that are
found for a double read back as that double. -/
namespace Milp

open Binary64

variable {mantissa num den : Nat} {exponent : Int} {tie : Tie} {x : Float}

theorem Binary64.fraction_eq :
    0 < (fraction mantissa exponent).2 ∧
      ((fraction mantissa exponent).1 : ℚ) / (fraction mantissa exponent).2 =
        (mantissa : ℚ) * 2 ^ exponent := by
  unfold fraction
  simp only [Nat.pow_eq]
  split
  case isTrue he =>
    refine ⟨Nat.one_pos, ?_⟩
    rw [Nat.cast_one, div_one]
    exact (mul_zpow_of_nonneg mantissa 2 he).symm
  case isFalse he => exact ⟨Nat.two_pow_pos _, (mul_zpow_of_neg mantissa 2 he).symm⟩

theorem Binary64.Canonical.nearest (h : Canonical mantissa exponent) :
    Binary64.nearest (fraction mantissa exponent).1 (fraction mantissa exponent).2 =
      magnitude mantissa exponent := by
  rw [nearest_eq_ofRat fraction_eq.1, fraction_eq.2, h.ofRat]

namespace Decimal

variable {d : Decimal}

theorem toRat_eq (d : Decimal) : d.toRat = (d.coefficient : ℚ) * 10 ^ d.exponent := by
  obtain ⟨c, e⟩ := d
  unfold toRat
  simp only [Nat.pow_eq]
  split
  case isTrue he => exact (mul_zpow_of_nonneg c 10 he).symm
  case isFalse he =>
    rw [Rat.mkRat_eq_div]
    exact (mul_zpow_of_neg c 10 he).symm

theorem lt_pow_digitCount (n : Nat) : n < 10 ^ digitCount n :=
  (Nat.length_toDigits_le_iff (by decide) Nat.length_toDigits_pos).mp (Nat.le_refl _)

theorem two_zpow_le_ten_zpow {n : ℤ} (hn : 0 ≤ n) : (2 : ℚ) ^ (3 * n) ≤ 10 ^ n := by
  rw [zpow_mul]
  exact zpow_le_zpow_left₀ hn (by positivity) (by norm_num)

theorem ten_zpow_le_two_zpow {n : ℤ} (hn : n ≤ 0) : (10 : ℚ) ^ n ≤ 2 ^ (3 * n) := by
  have h := two_zpow_le_ten_zpow (n := -n) (by omega)
  rw [mul_neg, zpow_neg, zpow_neg] at h
  exact (inv_le_inv₀ (by positivity) (by positivity)).mp h

/-- A decimal is read as the double nearest to the number that it stands for. Those that are cut off
first are rounded to the same doubles. -/
theorem toFloat_eq_ofRat (d : Decimal) : d.toFloat = ofRat d.toRat := by
  rw [toRat_eq]
  obtain ⟨c, e⟩ := d
  unfold toFloat
  simp only [Nat.pow_eq]
  by_cases hc : c = 0
  · rw [if_pos hc, hc, Nat.cast_zero, zero_mul]
    rfl
  have hpos : (1 : ℚ) ≤ c := by exact_mod_cast Nat.pos_of_ne_zero hc
  rw [if_neg hc]
  split
  case isTrue hlarge =>
    refine (ofRat_of_large ?_).symm
    calc (2 : ℚ) ^ (1025 : ℤ) ≤ 2 ^ (3 * e) := zpow_le_zpow_right₀ (by norm_num) (by omega)
      _ ≤ 10 ^ e := two_zpow_le_ten_zpow (by omega)
      _ ≤ c * 10 ^ e := le_mul_of_one_le_left (by positivity) hpos
  split
  case isTrue hsmall =>
    refine (ofRat_of_small (by positivity) ?_).symm
    have hlt : (c : ℚ) < 10 ^ (digitCount c : ℤ) := by
      rw [zpow_natCast]
      exact_mod_cast lt_pow_digitCount c
    calc (c : ℚ) * 10 ^ e < 10 ^ (digitCount c : ℤ) * 10 ^ e := by gcongr
      _ = 10 ^ (e + digitCount c) := by rw [mul_comm, zpow_add₀ (by norm_num)]
      _ ≤ 2 ^ (3 * (e + digitCount c)) := ten_zpow_le_two_zpow (by omega)
      _ ≤ 2 ^ (-1075 : ℤ) := zpow_le_zpow_right₀ (by norm_num) (by omega)
  split
  case isTrue he =>
    rw [nearest_eq_ofRat Nat.one_pos, Nat.cast_one, div_one]
    exact congrArg ofRat (mul_zpow_of_nonneg c 10 he).symm
  case isFalse he =>
    rw [nearest_eq_ofRat (by positivity)]
    exact congrArg ofRat (mul_zpow_of_neg c 10 he).symm

theorem toRat_exact (mantissa : Nat) (exponent : Int) :
    (exact mantissa exponent).toRat = (mantissa : ℚ) * 2 ^ exponent := by
  rw [toRat_eq]
  unfold exact
  simp only [Nat.pow_eq]
  split
  case isTrue he =>
    rw [zpow_zero, mul_one]
    exact (mul_zpow_of_nonneg mantissa 2 he).symm
  case isFalse he =>
    obtain ⟨n, hn⟩ := Int.eq_ofNat_of_zero_le (show 0 ≤ -exponent by omega)
    obtain rfl : exponent = -n := by omega
    have hten : (10 : ℚ) ^ n = 5 ^ n * 2 ^ n := by rw [← mul_pow]; norm_num
    rw [neg_neg, Int.toNat_natCast, zpow_neg, zpow_natCast, zpow_neg, zpow_natCast, hten]
    push_cast
    field_simp

/-- What a grid offers reads back. -/
theorem onGrid?_eq_some (h : onGrid? tie x num den exponent = some d) :
    (d.toFloat == x) = true ∧ d.coefficient ≠ 0 := by
  have hhigh : (gridNeighbours num den exponent).2.1.coefficient ≠ 0 := Nat.succ_ne_zero _
  unfold onGrid? at h
  revert h hhigh
  generalize gridNeighbours num den exponent = grid
  obtain ⟨low, high, rest, unit⟩ := grid
  intro h hhigh
  have hlow (hl : (low.toFloat == x && low.coefficient != 0) = true) :
      (low.toFloat == x) = true ∧ low.coefficient ≠ 0 := by simpa using hl
  simp only at h hhigh
  split at h
  case h_1 hl hh =>
    -- Both read back, and the nearer one is taken.
    have hor : d = low ∨ d = high := by
      split at h
      · exact .inl (Option.some.inj h).symm
      · split at h
        · exact .inr (Option.some.inj h).symm
        · cases tie with
          | up => exact .inr (Option.some.inj h).symm
          | even =>
            have heven := (Option.some.inj h).symm
            split at heven
            · exact .inl heven
            · exact .inr heven
    rcases hor with rfl | rfl
    · exact hlow hl
    · exact ⟨hh, hhigh⟩
  case h_2 hl hh =>
    cases h
    exact hlow hl
  case h_3 hl hh =>
    cases h
    exact ⟨hh, hhigh⟩
  case h_4 => cases h

/-- The fewest digits that read back do read back. -/
theorem toFloat_shortest (tie : Tie) (hm : 0 < mantissa) (h : Canonical mantissa exponent) :
    (shortest tie mantissa exponent).toFloat = magnitude mantissa exponent ∧
      (shortest tie mantissa exponent).coefficient ≠ 0 := by
  unfold shortest
  simp only [h.nearest]
  cases hfind : (List.range 17).findSome? fun (n : Nat) =>
      onGrid? tie (magnitude mantissa exponent) (fraction mantissa exponent).1
        (fraction mantissa exponent).2
        (pointPosition (fraction mantissa exponent).1 (fraction mantissa exponent).2 - (n + 1 : Nat)) with
  | some d =>
    obtain ⟨n, -, hn⟩ := List.exists_of_findSome?_eq_some hfind
    obtain ⟨hreads, hne⟩ := onGrid?_eq_some hn
    exact ⟨eq_magnitude_of_beq hm h hreads, hne⟩
  | none =>
    refine ⟨?_, ?_⟩
    · change (exact mantissa exponent).toFloat = _
      rw [toFloat_eq_ofRat, toRat_exact, h.ofRat]
    · change (exact mantissa exponent).coefficient ≠ 0
      unfold exact
      split
      · exact (Nat.mul_pos hm (Nat.pow_pos (by decide))).ne'
      · exact (Nat.mul_pos hm (Nat.pow_pos (by decide))).ne'

end Decimal
end Milp
