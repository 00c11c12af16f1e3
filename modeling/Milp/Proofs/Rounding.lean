import Mathlib.Algebra.Order.Field.Power
import Mathlib.Data.Int.Log
import Mathlib.Data.Rat.Floor
import Mathlib.Tactic.FieldSimp
import Mathlib.Tactic.Linarith
import Mathlib.Tactic.Positivity
import Mathlib.Tactic.Ring
import Milp.Proofs.Bits

/-! Rounding to the nearest double. It depends on the number and not on the fraction that it is
written as, and a number that a double stands for is rounded to that double. -/
namespace Milp.Binary64

variable {num den num' den' : Nat}

theorem divRoundEven_mul_left {k : Nat} (hk : 0 < k) :
    divRoundEven (k * num) (k * den) = divRoundEven num den := by
  unfold divRoundEven
  rw [Nat.mul_div_mul_left _ _ hk, Nat.mul_mod_mul_left]
  have hleft : 2 * (k * (num % den)) = k * (2 * (num % den)) := by ring
  simp only [hleft, Nat.mul_lt_mul_left hk]

/-- Rounding depends on the fraction only, not on how it is written. -/
theorem divRoundEven_congr (hd : 0 < den) (hd' : 0 < den') (h : num * den' = num' * den) :
    divRoundEven num den = divRoundEven num' den' := by
  calc divRoundEven num den
      = divRoundEven (den' * num) (den' * den) := (divRoundEven_mul_left hd').symm
    _ = divRoundEven (den * num') (den * den') := by
        rw [Nat.mul_comm den' num, h, Nat.mul_comm num' den, Nat.mul_comm den' den]
    _ = divRoundEven num' den' := divRoundEven_mul_left hd

theorem divRoundEven_mul_right (hd : 0 < den) : divRoundEven (num * den) den = num := by
  unfold divRoundEven
  simp [Nat.mul_div_cancel _ hd, hd]

theorem two_zpow_le_iff {r : ℚ} (hr : 0 < r) {x : ℤ} : 2 ^ x ≤ r ↔ x ≤ Int.log 2 r := by
  exact_mod_cast Int.zpow_le_iff_le_log Nat.one_lt_two hr

theorem lt_two_zpow_iff {r : ℚ} (hr : 0 < r) {x : ℤ} : r < 2 ^ x ↔ Int.log 2 r < x := by
  exact_mod_cast Int.lt_zpow_iff_log_lt Nat.one_lt_two hr

/-- Whether a power of two is reached is decided on whole numbers. -/
theorem two_zpow_le_div (num : Nat) (hd : 0 < den) (g : ℤ) : (2 : ℚ) ^ g ≤ (num : ℚ) / den ↔
    if 0 ≤ g then den * 2 ^ g.toNat ≤ num else den ≤ num * 2 ^ (-g).toNat := by
  have hden : (0 : ℚ) < den := by exact_mod_cast hd
  rw [le_div_iff₀ hden]
  split
  case isTrue hg =>
    obtain ⟨n, rfl⟩ := Int.eq_ofNat_of_zero_le hg
    rw [Int.toNat_natCast, zpow_natCast, mul_comm]
    exact_mod_cast Iff.rfl
  case isFalse hg =>
    obtain ⟨n, hn⟩ := Int.eq_ofNat_of_zero_le (show 0 ≤ -g by omega)
    obtain rfl : g = -n := by omega
    rw [neg_neg, Int.toNat_natCast, zpow_neg, zpow_natCast, inv_mul_le_iff₀ (by positivity), mul_comm]
    exact_mod_cast Iff.rfl

/-- The power of two at or below a fraction. -/
theorem log2Floor_eq (hn : 0 < num) (hd : 0 < den) : log2Floor num den = Int.log 2 ((num : ℚ) / den) := by
  have hr : (0 : ℚ) < (num : ℚ) / den := by positivity
  have hnlow : (2 : ℚ) ^ num.log2 ≤ num := by exact_mod_cast Nat.log2_self_le (by omega)
  have hnhigh : (num : ℚ) < 2 ^ (num.log2 + 1) := by exact_mod_cast Nat.lt_log2_self
  have hdlow : (2 : ℚ) ^ den.log2 ≤ den := by exact_mod_cast Nat.log2_self_le (by omega)
  have hdhigh : (den : ℚ) < 2 ^ (den.log2 + 1) := by exact_mod_cast Nat.lt_log2_self
  have hlow : (2 : ℚ) ^ ((num.log2 : ℤ) - den.log2 - 1) ≤ (num : ℚ) / den := by
    rw [show (num.log2 : ℤ) - den.log2 - 1 = num.log2 - (den.log2 + 1 : ℕ) by omega,
      zpow_sub₀ two_ne_zero, zpow_natCast, zpow_natCast]
    gcongr
  have hhigh : (num : ℚ) / den < (2 : ℚ) ^ ((num.log2 : ℤ) - den.log2 + 1) := by
    rw [show (num.log2 : ℤ) - den.log2 + 1 = (num.log2 + 1 : ℕ) - den.log2 by omega,
      zpow_sub₀ two_ne_zero, zpow_natCast, zpow_natCast]
    gcongr
  have hreached := two_zpow_le_div num hd ((num.log2 : ℤ) - den.log2)
  rw [two_zpow_le_iff hr] at hlow hreached
  rw [lt_two_zpow_iff hr] at hhigh
  unfold log2Floor
  simp only [Nat.pow_eq, ← hreached]
  split <;> omega

/-- The double nearest to a fraction depends on the number only. -/
theorem nearest_congr (hd : 0 < den) (hd' : 0 < den') (h : num * den' = num' * den) :
    nearest num den = nearest num' den' := by
  have hzero : num = 0 ↔ num' = 0 := by
    constructor
    · rintro rfl
      rw [Nat.zero_mul] at h
      exact (Nat.mul_eq_zero.mp h.symm).resolve_right hd.ne'
    · rintro rfl
      rw [Nat.zero_mul] at h
      exact (Nat.mul_eq_zero.mp h).resolve_right hd'.ne'
  by_cases hn : num = 0
  · unfold nearest
    rw [if_pos hn, if_pos (hzero.mp hn)]
  have hn' : num' ≠ 0 := fun h' => hn (hzero.mpr h')
  have hratio : (num : ℚ) / den = (num' : ℚ) / den' := by
    rw [div_eq_div_iff (by positivity) (by positivity)]
    exact_mod_cast h
  have hlog : log2Floor num den = log2Floor num' den' := by
    rw [log2Floor_eq (by omega) hd, log2Floor_eq (by omega) hd', hratio]
  have hdown (k : Nat) : divRoundEven num (den * 2 ^ k) = divRoundEven num' (den' * 2 ^ k) := by
    apply divRoundEven_congr (by positivity) (by positivity)
    rw [← Nat.mul_assoc, ← Nat.mul_assoc, h]
  have hup (k : Nat) : divRoundEven (num * 2 ^ k) den = divRoundEven (num' * 2 ^ k) den' := by
    apply divRoundEven_congr hd hd'
    rw [Nat.mul_right_comm, h, Nat.mul_right_comm]
  unfold nearest
  simp only [if_neg hn, if_neg hn', Nat.pow_eq, hlog, hdown, hup]

theorem nearest_eq_ofRat (hd : 0 < den) : nearest num den = ofRat ((num : ℚ) / den) := by
  have hr : (0 : ℚ) ≤ (num : ℚ) / den := by positivity
  have hnum : 0 ≤ ((num : ℚ) / den).num := Rat.num_nonneg.mpr hr
  unfold ofRat
  simp only [if_neg (not_lt.mpr hnum)]
  apply nearest_congr hd (Rat.den_pos _)
  have hdiv := Rat.num_div_den ((num : ℚ) / den)
  rw [div_eq_div_iff (by exact_mod_cast (Rat.den_ne_zero _)) (by positivity)] at hdiv
  have habs : ((((num : ℚ) / den).num.natAbs : ℤ)) = ((num : ℚ) / den).num := Int.natAbs_of_nonneg hnum
  have hcast : ((((num : ℚ) / den).num.natAbs * den : ℕ) : ℚ) = (num * ((num : ℚ) / den).den : ℕ) := by
    push_cast
    rw [← hdiv]
    congr 1
    rw [← Int.cast_natCast, habs]
  exact_mod_cast hcast.symm

/-- A number with a power that is no fraction, -/
theorem mul_zpow_of_nonneg (n b : ℕ) {e : ℤ} (he : 0 ≤ e) :
    (n : ℚ) * (b : ℚ) ^ e = (n * b ^ e.toNat : ℕ) := by
  obtain ⟨k, rfl⟩ := Int.eq_ofNat_of_zero_le he
  rw [Int.toNat_natCast, zpow_natCast]
  push_cast
  rfl

/-- and with one that is. -/
theorem mul_zpow_of_neg (n b : ℕ) {e : ℤ} (he : ¬ 0 ≤ e) :
    (n : ℚ) * (b : ℚ) ^ e = (n : ℚ) / (b ^ (-e).toNat : ℕ) := by
  obtain ⟨k, hk⟩ := Int.eq_ofNat_of_zero_le (show 0 ≤ -e by omega)
  obtain rfl : e = -k := by omega
  rw [neg_neg, Int.toNat_natCast, zpow_neg, zpow_natCast, div_eq_mul_inv]
  push_cast
  rfl

variable {mantissa : Nat} {exponent : Int}

/-- The bits of the nearest double, from the power of two at or below the fraction. -/
theorem nearest_of_log {q : Int} (hn : 0 < num) (hd : 0 < den)
    (hq : max (Int.log 2 ((num : ℚ) / den) - 52) (-1074) = q) :
    nearest num den = Float.ofBits (UInt64.ofNat (min (pattern
      (if 0 ≤ q then divRoundEven num (den * 2 ^ q.toNat) else divRoundEven (num * 2 ^ (-q).toNat) den) q)
      (2047 * 2 ^ 52))) := by
  unfold nearest pattern
  simp only [if_neg hn.ne', Nat.pow_eq, log2Floor_eq hn hd, hq]

theorem Canonical.log (hm : 0 < mantissa) (h : Canonical mantissa exponent) :
    max (Int.log 2 ((mantissa : ℚ) * 2 ^ exponent) - 52) (-1074) = exponent := by
  have hr : (0 : ℚ) < (mantissa : ℚ) * 2 ^ exponent := by positivity
  have hp : (0 : ℚ) < 2 ^ exponent := by positivity
  have hhigh : (mantissa : ℚ) * 2 ^ exponent < 2 ^ (exponent + 53) := by
    rw [zpow_add₀ two_ne_zero, mul_comm]
    gcongr
    exact_mod_cast h.bounded
  rw [lt_two_zpow_iff hr] at hhigh
  rcases h.normal with hnormal | rfl
  · have hlow : (2 : ℚ) ^ (exponent + 52) ≤ (mantissa : ℚ) * 2 ^ exponent := by
      rw [zpow_add₀ two_ne_zero, mul_comm]
      gcongr
      exact_mod_cast hnormal
    rw [two_zpow_le_iff hr] at hlow
    have := h.least
    omega
  · omega

/-- A number that a double stands for is rounded to that double. -/
theorem Canonical.ofRat (h : Canonical mantissa exponent) :
    ofRat ((mantissa : ℚ) * 2 ^ exponent) = magnitude mantissa exponent := by
  have hmin : min (pattern mantissa exponent) (2047 * 2 ^ 52) = pattern mantissa exponent :=
    Nat.min_eq_left h.pattern_lt.le
  rcases Nat.eq_zero_or_pos mantissa with rfl | hm
  · obtain rfl : exponent = -1074 := h.normal.resolve_left (by omega)
    rw [Nat.cast_zero, zero_mul]
    rfl
  by_cases he : 0 ≤ exponent
  · have hvalue : (mantissa : ℚ) * 2 ^ exponent = (mantissa * 2 ^ exponent.toNat : ℕ) / (1 : ℕ) := by
      rw [Nat.cast_one, div_one]
      exact mul_zpow_of_nonneg mantissa 2 he
    have hlog := h.log hm
    rw [hvalue] at hlog
    have hpos := Nat.mul_pos hm (Nat.two_pow_pos exponent.toNat)
    rw [hvalue, ← nearest_eq_ofRat Nat.one_pos, nearest_of_log hpos Nat.one_pos hlog, if_pos he,
      Nat.one_mul, divRoundEven_mul_right (Nat.two_pow_pos _), hmin]
    rfl
  · have hvalue : (mantissa : ℚ) * 2 ^ exponent = mantissa / (2 ^ (-exponent).toNat : ℕ) :=
      mul_zpow_of_neg mantissa 2 he
    have hlog := h.log hm
    rw [hvalue] at hlog
    rw [hvalue, ← nearest_eq_ofRat (by positivity), nearest_of_log hm (by positivity) hlog,
      if_neg he, divRoundEven_mul_right (by positivity), hmin]
    rfl

theorem exists_fraction {r : ℚ} (hr : 0 < r) : ∃ num den : ℕ, 0 < num ∧ 0 < den ∧ r = num / den := by
  have hnum : 0 < r.num := Rat.num_pos.mpr hr
  have habs : ((r.num.natAbs : ℤ)) = r.num := Int.natAbs_of_nonneg hnum.le
  refine ⟨r.num.natAbs, r.den, by omega, r.den_pos, ?_⟩
  rw [← Int.cast_natCast, habs, Rat.num_div_den]

/-- What is far beyond the doubles is rounded to infinity. -/
theorem ofRat_of_large {r : ℚ} (h : 2 ^ (1025 : ℤ) ≤ r) : ofRat r = Float.ofBits 0x7FF0000000000000 := by
  have hr : 0 < r := lt_of_lt_of_le (by positivity) h
  rw [two_zpow_le_iff hr] at h
  obtain ⟨num, den, hn, hd, rfl⟩ := exists_fraction hr
  have hq : 973 ≤ max (Int.log 2 ((num : ℚ) / den) - 52) (-1074) := by omega
  have hpattern (m : Nat) : 2047 * 2 ^ 52 ≤ pattern m (max (Int.log 2 ((num : ℚ) / den) - 52) (-1074)) := by
    unfold pattern
    omega
  rw [← nearest_eq_ofRat hd, nearest_of_log hn hd rfl, Nat.min_eq_right (hpattern _)]
  rfl

theorem lt_of_div_lt_two_zpow (hd : 0 < den) (k : ℕ) (h : (num : ℚ) / den < 2 ^ (-(k + 1 : ℕ) : ℤ)) :
    2 * (num * 2 ^ k) < den := by
  rw [div_lt_iff₀ (by positivity), zpow_neg, inv_mul_eq_div, lt_div_iff₀ (by positivity), zpow_natCast] at h
  have hnat : num * 2 ^ (k + 1) < den := by exact_mod_cast h
  rw [Nat.pow_succ, ← Nat.mul_assoc] at hnat
  omega

/-- What is less than half the smallest double is rounded to zero. -/
theorem ofRat_of_small {r : ℚ} (hpos : 0 < r) (h : r < 2 ^ (-1075 : ℤ)) : ofRat r = 0 := by
  have hlog := (lt_two_zpow_iff hpos).mp h
  obtain ⟨num, den, hn, hd, rfl⟩ := exists_fraction hpos
  have hq : max (Int.log 2 ((num : ℚ) / den) - 52) (-1074) = -1074 := by omega
  have hround (k : ℕ) (h : 2 * (num * 2 ^ k) < den) : divRoundEven (num * 2 ^ k) den = 0 := by
    unfold divRoundEven
    rw [Nat.mod_eq_of_lt (by omega), if_pos h]
    exact Nat.div_eq_of_lt (by omega)
  rw [← nearest_eq_ofRat hd, nearest_of_log hn hd hq, if_neg (by decide),
    show (- -1074 : Int).toNat = 1074 from rfl, hround _ (lt_of_div_lt_two_zpow hd 1074 h)]
  rfl

end Milp.Binary64
