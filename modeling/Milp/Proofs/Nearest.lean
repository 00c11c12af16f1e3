import Milp.Proofs.Ranks

/-! The double nearest to a number: larger numbers have larger ones, so rounding never takes a number
past a double. -/
namespace Milp

variable {x : Float}

namespace Binary64

variable {num den num' den' : Nat} {r s : ℚ}

theorem div_le_divRoundEven (num den : Nat) : num / den ≤ divRoundEven num den := by
  unfold divRoundEven
  dsimp only
  split_ifs <;> omega

theorem divRoundEven_le_succ (num den : Nat) : divRoundEven num den ≤ num / den + 1 := by
  unfold divRoundEven
  dsimp only
  split_ifs <;> omega

theorem divRoundEven_mono_left (h : num ≤ num') : divRoundEven num den ≤ divRoundEven num' den := by
  rcases (Nat.div_le_div_right (c := den) h).lt_or_eq with hlt | heq
  · exact (divRoundEven_le_succ num den).trans (hlt.trans_le (div_le_divRoundEven num' den))
  · have hrest : num % den ≤ num' % den := by
      have hsum := Nat.div_add_mod num den
      have hsum' := Nat.div_add_mod num' den
      rw [heq] at hsum
      omega
    unfold divRoundEven
    dsimp only
    rw [heq]
    split_ifs <;> omega

/-- Larger fractions are rounded to larger whole numbers. -/
theorem divRoundEven_mono (hd : 0 < den) (hd' : 0 < den') (h : (num : ℚ) / den ≤ num' / den') :
    divRoundEven num den ≤ divRoundEven num' den' := by
  rw [div_le_div_iff₀ (by positivity) (by positivity)] at h
  have hcross : num * den' ≤ num' * den := by exact_mod_cast h
  calc divRoundEven num den
      = divRoundEven (den' * num) (den' * den) := (divRoundEven_mul_left hd').symm
    _ = divRoundEven (num * den') (den * den') := by rw [Nat.mul_comm den', Nat.mul_comm den']
    _ ≤ divRoundEven (num' * den) (den * den') := divRoundEven_mono_left hcross
    _ = divRoundEven (den * num') (den * den') := by rw [Nat.mul_comm num']
    _ = divRoundEven num' den' := divRoundEven_mul_left hd

/-- The exponent that a positive number is rounded at. -/
def quantumExponent (r : ℚ) : Int := max (Int.log 2 r - 52) (-1074)

/-- The bits of the double nearest to a positive number, from a fraction that is rounded to its
mantissa. -/
theorem exists_mantissa (hr : 0 < r) : ∃ num den : ℕ, 0 < den ∧
    (num : ℚ) / den = r / 2 ^ quantumExponent r ∧ ofRat r = Float.ofBits (UInt64.ofNat
      (min (pattern (divRoundEven num den) (quantumExponent r)) (2047 * 2 ^ 52))) := by
  obtain ⟨num, den, hn, hd, hval⟩ := exists_fraction hr
  have hexponent : max (Int.log 2 ((num : ℚ) / den) - 52) (-1074) = quantumExponent r := by
    rw [← hval, quantumExponent]
  have hbits := nearest_of_log hn hd hexponent
  rw [nearest_eq_ofRat hd, ← hval] at hbits
  split at hbits
  case isTrue hq =>
    refine ⟨num, den * 2 ^ (quantumExponent r).toNat, by positivity, ?_, hbits⟩
    have hpow : (2 : ℚ) ^ quantumExponent r = 2 ^ (quantumExponent r).toNat := by
      rw [← zpow_natCast, Int.toNat_of_nonneg hq]
    rw [hpow, hval]
    push_cast
    rw [div_div]
  case isFalse hq =>
    refine ⟨num * 2 ^ (-quantumExponent r).toNat, den, hd, ?_, hbits⟩
    have hpow : (2 : ℚ) ^ quantumExponent r = (2 ^ (-quantumExponent r).toNat)⁻¹ := by
      rw [← zpow_natCast, Int.toNat_of_nonneg (by omega), zpow_neg, inv_inv]
    rw [hpow, hval]
    push_cast
    rw [div_inv_eq_mul, div_mul_eq_mul_div]

/-- A mantissa has at most as many bits as there is room for, and fills them unless its exponent is the
least. -/
theorem mantissa_bounds (hr : 0 < r) (hd : 0 < den) (h : (num : ℚ) / den = r / 2 ^ quantumExponent r) :
    divRoundEven num den ≤ 2 ^ 53 ∧ (2 ^ 52 ≤ divRoundEven num den ∨ quantumExponent r = -1074) := by
  have hwhole (n : ℕ) : divRoundEven n 1 = n := by
    have hround : divRoundEven (n * 1) 1 = n := divRoundEven_mul_right Nat.one_pos
    rwa [mul_one] at hround
  have hpow : (0 : ℚ) < 2 ^ quantumExponent r := by positivity
  constructor
  · rw [← hwhole (2 ^ 53)]
    refine divRoundEven_mono hd Nat.one_pos ?_
    have hlt : r < 2 ^ (quantumExponent r + 53) := (lt_two_zpow_iff hr).mpr (by unfold quantumExponent; omega)
    rw [zpow_add₀ two_ne_zero, mul_comm] at hlt
    rw [h, Nat.cast_one, div_one, div_le_iff₀ hpow]
    exact_mod_cast hlt.le
  · refine (le_or_gt (-1074) (Int.log 2 r - 52)).imp (fun hlog => ?_) fun hlog => max_eq_right hlog.le
    rw [← hwhole (2 ^ 52)]
    refine divRoundEven_mono Nat.one_pos hd ?_
    have hle : 2 ^ (quantumExponent r + 52) ≤ r := (two_zpow_le_iff hr).mpr (by unfold quantumExponent; omega)
    rw [zpow_add₀ two_ne_zero, mul_comm] at hle
    rw [h, Nat.cast_one, div_one, le_div_iff₀ hpow]
    exact_mod_cast hle

/-- Before a sign is put, a larger number has more bits. -/
theorem pattern_mono (hr : 0 < r) (hle : r ≤ s) (hd : 0 < den) (hd' : 0 < den')
    (h : (num : ℚ) / den = r / 2 ^ quantumExponent r) (h' : (num' : ℚ) / den' = s / 2 ^ quantumExponent s) :
    pattern (divRoundEven num den) (quantumExponent r) ≤ pattern (divRoundEven num' den') (quantumExponent s) := by
  have hs := hr.trans_le hle
  have hlog : Int.log 2 r ≤ Int.log 2 s := Int.log_mono_right hr hle
  obtain ⟨hbound, -⟩ := mantissa_bounds hr hd h
  obtain ⟨-, hfull⟩ := mantissa_bounds hs hd' h'
  have hquantum : quantumExponent r ≤ quantumExponent s := by
    unfold quantumExponent
    omega
  have hleast : -1074 ≤ quantumExponent r := le_max_right ..
  unfold pattern
  rcases hquantum.lt_or_eq with hlt | heq
  · omega
  · have hround : divRoundEven num den ≤ divRoundEven num' den' := by
      refine divRoundEven_mono hd hd' ?_
      rw [h, h', heq]
      gcongr
    omega

open Scalar (rank)

theorem ofRat_neg (hr : 0 < r) : ofRat (-r) = -ofRat r := by
  have hnum := Rat.num_pos.mpr hr
  have hneg : (-r).num < 0 := Rat.num_neg.mpr (neg_neg_of_pos hr)
  unfold ofRat
  simp only [if_pos hneg, if_neg hnum.not_gt]
  rw [Rat.num_neg_eq_neg_num, Rat.den_neg_eq_den, Int.natAbs_neg]

theorem rank_ofRat_zero : rank (ofRat 0) = 0 := rfl

theorem rank_ofRat_of_pos (hr : 0 < r) : 0 ≤ rank (ofRat r) ∧ rank (ofRat r) ≤ 2047 * 2 ^ 52 ∧
    rank (ofRat (-r)) = -1 - rank (ofRat r) := by
  obtain ⟨num, den, -, -, hbits⟩ := exists_mantissa hr
  obtain ⟨hrank, hneg⟩ := Scalar.rank_ofBits (Nat.min_le_right
    (pattern (divRoundEven num den) (quantumExponent r)) (2047 * 2 ^ 52))
  rw [ofRat_neg hr, hbits, hrank, hneg]
  omega

theorem rank_ofRat_of_neg (hr : r < 0) : -1 - 2047 * 2 ^ 52 ≤ rank (ofRat r) ∧ rank (ofRat r) < 0 ∧
    rank (ofRat r) = -1 - rank (ofRat (-r)) := by
  obtain ⟨hlow, hhigh, hneg⟩ := rank_ofRat_of_pos (neg_pos.mpr hr)
  rw [neg_neg] at hneg
  omega

theorem rank_ofRat_mono_of_pos (hr : 0 < r) (hle : r ≤ s) : rank (ofRat r) ≤ rank (ofRat s) := by
  obtain ⟨num, den, hd, hval, hbits⟩ := exists_mantissa hr
  obtain ⟨num', den', hd', hval', hbits'⟩ := exists_mantissa (hr.trans_le hle)
  have hpattern := pattern_mono hr hle hd hd' hval hval'
  rw [hbits, hbits', (Scalar.rank_ofBits (Nat.min_le_right _ _)).1, (Scalar.rank_ofBits (Nat.min_le_right _ _)).1]
  omega

/-- Rounding keeps the order. -/
theorem rank_ofRat_mono (hle : r ≤ s) : rank (ofRat r) ≤ rank (ofRat s) := by
  have hnonneg {s : ℚ} (hs : 0 ≤ s) : 0 ≤ rank (ofRat s) := by
    rcases hs.eq_or_lt with rfl | hs
    · exact rank_ofRat_zero.ge
    · exact (rank_ofRat_of_pos hs).1
  rcases lt_trichotomy r 0 with hr | rfl | hr
  · obtain ⟨-, hlt, hneg⟩ := rank_ofRat_of_neg hr
    rcases lt_or_ge s 0 with hs | hs
    · obtain ⟨-, -, hneg'⟩ := rank_ofRat_of_neg hs
      have hmono := rank_ofRat_mono_of_pos (neg_pos.mpr hs) (neg_le_neg hle)
      omega
    · exact hlt.le.trans (hnonneg hs)
  · exact rank_ofRat_zero.trans_le (hnonneg hle)
  · exact rank_ofRat_mono_of_pos hr hle

theorem ofRat_ne_undefined (r : ℚ) : Extended.ofFloat (ofRat r) ≠ .undefined := by
  refine Scalar.rank_bounds.mpr ?_
  rcases lt_trichotomy r 0 with hr | rfl | hr
  · obtain ⟨hlow, hlt, -⟩ := rank_ofRat_of_neg hr
    omega
  · rw [rank_ofRat_zero]
    omega
  · obtain ⟨hlow, hhigh, -⟩ := rank_ofRat_of_pos hr
    omega

theorem le_ofRat (hle : r ≤ s) : Scalar.le (Extended.ofFloat (ofRat r)) (Extended.ofFloat (ofRat s)) = true :=
  Scalar.le_of_rank_le (ofRat_ne_undefined r) (ofRat_ne_undefined s) (rank_ofRat_mono hle)

/-- The number that a double stands for is rounded to what reads the same. -/
theorem ofFloat_ofRat (h : Extended.ofFloat x = .finite r) : Extended.ofFloat (ofRat r) = .finite r := by
  unfold Extended.ofFloat at h
  cases hx : Binary64.ofFloat x with
  | nan | infinite negative =>
    rw [hx] at h
    cases h
  | finite negative m e =>
    obtain ⟨hc, -⟩ := ofFloat_eq_finite hx
    rw [hx] at h
    have hr : (if negative then -((m : ℚ) * 2 ^ e) else m * 2 ^ e) = r := Extended.finite.inj h
    have hround (negative : Bool) :
        Binary64.ofFloat (signed negative (magnitude m e)) = .finite negative m e := ofFloat_signed hc
    rw [← hr]
    rcases Nat.eq_zero_or_pos m with rfl | hm
    · have hzero : Binary64.ofFloat (ofRat 0) = .finite false 0 (-1074) := rfl
      rw [Nat.cast_zero, zero_mul, neg_zero, ite_self, Extended.ofFloat, hzero]
      exact congrArg Extended.finite (zero_mul _)
    · have hpos : 0 < (m : ℚ) * 2 ^ e := by positivity
      unfold Extended.ofFloat
      cases negative with
      | false =>
        rw [if_neg Bool.false_ne_true, hc.ofRat]
        exact congrArg extended (hround false)
      | true =>
        rw [if_pos rfl, ofRat_neg hpos, hc.ofRat]
        exact congrArg extended (hround true)

end Binary64
end Milp
