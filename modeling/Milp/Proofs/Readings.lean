import Milp.Proofs.Extended
import Milp.Proofs.Infinities
import Milp.Proofs.Rounding

/-! Doubles read as extended numbers. Comparing doubles and rounding them up to whole numbers loses
nothing, so it does not matter whether it is done before they are read or after. -/
namespace Milp

open Float.Model Float.Model.UnpackedFloat

variable {x y : Float}

namespace Binary64

def isNegative : Sign → Bool
  | .negative => true
  | .positive => false

/-- What a double stands for, from its parts. -/
def ofUnpacked : UnpackedFloat → Binary64
  | .notANumber => .nan
  | .infinity s => .infinite (isNegative s)
  | .zero s => .finite (isNegative s) 0 (-1074)
  | .finite s m e _ => .finite (isNegative s) m e

theorem ofUnpacked_zero (s : Sign) : ofUnpacked (.zero s) = .finite (isNegative s) 0 (-1074) := rfl

theorem ofUnpacked_finite (s : Sign) (m : Nat) (e : Int) (hm : 0 < m) :
    ofUnpacked (.finite s m e hm) = .finite (isNegative s) m e := rfl

theorem ofUnpacked_packComponents (s : Sign) (e : BitVec 11) (m : BitVec 52) :
    ofUnpacked (UnpackedFloat.unpack Format.binary64 (packComponents Format.binary64 s e m)) =
      if e.toNat = 2047 then if m.toNat = 0 then .infinite (isNegative s) else .nan
      else if e.toNat = 0 then .finite (isNegative s) m.toNat (-1074)
      else .finite (isNegative s) (m.toNat + 2 ^ 52) ((e.toNat : Int) - 1075) := by
  have hexponent : unpackExponent (packComponents Format.binary64 s e m) = e := unpackExponent_packComponents
  have hmantissa : unpackMantissa (packComponents Format.binary64 s e m) = m := unpackMantissa_packComponents
  have hzero {n : Nat} (b : BitVec n) : b = 0#n ↔ b.toNat = 0 :=
    ⟨fun h => h ▸ rfl, fun h => BitVec.eq_of_toNat_eq h⟩
  by_cases hones : e = -1#11
  · subst hones
    rw [unpack_ones, if_pos (show (-1#11).toNat = 2047 from rfl)]
    simp only [hzero]
    split <;> rfl
  have hones' : e.toNat ≠ 2047 := fun h => hones (BitVec.eq_of_toNat_eq h)
  unfold UnpackedFloat.unpack
  dsimp only
  rw [hexponent, if_neg hones, if_neg hones']
  by_cases he : e = 0#11
  · rw [if_pos he, if_pos ((hzero e).mp he)]
    by_cases hm : m = 0#52
    · rw [dif_pos (hmantissa.trans hm), unpackSign_packComponents, hm]
      rfl
    · rw [dif_neg (mt hmantissa.symm.trans hm), ofUnpacked_finite, unpackSign_packComponents, hmantissa, he]
      rfl
  · rw [if_neg he, if_neg (mt (hzero e).mpr he)]
    rw [ofUnpacked_finite, unpackSign_packComponents, toNat_implicit, hmantissa, Nat.add_comm]
    rfl

theorem ofFloat_eq (x : Float) : ofFloat x = ofUnpacked x.toModel.unpack := by
  obtain ⟨s, e, m, hb, hs, he, hm⟩ := exists_packComponents x.toBits.toBitVec
  have hnat : x.toBits.toBitVec.toNat = x.toBits.toNat := rfl
  rw [hnat] at hs he hm
  have hsign : isNegative s = decide (2 ^ 63 ≤ x.toBits.toNat) := by
    rw [hs]
    split
    case isTrue h => exact (decide_eq_false (not_le.mpr h)).symm
    case isFalse h => exact (decide_eq_true (not_lt.mp h)).symm
  change _ = ofUnpacked (UnpackedFloat.unpack Format.binary64 x.toBits.toBitVec)
  rw [hb, ofUnpacked_packComponents, hsign, he, hm]
  rfl

theorem canonical_of_unpack {s : Sign} {m : Nat} {e : Int} {hm : 0 < m}
    (h : x.toModel.unpack = .finite s m e hm) : Canonical m e := by
  have hx : ofFloat x = .finite (isNegative s) m e := by rw [ofFloat_eq, h]; rfl
  exact (ofFloat_eq_finite hx).1

variable {m m' : Nat} {e e' : Int}

/-- A larger exponent makes a larger number, whatever the mantissas. -/
theorem Canonical.lt_of_exponent_lt (h : Canonical m e) (h' : Canonical m' e') (he : e < e') :
    (m : ℚ) * 2 ^ e < m' * 2 ^ e' := by
  have hnormal : 2 ^ 52 ≤ m' := h'.normal.resolve_right (by have := h.least; omega)
  calc (m : ℚ) * 2 ^ e < 2 ^ 53 * 2 ^ e := by
        gcongr
        exact_mod_cast h.bounded
    _ = 2 ^ 52 * 2 ^ (e + 1) := by
        rw [zpow_add₀ two_ne_zero]
        ring
    _ ≤ m' * 2 ^ e' := by
        gcongr
        · exact_mod_cast hnormal
        · exact one_le_two
        · omega

/-- Numbers compare as first their exponents and then their mantissas do. -/
theorem Canonical.isLE_compare (h : Canonical m e) (h' : Canonical m' e') :
    ((compare e e').then (compare m m')).isLE = decide ((m : ℚ) * 2 ^ e ≤ m' * 2 ^ e') := by
  rcases lt_trichotomy e e' with he | rfl | he
  · rw [Int.compare_eq_lt.mpr he, decide_eq_true (h.lt_of_exponent_lt h' he).le]
    rfl
  · rw [Int.compare_eq_eq.mpr rfl, Ordering.eq_then, Bool.eq_iff_iff, Nat.isLE_compare, decide_eq_true_eq,
      mul_le_mul_iff_left₀ (by positivity)]
    exact Nat.cast_le.symm
  · rw [Int.compare_eq_gt.mpr he, decide_eq_false (h'.lt_of_exponent_lt h he).not_ge]
    rfl

theorem swap_compare (e e' : Int) (m m' : Nat) :
    ((compare e e').then (compare m m')).swap = (compare e' e).then (compare m' m) := by
  rw [Ordering.swap_then, Int.compare_swap, Nat.compare_swap]

theorem compare_swap (u v : UnpackedFloat) : v.compare u = (u.compare v).map Ordering.swap := by
  cases u with
  | notANumber => cases v <;> rfl
  | infinity s => cases v with
    | infinity t | finite t m e hm => cases s <;> cases t <;> rfl
    | notANumber | zero t => cases s <;> rfl
  | zero s => cases v with
    | infinity t | finite t m e hm => cases t <;> rfl
    | notANumber | zero t => rfl
  | finite s m e hm => cases v with
    | notANumber => rfl
    | zero t => cases s <;> rfl
    | infinity t => cases s <;> cases t <;> rfl
    | finite t m' e' hm' =>
      cases s <;> cases t
      · exact congrArg (some ·.swap) (swap_compare e e' m m').symm
      · rfl
      · rfl
      · exact congrArg some (swap_compare e e' m m').symm

/-- The number that the parts of a double stand for. -/
def extended : Binary64 → Extended
  | .nan => .undefined
  | .infinite negative => .infinite negative
  | .finite negative mantissa exponent =>
    .finite (if negative then -(mantissa * 2 ^ exponent) else mantissa * 2 ^ exponent)

theorem extended_zero (s : Sign) : (ofUnpacked (.zero s)).extended = .finite 0 := by
  simp [ofUnpacked_zero, extended]

end Binary64

open Binary64

/-- The number that a double stands for. -/
def Extended.ofFloat (x : Float) : Extended := (Binary64.ofFloat x).extended

namespace Extended

theorem ofFloat_eq (x : Float) : ofFloat x = (ofUnpacked x.toModel.unpack).extended :=
  congrArg extended (Binary64.ofFloat_eq x)

/-- Doubles compare as the numbers do that they stand for, -/
theorem le_ofFloat (x y : Float) : Scalar.le (ofFloat x) (ofFloat y) = Scalar.le x y := by
  rw [le_eq, ofFloat_eq, ofFloat_eq]
  change le _ _ = _
  cases hx : x.toModel.unpack with
  | notANumber => rfl
  | infinity s => cases y.toModel.unpack with
    | infinity t | finite t m e hm => cases s <;> cases t <;> rfl
    | notANumber | zero t => cases s <;> rfl
  | zero s =>
    rw [extended_zero]
    cases hy : y.toModel.unpack with
    | notANumber => rfl
    | infinity t => cases t <;> rfl
    | zero t => rw [extended_zero]; rfl
    | finite t m e hm =>
      have hpos : (0 : ℚ) < m * 2 ^ e := by positivity
      cases t
      · exact decide_eq_false (not_le.mpr (neg_neg_of_pos hpos))
      · exact decide_eq_true hpos.le
  | finite s m e hm =>
    have hpos : (0 : ℚ) < m * 2 ^ e := by positivity
    cases hy : y.toModel.unpack with
    | notANumber => rfl
    | infinity t => cases s <;> cases t <;> rfl
    | zero t =>
      rw [extended_zero]
      cases s
      · exact decide_eq_true (neg_neg_of_pos hpos).le
      · exact decide_eq_false (not_le.mpr hpos)
    | finite t m' e' hm' =>
      have hpos' : (0 : ℚ) < m' * 2 ^ e' := by positivity
      have h := canonical_of_unpack hx
      have h' := canonical_of_unpack hy
      cases s <;> cases t
      · calc decide (-((m : ℚ) * 2 ^ e) ≤ -(m' * 2 ^ e')) = decide ((m' : ℚ) * 2 ^ e' ≤ m * 2 ^ e) :=
              decide_eq_decide.mpr neg_le_neg_iff
          _ = _ := by
            rw [← h'.isLE_compare h, ← swap_compare]
            rfl
      · exact decide_eq_true ((neg_neg_of_pos hpos).trans hpos').le
      · exact decide_eq_false (not_le.mpr ((neg_neg_of_pos hpos').trans hpos))
      · exact (h.isLE_compare h').symm

/-- strictly as well, -/
theorem lt_ofFloat (x y : Float) : Scalar.lt (ofFloat x) (ofFloat y) = Scalar.lt x y := by
  have hlt : Scalar.lt x y = x.toModel.unpack.lt y.toModel.unpack := by
    change decide (decide (x.toModel.unpack.lt y.toModel.unpack = true) = true) = _
    simp
  change (Scalar.le (ofFloat x) (ofFloat y) && !Scalar.le (ofFloat y) (ofFloat x)) = _
  rw [le_ofFloat, le_ofFloat, hlt, le_eq, le_eq]
  unfold UnpackedFloat.le UnpackedFloat.lt
  rw [compare_swap x.toModel.unpack]
  rcases x.toModel.unpack.compare y.toModel.unpack with _ | _ | _ | _ <;> rfl

end Extended

namespace Binary64

variable {negative : Bool} {m : Nat} {e : Int}

/-- The parts of a double that was put together from its parts. -/
theorem ofFloat_signed (h : Canonical m e) :
    ofFloat (signed negative (magnitude m e)) = .finite negative m e := by
  have hbits : (signed negative (magnitude m e)).toBits.toNat =
      (if negative then 2 ^ 63 else 0) + pattern m e := by
    cases negative with
    | false => exact (toBits_magnitude h).trans (Nat.zero_add _).symm
    | true => exact (toBits_neg_magnitude h).trans (Nat.add_comm _ _)
  unfold ofFloat
  simp only [Nat.pow_eq]
  generalize (signed negative (magnitude m e)).toBits.toNat = bits at hbits
  have hlt := h.pattern_lt
  obtain ⟨hm, hlow, hhigh, hnormal⟩ := h
  have hsign : decide (2 ^ 63 ≤ bits) = negative := by
    cases negative with
    | false =>
      rw [if_neg Bool.false_ne_true] at hbits
      exact decide_eq_false (by omega)
    | true =>
      rw [if_pos rfl] at hbits
      exact decide_eq_true (by omega)
  have hexponent : bits / 2 ^ 52 % 2 ^ 11 = pattern m e / 2 ^ 52 := by
    split at hbits <;> omega
  have hfraction : bits % 2 ^ 52 = pattern m e % 2 ^ 52 := by
    split at hbits <;> omega
  rw [hsign, hexponent, hfraction, if_neg (by omega)]
  unfold pattern at hlt ⊢
  split
  case isTrue hzero => 
    congr 1 <;> omega
  case isFalse hzero =>
    congr 1 <;> omega

/-- Whole numbers up to here are doubles. -/
theorem exists_canonical {n : Nat} (hn : n < 2 ^ 53) : ∃ m e, Canonical m e ∧ (n : ℚ) = m * 2 ^ e := by
  rcases Nat.eq_zero_or_pos n with rfl | hpos
  · exact ⟨0, -1074, ⟨by omega, by omega, by omega, .inr rfl⟩, by simp⟩
  obtain ⟨k, hk⟩ := Nat.exists_eq_add_of_le (Nat.le_of_lt_succ ((Nat.log2_lt hpos.ne').mpr hn))
  refine ⟨n * 2 ^ k, -k, ⟨?_, by omega, by omega, .inl ?_⟩, ?_⟩
  · calc n * 2 ^ k < 2 ^ (n.log2 + 1) * 2 ^ k := by
          gcongr
          exact Nat.lt_log2_self
      _ = 2 ^ 53 := by rw [← pow_add, show n.log2 + 1 + k = 53 by omega]
  · calc 2 ^ 52 = 2 ^ n.log2 * 2 ^ k := by rw [← pow_add, ← hk]
      _ ≤ n * 2 ^ k := by
        gcongr
        exact Nat.log2_self_le hpos.ne'
  · rw [zpow_neg, zpow_natCast]
    push_cast
    rw [mul_assoc, mul_inv_cancel₀ (by positivity), mul_one]

theorem extended_nearest {n : Nat} (hn : n < 2 ^ 53) :
    Extended.ofFloat (signed negative (nearest n 1)) = .finite (if negative then -n else n) := by
  obtain ⟨m, e, h, hvalue⟩ := exists_canonical hn
  have hnearest : nearest n 1 = magnitude m e := by
    rw [nearest_eq_ofRat Nat.one_pos, Nat.cast_one, div_one, hvalue, h.ofRat]
  rw [hnearest, Extended.ofFloat, ofFloat_signed h, hvalue]
  rfl

/-- Division with the rest cut off rounds down, -/
theorem ceil_neg_div (n unit : Nat) : (-((n : ℚ) / unit)).ceil = -(n / unit : ℕ) := by
  rw [Rat.ceil_eq_neg_floor_neg, neg_neg]
  exact congrArg Neg.neg (Rat.floor_natCast_div_natCast n unit)

/-- and up once all but one of the unit is added. -/
theorem ceil_div (n : Nat) {unit : Nat} (hu : 0 < unit) :
    ((n : ℚ) / unit).ceil = ((n + unit - 1) / unit : ℕ) := by
  have hu' : (0 : ℚ) < unit := by exact_mod_cast hu
  have hle : n ≤ (n + unit - 1) / unit * unit := by
    have := Nat.lt_div_mul_add (a := n + unit - 1) hu
    omega
  have hlt : (n + unit - 1) / unit * unit < n + unit := by
    have := Nat.div_mul_le_self (n + unit - 1) unit
    omega
  refine le_antisymm (Rat.ceil_le_iff.mpr ?_) (Int.le_of_sub_one_lt (Rat.lt_ceil_iff.mpr ?_))
  · rw [div_le_iff₀ hu']
    exact_mod_cast hle
  · rw [lt_div_iff₀ hu']
    push_cast
    rw [sub_mul, one_mul, sub_lt_iff_lt_add]
    exact_mod_cast hlt

/-- With its fraction cut off, a double is a whole number that is a double. -/
theorem ceil_extended {unit : Nat} (hm : m < 2 ^ 53) (hu : 2 ≤ unit) :
    Extended.ceil (.finite (if negative then -((m : ℚ) / unit) else (m : ℚ) / unit)) =
      Extended.ofFloat (if negative then -nearest (m / unit) 1 else nearest ((m + unit - 1) / unit) 1) := by
  cases negative with
  | false =>
    have hn : (m + unit - 1) / unit < 2 ^ 53 := Nat.div_lt_of_lt_mul (by omega)
    have hread : Extended.ofFloat (signed false (nearest _ 1)) = _ := extended_nearest hn
    simp only [signed, Bool.false_eq_true, if_false] at hread ⊢
    rw [hread, Extended.ceil, ceil_div m (by omega), Int.cast_natCast]
  | true =>
    have hn : m / unit < 2 ^ 53 := (Nat.div_le_self m unit).trans_lt hm
    have hread : Extended.ofFloat (signed true (nearest _ 1)) = _ := extended_nearest hn
    simp only [signed, if_true] at hread ⊢
    rw [hread, Extended.ceil, ceil_neg_div, Int.cast_neg, Int.cast_natCast]

theorem ceil_whole (n : Nat) : Extended.ceil (.finite (if negative then -(n : ℚ) else n)) =
    .finite (if negative then -(n : ℚ) else n) := by
  have hwhole : (if negative then -(n : ℚ) else n) = ((if negative then -n else n : ℤ) : ℚ) := by
    split <;> push_cast <;> rfl
  rw [hwhole, Extended.ceil, Rat.ceil_intCast]

end Binary64

namespace Extended

/-- and rounding up to whole numbers commutes with reading. -/
theorem ceil_ofFloat (x : Float) : Scalar.ceil (ofFloat x) = ofFloat (Scalar.ceil x) := by
  change ceil (ofFloat x) = ofFloat (Binary64.ceil x)
  unfold Binary64.ceil
  cases hx : Binary64.ofFloat x with
  | nan | infinite negative => rw [ofFloat, hx]; rfl
  | finite negative m e =>
    have hread : ofFloat x = .finite (if negative then -(m * 2 ^ e) else m * 2 ^ e) := by
      rw [ofFloat, hx, extended]
    dsimp only
    split
    case isTrue he =>
      have hwhole : (m : ℚ) * 2 ^ e = (m * 2 ^ e.toNat : ℕ) := mul_zpow_of_nonneg m 2 he
      rw [hread, hwhole, ceil_whole]
    case isFalse he =>
      have hfraction : (m : ℚ) * 2 ^ e = (m : ℚ) / (2 ^ (-e).toNat : ℕ) := mul_zpow_of_neg m 2 he
      have hunit : 2 ≤ 2 ^ (-e).toNat := Nat.pow_le_pow_right Nat.two_pos (by omega : 1 ≤ (-e).toNat)
      rw [hread, hfraction]
      exact ceil_extended (ofFloat_eq_finite hx).1.bounded hunit

theorem ofFloat_zero : ofFloat Scalar.zero = Scalar.zero := by
  have hzero : Binary64.ofFloat (Scalar.zero : Float) = .finite false 0 (-1074) := rfl
  rw [ofFloat, hzero]
  exact congrArg finite (zero_mul _)

theorem ofFloat_one : ofFloat Scalar.one = Scalar.one := by
  have hone : Binary64.ofFloat (Scalar.one : Float) = .finite false (2 ^ 52) (-52) := rfl
  rw [ofFloat, hone]
  exact congrArg finite (by norm_num)

/-- Each infinity is read off one double only. -/
theorem eq_infinity_of_ofFloat {negative : Bool} (h : ofFloat x = .infinite negative) :
    x = if negative then Unbounded.negativeInfinity else Unbounded.infinity := by
  rw [ofFloat_eq] at h
  cases hx : x.toModel.unpack with
  | infinity s =>
    rw [hx] at h
    cases s <;> cases h
    · exact eq_of_unpack_infinity hx unpack_negativeInfinity
    · exact eq_of_unpack_infinity hx unpack_infinity
  | notANumber | zero s | finite s m e hm =>
    rw [hx] at h
    cases h

end Extended
end Milp
