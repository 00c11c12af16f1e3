import Milp.Proofs.Readings

/-! Doubles as they are told apart and sorted: they are equal when the numbers are, and one of lower rank is
not larger. -/
namespace Milp

open Binary64

namespace Extended

variable {u v : Extended}

theorem le_self (h : u ≠ .undefined) : le u u = true := by
  cases u with
  | undefined => exact absurd rfl h
  | infinite negative => cases negative <;> rfl
  | finite r => exact decide_eq_true le_rfl

theorem eq_of_le_of_le (h : le u v = true) (h' : le v u = true) : u = v := by
  cases u with
  | undefined => cases h
  | infinite negative =>
    cases v with
    | undefined => cases negative <;> cases h
    | finite s => cases negative <;> [cases h; cases h']
    | infinite negative' =>
      cases negative <;> cases negative'
      · rfl
      · cases h
      · cases h'
      · rfl
  | finite r =>
    cases v with
    | undefined => cases h
    | infinite negative => cases negative <;> [cases h'; cases h]
    | finite s => rw [Rat.le_antisymm (of_decide_eq_true h) (of_decide_eq_true h')]

/-- Numbers are equal when neither is the larger. -/
theorem beq_eq (u v : Extended) : (u == v) = (le u v && le v u) := by
  change (decide (u ≠ .undefined) && decide (u = v)) = _
  rw [Bool.eq_iff_iff, Bool.and_eq_true, Bool.and_eq_true, decide_eq_true_eq, decide_eq_true_eq]
  constructor
  · rintro ⟨h, rfl⟩
    exact ⟨le_self h, le_self h⟩
  · rintro ⟨h, h'⟩
    refine ⟨?_, eq_of_le_of_le h h'⟩
    rintro rfl
    cases h

/-- Doubles are equal when the numbers are that they stand for. -/
theorem beq_ofFloat (x y : Float) : (ofFloat x == ofFloat y) = (x == y) := by
  have hle (x y : Float) : le (ofFloat x) (ofFloat y) = x.toModel.unpack.le y.toModel.unpack :=
    (le_ofFloat x y).trans (le_eq x y)
  rw [beq_eq, hle, hle]
  change _ = x.toModel.unpack.beq y.toModel.unpack
  unfold Float.Model.UnpackedFloat.le Float.Model.UnpackedFloat.beq
  rw [compare_swap x.toModel.unpack]
  rcases x.toModel.unpack.compare y.toModel.unpack with _ | _ | _ | _ <;> rfl

end Extended

variable {x y : Float} {negative : Bool} {m m' : Nat} {e e' : Int}

namespace Binary64

/-- Numbers go by their bits. -/
theorem Canonical.le_of_pattern_le (h : Canonical m e) (h' : Canonical m' e')
    (hle : pattern m e ≤ pattern m' e') : (m : ℚ) * 2 ^ e ≤ m' * 2 ^ e' := by
  have hlow := h.least
  have hlow' := h'.least
  have hbounded' := h'.bounded
  have hnormal := h.normal
  unfold pattern at hle
  rcases lt_trichotomy e e' with he | rfl | he
  · exact (h.lt_of_exponent_lt h' he).le
  · have hm : m ≤ m' := by omega
    gcongr
  · omega

end Binary64

namespace Scalar

theorem rank_of_finite (h : Binary64.ofFloat x = .finite negative m e) :
    rank x = if negative then -1 - (pattern m e : Int) else pattern m e := by
  obtain ⟨hc, rfl⟩ := ofFloat_eq_finite h
  have hlt := hc.pattern_lt
  unfold rank
  simp only [Nat.pow_eq]
  cases negative with
  | false =>
    rw [show (signed false (magnitude m e)).toBits.toNat = pattern m e from toBits_magnitude hc]
    rw [if_pos (by omega), if_neg Bool.false_ne_true]
  | true =>
    rw [show (signed true (magnitude m e)).toBits.toNat = pattern m e + 2 ^ 63 from toBits_neg_magnitude hc]
    rw [if_neg (by omega), if_pos rfl]
    push_cast
    omega

theorem rank_infinity : rank Unbounded.infinity = 2047 * 2 ^ 52 := rfl

theorem rank_negativeInfinity : rank Unbounded.negativeInfinity = -1 - 2047 * 2 ^ 52 := rfl

/-- What is not a number has its rank beyond the infinities. -/
theorem rank_bounds : Extended.ofFloat x ≠ .undefined ↔
    -1 - 2047 * 2 ^ 52 ≤ rank x ∧ rank x ≤ 2047 * 2 ^ 52 := by
  have hbits := x.toBits.toNat_lt
  unfold Extended.ofFloat Binary64.ofFloat rank
  simp only [Nat.pow_eq]
  generalize x.toBits.toNat = b at hbits
  split
  next hones =>
    split
    next hzero =>
      refine iff_of_true nofun ?_
      split <;> omega
    next hzero =>
      refine iff_of_false (fun h => h rfl) ?_
      split <;> omega
  next hones =>
    have hd : ¬ b / 2 ^ 52 % 2 ^ 11 = 2047 := hones
    split
    · refine iff_of_true nofun ?_
      split <;> omega
    · refine iff_of_true nofun ?_
      split <;> omega

theorem rank_of_infinite (h : Binary64.ofFloat x = .infinite negative) :
    rank x = if negative then -1 - 2047 * 2 ^ 52 else 2047 * 2 ^ 52 := by
  have hx := Extended.eq_infinity_of_ofFloat (congrArg extended h)
  cases negative with
  | false => exact hx ▸ rank_infinity
  | true => exact hx ▸ rank_negativeInfinity

/-- A double of lower rank is no larger. -/
theorem le_of_rank_le (hx : Extended.ofFloat x ≠ .undefined) (hy : Extended.ofFloat y ≠ .undefined)
    (hle : rank x ≤ rank y) : Scalar.le (Extended.ofFloat x) (Extended.ofFloat y) = true := by
  unfold Extended.ofFloat at hx hy ⊢
  cases hpx : Binary64.ofFloat x with
  | nan => exact absurd (congrArg extended hpx) hx
  | infinite negative =>
    rw [rank_of_infinite hpx] at hle
    cases hpy : Binary64.ofFloat y with
    | nan => exact absurd (congrArg extended hpy) hy
    | infinite negative' =>
      rw [rank_of_infinite hpy] at hle
      cases negative with
      | true => cases negative' <;> rfl
      | false => cases negative' with
        | false => rfl
        | true => exact absurd hle (by decide)
    | finite negative' m' e' =>
      have hlt := (ofFloat_eq_finite hpy).1.pattern_lt
      rw [rank_of_finite hpy] at hle
      cases negative with
      | true => rfl
      | false =>
        rw [if_neg Bool.false_ne_true] at hle
        split at hle <;> omega
  | finite negative m e =>
    have hc := (ofFloat_eq_finite hpx).1
    have hlt := hc.pattern_lt
    rw [rank_of_finite hpx] at hle
    cases hpy : Binary64.ofFloat y with
    | nan => exact absurd (congrArg extended hpy) hy
    | infinite negative' =>
      rw [rank_of_infinite hpy] at hle
      cases negative' with
      | false => rfl
      | true =>
        rw [if_pos rfl] at hle
        split at hle <;> omega
    | finite negative' m' e' =>
      have hc' := (ofFloat_eq_finite hpy).1
      have hpos : (0 : ℚ) ≤ m * 2 ^ e := by positivity
      have hpos' : (0 : ℚ) ≤ m' * 2 ^ e' := by positivity
      rw [rank_of_finite hpy] at hle
      cases negative <;> cases negative' <;> simp only [Bool.false_eq_true, if_false, if_true] at hle
      · exact decide_eq_true (hc.le_of_pattern_le hc' (by omega))
      · omega
      · exact decide_eq_true ((neg_nonpos.mpr hpos).trans hpos')
      · exact decide_eq_true (neg_le_neg (hc'.le_of_pattern_le hc (by omega)))

theorem rank_ofBits {b : Nat} (hb : b ≤ 2047 * 2 ^ 52) :
    rank (Float.ofBits (UInt64.ofNat b)) = b ∧ rank (-Float.ofBits (UInt64.ofNat b)) = -1 - (b : Int) := by
  rcases hb.lt_or_eq with hlt | rfl
  · have hnat : (UInt64.ofNat b).toNat = b := by
      rw [UInt64.toNat_ofNat']
      omega
    have hbits := toBits_ofBits (b := UInt64.ofNat b) (by omega)
    have hneg := toNat_toBits_neg_ofBits (b := UInt64.ofNat b) (by omega)
    unfold rank
    simp only [Nat.pow_eq]
    rw [hbits, hneg, hnat, if_pos (by omega), if_neg (by omega)]
    exact ⟨rfl, by push_cast; omega⟩
  · exact ⟨rank_infinity, rank_negativeInfinity⟩

end Scalar
end Milp
