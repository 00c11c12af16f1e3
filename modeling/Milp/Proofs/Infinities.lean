import Milp.Scalar
import Milp.Proofs.Bits

/-! Doubles that are not finite: there are three of them, no order puts the third anywhere, and no sum
brings back what they lost. -/
namespace Milp.Binary64

open Float.Model Float.Model.UnpackedFloat

variable {x y : Float}

theorem unpack_infinity : (Unbounded.infinity : Float).toModel.unpack = .infinity .positive := rfl

theorem unpack_negativeInfinity : (Unbounded.negativeInfinity : Float).toModel.unpack = .infinity .negative := rfl

/-- With the highest exponent a double is an infinity or no number. -/
theorem unpack_ones (s : Sign) (m : BitVec 52) :
    UnpackedFloat.unpack Format.binary64 (packComponents Format.binary64 s (-1#11) m) =
      if m = 0#52 then .infinity s else .notANumber := by
  have hexponent : unpackExponent (packComponents Format.binary64 s (-1#11) m) = -1#11 :=
    unpackExponent_packComponents
  unfold UnpackedFloat.unpack
  dsimp only
  rw [if_pos hexponent, unpackMantissa_packComponents, unpackSign_packComponents]

/-- An infinite double is determined by its sign. -/
theorem eq_of_unpack_infinity {s : Sign} (hx : x.toModel.unpack = .infinity s)
    (hy : y.toModel.unpack = .infinity s) : x = y := by
  have hbits {z : Float} (hz : z.toModel.unpack = .infinity s) :
      z.toBits.toBitVec = packComponents Format.binary64 s (-1#11) 0#52 := by
    obtain ⟨t, e, m, hb, -⟩ := exists_packComponents z.toBits.toBitVec
    have hunpack : UnpackedFloat.unpack Format.binary64 z.toBits.toBitVec = .infinity s := hz
    rw [hb] at hunpack ⊢
    have he : e = -1#11 := by
      refine Decidable.byContradiction fun he => ?_
      have hfinite := (isFinite_unpack t e m).mpr he
      rw [hunpack] at hfinite
      cases hfinite
    rw [he, unpack_ones] at hunpack
    split at hunpack
    next hm =>
      cases hunpack
      rw [he, hm]
    next => cases hunpack
  exact ext_toBits (UInt64.toBitVec_inj.mp ((hbits hx).trans (hbits hy).symm))

/-- Of the doubles that are not finite only the two infinities can be compared. -/
theorem eq_infinity (hx : x.isFinite = false) (hn : x.toModel.unpack ≠ .notANumber) :
    x = Unbounded.infinity ∨ x = Unbounded.negativeInfinity := by
  have hfinite : x.toModel.unpack.isFinite = false := hx
  cases hu : x.toModel.unpack with
  | notANumber => exact absurd hu hn
  | infinity s =>
    cases s with
    | positive => exact .inl (eq_of_unpack_infinity hu unpack_infinity)
    | negative => exact .inr (eq_of_unpack_infinity hu unpack_negativeInfinity)
  | zero s => rw [hu] at hfinite; cases hfinite
  | finite s m e hm => rw [hu] at hfinite; cases hfinite

theorem le_eq (x y : Float) : Scalar.le x y = x.toModel.unpack.le y.toModel.unpack := by
  change decide (decide (x.toModel.unpack.le y.toModel.unpack = true) = true) = _
  simp

theorem numbers_of_le (h : Scalar.le x y = true) :
    x.toModel.unpack ≠ .notANumber ∧ y.toModel.unpack ≠ .notANumber := by
  rw [le_eq] at h
  constructor
  · intro hx
    rw [hx] at h
    cases h
  · intro hy
    rw [hy] at h
    cases hx : x.toModel.unpack with
    | infinity s => rw [hx] at h; cases s <;> cases h
    | finite s m e hm => rw [hx] at h; cases s <;> cases h
    | notANumber | zero s => rw [hx] at h; cases h

theorem le_infinity (hx : x.toModel.unpack ≠ .notANumber) : Scalar.le x Unbounded.infinity = true := by
  rw [le_eq, unpack_infinity]
  cases hu : x.toModel.unpack with
  | notANumber => exact absurd hu hx
  | infinity s | finite s m e hm => cases s <;> rfl
  | zero s => rfl

theorem negativeInfinity_le (hx : x.toModel.unpack ≠ .notANumber) :
    Scalar.le Unbounded.negativeInfinity x = true := by
  rw [le_eq, unpack_negativeInfinity]
  cases hu : x.toModel.unpack with
  | notANumber => exact absurd hu hx
  | infinity s | finite s m e hm => cases s <;> rfl
  | zero s => rfl

theorem infinity_ne : (Unbounded.infinity : Float) ≠ Unbounded.negativeInfinity := by
  intro h
  have hunpack := congrArg (fun x : Float => x.toModel.unpack) h
  cases hunpack

theorem not_isFinite_infinity : Unbounded.isFinite (Unbounded.infinity : Float) = false := rfl

theorem not_isFinite_negativeInfinity : Unbounded.isFinite (Unbounded.negativeInfinity : Float) = false := rfl

theorem isFinite_of_pack {u : UnpackedFloat}
    (h : (UnpackedFloat.unpack Format.binary64 (UnpackedFloat.pack Format.binary64 u)).isFinite = true) :
    u.isFinite = true := by
  cases u with
  | notANumber => exact absurd h (by decide)
  | infinity s => cases s <;> exact absurd h (by decide)
  | zero s => rfl
  | finite s m e hm => rfl

/-- A sum is finite only if both numbers are. -/
theorem isFinite_of_add (h : (x + y).isFinite = true) : x.isFinite = true ∧ y.isFinite = true := by
  have hsum : (UnpackedFloat.add Format.binary64 x.toModel.unpack y.toModel.unpack).isFinite = true :=
    isFinite_of_pack h
  change x.toModel.unpack.isFinite = true ∧ y.toModel.unpack.isFinite = true
  cases hx : x.toModel.unpack with
  | notANumber =>
    rw [hx] at hsum
    cases hsum
  | infinity s =>
    cases hy : y.toModel.unpack with
    | infinity t => rw [hx, hy] at hsum; cases s <;> cases t <;> cases hsum
    | notANumber | zero t | finite t m e hm => rw [hx, hy] at hsum; cases hsum
  | zero s | finite s m e hm =>
    cases hy : y.toModel.unpack with
    | notANumber | infinity t => rw [hx, hy] at hsum; cases hsum
    | zero t | finite t m e hm => exact ⟨rfl, rfl⟩

/-- What compares as equal to a finite double is finite. -/
theorem isFinite_of_beq (h : (x == y) = true) (hy : y.isFinite = true) : x.isFinite = true := by
  have hcompare : (x.toModel.unpack.compare y.toModel.unpack == some .eq) = true := h
  change y.toModel.unpack.isFinite = true at hy
  change x.toModel.unpack.isFinite = true
  cases hx : x.toModel.unpack with
  | zero s | finite s m e hm => rfl
  | notANumber =>
    rw [hx] at hcompare
    cases hcompare
  | infinity s =>
    cases hu : y.toModel.unpack with
    | notANumber | infinity t => rw [hu] at hy; cases hy
    | zero t | finite t m e hm => rw [hx, hu] at hcompare; cases s <;> cases hcompare

end Milp.Binary64
