import Mathlib.Algebra.Group.Nat.Defs
import Milp.Binary64

/-! The bits of a double: taking it apart and putting it together again keeps them, and a finite
double is determined by the number that it stands for. -/
namespace Milp.Binary64

open Float.Model Float.Model.UnpackedFloat

/-- The three fields of a double's bits as one number. -/
theorem toNat_packComponents (s : Sign) (e : BitVec 11) (m : BitVec 52) :
    (packComponents Format.binary64 s e m).toNat =
      s.toBitVec.toNat * 2 ^ 63 + e.toNat * 2 ^ 52 + m.toNat := by
  change ((s.toBitVec ++ e) ++ m).toNat = _
  rw [BitVec.toNat_append, BitVec.toNat_append, ← Nat.shiftLeft_add_eq_or_of_lt m.isLt,
    ← Nat.shiftLeft_add_eq_or_of_lt e.isLt, Nat.shiftLeft_eq, Nat.shiftLeft_eq]
  omega

theorem toNat_implicit (m : BitVec 52) : (1#1 ++ m).toNat = 2 ^ 52 + m.toNat := by
  rw [BitVec.toNat_append, ← Nat.shiftLeft_add_eq_or_of_lt m.isLt]
  simp [Nat.shiftLeft_eq]

/-- Every pattern of bits is made of its fields. -/
theorem exists_packComponents (b : BitVec 64) : ∃ s e m,
    b = packComponents Format.binary64 s e m ∧ s = (if b.toNat < 2 ^ 63 then .positive else .negative) ∧
      e.toNat = b.toNat / 2 ^ 52 % 2 ^ 11 ∧ m.toNat = b.toNat % 2 ^ 52 := by
  have hb := b.isLt
  have he : (BitVec.ofNat 11 (b.toNat / 2 ^ 52)).toNat = b.toNat / 2 ^ 52 % 2 ^ 11 := BitVec.toNat_ofNat ..
  have hm : (BitVec.ofNat 52 b.toNat).toNat = b.toNat % 2 ^ 52 := BitVec.toNat_ofNat ..
  refine ⟨_, _, _, ?_, rfl, he, hm⟩
  apply BitVec.eq_of_toNat_eq
  rw [toNat_packComponents, he, hm]
  split
  case isTrue h =>
    change _ = 0 * 2 ^ 63 + _ + _
    omega
  case isFalse h =>
    change _ = 1 * 2 ^ 63 + _ + _
    omega

theorem unpackSign_packComponents (s : Sign) (e : BitVec 11) (m : BitVec 52) :
    Sign.ofBitVec (unpackSign (packComponents Format.binary64 s e m)) = s := by
  have hfield : unpackSign (packComponents Format.binary64 s e m) = s.toBitVec := by
    have hbits := toNat_packComponents s e m
    have he := e.isLt
    have hm := m.isLt
    have hs := s.toBitVec.isLt
    apply BitVec.eq_of_toNat_eq
    unfold unpackSign
    simp [Nat.shiftRight_eq_div_pow, hbits]
    omega
  rw [hfield]
  cases s <;> rfl

theorem pack_finite (s : Sign) (m : Nat) (e : Int) (hm : 0 < m) :
    UnpackedFloat.pack Format.binary64 (.finite s m e hm) =
      if 2 ^ 11 ≤ (e + (1023 : Nat) + (52 : Nat)).toNat + 1 then packedInfinity Format.binary64 s
      else if m.log2 + 1 = 53 then
        packComponents Format.binary64 s (BitVec.ofNat 11 (e + (1023 : Nat) + (52 : Nat)).toNat)
          (BitVec.ofNat 52 m)
      else packComponents Format.binary64 s 0#11 (BitVec.ofNat 52 m) := rfl

/-- A normal double is packed into the fields that it was taken from. -/
theorem pack_normal (s : Sign) (e : BitVec 11) (m : BitVec 52) (hm : 0 < (1#1 ++ m).toNat)
    (hzero : e ≠ 0#11) (hones : e ≠ -1#11) :
    UnpackedFloat.pack Format.binary64 (.finite s (1#1 ++ m).toNat ((e.toNat : Int) - 1075) hm) =
      packComponents Format.binary64 s e m := by
  have hmant := toNat_implicit m
  have hlt := m.isLt
  have helt := e.isLt
  have hpos : e.toNat ≠ 0 := fun h => hzero (BitVec.eq_of_toNat_eq h)
  have hmax : e.toNat ≠ 2047 := fun h => hones (BitVec.eq_of_toNat_eq h)
  have hexp : ((e.toNat : Int) - 1075 + (1023 : Nat) + (52 : Nat)).toNat = e.toNat := by omega
  have hlog : (1#1 ++ m).toNat.log2 = 52 := (Nat.log2_eq_iff (by omega)).mpr ⟨by omega, by omega⟩
  have hfrac : BitVec.ofNat 52 (1#1 ++ m).toNat = m := by
    apply BitVec.eq_of_toNat_eq
    rw [BitVec.toNat_ofNat, hmant]
    omega
  rw [pack_finite, hexp, if_neg (by omega), if_pos (by omega), hfrac, BitVec.ofNat_toNat,
    BitVec.setWidth_eq]

/-- So is a double below the normal ones. -/
theorem pack_subnormal (s : Sign) (m : BitVec 52) (hm : 0 < m.toNat) :
    UnpackedFloat.pack Format.binary64 (.finite s m.toNat (-1074) hm) =
      packComponents Format.binary64 s 0#11 m := by
  have hlog : m.toNat.log2 < 52 := (Nat.log2_lt (by omega)).mpr m.isLt
  rw [pack_finite, if_neg (by decide), if_neg (by omega), BitVec.ofNat_toNat, BitVec.setWidth_eq]

/-- What is not infinite keeps its bits when it is taken apart and put together again, with the
sign or against it. -/
theorem pack_unpack (s : Sign) (e : BitVec 11) (m : BitVec 52) (hones : e ≠ -1#11) :
    pack Format.binary64 (unpack Format.binary64 (packComponents Format.binary64 s e m)) =
        packComponents Format.binary64 s e m ∧
      pack Format.binary64 (unpack Format.binary64 (packComponents Format.binary64 s e m)).neg =
        packComponents Format.binary64 (-s) e m := by
  have hsign := unpackSign_packComponents s e m
  have hexponent : unpackExponent (packComponents Format.binary64 s e m) = e := unpackExponent_packComponents
  have hmantissa : unpackMantissa (packComponents Format.binary64 s e m) = m := unpackMantissa_packComponents
  obtain ⟨b, hb⟩ : ∃ b, packComponents Format.binary64 s e m = b := ⟨_, rfl⟩
  rw [hb] at hsign hexponent hmantissa
  rw [congrArg (UnpackedFloat.unpack Format.binary64) hb]
  -- The proofs inside what is unpacked depend on the fields, so the fields are named after the bits.
  subst hsign hexponent hmantissa
  clear hb
  unfold UnpackedFloat.unpack
  dsimp only
  rw [if_neg hones]
  by_cases hzero : unpackExponent b = 0#11
  · rw [if_pos hzero, hzero]
    by_cases hm : unpackMantissa b = 0#52
    · rw [dif_pos hm, hm]
      exact ⟨rfl, rfl⟩
    · rw [dif_neg hm]
      exact ⟨pack_subnormal _ _ _, pack_subnormal _ _ _⟩
  · rw [if_neg hzero]
    exact ⟨pack_normal _ _ _ _ hzero hones, pack_normal _ _ _ _ hzero hones⟩

theorem isFinite_unpack (s : Sign) (e : BitVec 11) (m : BitVec 52) :
    (UnpackedFloat.unpack Format.binary64 (packComponents Format.binary64 s e m)).isFinite = true ↔
      e ≠ -1#11 := by
  have hexponent : unpackExponent (packComponents Format.binary64 s e m) = e := unpackExponent_packComponents
  unfold UnpackedFloat.unpack
  dsimp only
  rw [hexponent]
  by_cases hones : e = -1#11
  · rw [if_pos hones]
    refine iff_of_false ?_ (absurd hones)
    split <;> exact Bool.false_ne_true
  · rw [if_neg hones]
    refine iff_of_true ?_ hones
    by_cases hzero : e = 0#11
    · rw [if_pos hzero]
      by_cases hm : unpackMantissa (packComponents Format.binary64 s e m) = 0#52
      · rw [dif_pos hm]
        rfl
      · rw [dif_neg hm]
        rfl
    · rw [if_neg hzero]
      rfl

variable {x y : Float}

theorem ext_toBits (h : x.toBits = y.toBits) : x = y := by
  obtain ⟨⟨b, hb⟩⟩ := x
  obtain ⟨⟨c, hc⟩⟩ := y
  cases (show b = c from h)
  rfl

/-- A double is finite if the exponent field of its bits is not all ones. -/
theorem isFinite_iff_toBits : x.isFinite = true ↔ x.toBits.toNat / 2 ^ 52 % 2 ^ 11 ≠ 2047 := by
  obtain ⟨s, e, m, hb, -, he, -⟩ := exists_packComponents x.toBits.toBitVec
  change (UnpackedFloat.unpack Format.binary64 x.toBits.toBitVec).isFinite = true ↔
    x.toBits.toBitVec.toNat / 2 ^ 52 % 2 ^ 11 ≠ 2047
  rw [← he, hb, isFinite_unpack]
  exact not_congr ⟨fun h => congrArg BitVec.toNat h, fun h => BitVec.eq_of_toNat_eq h⟩

theorem toBits_ofBits {b : UInt64} (h : b.toNat / 2 ^ 52 % 2 ^ 11 ≠ 2047) :
    (Float.ofBits b).toBits = b := by
  obtain ⟨s, e, m, hb, -, he, -⟩ := exists_packComponents b.toBitVec
  have hones : e ≠ -1#11 := fun h' => h (by rw [← UInt64.toNat_toBitVec, ← he, h']; rfl)
  have hpack := (pack_unpack s e m hones).1
  rw [← hb] at hpack
  exact UInt64.toBitVec_inj.mp hpack

theorem toNat_toBits_neg_ofBits {b : UInt64} (h : b.toNat < 2047 * 2 ^ 52) :
    (-Float.ofBits b).toBits.toNat = b.toNat + 2 ^ 63 := by
  obtain ⟨s, e, m, hb, hs, he, hm⟩ := exists_packComponents b.toBitVec
  have hbits : (Float.ofBits b).toBits = b := toBits_ofBits (by omega)
  have hnat : b.toBitVec.toNat = b.toNat := rfl
  have hones : e ≠ -1#11 := fun h' => by
    have : e.toNat = 2047 := by rw [h']; rfl
    omega
  have hpack := (pack_unpack s e m hones).2
  rw [← hb] at hpack
  rw [if_pos (by omega)] at hs
  subst hs
  have hneg : (-Float.ofBits b).toBits.toBitVec = packComponents Format.binary64 .negative e m := by
    change UnpackedFloat.pack Format.binary64
      (UnpackedFloat.unpack Format.binary64 (Float.ofBits b).toBits.toBitVec).neg = _
    rw [hbits]
    exact hpack
  have htotal := congrArg BitVec.toNat hneg
  rw [toNat_packComponents] at htotal
  change (-Float.ofBits b).toBits.toNat = 1 * 2 ^ 63 + _ + _ at htotal
  omega

/-- A finite double is determined by what it stands for. -/
theorem eq_of_unpack_eq (hx : x.isFinite = true) (h : x.toModel.unpack = y.toModel.unpack) : x = y := by
  have hself {z : Float} (hz : z.isFinite = true) :
      UnpackedFloat.pack Format.binary64 z.toModel.unpack = z.toBits.toBitVec := by
    obtain ⟨s, e, m, hb, -⟩ := exists_packComponents z.toBits.toBitVec
    have hz' : (UnpackedFloat.unpack Format.binary64 z.toBits.toBitVec).isFinite = true := hz
    rw [hb, isFinite_unpack] at hz'
    have hpack := (pack_unpack s e m hz').1
    rw [← hb] at hpack
    exact hpack
  have hy : y.isFinite = true := by
    change y.toModel.unpack.isFinite = true
    rw [← h]
    exact hx
  apply ext_toBits
  apply UInt64.toBitVec_inj.mp
  rw [← hself hx, h, hself hy]

/-- Doubles that compare as equal are the same, unless they are zero. -/
theorem eq_of_beq_finite {s : Sign} {m : Nat} {e : Int} {hm : 0 < m} (h : (x == y) = true)
    (hy : y.toModel.unpack = .finite s m e hm) : x = y := by
  have hcompare : (x.toModel.unpack.compare y.toModel.unpack == some .eq) = true := h
  rw [hy] at hcompare
  have hx : x.toModel.unpack = .finite s m e hm := by
    generalize x.toModel.unpack = u at hcompare
    cases u with
    | notANumber => cases hcompare
    | infinity t => cases t <;> cases hcompare
    | zero t => cases s <;> cases hcompare
    | finite t n f hn =>
      have hfields : t = s ∧ (compare f e).then (compare n m) = .eq := by
        cases s <;> cases t
        · exact ⟨rfl, Ordering.swap_eq_eq.mp (Option.some.inj (eq_of_beq hcompare))⟩
        · cases hcompare
        · cases hcompare
        · exact ⟨rfl, Option.some.inj (eq_of_beq hcompare)⟩
      obtain ⟨rfl, hfields⟩ := hfields
      obtain ⟨hexponent, hmantissa⟩ := Ordering.then_eq_eq.mp hfields
      obtain rfl := Int.compare_eq_eq.mp hexponent
      obtain rfl := Nat.compare_eq_eq.mp hmantissa
      rfl
  apply eq_of_unpack_eq _ (hx.trans hy.symm)
  change x.toModel.unpack.isFinite = true
  rw [hx]
  rfl

theorem exists_unpack_finite (hy : y.isFinite = true) (hne : y.toBits.toNat % 2 ^ 63 ≠ 0) :
    ∃ s m e hm, y.toModel.unpack = .finite s m e hm := by
  obtain ⟨s, e, m, hb, -, he, hm⟩ := exists_packComponents y.toBits.toBitVec
  have hnat : y.toBits.toBitVec.toNat = y.toBits.toNat := rfl
  have hfinite : (UnpackedFloat.unpack Format.binary64 y.toBits.toBitVec).isFinite = true := hy
  rw [hb, isFinite_unpack] at hfinite
  change ∃ s' m' e' hm', UnpackedFloat.unpack Format.binary64 y.toBits.toBitVec = .finite s' m' e' hm'
  rw [hb]
  have hexponent : unpackExponent (packComponents Format.binary64 s e m) = e := unpackExponent_packComponents
  have hmantissa : unpackMantissa (packComponents Format.binary64 s e m) = m := unpackMantissa_packComponents
  unfold UnpackedFloat.unpack
  dsimp only
  rw [hexponent, if_neg hfinite]
  by_cases hzero : e = 0#11
  · have hpos : 0 < m.toNat := by
      rw [hzero] at he
      change 0 = _ at he
      omega
    rw [if_pos hzero, dif_neg fun h => by rw [← hmantissa, h] at hpos; exact absurd hpos (by decide)]
    exact ⟨_, _, _, by rwa [hmantissa], rfl⟩
  · have hpos := toNat_implicit (unpackMantissa (packComponents Format.binary64 s e m))
    rw [if_neg hzero]
    exact ⟨_, _, _, by omega, rfl⟩

/-- The one form that a finite double has: the mantissa is below the lowest only for numbers that
are too small for it. -/
structure Canonical (mantissa : Nat) (exponent : Int) : Prop where
  bounded : mantissa < 2 ^ 53
  least : -1074 ≤ exponent
  greatest : exponent ≤ 971
  normal : 2 ^ 52 ≤ mantissa ∨ exponent = -1074

/-- The bits of a number without a sign. -/
def pattern (mantissa : Nat) (exponent : Int) : Nat := (exponent + 1074).toNat * 2 ^ 52 + mantissa

def magnitude (mantissa : Nat) (exponent : Int) : Float :=
  Float.ofBits (UInt64.ofNat (pattern mantissa exponent))

/-- A double of this sign. -/
def signed (negative : Bool) (x : Float) : Float := if negative then -x else x

variable {negative : Bool} {mantissa : Nat} {exponent : Int}

theorem Canonical.pattern_lt (h : Canonical mantissa exponent) :
    pattern mantissa exponent < 2047 * 2 ^ 52 := by
  obtain ⟨hm, hlow, hhigh, -⟩ := h
  unfold pattern
  omega

theorem toNat_pattern (h : Canonical mantissa exponent) :
    (UInt64.ofNat (pattern mantissa exponent)).toNat = pattern mantissa exponent := by
  have := h.pattern_lt
  rw [UInt64.toNat_ofNat']
  omega

theorem toBits_magnitude (h : Canonical mantissa exponent) :
    (magnitude mantissa exponent).toBits.toNat = pattern mantissa exponent := by
  have hlt := h.pattern_lt
  have hnat := toNat_pattern h
  unfold magnitude
  rw [toBits_ofBits (by omega), hnat]

theorem toBits_neg_magnitude (h : Canonical mantissa exponent) :
    (-magnitude mantissa exponent).toBits.toNat = pattern mantissa exponent + 2 ^ 63 := by
  have hlt := h.pattern_lt
  have hnat := toNat_pattern h
  unfold magnitude
  rw [toNat_toBits_neg_ofBits (by omega), hnat]

theorem eq_signed_magnitude (h : Canonical mantissa exponent)
    (hx : x.toBits.toNat = (if negative then 2 ^ 63 else 0) + pattern mantissa exponent) :
    x = signed negative (magnitude mantissa exponent) := by
  apply ext_toBits
  apply UInt64.toNat_inj.mp
  cases negative with
  | false =>
    have := toBits_magnitude h
    simp only [signed, Bool.false_eq_true, if_false] at hx ⊢
    omega
  | true =>
    have := toBits_neg_magnitude h
    simp only [signed, if_true] at hx ⊢
    omega

/-- A finite double is the number that its bits stand for. -/
theorem ofFloat_eq_finite (h : ofFloat x = .finite negative mantissa exponent) :
    Canonical mantissa exponent ∧ x = signed negative (magnitude mantissa exponent) := by
  have hx := x.toBits.toNat_lt
  have hsign : (if decide (2 ^ 63 ≤ x.toBits.toNat) = true then 2 ^ 63 else 0) =
      x.toBits.toNat / 2 ^ 63 * 2 ^ 63 := by
    simp only [decide_eq_true_eq]
    split <;> omega
  unfold ofFloat at h
  simp only [Nat.pow_eq] at h
  split at h
  · split at h <;> cases h
  · split at h
    case isTrue hones hzero =>
      cases h
      have hcanonical : Canonical (x.toBits.toNat % 2 ^ 52) (-1074) :=
        ⟨by omega, by omega, by omega, .inr rfl⟩
      refine ⟨hcanonical, eq_signed_magnitude hcanonical ?_⟩
      unfold pattern
      rw [hsign]
      omega
    case isFalse hones hzero =>
      cases h
      have hcanonical : Canonical (x.toBits.toNat % 2 ^ 52 + 2 ^ 52)
          ((x.toBits.toNat / 2 ^ 52 % 2 ^ 11 : Nat) - 1075) :=
        ⟨by omega, by omega, by omega, .inl (by omega)⟩
      refine ⟨hcanonical, eq_signed_magnitude hcanonical ?_⟩
      unfold pattern
      rw [hsign]
      omega

theorem isFinite_iff_ofFloat :
    x.isFinite = true ↔ ∃ negative mantissa exponent, ofFloat x = .finite negative mantissa exponent := by
  rw [isFinite_iff_toBits]
  unfold ofFloat
  simp only [Nat.pow_eq]
  constructor
  · intro h
    rw [if_neg h]
    split <;> exact ⟨_, _, _, rfl⟩
  · rintro ⟨negative, mantissa, exponent, h⟩ hones
    rw [if_pos hones] at h
    split at h <;> cases h

/-- A double that compares as equal to a positive number is that number. -/
theorem eq_magnitude_of_beq (hm : 0 < mantissa) (h : Canonical mantissa exponent)
    (hx : (x == magnitude mantissa exponent) = true) : x = magnitude mantissa exponent := by
  have hbits := toBits_magnitude h
  have hlt := h.pattern_lt
  have hne : pattern mantissa exponent ≠ 0 := by
    unfold pattern
    omega
  obtain ⟨s, m, e, hm', hunpack⟩ := exists_unpack_finite (y := magnitude mantissa exponent)
    (isFinite_iff_toBits.mpr (by omega)) (by omega)
  exact eq_of_beq_finite hx hunpack

end Milp.Binary64
