import Milp.Proofs.Names
import Milp.Proofs.Nearest

/-! Whole numbers in a name that are held to bounds. They are written out, but compared as doubles. -/
namespace Milp

open Binary64 (ofRat)

namespace Extended

variable {lower upper : Float} {l u r : ℚ}

/-- A number is between two doubles when it is, and when it is rounded to one of them. -/
theorem between_ofRat_iff (hlower : ofFloat lower = .finite l) (hupper : ofFloat upper = .finite u)
    (hle : l ≤ u) : (decide (lower ≤ ofRat r) && decide (ofRat r ≤ upper)) = true ↔
      (l ≤ r ∧ r ≤ u) ∨ ofFloat (ofRat r) = .finite l ∨ ofFloat (ofRat r) = .finite u := by
  have hread (y z : Float) : decide (y ≤ z) = le (ofFloat y) (ofFloat z) := (le_ofFloat y z).symm
  have hl := Binary64.ofFloat_ofRat hlower
  have hu := Binary64.ofFloat_ofRat hupper
  rw [hread, hread, hlower, hupper, Bool.and_eq_true]
  constructor
  · rintro ⟨hlow, hhigh⟩
    rcases lt_or_ge r l with hr | hr
    · have hrl := Binary64.le_ofRat hr.le
      rw [hl] at hrl
      exact .inr (.inl (eq_of_le_of_le hrl hlow))
    rcases lt_or_ge u r with hr' | hr'
    · have hur := Binary64.le_ofRat hr'.le
      rw [hu] at hur
      exact .inr (.inr (eq_of_le_of_le hhigh hur))
    · exact .inl ⟨hr, hr'⟩
  · rintro (⟨hlr, hru⟩ | h | h)
    · have hlow := Binary64.le_ofRat hlr
      have hhigh := Binary64.le_ofRat hru
      rw [hl] at hlow
      rw [hu] at hhigh
      exact ⟨hlow, hhigh⟩
    · rw [h]
      exact ⟨le_self nofun, decide_eq_true hle⟩
    · rw [h]
      exact ⟨decide_eq_true hle, le_self nofun⟩

/-- Whole numbers up to here are doubles. -/
theorem exists_ofFloat_eq {z : Int} (hz : z.natAbs ≤ 2 ^ 53) : ∃ x, ofFloat x = .finite z := by
  have hcast : (z : ℚ) = if decide (z < 0) then -(z.natAbs : ℚ) else z.natAbs := by
    rw [Nat.cast_natAbs]
    rcases lt_or_ge z 0 with h | h
    · rw [if_pos (decide_eq_true h), abs_of_neg h, Int.cast_neg, neg_neg]
    · rw [if_neg (by simpa using h), abs_of_nonneg h]
  rcases hz.lt_or_eq with hlt | heq
  · exact ⟨_, (Binary64.extended_nearest hlt).trans (congrArg finite hcast.symm)⟩
  · -- the last of them has one bit more than a mantissa
    have hlast (negative : Bool) : ofFloat (Binary64.signed negative (Binary64.magnitude (2 ^ 52) 1)) =
        .finite (if negative then -((2 ^ 53 : ℕ) : ℚ) else (2 ^ 53 : ℕ)) := by
      rw [ofFloat, Binary64.ofFloat_signed ⟨by omega, by omega, by omega, .inl le_rfl⟩, Binary64.extended]
      norm_num
    rw [heq] at hcast
    exact ⟨_, (hlast _).trans (congrArg finite hcast.symm)⟩

end Extended

namespace Naming

namespace MachineInteger

variable {n : MachineInteger}

/-- What a slot takes the integer for: a word that is too large comes out negative. -/
def signed (n : MachineInteger) : Int := n.toInt.bmod (2 ^ 64)

theorem toInt_toInt64 (n : UInt64) : n.toInt64.toInt = (n.toNat : Int).bmod (2 ^ 64) :=
  BitVec.toInt_eq_toNat_bmod n.toBitVec

theorem ofMachine_eq (n : MachineInteger) : ∃ k : Int64, Slot.ofMachine n = .int k ∧ k.toInt = n.signed := by
  cases n with
  | int8 n => exact ⟨_, rfl, n.toInt_toInt64.trans n.toInt_bmod_18446744073709551616.symm⟩
  | int16 n => exact ⟨_, rfl, n.toInt_toInt64.trans n.toInt_bmod_18446744073709551616.symm⟩
  | int32 n => exact ⟨_, rfl, n.toInt_toInt64.trans n.toInt_bmod_18446744073709551616.symm⟩
  | int64 n => exact ⟨n, rfl, n.toInt_bmod.symm⟩
  | uint8 n => exact ⟨_, rfl, toInt_toInt64 n.toUInt64⟩
  | uint16 n => exact ⟨_, rfl, toInt_toInt64 n.toUInt64⟩
  | uint32 n => exact ⟨_, rfl, toInt_toInt64 n.toUInt64⟩
  | word n => exact ⟨_, rfl, toInt_toInt64 n⟩

theorem le_toInt (n : MachineInteger) : -2 ^ 63 ≤ n.toInt := by
  cases n with
  | int8 n | int16 n | int32 n | int64 n =>
    have hlow := n.le_toInt
    simp only [toInt]
    omega
  | uint8 n | uint16 n | uint32 n | word n =>
    simp only [toInt]
    omega

theorem signed_eq (h : n.toInt < 2 ^ 63) : n.signed = n.toInt := by
  have hlow := n.le_toInt
  exact Int.bmod_eq_of_le_mul_two (by push_cast; omega) (by push_cast; omega)

end MachineInteger

namespace Generator

variable {g : Generator}

theorem name_singleton {r : Rule} (h : g.checks = [[r.check]]) (s : Slot) : g.name [s] =
    if r.condition.holds [s] then .ok (g.stem ++ g.separator ++ s.display)
    else .error (.rejected r.reason) := by
  have hcount : [s].length = g.indexCount := by rw [indexCount, h]; rfl
  have htext : g.text [s] = g.stem ++ g.separator ++ s.display := (text_eq _ _ [s]).symm
  rw [name_eq, if_pos hcount, h, htext]
  change (r.check.run [s] >>= fun _ => .ok ()) >>= _ = _
  rw [Rule.run_check]
  split <;> rfl

theorem exists_withCheck {c : Check} (stem separator : String) (h : c.slot = 0) :
    let blank := (new stem 1).withSeparator separator
    ∃ g, blank.withCheck c = .ok g ∧ g.stem = blank.stem ∧ g.separator = blank.separator ∧
      g.checks = [[c]] := by
  intro blank
  have hchecks : blank.checks = [[]] := by
    change (withSeparator _ _).checks = _
    unfold withSeparator
    split <;> rfl
  have hslot : c.slot < blank.indexCount := by
    rw [h, indexCount, hchecks]
    exact Nat.one_pos
  refine ⟨_, if_pos hslot, rfl, rfl, ?_⟩
  rw [hchecks, h]
  rfl

end Generator

variable {lower upper : Float} {lo hi : Int}

/-- What is a double is not rounded to anything else. -/
theorem between_of_ofFloat_eq (hle : lo ≤ hi) {z : Int} (hz : ∃ x, Extended.ofFloat x = .finite z) :
    (lo ≤ z ∧ z ≤ hi) ∨ Extended.ofFloat (ofRat z) = .finite lo ∨
      Extended.ofFloat (ofRat z) = .finite hi ↔ lo ≤ z ∧ z ≤ hi := by
  obtain ⟨x, hx⟩ := hz
  rw [Binary64.ofFloat_ofRat hx, Extended.finite.injEq, Extended.finite.injEq, Int.cast_inj, Int.cast_inj]
  omega

section Within

variable (hlower : Extended.ofFloat lower = .finite lo) (hupper : Extended.ofFloat upper = .finite hi)
  (hle : lo ≤ hi)
include hlower hupper hle

/-- Bounds in order are both kept. -/
theorem Condition.within_eq (slot : Nat) : within slot lower upper = .range slot lower upper := by
  have hcast : (lo : ℚ) ≤ hi := Int.cast_le.mpr hle
  have hlt : Scalar.lt upper lower = false := by
    rw [← Extended.lt_ofFloat, hlower, hupper]
    change (decide ((hi : ℚ) ≤ lo) && !decide ((lo : ℚ) ≤ hi)) = false
    rw [decide_eq_true hcast, Bool.not_true, Bool.and_false]
  rw [within, if_neg (of_decide_eq_false hlt)]

/-- A whole number is let through between the bounds, and where it is rounded to one of them. -/
theorem Condition.holds_within_iff (n : MachineInteger) :
    (within 0 lower upper).holds [.ofMachine n] = true ↔ (lo ≤ n.signed ∧ n.signed ≤ hi) ∨
      Extended.ofFloat (ofRat n.signed) = .finite lo ∨ Extended.ofFloat (ofRat n.signed) = .finite hi := by
  obtain ⟨k, hk, hsigned⟩ := n.ofMachine_eq
  have hbetween := Extended.between_ofRat_iff (r := n.signed) hlower hupper (Int.cast_le.mpr hle)
  rw [Int.cast_le, Int.cast_le] at hbetween
  rw [← hbetween, within_eq hlower hupper hle, hk, ← hsigned]
  rfl

end Within

namespace Generator

/-- A whole number is let through between its bounds, and when it is rounded to one of them, and is then
written out. A word that is too large is taken for a negative number; up to 2^53 nothing is rounded. -/
theorem name_ranged (hlower : Extended.ofFloat lower = .finite lo)
    (hupper : Extended.ofFloat upper = .finite hi) (hle : lo ≤ hi) (stem separator : String) :
    let blank := (new stem 1).withSeparator separator
    let r : Rule := .ofCondition (.within 0 lower upper)
    ∃ g, blank.withCheck r.check = .ok g ∧ ∀ n : MachineInteger,
      let rounded := Extended.ofFloat (ofRat n.signed)
      (g.name [.ofMachine n] =
        if (lo ≤ n.signed ∧ n.signed ≤ hi) ∨ rounded = .finite lo ∨ rounded = .finite hi then
          .ok (blank.stem ++ blank.separator ++ toString n.signed)
        else .error (.rejected r.reason)) ∧
      (n.toInt < 2 ^ 63 → n.signed = n.toInt) ∧
      (n.toInt < 2 ^ 63 → (∃ x, Extended.ofFloat x = .finite n.toInt) →
        g.name [.ofMachine n] =
          if lo ≤ n.toInt ∧ n.toInt ≤ hi then .ok (blank.stem ++ blank.separator ++ toString n.toInt)
          else .error (.rejected r.reason)) ∧
      (n.toInt.natAbs ≤ 2 ^ 53 → ∃ x, Extended.ofFloat x = .finite n.toInt) := by
  intro blank r
  have hslot : r.check.slot = 0 := congrArg Condition.slot (Condition.within_eq hlower hupper hle 0)
  obtain ⟨g, hg, hstem, hseparator, hchecks⟩ := exists_withCheck stem separator hslot
  refine ⟨g, hg, fun n => ?_⟩
  intro rounded
  have hname : g.name [.ofMachine n] =
      if (lo ≤ n.signed ∧ n.signed ≤ hi) ∨ rounded = .finite lo ∨ rounded = .finite hi then
        .ok (blank.stem ++ blank.separator ++ toString n.signed)
      else .error (.rejected r.reason) := by
    obtain ⟨k, hk, hsigned⟩ := n.ofMachine_eq
    have hdisplay : (Slot.ofMachine n).display = toString n.signed := by rw [hk, ← hsigned]; rfl
    rw [name_singleton hchecks, hstem, hseparator, hdisplay]
    exact if_congr (Condition.holds_within_iff hlower hupper hle n) rfl rfl
  refine ⟨hname, MachineInteger.signed_eq, fun hfits hdouble => ?_, Extended.exists_ofFloat_eq⟩
  have hsigned : n.signed = n.toInt := MachineInteger.signed_eq hfits
  rw [hname, show rounded = Extended.ofFloat (ofRat n.toInt) by rw [← hsigned], hsigned]
  exact if_congr (between_of_ofFloat_eq hle hdouble) rfl rfl

/-- Between `0` and a bound up to which no whole number is rounded. -/
theorem name_ranged_shelves :
    let r : Rule := .ofCondition (.within 0 0 9007199254740992)
    Extended.ofFloat 0 = .finite (0 : Int) ∧
      Extended.ofFloat 9007199254740992 = .finite (9007199254740992 : Int) ∧
      ∃ g, ((new "shelf" 1).withSeparator " ").withCheck r.check = .ok g ∧
        g.name [.ofMachine (.word 12)] = .ok "shelf-/-12" ∧
        g.name [.ofMachine (.int64 9007199254740992)] = .ok "shelf-/-9007199254740992" ∧
        g.name [.ofMachine (.int8 (-1))] = .error (.rejected r.reason) := by
  intro r
  have hlower : Extended.ofFloat 0 = .finite (0 : Int) := by
    have hparts : Binary64.ofFloat 0 = .finite false 0 (-1074) := rfl
    rw [Extended.ofFloat, hparts, Binary64.extended]
    norm_num
  have hupper : Extended.ofFloat 9007199254740992 = .finite (9007199254740992 : Int) := by
    have hparts : Binary64.ofFloat 9007199254740992 = .finite false (2 ^ 52) 1 := rfl
    rw [Extended.ofFloat, hparts, Binary64.extended]
    norm_num
  obtain ⟨g, hg, hname⟩ := name_ranged hlower hupper (by decide) "shelf" " "
  have hexact (n : MachineInteger) (hfits : n.toInt < 2 ^ 63) (hn : n.toInt.natAbs ≤ 2 ^ 53) :=
    (hname n).2.2.1 hfits ((hname n).2.2.2 hn)
  refine ⟨hlower, hupper, g, hg, ?_, ?_, ?_⟩
  · exact (hexact (.word 12) (by decide) (by decide)).trans rfl
  · exact (hexact (.int64 9007199254740992) (by decide) (by decide)).trans rfl
  · exact (hexact (.int8 (-1)) (by decide) (by decide)).trans rfl

/-- One more than that bound passes, and a large word passes for a negative number. -/
theorem name_ranged_rounded :
    9007199254740992 < (MachineInteger.int64 9007199254740993).toInt ∧
      ((new "shelf" 1).withCheck (.ofCondition (.within 0 0 9007199254740992)) >>=
        fun g => g.name [.ofMachine (.int64 9007199254740993)]) = .ok "shelf-/-9007199254740993" ∧
      0 < (MachineInteger.word 9223372036854775808).toInt ∧
      ((new "shelf" 1).withCheck (.ofCondition (.within 0 (-9223372036854775808) 0)) >>=
        fun g => g.name [.ofMachine (.word 9223372036854775808)]) = .ok "shelf-/--9223372036854775808" := by
  exact ⟨by decide, rfl, by decide, rfl⟩

end Generator
end Naming
end Milp
