import Milp.Decimal.Layout

/-! The numbers that a model is written in: doubles when it runs, exact numbers when it is reasoned about. -/
namespace Milp

/-- Arithmetic and comparison, as far as a model needs them. -/
class Scalar (α : Type) extends Add α, Sub α, Mul α, Neg α, BEq α where
  zero : α
  one : α
  /-- The sum of no numbers; among doubles this is `-0`, which leaves every summand as it is. -/
  emptySum : α
  le : α → α → Bool
  lt : α → α → Bool
  abs : α → α
  /-- The smallest whole number that is not below. -/
  ceil : α → α
  /-- A total order, also of numbers that are equal or cannot be compared. -/
  order : α → α → Ordering

/-- Numbers with a least and a greatest element beyond the finite ones. -/
class Unbounded (α : Type) extends Scalar α where
  infinity : α
  negativeInfinity : α
  isFinite : α → Bool

/-- Numbers that messages can show. -/
class NumberText (α : Type) where
  text : α → String

export NumberText (text)

namespace Scalar

/-- The place of a double in the total order that has `-0` below `0` and is by size otherwise. -/
def rank (x : Float) : Int :=
  let bits := x.toBits.toNat
  if bits < Nat.pow 2 63 then bits else (Nat.pow 2 63 : Int) - 1 - bits

instance : Scalar Float where
  zero := 0.0
  one := 1.0
  emptySum := -0.0
  le x y := x ≤ y
  lt x y := x < y
  abs := Float.abs
  ceil := Binary64.ceil
  order x y := compare (rank x) (rank y)

instance : Unbounded Float where
  infinity := Float.ofBits 0x7FF0000000000000
  negativeInfinity := Float.ofBits 0xFFF0000000000000
  isFinite := Float.isFinite

instance : NumberText Float where
  text := NumberLayout.plain.render

instance : Scalar Rat where
  zero := 0
  one := 1
  emptySum := 0
  le x y := x ≤ y
  lt x y := x < y
  abs x := if x < 0 then -x else x
  ceil x := x.ceil
  order x y := if x < y then .lt else if x = y then .eq else .gt

end Scalar
end Milp
