import Milp.Json.Token

/-! The double that a number in a text is read as. A reader need not find the nearest one: the one that is
used rounds the digits first, and then their product or quotient with a power of ten. -/
namespace Milp.Json

/-- A way to read numbers. It may refuse one, and what it yields is finite. -/
structure NumberReader where
  read : Numeral → Option Float
  finite : ∀ n x, read n = some x → x.isFinite = true

namespace NumberReader

/-- Reads numbers by a rule, and refuses those for which it yields nothing finite. -/
def checked (rule : Numeral → Option Float) : NumberReader where
  read n := (rule n).filter Float.isFinite
  finite _ _ h := (Option.filter_eq_some_iff.mp h).2

/-- Reads a number as the double that is nearest to it. -/
def nearest : NumberReader := checked fun n => some n.toFloat

/-- The first digits of a number that fit into 64 bits. The point moves by one for each digit that is left
out. -/
def clip : (fuel : Nat) → Decimal → Decimal
  | 0, d => d
  | fuel + 1, d => if d.coefficient < Nat.pow 2 64 then d else clip fuel ⟨d.coefficient / 10, d.exponent + 1⟩

/-- The power of ten in a table of doubles. -/
def power (k : Nat) : Float := Decimal.toFloat ⟨1, k⟩

/-- Moves the point of a double by powers of ten of the table, which ends at `10^308`. -/
def scale (x : Float) (k : Int) : Option Float :=
  if x == 0 then some x
  else if 308 < k then none
  else if 0 ≤ k then some (x * power k.toNat)
  else if -308 ≤ k then some (x / power (-k).toNat)
  else if -616 ≤ k then some (x / power 308 / power (-k - 308).toNat)
  else some 0

/-- Reads the digits of a number as a double, and then moves the point of it. Each step rounds. -/
def scaling : NumberReader := checked fun n =>
  let d := clip n.coefficient.log2 ⟨n.coefficient, n.exponent⟩
  (scale (Decimal.toFloat ⟨d.coefficient, 0⟩) d.exponent).map fun x => if n.negative then -x else x

/-- The nearest double is not always found. -/
example : let n : Numeral := ⟨false, 12148791951161945, -14, false⟩
    (scaling.read n).map Float.toBits = some 0x405E5F3A12C25F17 ∧
      (nearest.read n).map Float.toBits = some 0x405E5F3A12C25F18 := by decide

end NumberReader
end Milp.Json
