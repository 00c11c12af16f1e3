import Milp.Binary64

/-! Decimal numbers: the double that a decimal reads as, and the fewest digits that read back. -/
namespace Milp

/-- The number `coefficient · 10^exponent`. -/
structure Decimal where
  coefficient : Nat
  exponent : Int
deriving DecidableEq, Repr

/-- What to do with two decimals of one length that are equally near to a double. -/
inductive Tie
  | up
  | even
deriving DecidableEq, Repr

namespace Decimal

def digitCount (n : Nat) : Nat := (Nat.toDigits 10 n).length

/-- The double nearest to a decimal. Exponents far outside the range of doubles are cut off first. -/
def toFloat (d : Decimal) : Float :=
  if d.coefficient = 0 then 0
  else if 400 < d.exponent then Float.ofBits 0x7FF0000000000000
  else if d.exponent + digitCount d.coefficient < -400 then 0
  else if 0 ≤ d.exponent then Binary64.nearest (d.coefficient * Nat.pow 10 d.exponent.toNat) 1
  else Binary64.nearest d.coefficient (Nat.pow 10 (-d.exponent).toNat)

/-- How many digits stand before the point of `num / den`; negative for zeros after it. -/
def pointPosition (num den : Nat) : Int :=
  let guess : Int := digitCount num - digitCount den
  let reached := if 0 ≤ guess then den * Nat.pow 10 guess.toNat ≤ num else den ≤ num * Nat.pow 10 (-guess).toNat
  if reached then guess + 1 else guess

/-- The decimals of the grid `10^exponent` next to `num / den`, with the distance to the lower one
in units of `1 / den'` of the grid. -/
def gridNeighbours (num den : Nat) (exponent : Int) : Decimal × Decimal × Nat × Nat :=
  let (num, den) := if 0 ≤ exponent then (num, den * Nat.pow 10 exponent.toNat) else (num * Nat.pow 10 (-exponent).toNat, den)
  (⟨num / den, exponent⟩, ⟨num / den + 1, exponent⟩, num % den, den)

/-- The better of the two neighbours on a grid that read back as `x`, if any does. -/
def onGrid? (tie : Tie) (x : Float) (num den : Nat) (exponent : Int) : Option Decimal :=
  let (low, high, rest, unit) := gridNeighbours num den exponent
  match low.toFloat == x && low.coefficient != 0, high.toFloat == x with
  | true, true =>
    if 2 * rest < unit then some low
    else if unit < 2 * rest then some high
    else match tie with
      | .up => some high
      | .even => some (if low.coefficient % 2 = 0 then low else high)
  | true, false => some low
  | false, true => some high
  | false, false => none

/-- Every digit of `mantissa · 2^exponent`. -/
def exact (mantissa : Nat) (exponent : Int) : Decimal :=
  if 0 ≤ exponent then ⟨mantissa * Nat.pow 2 exponent.toNat, 0⟩
  else ⟨mantissa * Nat.pow 5 (-exponent).toNat, exponent⟩

/-- The fewest digits that read back as the positive double `mantissa · 2^exponent`, and of those the
nearest to it. Seventeen digits are enough for any double. -/
def shortest (tie : Tie) (mantissa : Nat) (exponent : Int) : Decimal :=
  let (num, den) := Binary64.fraction mantissa exponent
  let x := Binary64.nearest num den
  let point := pointPosition num den
  ((List.range 17).findSome? fun (n : Nat) => onGrid? tie x num den (point - (n + 1 : Nat))).getD (exact mantissa exponent)

/-- The number that a decimal stands for. -/
def toRat (d : Decimal) : Rat :=
  if 0 ≤ d.exponent then (d.coefficient * Nat.pow 10 d.exponent.toNat : Nat)
  else mkRat d.coefficient (Nat.pow 10 (-d.exponent).toNat)

/-- The number that a double is written as in the fewest digits. -/
def value? (x : Float) : Option Rat :=
  match Binary64.ofFloat x with
  | .finite negative m e =>
    let r := if m = 0 then 0 else (shortest .even m e).toRat
    some (if negative then -r else r)
  | _ => none

end Decimal
end Milp
