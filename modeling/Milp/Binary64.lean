/-! Doubles as exact numbers: what a double stands for, and the double nearest to a fraction. -/
namespace Milp

/-- What a double stands for. A finite one is `mantissa · 2^exponent` with a sign. -/
inductive Binary64
  | nan
  | infinite (negative : Bool)
  | finite (negative : Bool) (mantissa : Nat) (exponent : Int)
deriving DecidableEq, Repr

namespace Binary64

def ofFloat (x : Float) : Binary64 :=
  let bits := x.toBits.toNat
  let negative := decide (Nat.pow 2 63 ≤ bits)
  let biased : Nat := bits / Nat.pow 2 52 % Nat.pow 2 11
  let fraction := bits % Nat.pow 2 52
  if biased = 2047 then if fraction = 0 then .infinite negative else .nan
  else if biased = 0 then .finite negative fraction (-1074)
  else .finite negative (fraction + Nat.pow 2 52) ((biased : Int) - 1075)

/-- The fraction `mantissa · 2^exponent` as numerator and denominator. -/
def fraction (mantissa : Nat) (exponent : Int) : Nat × Nat :=
  if 0 ≤ exponent then (mantissa * Nat.pow 2 exponent.toNat, 1) else (mantissa, Nat.pow 2 (-exponent).toNat)

/-- The number that a finite double stands for. -/
def value? (x : Float) : Option Rat :=
  match ofFloat x with
  | .finite negative m e =>
    let (num, den) := fraction m e
    some (if negative then -mkRat num den else mkRat num den)
  | _ => none

/-- The whole number nearest to `num / den`; halfway goes to the even one. -/
def divRoundEven (num den : Nat) : Nat :=
  let q := num / den
  let r := num % den
  if 2 * r < den then q else if den < 2 * r then q + 1 else q + q % 2

/-- The power of two at or below `num / den`, for a positive fraction. -/
def log2Floor (num den : Nat) : Int :=
  let guess : Int := num.log2 - den.log2
  let reached := if 0 ≤ guess then den * Nat.pow 2 guess.toNat ≤ num else den ≤ num * Nat.pow 2 (-guess).toNat
  if reached then guess else guess - 1

/-- The double nearest to `num / den`; halfway goes to the even mantissa, and what is beyond the
largest double by half a unit or more is infinite. -/
def nearest (num den : Nat) : Float :=
  if num = 0 then 0 else
    let q := max (log2Floor num den - 52) (-1074)
    let m := if 0 ≤ q then divRoundEven num (den * Nat.pow 2 q.toNat) else divRoundEven (num * Nat.pow 2 (-q).toNat) den
    Float.ofBits (UInt64.ofNat (min ((q + 1074).toNat * Nat.pow 2 52 + m) (2047 * Nat.pow 2 52)))

/-- The double nearest to a rational number. -/
def ofRat (r : Rat) : Float :=
  let x := nearest r.num.natAbs r.den
  if r.num < 0 then -x else x

/-- The smallest whole number that is not below `x`; a double without a fraction is its own. -/
def ceil (x : Float) : Float :=
  match ofFloat x with
  | .finite negative m e =>
    if 0 ≤ e then x
    else
      let unit := Nat.pow 2 (-e).toNat
      if negative then -nearest (m / unit) 1 else nearest ((m + unit - 1) / unit) 1
  | _ => x

end Binary64
end Milp
