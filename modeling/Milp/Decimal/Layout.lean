import Milp.Decimal.Shortest

/-! The text of a double: shortest digits, laid out positionally or in scientific notation. -/
namespace Milp

/-- How a double is laid out. -/
structure NumberLayout where
  /-- Which of two equally near decimals is written. -/
  tie : Tie
  /-- Powers of ten of the first digit that are written positionally. -/
  positional : Int → Bool
  /-- A whole number ends in `.0`. -/
  pointed : Bool
  nan : String
  infinity : String
  negativeInfinity : String

namespace NumberLayout

def zeros (n : Nat) : String := String.ofList (List.replicate n '0')

/-- The digits of a decimal without trailing zeros, and the position of the point among them. -/
def digits (d : Decimal) : List Char × Int :=
  let all := Nat.toDigits 10 d.coefficient
  ((all.reverse.dropWhile (· == '0')).reverse, all.length + d.exponent)

def writePositional (pointed : Bool) (ds : List Char) (point : Int) : String :=
  if point ≤ 0 then "0." ++ zeros (-point).toNat ++ String.ofList ds
  else
    let whole := point.toNat
    if ds.length ≤ whole then
      String.ofList ds ++ zeros (whole - ds.length) ++ if pointed then ".0" else ""
    else String.ofList (ds.take whole) ++ "." ++ String.ofList (ds.drop whole)

def writeScientific (ds : List Char) (power : Int) : String :=
  let mark := if power < 0 then "e-" else "e+"
  let power := toString power.natAbs
  match ds with
  | [] => "0"
  | [d] => String.singleton d ++ mark ++ power
  | d :: rest => String.singleton d ++ "." ++ String.ofList rest ++ mark ++ power

/-- The text of a double in this layout. -/
def render (layout : NumberLayout) (x : Float) : String :=
  match Binary64.ofFloat x with
  | .nan => layout.nan
  | .infinite negative => if negative then layout.negativeInfinity else layout.infinity
  | .finite negative mantissa exponent =>
    let sign := if negative then "-" else ""
    if mantissa = 0 then sign ++ if layout.pointed then "0.0" else "0"
    else
      let (ds, point) := digits (Decimal.shortest layout.tie mantissa exponent)
      sign ++ if layout.positional (point - 1) then writePositional layout.pointed ds point
        else writeScientific ds (point - 1)

/-- The layout of numbers in messages and identifiers: no exponent, and no point without digits
after it. -/
def plain : NumberLayout :=
  ⟨.up, fun _ => true, false, "NaN", "inf", "-inf"⟩

/-- The layout of numbers in documents: positional from `1e-5` up to `1e16`, always with a point or
an exponent. What is not finite has no number there. -/
def document : NumberLayout :=
  ⟨.even, fun power => decide (-5 ≤ power) && decide (power < 16), true, "null", "null", "null"⟩

end NumberLayout
end Milp
