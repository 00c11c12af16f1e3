import Milp.Solver.Relaxation

/-! Programs where some columns take whole values only, and what that says about ranges and rows. -/
namespace Milp.Solver

/-- A program, and which of its columns take whole values only. -/
structure MixedProgram extends Program where
  whole : List Bool

/-- The largest number that all of some numbers are whole multiples of; zero if all are zero. -/
def commonUnit (xs : List Rat) : Rat :=
  let scale : Nat := xs.foldl (fun n x => Nat.lcm n x.den) 1
  mkRat (xs.foldl (fun n x => Nat.gcd n (x * (scale : Rat)).num.natAbs) 0 : Nat) scale

namespace MixedProgram

/-- Whole columns may miss the ends of their ranges, and rows their bounds, by this. -/
def tolerance : Rat := 1 / 1000000

/-- Units below this are not told from rounding errors. -/
def leastUnit : Rat := 1 / 1000

/-- The whole values of a range. -/
def roundRange (r : Range) : Range :=
  ⟨r.lower.map fun l => ((l - tolerance).ceil : Rat), r.upper.map fun u => ((u + tolerance).floor : Rat)⟩

/-- Whether the factors of columns that may take fractions are zero. -/
def isWholeSum (p : MixedProgram) (factors : List Rat) : Bool :=
  (List.zipWith (fun whole f => whole || f == 0) p.whole factors).all id

/-- A row of whole columns as rows of whole numbers, if its factors have a unit. -/
def roundRow (p : MixedProgram) (r : Inequality) : List Inequality :=
  let unit := commonUnit r.factors
  if p.isWholeSum r.factors && leastUnit ≤ unit then
    let factors := r.factors.map (· / unit)
    let below : Inequality := ⟨factors, .lessEqual, ((r.bound + tolerance) / unit).floor⟩
    let above : Inequality := ⟨factors, .greaterEqual, ((r.bound - tolerance) / unit).ceil⟩
    match r.comparison with
    | .lessEqual => [below]
    | .greaterEqual => [above]
    | .equal => [below, above]
  else [r]

/-- The same program with ranges and rows as narrow as whole values allow. -/
def rounded (p : MixedProgram) : MixedProgram :=
  { p with
    ranges := List.zipWith (fun whole r => if whole then roundRange r else r) p.whole p.ranges
    rows := p.rows.flatMap p.roundRow }

/-- A row that whole values cannot miss by a little. -/
def isSettled (p : MixedProgram) (r : Inequality) : Bool :=
  p.isWholeSum r.factors && (r.bound :: r.factors).all (·.isInt)

/-- What the goal of whole values comes in; zero if it may be any number. -/
def goalUnit (p : MixedProgram) : Rat :=
  let unit := commonUnit p.goal
  if p.isWholeSum p.goal && leastUnit ≤ unit then unit else 0

end MixedProgram
end Milp.Solver
