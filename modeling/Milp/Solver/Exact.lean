import Milp.Adapter.Matrix
import Milp.Decimal.Shortest
import Milp.Solver.Search

/-! The solver behind the matrix adapter: exact arithmetic on the decimals that doubles are written as. -/
namespace Milp.Solver

/-- Bounds of this size and beyond do not bind. -/
def infiniteBound : Rat := 100000000000000000000

/-- Factors of this size and below are left out. -/
def smallFactor : Rat := 1 / 1000000000

/-- A bound that binds. -/
def bound? (x : Float) : Option Rat :=
  (Decimal.value? x).filter fun r => decide (r < infiniteBound) && decide (-infiniteBound < r)

def factor (x : Float) : Rat :=
  let r := (Decimal.value? x).getD 0
  if r ≤ smallFactor && -smallFactor ≤ r then 0 else r

/-- The factors of a row, one for each column. -/
def dense (count : Nat) (factors : List (Nat × Float)) : List Rat :=
  factors.foldl (fun row f => row.modify f.1 (· + factor f.2)) (List.replicate count 0)

/-- A line as a row; one whose bound does not bind is left out. -/
def row? (count : Nat) (l : Line Float) : Option Inequality :=
  (bound? l.bound).map fun bound => ⟨dense count l.factors, l.comparison, bound⟩

def mixedProgram (p : Problem Float) : MixedProgram where
  ranges := p.columns.map fun c => ⟨bound? c.lower, bound? c.upper⟩
  rows := p.lines.filterMap (row? p.columns.length)
  goal :=
    let costs := p.costs.map fun x => (Decimal.value? x).getD 0
    if p.direction = some .maximize then costs else costs.map (- ·)
  whole := p.columns.map (·.integer)

/-- No time to solve anything. -/
def outOfTime (config : SolverConfig Float) : Bool := config.timeLimit.any (· ≤ 0)

/-- Solves a problem. With whole columns it is not told whether a goal without end has values at all. -/
def exact : Oracle Float := fun config _ p =>
  if p.columns.isEmpty then { verdict := .unmapped "ModelEmpty" }
  else if outOfTime config then { verdict := .status .timeLimit, values := p.columns.map fun _ => 0 }
  else match (mixedProgram p).solve with
    | .infeasible => { verdict := .status .infeasible }
    | .unbounded =>
      { verdict := .status (if p.columns.any (·.integer) then .infeasibleOrUnbounded else .unbounded) }
    | .optimal _ values => { verdict := .status .optimal, values := values.map Binary64.ofRat }

end Milp.Solver
