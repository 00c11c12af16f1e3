import Milp.Comparison
import Milp.Solver.Dictionary

/-! Linear optimization with ranges and rows, when fractions are allowed for every column. -/
namespace Milp.Solver

/-- The values from `lower` to `upper`; without an end they go on for ever. -/
structure Range where
  lower : Option Rat
  upper : Option Rat

/-- `Σ factor · column`, compared with a bound. -/
structure Inequality where
  factors : List Rat
  comparison : Comparison
  bound : Rat

/-- Ranges and rows for some columns, and the factors of a goal that is to be as large as it can. -/
structure Program where
  ranges : List Range
  rows : List Inequality
  goal : List Rat

/-- The best values of the columns. -/
inductive Optimum
  | infeasible
  | unbounded
  | optimal (goal : Rat) (values : List Rat)

namespace Range

/-- How many variables a column takes. -/
def width (r : Range) : Nat :=
  match r.lower, r.upper with
  | none, none => 2
  | _, _ => 1

/-- A column, by variables that are not negative: its distance from one end, or a difference. -/
def column (count i : Nat) (r : Range) : Affine :=
  match r.lower, r.upper with
  | some l, _ => .ofVariable count i 1 l
  | none, some u => .ofVariable count i (-1) u
  | none, none => (Affine.ofVariable count i 1 0).add (.ofVariable count (i + 1) (-1) 0)

/-- What must not be negative besides the variables. -/
def gaps (r : Range) (column : Affine) : List Affine :=
  match r.lower, r.upper with
  | some _, some u => [(column.scale (-1)).add (.ofConstant column.coefficients.length u)]
  | _, _ => []

end Range

namespace Inequality

/-- The sum that a row compares, from given columns. -/
def sum (count : Nat) (columns : List Affine) (r : Inequality) : Affine :=
  (List.zipWith Affine.scale r.factors columns).foldl Affine.add (.ofConstant count 0)

/-- What must not be negative for a row to hold. -/
def gaps (count : Nat) (columns : List Affine) (r : Inequality) : List Affine :=
  let excess := (r.sum count columns).add (.ofConstant count (-r.bound))
  match r.comparison with
  | .lessEqual => [excess.scale (-1)]
  | .greaterEqual => [excess]
  | .equal => [excess.scale (-1), excess]

end Inequality

/-- The dictionary with one more row. -/
def Dictionary.demand (d : Dictionary) (r : Inequality) : Dictionary :=
  (r.gaps d.free.length d.columns).foldl Dictionary.require d

namespace Program

/-- The columns from variable `i` on. -/
def columnsFrom (count : Nat) : Nat → List Range → List Affine
  | _, [] => []
  | i, r :: rest => r.column count i :: columnsFrom count (i + r.width) rest

def count (p : Program) : Nat := (p.ranges.map Range.width).foldl (· + ·) 0

def dictionary (p : Program) : Dictionary :=
  let columns := columnsFrom p.count 0 p.ranges
  let start : Dictionary :=
    { free := List.range p.count
      basic := []
      goal := (List.zipWith Affine.scale p.goal columns).foldl Affine.add (.ofConstant p.count 0)
      columns }
  p.rows.foldl Dictionary.demand ((List.zipWith Range.gaps p.ranges columns).flatten.foldl Dictionary.require start)

/-- Where the search in the program ends. That a goal has no end is only said of a program with values. -/
def optimize (p : Program) : Ending :=
  match p.dictionary.optimize with
  | .unbounded =>
    match { p.dictionary with goal := .ofConstant p.count 0 }.optimize with
    | .optimal _ => .unbounded
    | _ => .infeasible
  | e => e

/-- The same program with some rows eased by a tolerance. -/
def eased (which : Inequality → Bool) (tolerance : Rat) (p : Program) : Program :=
  { p with rows := p.rows.flatMap fun r => if !which r then [r] else match r.comparison with
    | .lessEqual => [{ r with bound := r.bound + tolerance }]
    | .greaterEqual => [{ r with bound := r.bound - tolerance }]
    | .equal => [{ r with comparison := .lessEqual, bound := r.bound + tolerance },
        { r with comparison := .greaterEqual, bound := r.bound - tolerance }] }

/-- Rows hold if they are missed by no more than this. -/
def rowTolerance : Rat := 1 / 10000000

/-- The best values as the program is, and if it has none, with its rows eased. -/
def solve (p : Program) : Optimum :=
  let e := match p.optimize with
    | .infeasible => (p.eased (fun _ => true) rowTolerance).optimize
    | e => e
  match e with
  | .infeasible => .infeasible
  | .unbounded => .unbounded
  | .optimal d => .optimal d.goal.constant d.values

end Program
end Milp.Solver
