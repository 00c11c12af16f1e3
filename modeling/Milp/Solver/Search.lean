import Milp.Solver.Directions

/-! Optimization where some columns take whole values only: a search through ever smaller parts. -/
namespace Milp.Solver

/-- The values that are searched. -/
structure Region where
  /-- The region when fractions are allowed for every column. -/
  relaxed : Dictionary
  /-- The same with eased rows, if there are rows that values may miss by a little. -/
  eased : Option Dictionary

namespace Region

/-- The values of a region for which a row holds. -/
def demand (x : Region) (r : Inequality) : Region := ⟨x.relaxed.demand r, x.eased.map (·.demand r)⟩

/-- The best values, with fractions for every column. Rows are eased only if there are none otherwise. -/
def best? (x : Region) : Option (Rat × List Rat) :=
  let values? (d : Dictionary) : Option (Rat × List Rat) := match d.optimize with
    | .optimal d => some (d.goal.constant, d.values)
    | _ => none
  (values? x.relaxed).or (x.eased.bind values?)

end Region

/-- A part of a region: the values whose sums in some directions are within ranges. -/
structure Part where
  ranges : List Range
  /-- The best values, with fractions for every column. -/
  values : List Rat
  /-- No whole values in the part are better than this. -/
  goal : Rat

namespace MixedProgram

/-- The part of a region with given ranges, if it has values. -/
def part? (p : MixedProgram) (x : Region) (directions : List (List Rat)) (ranges : List Range) : Option Part :=
  let cuts := (directions.zip ranges).flatMap fun (direction, r) =>
    (r.lower.map (⟨direction, .greaterEqual, ·⟩)).toList ++ (r.upper.map (⟨direction, .lessEqual, ·⟩)).toList
  (cuts.foldl Region.demand x).best?.map fun (goal, values) =>
    let unit := p.goalUnit
    ⟨ranges, values, if unit = 0 then goal else unit * (goal / unit).floor⟩

/-- The value of a sum. -/
def along (direction values : List Rat) : Rat := (List.zipWith (· * ·) direction values).foldl (· + ·) 0

/-- The first direction whose sum is not whole, and the sum. -/
def split? (directions : List (List Rat)) (values : List Rat) : Option (Nat × Rat) :=
  (directions.map (along · values)).zipIdx.findSome? fun (x, i) => if x.isInt then none else some (i, x)

/-- Some ranges on either side of a value. -/
def halves (ranges : List Range) (i : Nat) (x : Rat) : List (List Range) :=
  [ranges.modify i ({ · with upper := some x.floor }), ranges.modify i ({ · with lower := some x.ceil })]

/-- Puts a part in its place among others, the better goals first. -/
def enqueue (xs : List Part) (x : Part) : List Part :=
  xs.takeWhile (x.goal < ·.goal) ++ x :: xs.dropWhile (x.goal < ·.goal)

/-- Looks into the parts of a region, the better goals first. The first best values that are whole are as
good as any in the parts that are left. -/
def search (p : MixedProgram) (x : Region) (directions : List (List Rat)) : (fuel : Nat) → List Part → Option Part
  | 0, _ => none
  | _, [] => none
  | fuel + 1, part :: rest =>
    match split? directions part.values with
    | none => some part
    | some (i, value) =>
      let parts := (halves part.ranges i value).filterMap (p.part? x directions)
      p.search x directions fuel (parts.foldl enqueue rest)

/-- How many parts of a region are looked at. -/
def partLimit : Nat := 2000

/-- The best whole values of a region. -/
def bestWhole? (p : MixedProgram) (x : Region) : Option Part :=
  match x.relaxed.optimize with
  | .optimal d =>
    let directions := p.directions d
    let x := { x with relaxed := d }
    p.search x directions partLimit (p.part? x directions (directions.map fun _ => ⟨none, none⟩)).toList
  | _ => none

/-- How far the goal is let down from its best value, one time after the other. -/
def descents (p : MixedProgram) (d : Dictionary) : List Rat :=
  match { d with goal := d.goal.scale (-1) }.optimize with
  | .optimal e =>
    let height := d.goal.constant + e.goal.constant
    ((List.range 9).reverse.map fun k => height / Nat.pow 4 (k + 1)).filter fun x => 0 < x && p.goalUnit ≤ x
  | _ =>
    let least := if p.goalUnit = 0 then 1 else p.goalUnit
    (List.range 32).map fun k => least * Nat.pow 4 k

/-- The best values with whole ones where they ought to be. Values near the best goal are looked through
first: a small region is shaped more plainly, and what is found in it need not be looked for elsewhere. -/
def solve (p : MixedProgram) : Optimum :=
  if p.whole.any id then
    let p := p.rounded
    let eased := p.toProgram.eased (fun r => !p.isSettled r) tolerance
    let root := match p.optimize with
      | .infeasible => eased.optimize
      | e => e
    match root with
    | .infeasible => .infeasible
    | .unbounded => .unbounded
    | .optimal d =>
      let region : Region := ⟨d, if p.rows.all p.isSettled then none else some eased.dictionary⟩
      let near := (p.descents d).findSome? fun descent =>
        p.bestWhole? (region.demand ⟨p.goal, .greaterEqual, d.goal.constant - descent⟩)
      match near.or (p.bestWhole? region) with
      | some part => .optimal part.goal part.values
      | none => .infeasible
  else p.toProgram.solve

end MixedProgram
end Milp.Solver
