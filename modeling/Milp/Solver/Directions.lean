import Milp.Solver.Lattice
import Milp.Solver.Mixed

/-! Sums of whole columns that tell whole values apart in few steps. -/
namespace Milp.Solver.MixedProgram

/-- The steps that spreads are measured in. -/
def spreadUnit : Rat := 1 / 4096

/-- The spread, in steps, of values without an end. -/
def farAway : Int := 4294967296

/-- How the whole columns change between the best values and the ends of a dictionary in some directions:
those of the whole columns, of the rows, and of the goal. -/
def spreads (p : MixedProgram) (d : Dictionary) : List IntVector :=
  let count := d.free.length
  let pick {β : Type} (xs : List β) : List β := ((p.whole.zip xs).filter (·.1)).map (·.2)
  let start := pick d.values
  let away (a : Affine) : Option IntVector :=
    match { d with goal := a }.optimize with
    | .optimal e => some (List.zipWith (fun x y => nearestWhole ((x - y) / spreadUnit)) (pick e.values) start)
    | _ => none
  let both (a : Affine) : List Affine := [a, a.scale (-1)]
  let columns := pick d.columns
  (columns.zipIdx.flatMap fun (a, i) =>
    (both a).map fun a => (away a).getD (.scale farAway (.unit columns.length i))) ++
  (d.goal :: p.rows.map (·.sum count d.columns)).flatMap fun a => (both a).filterMap away

/-- Factors of the whole columns as factors of all columns. -/
def spreadOut : (whole : List Bool) → IntVector → List Rat
  | [], _ => []
  | true :: rest, v => (v.headD 0 : Rat) :: spreadOut rest v.tail
  | false :: rest, v => 0 :: spreadOut rest v

/-- Sums of the whole columns that are whole exactly if all whole columns are. The values that a sum can
have are the closer together the earlier it comes. -/
def directions (p : MixedProgram) (d : Dictionary) : List (List Rat) :=
  let count := (p.whole.filter id).length
  let spreads := p.spreads d
  let basis := reduceBasis ((List.range count).map fun i =>
    spreads.map (fun s => s.getD i 0) ++ IntVector.unit count i)
  basis.map fun v => spreadOut p.whole (v.drop spreads.length)

end Milp.Solver.MixedProgram
