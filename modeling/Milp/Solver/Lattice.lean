/-! Bases of integer lattices, and how they are made of short vectors. -/
namespace Milp.Solver

/-- A vector of whole numbers. -/
abbrev IntVector := List Int

namespace IntVector

def dot (v w : IntVector) : Int := (List.zipWith (· * ·) v w).foldl (· + ·) 0

def scale (c : Int) (v : IntVector) : IntVector := v.map (c * ·)

def sub (v w : IntVector) : IntVector := List.zipWith (· - ·) v w

/-- The unit vector of position `i`. -/
def unit (count i : Nat) : IntVector := (List.replicate count 0).set i 1

end IntVector

/-- The nearest whole number; halfway goes up. -/
def nearestWhole (x : Rat) : Int := (x + 1 / 2).floor

/-- A vector of a basis, seen at right angles to the vectors before it. -/
structure BasisVector where
  vector : IntVector
  /-- For each vector before it, how often that one's upright part is in it. -/
  shares : List Rat
  /-- The square of the length of its upright part. -/
  height : Rat

namespace BasisVector

/-- The products of a vector with the upright parts of some basis vectors. -/
def products (basis : List BasisVector) (v : IntVector) : List Rat :=
  basis.foldl (fun ps b => ps ++ [(IntVector.dot v b.vector : Rat) -
    (List.zipWith (· * ·) b.shares ps).foldl (· + ·) 0]) []

/-- Takes whole multiples of the vectors of a basis off, the last one first, so that of each less than
one is left. -/
def shorten (basis : List BasisVector) (v : IntVector) : IntVector :=
  basis.zipIdx.foldr (fun (b, i) v =>
    v.sub (.scale (nearestWhole ((products basis v).getD i 0 / b.height)) b.vector)) v

/-- A vector as the next one of a basis. -/
def next (basis : List BasisVector) (v : IntVector) : BasisVector :=
  let products := products basis v
  let shares := List.zipWith (fun p b => p / b.height) products basis
  { vector := v
    shares
    height := (IntVector.dot v v : Rat) - (List.zipWith (· * ·) products shares).foldl (· + ·) 0 }

/-- Whether a vector stands well behind the last vector of a basis: changing places would not shorten
that one's upright part by a quarter. -/
def follows (last b : BasisVector) : Bool :=
  let share := b.shares.getLastD 0
  decide (3 / 4 * last.height ≤ b.height + share * share * last.height)

/-- Shortens the vectors that wait, one after the other; one that does not stand well changes places
with the vector before it, which waits again. -/
def reduceFrom : (fuel : Nat) → List BasisVector → List IntVector → List BasisVector
  | 0, basis, waiting => basis ++ waiting.map fun v => ⟨v, [], 0⟩
  | _, basis, [] => basis
  | fuel + 1, basis, v :: waiting =>
    let b := next basis (shorten basis v)
    match basis.getLast? with
    | some last =>
      if follows last b then reduceFrom fuel (basis ++ [b]) waiting
      else reduceFrom fuel basis.dropLast (b.vector :: last.vector :: waiting)
    | none => reduceFrom fuel [b] waiting

end BasisVector

/-- How many steps a reduction may take. -/
def reductionLimit : Nat := 10000

/-- A basis of the same lattice with short vectors, the shortest about first. -/
def reduceBasis (vectors : List IntVector) : List IntVector :=
  (BasisVector.reduceFrom reductionLimit [] vectors).map (·.vector)

end Milp.Solver
