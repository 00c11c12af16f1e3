/-! Linear optimization over variables that are not negative, by pivots on a dictionary. -/
namespace Milp.Solver

/-- A constant and one coefficient for each of some variables. -/
structure Affine where
  constant : Rat
  coefficients : List Rat

namespace Affine

def coefficient (a : Affine) (i : Nat) : Rat := a.coefficients.getD i 0

def ofConstant (count : Nat) (c : Rat) : Affine := ⟨c, List.replicate count 0⟩

/-- `c` times variable `i`, plus a constant. -/
def ofVariable (count i : Nat) (c constant : Rat) : Affine := ⟨constant, (List.replicate count 0).set i c⟩

def add (a b : Affine) : Affine := ⟨a.constant + b.constant, List.zipWith (· + ·) a.coefficients b.coefficients⟩

def scale (c : Rat) (a : Affine) : Affine := ⟨c * a.constant, a.coefficients.map (c * ·)⟩

/-- The equation `y = a`, solved for variable `i`; `y` takes its position. -/
def solve (a : Affine) (i : Nat) : Affine :=
  let c := a.coefficient i
  ⟨-a.constant / c, (a.coefficients.map fun d => -d / c).set i (1 / c)⟩

/-- Puts `b` in the place of variable `i`. -/
def substitute (a : Affine) (i : Nat) (b : Affine) : Affine :=
  add { a with coefficients := a.coefficients.set i 0 } (b.scale (a.coefficient i))

end Affine

/-- Some variables are free, and the others are given by them. None of them may be negative, and the
goal is to be as large as it can. The columns are given by the free variables too. -/
structure Dictionary where
  free : List Nat
  basic : List (Nat × Affine)
  goal : Affine
  columns : List Affine

/-- How the search in a dictionary ended. -/
inductive Ending
  | infeasible
  /-- The goal grows without end, or no values are allowed at all. -/
  | unbounded
  | optimal (d : Dictionary)

namespace Dictionary

/-- The variable at position `i` of the free ones changes places with the basic variable `leaving`. -/
def pivot (d : Dictionary) (leaving : Nat) (row : Affine) (i : Nat) : Dictionary :=
  let solved := row.solve i
  { free := d.free.set i leaving
    basic := d.basic.map fun (j, a) =>
      if j = leaving then (d.free.getD i 0, solved) else (j, a.substitute i solved)
    goal := d.goal.substitute i solved
    columns := d.columns.map (·.substitute i solved) }

/-- The entry with the smallest index among those that pass. -/
def least {β : Type} (index : β → Nat) (xs : List β) : Option β :=
  xs.foldl (fun best x => match best with
    | some b => if index x < index b then some x else best
    | none => some x) none

/-- The basic variables that are negative when the free ones are zero. -/
def negative (d : Dictionary) : List (Nat × Affine) := d.basic.filter fun b => b.2.constant < 0

/-- Positions and indices of the free variables whose coefficient in `a` is positive. -/
def growing (d : Dictionary) (a : Affine) : List (Nat × Nat) :=
  ((List.range d.free.length).zip d.free).filter fun f => 0 < a.coefficient f.1

/-- Basic variables that fall when the free one at a position grows. -/
def falling (d : Dictionary) (i : Nat) : List (Nat × Affine) := d.basic.filter fun b => b.2.coefficient i < 0

/-- Lets a negative basic variable grow to zero. -/
def lift (d : Dictionary) (b : Nat × Affine) : Ending ⊕ Dictionary :=
  match least (·.2) (d.growing b.2) with
  | some (i, _) => .inr (d.pivot b.1 b.2 i)
  | none => .inl .infeasible

/-- Lets the free variable at a position grow until a basic one is zero. -/
def enter (d : Dictionary) (i : Nat) : Ending ⊕ Dictionary :=
  match least (·.1) (d.falling i) with
  | some (j, row) => .inr (d.pivot j row i)
  | none => .inl .unbounded

/-- Mends what is wrong with the variable of smallest index: a negative basic one, or a free one that
would make the goal larger. -/
def step (d : Dictionary) : Ending ⊕ Dictionary :=
  match least (·.1) d.negative, least (·.2) (d.growing d.goal) with
  | none, none => .inl (.optimal d)
  | some b, none => d.lift b
  | none, some f => d.enter f.1
  | some b, some f => if b.1 < f.2 then d.lift b else d.enter f.1

def improve : (fuel : Nat) → Dictionary → Ending
  | 0, _ => .infeasible
  | fuel + 1, d => match d.step with
    | .inl e => e
    | .inr d => improve fuel d

/-- Searches to the end. No choice of free variables comes twice, so there are rounds enough. -/
def optimize (d : Dictionary) : Ending := d.improve (Nat.pow 2 (d.free.length + d.basic.length))

/-- The dictionary with one more basic variable. -/
def require (d : Dictionary) (a : Affine) : Dictionary :=
  { d with basic := d.basic ++ [(d.free.length + d.basic.length, a)] }

/-- What the columns are when the free variables are zero. -/
def values (d : Dictionary) : List Rat := d.columns.map (·.constant)

end Dictionary
end Milp.Solver
