import Milp.Adapter

/-! An adapter that gathers a model into columns, rows and costs, and has an oracle solve them. -/
namespace Milp

/-- A column of the matrix: bounds, and whether only whole values count. -/
structure Column (α : Type) where
  identifier : String
  lower : α
  upper : α
  integer : Bool

/-- A row of the matrix: factors by column index. -/
structure Line (α : Type) where
  identifier : String
  factors : List (Nat × α)
  comparison : Comparison
  bound : α

/-- A mixed-integer problem as a solver takes it. Without a direction there is nothing to optimize,
and costs are minimized. -/
structure Problem (α : Type) where
  identifier : String
  columns : List (Column α) := []
  lines : List (Line α) := []
  costs : List α := []
  offset : α
  direction : Option Direction := none

/-- How a solver ended, in the statuses of this library or in its own words. -/
inductive Verdict
  | status (s : Status)
  | unmapped (name : String)
deriving DecidableEq, Repr

def Verdict.toStatus : Verdict → Status
  | .status s => s
  | .unmapped _ => .unknown

/-- What a solver answers: a verdict and one value for each column, if it has them. -/
structure Answer (α : Type) where
  verdict : Verdict
  values : List α := []

/-- What a solver is asked to keep to. -/
structure SolverConfig (α : Type) where
  /-- In seconds. -/
  timeLimit : Option α := none
  /-- The relative gap at which the search may stop. -/
  gap : Option α := none
  verbose : Bool := false

/-- A solver; it is told how many solves it has done before. -/
abbrev Oracle (α : Type) := SolverConfig α → Nat → Problem α → Answer α

namespace Matrix

structure State (α : Type) where
  config : SolverConfig α := {}
  problem : Option (Problem α) := none
  /-- The values of the last solve, if it found any. -/
  values : Option (List α) := none
  solves : Nat := 0

variable {α : Type}

/-- The problem, which exists from the first hook on. -/
def problem : Hook (State α) (Problem α) := do
  match (← get).problem with
  | some p => pure p
  | none => throw .notInitialized

def put (p : Problem α) : Hook (State α) Unit := modify fun s => { s with problem := some p }

def initModel [Scalar α] (id : String) : Hook (State α) Unit :=
  modify fun s => { s with problem := some { identifier := id, offset := Scalar.zero }, values := none }

def initVariable [Scalar α] (v : Variable α) : Hook (State α) Nat := do
  let p ← problem
  put { p with
    columns := p.columns ++ [⟨v.identifier, v.lower, v.upper, v.varType.isIntegral⟩]
    costs := p.costs ++ [Scalar.zero] }
  return p.columns.length

/-- The entries of a row with column indices for variables. -/
def indexed (terms : List (String × α)) (columns : Handles Nat) : Except AdapterError (List (Nat × α)) :=
  terms.mapM fun t => do return (← columns.require t.1, t.2)

def initConstraint (c : Constraint α) (row : Row α) (columns : Handles Nat) : Hook (State α) Nat := do
  let factors ← liftExcept (indexed row.terms columns)
  let p ← problem
  put { p with lines := p.lines ++ [⟨c.identifier, factors, row.comparison, row.bound⟩] }
  return p.lines.length

/-- Costs from nothing but the given ones; one beyond the last column is dropped. -/
def costsOf [Scalar α] (count : Nat) (terms : List (Nat × α)) : List α :=
  terms.foldl (fun costs t => costs.modify t.1 (· + t.2)) (List.replicate count Scalar.zero)

def initObjective [Scalar α] (o : Objective α) (columns : Handles Nat) : Hook (State α) Unit := do
  let reduced := o.expression.reduce
  let terms ← liftExcept (indexed reduced.linearPart.entries columns)
  let p ← problem
  put { p with
    costs := costsOf p.costs.length terms
    offset := reduced.constantPart
    direction := some o.direction }

/-- Every factor has a column. The first that has none is an error. -/
def checkLines (p : Problem α) : Except AdapterError Unit :=
  p.lines.forM fun line => line.factors.forM fun f =>
    if f.1 < p.columns.length then .ok ()
    else .error (.failed ("Row " ++ line.identifier ++ " references unknown column " ++ toString f.1))

/-- The objective at given values of the columns. -/
def objectiveAt [Scalar α] (p : Problem α) (values : List α) : α :=
  p.offset + ((p.costs.zip values).map fun t => t.1 * t.2).foldl (· + ·) Scalar.emptySum

/-- Only these statuses come with values. -/
def hasValues (s : Status) : Bool := s = .optimal || s = .timeLimit

def compute [Scalar α] (oracle : Oracle α) : Hook (State α) (Solution α × List (Event α)) := do
  let p ← problem
  liftExcept (checkLines p)
  let s ← get
  let answer := oracle s.config s.solves p
  let status := answer.verdict.toStatus
  let found := hasValues status && answer.values.length == p.columns.length
  set { s with values := if found then some answer.values else none, solves := s.solves + 1 }
  let solution : Solution α := { status := some (.status status), time := some (.millis 0) }
  let solution :=
    if found then { solution with objective := some (.float (objectiveAt p answer.values)) } else solution
  let unmapped := match answer.verdict with
    | .unmapped name => [.statusUnmapped name]
    | .status _ => []
  return (solution, unmapped ++ [.solveFinished p.identifier status])

/-- The value of each variable whose column has one. -/
def extract (columns : Handles Nat) : Hook (State α) (Table α) := do
  discard problem
  match (← get).values with
  | none => return .empty
  | some values =>
    return .ofList (columns.entries.filterMap fun e => values[e.2]?.map (e.1, ·))

end Matrix

/-- The adapter of a matrix solver; its handles are indices of columns and rows. -/
abbrev matrix {α : Type} [Scalar α] (oracle : Oracle α) : Adapter α Nat Nat where
  State := Matrix.State α
  name _ := "HiGHS"
  variableFactory _ := Variable.new
  constraintFactory _ := Constraint.new
  initModel := Matrix.initModel
  initVariable := Matrix.initVariable
  initConstraint := Matrix.initConstraint
  initObjective := Matrix.initObjective
  compute _ := Matrix.compute oracle
  extract := Matrix.extract

end Milp
