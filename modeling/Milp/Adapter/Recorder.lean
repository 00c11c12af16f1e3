import Milp.Adapter

/-! An adapter that writes down what it is told and replays a prepared outcome. -/
namespace Milp

/-- What a model has told its adapter. -/
structure Record (α : Type) where
  identifier : String
  columns : List String := []
  rows : List (Row α) := []
  objective : Option (Objective α) := none

namespace Recorder

structure State (α : Type) where
  record : Option (Record α) := none
  /-- What every solve reports. -/
  outcome : Solution α := {}
  /-- The values that extraction chooses from. -/
  results : Table α := .empty

variable {α : Type}

/-- The record, which exists from the first hook on. -/
def record : Hook (State α) (Record α) := do
  match (← get).record with
  | some r => pure r
  | none => throw .notInitialized

def initModel (id : String) : Hook (State α) Unit :=
  modify fun s => { s with record := some { identifier := id } }

def initVariable (v : Variable α) : Hook (State α) Nat := do
  let r ← record
  modify fun s => { s with record := some { r with columns := r.columns ++ [v.identifier] } }
  return r.columns.length

def initConstraint (row : Row α) (columns : Handles Nat) : Hook (State α) Nat := do
  row.terms.forM fun t => discard (liftExcept (columns.require t.1))
  let r ← record
  modify fun s => { s with record := some { r with rows := r.rows ++ [row] } }
  return r.rows.length

def initObjective [Scalar α] (o : Objective α) (columns : Handles Nat) : Hook (State α) Unit := do
  o.expression.linearPart.keys.forM fun id => discard (liftExcept (columns.require id))
  let r ← record
  modify fun s => { s with record := some { r with objective := some o } }

def compute : Hook (State α) (Solution α) := do
  discard record
  return (← get).outcome

/-- The prepared values of the variables that have handles. -/
def extract (columns : Handles Nat) : Hook (State α) (Table α) := do
  return (← get).results.filter fun id _ => columns.contains id

end Recorder

/-- The recording adapter; its handles are positions in the record. -/
abbrev recorder (α : Type) [Scalar α] : Adapter α Nat Nat where
  State := Recorder.State α
  name _ := "Skeleton"
  variableFactory _ := Variable.new
  constraintFactory _ := Constraint.new
  initModel := Recorder.initModel
  initVariable := Recorder.initVariable
  initConstraint _ := Recorder.initConstraint
  initObjective := Recorder.initObjective
  compute _ := do return (← Recorder.compute, [])
  extract := Recorder.extract

end Milp
