import Milp.Adapter.Recorder

/-! A recorder whose solves follow a list of outcomes. -/
namespace Milp

/-- What one solve reports, and the values to extract after it. -/
structure Take (α : Type) where
  outcome : Solution α := {}
  results : Table α := .empty

namespace Replay

variable {α β : Type}

/-- A recorder, and the takes that are left; without a list the recorder goes its own way. -/
structure State (α : Type) where
  recorder : Recorder.State α := {}
  takes : Option (List (Option (Take α))) := none

def lift (h : Hook (Recorder.State α) β) : Hook (State α) β := fun s =>
  let (r, recorder) := h s.recorder
  (r, { s with recorder })

/-- Sets up the next take. One that is missing is a crash. -/
def advance : Hook (State α) Unit := do
  match (← get).takes with
  | none => pure ()
  | some (some take :: rest) =>
    modify fun s => { recorder := { s.recorder with outcome := take.outcome, results := take.results }, takes := some rest }
  | some (none :: rest) =>
    modify fun s => { s with takes := some rest }
    throw (.failed "native crash")
  | some [] => throw (.failed "native crash")

end Replay

/-- The recorder with prepared takes. -/
abbrev replay (α : Type) [Scalar α] : Adapter α Nat Nat where
  State := Replay.State α
  name s := (recorder α).name s.recorder
  variableFactory s := (recorder α).variableFactory s.recorder
  constraintFactory s := (recorder α).constraintFactory s.recorder
  initModel id := Replay.lift ((recorder α).initModel id)
  initVariable v := Replay.lift ((recorder α).initVariable v)
  initConstraint c row columns := Replay.lift ((recorder α).initConstraint c row columns)
  initObjective o columns := Replay.lift ((recorder α).initObjective o columns)
  compute columns := do
    Replay.advance
    Replay.lift ((recorder α).compute columns)
  extract columns := Replay.lift ((recorder α).extract columns)

end Milp
