import Milp.Initialization

/-! Solving a model and reading the values of its variables. -/
namespace Milp.Run

variable {α η κ ω : Type} {A : Adapter α η κ}

/-- Drops what the last solve left. -/
def clearSolution (m : Model A) : Model A :=
  { m with solution := {}, vars := m.vars.mapEntities ({ · with result := none }) }

/-- Has the adapter solve. What an earlier solve left is dropped first; a failure of the adapter is final. -/
def solve : Step A ω Status := do
  log [.computeStarted]
  modifyModel clearSolution
  match ← attempt (A.compute (← get).model.columns) with
  | .error e =>
    setStage .failed
    log [.computeFailed e]
    throw (.adapter .compute e)
  | .ok (solution, events) =>
    modifyModel ({ · with solution, stage := .solved })
    log (events ++ [.computeFinished solution.outcome])
    return solution.outcome

/-- Solves a model that is initialized. -/
def compute : Step A ω Status := do
  let stage := (← get).model.stage
  if stage ≠ .initialized ∧ stage ≠ .solved then throw (.lifecycle (.cannotCompute stage))
  solve

/-- Gives a variable a result; an unknown one is only reported. -/
def takeResult (id : String) (value : α) : Step A ω Unit := do
  if (← get).model.vars.contains id then
    modifyModel fun m => { m with vars := m.vars.modify id ({ · with result := some value }) }
  else log [.unknownVariable id]

/-- Reads the values that the last solve found. -/
def takeResults : Step A ω Unit := do
  let values ← call .extract (A.extract (← get).model.columns)
  values.entries.forM fun e => takeResult e.1 e.2
  log [.resultsExtracted values.size]

/-- Gives the variables of a solved model their results. -/
def extract : Step A ω Unit := do
  let stage := (← get).model.stage
  if stage ≠ .solved then throw (.lifecycle (.cannotExtract stage))
  takeResults

end Milp.Run
