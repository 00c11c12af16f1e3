import Milp.Adapter

/-! An adapter whose figures are rounded to six decimals. -/
namespace Milp

/-- Six decimals, and no negative zero. -/
def roundSix (x : Float) : Float := (x * 1000000).round / 1000000 + 0.0

def SolutionValue.rounded : SolutionValue Float → SolutionValue Float
  | .float x => .float (roundSix x)
  | v => v

def Solution.rounded (s : Solution Float) : Solution Float where
  status := s.status.map SolutionValue.rounded
  objective := s.objective.map SolutionValue.rounded
  mipGap := s.mipGap.map SolutionValue.rounded
  time := s.time.map SolutionValue.rounded

/-- The same adapter, with what it reports rounded. -/
abbrev Adapter.rounded {η κ : Type} (A : Adapter Float η κ) : Adapter Float η κ where
  State := A.State
  name := A.name
  variableFactory := A.variableFactory
  constraintFactory := A.constraintFactory
  initModel := A.initModel
  initVariable := A.initVariable
  initConstraint := A.initConstraint
  initObjective := A.initObjective
  compute columns := do
    let (solution, events) ← A.compute columns
    return (solution.rounded, events)
  extract columns := do return (← A.extract columns).map fun _ x => roundSix x

end Milp
