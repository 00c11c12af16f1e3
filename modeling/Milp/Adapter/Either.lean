import Milp.Adapter

/-! One adapter out of two: a model's state decides which of them it talks to. -/
namespace Milp.Adapter

variable {α β η κ σ τ : Type}

def onLeft (h : Hook σ β) (s : σ) : Except AdapterError β × (σ ⊕ τ) :=
  let (r, s) := h s
  (r, .inl s)

def onRight (h : Hook τ β) (s : τ) : Except AdapterError β × (σ ⊕ τ) :=
  let (r, s) := h s
  (r, .inr s)

/-- Runs the hook of the side that the state is on. -/
def branch (f : Hook σ β) (g : Hook τ β) : Hook (σ ⊕ τ) β := fun s =>
  match s with
  | .inl s => onLeft f s
  | .inr s => onRight g s

abbrev either (A B : Adapter α η κ) : Adapter α η κ where
  State := A.State ⊕ B.State
  name := Sum.elim A.name B.name
  variableFactory := Sum.elim A.variableFactory B.variableFactory
  constraintFactory := Sum.elim A.constraintFactory B.constraintFactory
  initModel id := branch (A.initModel id) (B.initModel id)
  initVariable v := branch (A.initVariable v) (B.initVariable v)
  initConstraint c row columns := branch (A.initConstraint c row columns) (B.initConstraint c row columns)
  initObjective o columns := branch (A.initObjective o columns) (B.initObjective o columns)
  compute columns := branch (A.compute columns) (B.compute columns)
  extract columns := branch (A.extract columns) (B.extract columns)

end Milp.Adapter
