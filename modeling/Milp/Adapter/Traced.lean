import Milp.Adapter

/-! An adapter that keeps a trace of the calls it gets. -/
namespace Milp

/-- A call of a hook. -/
inductive Call
  | model
  | var (id : String)
  | constraint (id : String)
  | objective
  | compute
  | extract
deriving DecidableEq, Repr

def Call.name : Call → String
  | .model => "model"
  | .var id => "var:" ++ id
  | .constraint id => "constraint:" ++ id
  | .objective => "objective"
  | .compute => "compute"
  | .extract => "extract"

/-- The call of a name. -/
def Call.ofName? (s : String) : Option Call :=
  [Call.model, .objective, .compute, .extract, .var (s.drop 4).toString, .constraint (s.drop 11).toString].find?
    (·.name = s)

namespace Adapter

variable {α β η κ σ τ : Type}

/-- Runs a hook on the first part of a state. -/
def inner (h : Hook σ β) : Hook (σ × τ) β := fun s =>
  let (r, inner) := h s.1
  (r, inner, s.2)

/-- Notes a call, and then makes it. -/
def noted (c : Call) (h : Hook σ β) : Hook (σ × List Call) β := do
  modify fun s => (s.1, s.2 ++ [c])
  inner h

/-- The same adapter, with the calls of its hooks on record, failed ones too. -/
abbrev traced (A : Adapter α η κ) : Adapter α η κ where
  State := A.State × List Call
  name s := A.name s.1
  variableFactory s := A.variableFactory s.1
  constraintFactory s := A.constraintFactory s.1
  initModel id := noted .model (A.initModel id)
  initVariable v := noted (.var v.identifier) (A.initVariable v)
  initConstraint c row columns := noted (.constraint c.identifier) (A.initConstraint c row columns)
  initObjective o columns := noted .objective (A.initObjective o columns)
  compute columns := noted .compute (A.compute columns)
  extract columns := noted .extract (A.extract columns)

end Adapter
end Milp
