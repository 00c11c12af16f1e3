import Milp.Adapter.Traced

/-! An adapter with a script: which of its calls fail, and how entities are built for it. -/
namespace Milp

/-- How declared entities are built. -/
inductive Building
  | plain
  /-- Identifiers with white space are refused. -/
  | strict
  /-- Variables are built under another identifier, `col_` in front. -/
  | renaming
  /-- Constraints get a term of a variable that the model need not have. -/
  | haunted
deriving DecidableEq, Repr

namespace Building

variable {α : Type}

def refuse (id : String) : Except (ModelError α) Unit :=
  if id.toList.any Text.isSpace then
    .error (.naming (.rejected (String.singleton '\'' ++ id ++ "' contains whitespace")))
  else .ok ()

def variableFactory (b : Building) (f : VariableFactory α) : VariableFactory α :=
  fun owner id varType lower upper => match b with
    | .strict => do
      refuse id
      f owner id varType lower upper
    | .renaming => f owner ("col_" ++ id) varType lower upper
    | .plain | .haunted => f owner id varType lower upper

def constraintFactory [Scalar α] (b : Building) (f : ConstraintFactory α) : ConstraintFactory α :=
  fun id left comparison right => match b with
    | .strict => do
      refuse id
      f id left comparison right
    | .haunted =>
      f id { left with terms := left.terms ++ [.linear Scalar.one "ghost" left.owner] } comparison right
    | .plain | .renaming => f id left comparison right

end Building

/-- What an adapter does beside its work. -/
structure Script (α : Type) where
  building : Building := .plain
  /-- Calls that fail, and with what. -/
  failures : List (Call × AdapterError) := []
  /-- The first hook does nothing. -/
  idle : Bool := false
  /-- Values that extraction reports in any case. -/
  extra : Table α := .empty

namespace Adapter

variable {α β η κ σ : Type}

/-- Fails if the script says so; else runs the hook. -/
def unlessFailing (c : Call) (h : Hook (σ × Script α) β) : Hook (σ × Script α) β := do
  match (← get).2.failures.lookup c with
  | some e => throw e
  | none => h

/-- The adapter under a script. -/
abbrev scripted [Scalar α] (A : Adapter α η κ) : Adapter α η κ where
  State := A.State × Script α
  name s := A.name s.1
  variableFactory s := s.2.building.variableFactory (A.variableFactory s.1)
  constraintFactory s := s.2.building.constraintFactory (A.constraintFactory s.1)
  initModel id := unlessFailing .model do
    unless (← get).2.idle do inner (A.initModel id)
  initVariable v := unlessFailing (.var v.identifier) (inner (A.initVariable v))
  initConstraint c row columns := unlessFailing (.constraint c.identifier) (inner (A.initConstraint c row columns))
  initObjective o columns := unlessFailing .objective (inner (A.initObjective o columns))
  compute columns := unlessFailing .compute (inner (A.compute columns))
  extract columns := do
    let values ← unlessFailing .extract (inner (A.extract columns))
    return values.insertAll (← get).2.extra.entries

end Adapter
end Milp
