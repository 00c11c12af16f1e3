import Milp.Constraint
import Milp.Event

/-! What a model asks of a solver: hooks that it calls in a fixed order. -/
namespace Milp

/-- Native handles by the identifiers of what they stand for. -/
abbrev Handles (η : Type) := Table η

/-- A call into an adapter: it may fail, and changes the adapter's state either way. -/
abbrev Hook (σ β : Type) := ExceptT AdapterError (StateM σ) β

/-- Builds a variable when it is declared. -/
abbrev VariableFactory (α : Type) := Token → String → VarType → α → α → Except (ModelError α) (Variable α)

/-- Builds a constraint when it is declared. -/
abbrev ConstraintFactory (α : Type) :=
  String → Expression α → Comparison → Expression α → Except (ModelError α) (Constraint α)

/-- A solver as a model sees it. It hands out handles of type `η` for variables and `κ` for constraints. -/
structure Adapter (α η κ : Type) where
  State : Type
  name : State → String
  variableFactory : State → VariableFactory α
  constraintFactory : State → ConstraintFactory α
  initModel : String → Hook State Unit
  initVariable : Variable α → Hook State η
  initConstraint : Constraint α → Row α → Handles η → Hook State κ
  initObjective : Objective α → Handles η → Hook State Unit
  /-- Solves, and says what happened meanwhile. Whether a solution was found is part of the report. -/
  compute : Handles η → Hook State (Solution α × List (Event α))
  /-- The values that the last solve found. -/
  extract : Handles η → Hook State (Table α)

namespace Handles

variable {η : Type}

/-- The handle of a variable, which a caller promised to be there. -/
def require (h : Handles η) (id : String) : Except AdapterError η :=
  match h.find? id with
  | some handle => .ok handle
  | none => .error (.missingHandle id)

end Handles
end Milp
