import Milp.Model

/-! What would make a model unsolvable as it is declared. -/
namespace Milp

/-- Bounds that leave a variable of its type no value. -/
def Variable.issue? {α : Type} [Scalar α] (v : Variable α) : Option (Issue α) :=
  if v.varType = .boolean && (Scalar.lt Scalar.one v.lower || Scalar.lt v.upper Scalar.zero) then
    some (.outsideUnit v.identifier v.lower v.upper)
  else if v.varType.isIntegral && Scalar.lt v.upper (Scalar.ceil v.lower) then
    some (.noInteger v.identifier v.lower v.upper)
  else none

namespace Model

variable {α η κ : Type} {A : Adapter α η κ}

/-- The variables of an expression that the model does not have, one for each term. -/
def unknownNames (m : Model A) (e : Expression α) : List String :=
  e.names.filter fun id => !m.vars.contains id

variable [Scalar α]

def constraintIssues (m : Model A) (c : Constraint α) : List (Issue α) :=
  (if c.row.hasVariables then [] else [.noVariable c.identifier]) ++
    (m.unknownNames c.left ++ m.unknownNames c.right).map (.unknownInConstraint c.identifier)

/-- Every issue: those of variables, of constraints, and of the objective. -/
def issues (m : Model A) : List (Issue α) :=
  m.vars.values.filterMap Variable.issue? ++ m.constraints.values.flatMap m.constraintIssues ++
    match m.objective with
    | some o => (m.unknownNames o.expression).map .unknownInObjective
    | none => []

end Model
end Milp
