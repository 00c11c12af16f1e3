import Milp.Model
import Milp.Stored

/-! Taking the stored form of a model and of its parts. -/
namespace Milp

variable {α η κ : Type} {A : Adapter α η κ}

/-- The stored form of an expression: like terms collected. One that has terms keeps at least a zero. -/
def Expression.store [Scalar α] (e : Expression α) : Stored.Expression α :=
  let terms := e.reduce.terms.map fun t => ⟨t.coefficient, t.name?⟩
  if terms.isEmpty && !e.isEmpty then ⟨[⟨Scalar.zero, none⟩]⟩ else ⟨terms⟩

def Variable.store [Unbounded α] (v : Variable α) : Stored.Variable α :=
  let finite (x : α) := if Unbounded.isFinite x then some x else none
  ⟨v.identifier, v.varType, finite v.lower, finite v.upper, v.result⟩

def Constraint.store [Scalar α] (c : Constraint α) : Stored.Constraint α :=
  ⟨c.identifier, c.left.store, c.comparison, c.right.store⟩

def Constant.store (c : Constant α) : Stored.Constant α := ⟨c.identifier, c.value⟩

namespace Model

/-- A group that the model has, with its members in ascending order. -/
def storeGroup {E : Type} (m : Model A) {k : Kind} (g : Group k) (store : k.Entity α → E) :
    Except (ModelError α) (Stored.Group E) := do
  let ids ← m.members k g.identifier
  let members ← ids.mapM fun id => do return store (← m.entity k id)
  return ⟨g.identifier, g.description, members⟩

def storeVariables [Unbounded α] (m : Model A) (g : Group .var) :
    Except (ModelError α) (Stored.Group (Stored.Variable α)) :=
  m.storeGroup g Variable.store

def storeConstraints [Scalar α] (m : Model A) (g : Group .constraint) :
    Except (ModelError α) (Stored.Group (Stored.Constraint α)) :=
  m.storeGroup g Constraint.store

def storeConstants (m : Model A) (g : Group .constant) :
    Except (ModelError α) (Stored.Group (Stored.Constant α)) :=
  m.storeGroup g Constant.store

def storeHeader [Scalar α] (m : Model A) : Stored.Header α where
  identifier := m.identifier
  variableGroups := m.vars.groups.map fun _ _ => ()
  constraintGroups := m.constraints.groups.map fun _ _ => ()
  constantGroups := m.constants.groups.map fun _ _ => ()
  objective := m.objective.map (·.expression.store)
  direction := m.objective.map (·.direction)
  solution := m.solution

/-- The whole model as a document. -/
def capture [Unbounded α] (m : Model A) : Except (ModelError α) (Document α) := do
  let variableGroups ← (m.groupIds .var).mapM fun id => do m.storeVariables (← m.group .var id)
  let constraintGroups ← (m.groupIds .constraint).mapM fun id => do m.storeConstraints (← m.group .constraint id)
  let constantGroups ← (m.groupIds .constant).mapM fun id => do m.storeConstants (← m.group .constant id)
  return ⟨m.storeHeader, variableGroups, constraintGroups, constantGroups⟩

end Model
end Milp
