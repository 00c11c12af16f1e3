import Milp.Edit
import Milp.Stored

/-! Declaring what is stored on a model. -/
namespace Milp

variable {α η κ : Type} {A : Adapter α η κ}

/-- An expression of the model from its stored form; its variables must be there. -/
def Model.restoreExpression (m : Model A) (s : Stored.Expression α) : Except (ModelError α) (Expression α) :=
  s.terms.foldlM (fun e t => match t.id with
    | none => .ok (e.addConstant t.coefficient)
    | some id => do e.addScaled t.coefficient (← m.entity .var id)) m.expression

namespace Edit

/-- Gives a variable the result that it was stored with. -/
def setResult (id : String) (value : α) : Edit A Unit :=
  change fun m => do
    discard (m.vars.entity id)
    return { m with vars := m.vars.modify id fun v => { v with result := some value } }

def setSolution (s : Solution α) : Edit A Unit := modify fun t => ({ t.1 with solution := s }, t.2)

/-- Declares the members of a group. A group that is there already is used as it is. -/
def restoreGroup {E : Type} (k : Kind) (s : Stored.Group E) (member : Group k → E → Edit A Unit) :
    Edit A Unit := do
  let g ← match (← model).group k s.identifier with
    | .ok g => pure g
    | .error _ => createGroup k s.identifier s.description none
  s.members.forM (member g)

def restoreConstant (g : Group .constant) (c : Stored.Constant α) : Edit A Unit :=
  discard (createConstant c.identifier c.value g)

def restoreVariable [Unbounded α] (g : Group .var) (v : Stored.Variable α) : Edit A Unit := do
  discard (createVariable v.identifier v.varType (v.lower.getD Unbounded.negativeInfinity)
    (v.upper.getD Unbounded.infinity) g)
  match v.result with
  | some x => setResult v.identifier x
  | none => pure ()

/-- The variables of both sides must be there. -/
def restoreConstraint (g : Group .constraint) (c : Stored.Constraint α) : Edit A Unit := do
  let left ← look (·.restoreExpression c.left)
  let right ← look (·.restoreExpression c.right)
  discard (addConstraint c.identifier left c.comparison right g)

def restoreConstants (s : Stored.Group (Stored.Constant α)) : Edit A Unit :=
  restoreGroup .constant s restoreConstant

def restoreVariables [Unbounded α] (s : Stored.Group (Stored.Variable α)) : Edit A Unit :=
  restoreGroup .var s restoreVariable

def restoreConstraints (s : Stored.Group (Stored.Constraint α)) : Edit A Unit :=
  restoreGroup .constraint s restoreConstraint

/-- The objective, if it is stored with its direction, and the figures of the last solve. The variables
of the objective must be there. -/
def restoreHeader (s : Stored.Header α) : Edit A Unit := do
  match s.objective, s.direction with
  | some e, some direction =>
    let e ← look (·.restoreExpression e)
    setObjective e direction
  | some _, none => record [.objectiveSkipped s.identifier]
  | none, _ => pure ()
  setSolution s.solution

/-- Everything in a document: constants, variables, constraints, and then the header. -/
def restore [Unbounded α] (d : Document α) : Edit A Unit := do
  d.constantGroups.forM restoreConstants
  d.variableGroups.forM restoreVariables
  d.constraintGroups.forM restoreConstraints
  restoreHeader d.header

end Edit
end Milp
