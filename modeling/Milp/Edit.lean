import Milp.Declaration

/-! Declaring step by step, with a journal. What was done before a failure stays done. -/
namespace Milp

/-- Work on a model that may fail, and the events that it adds to a journal. -/
abbrev Edit {α η κ : Type} (A : Adapter α η κ) (β : Type) :=
  ExceptT (ModelError α) (StateM (Model A × List (Event α))) β

namespace Edit

variable {α η κ β : Type} {A : Adapter α η κ}

def model : Edit A (Model A) := do return (← get).1

def record (events : List (Event α)) : Edit A Unit := modify fun s => (s.1, s.2 ++ events)

/-- Reads something that may be missing. -/
def look (f : Model A → Except (ModelError α) β) : Edit A β := do liftExcept (f (← model))

/-- One declaration: all of it, or nothing and an error. -/
def declare (f : Model A → Except (ModelError α) (β × Model A)) (events : β → List (Event α)) : Edit A β := do
  let (b, m) ← look f
  modify fun s => (m, s.2 ++ events b)
  return b

/-- One change that writes no event. -/
def change (f : Model A → Except (ModelError α) (Model A)) : Edit A Unit := do
  let m ← look f
  modify fun s => (m, s.2)

def createGroup (k : Kind) (id description : String) (generator : Option Naming.Namer) :
    Edit A (Group k) :=
  declare (·.createGroup k id description generator) fun g => [.groupCreated k g.identifier]

def createVariable (id : String) (varType : VarType) (lower upper : α) (group : Group .var) :
    Edit A (Variable α) :=
  declare (·.createVariable id varType lower upper group) fun _ => [.variableDeclared id group.identifier]

def addConstraint (id : String) (left : Expression α) (comparison : Comparison) (right : Expression α)
    (group : Group .constraint) : Edit A (Constraint α) :=
  declare (·.addConstraint id left comparison right group) fun _ => [.constraintDeclared id group.identifier]

def createConstant (id : String) (value : α) (group : Group .constant) : Edit A (Constant α) :=
  declare (·.createConstant id value group) fun _ => [.constantDeclared id value]

def setConstant (id : String) (value : α) : Edit A Unit := change (·.setConstant id value)

def setObjective (e : Expression α) (direction : Direction) : Edit A Unit := change (·.setObjective e direction)

end Edit
end Milp
