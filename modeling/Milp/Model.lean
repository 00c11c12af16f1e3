import Milp.Adapter
import Milp.Registry

/-! A model: what is declared on it, what was solved, and the adapter it talks to. -/
namespace Milp

/-- What a model declares under a kind. -/
abbrev Kind.Entity (α : Type) : Kind → Type
  | .var => Variable α
  | .constraint => Constraint α
  | .constant => Constant α

structure Model {α η κ : Type} (A : Adapter α η κ) where
  identifier : String
  token : Token
  adapter : A.State
  variableFactory : VariableFactory α
  constraintFactory : ConstraintFactory α
  vars : Registry .var (Variable α)
  constraints : Registry .constraint (Constraint α)
  constants : Registry .constant (Constant α)
  objective : Option (Objective α) := none
  /-- What the last solve reported. -/
  solution : Solution α := {}
  /-- Handles of the variables that the adapter knows. -/
  columns : Handles η := .empty
  /-- Handles of the constraints that the adapter knows. -/
  lines : Handles κ := .empty
  stage : Stage := .declaring

namespace Model

variable {α η κ : Type} {A : Adapter α η κ}

/-- An empty model with the three default groups. The factories are those that the adapter has now. -/
def new (token : Token) (id : String) (adapter : A.State) : Model A where
  identifier := id
  token
  adapter
  variableFactory := A.variableFactory adapter
  constraintFactory := A.constraintFactory adapter
  vars := .new _ _
  constraints := .new _ _
  constants := .new _ _

def adapterName (m : Model A) : String := A.name m.adapter

def registry (m : Model A) : (k : Kind) → Registry k (k.Entity α)
  | .var => m.vars
  | .constraint => m.constraints
  | .constant => m.constants

def withRegistry (m : Model A) : (k : Kind) → Registry k (k.Entity α) → Model A
  | .var, r => { m with vars := r }
  | .constraint, r => { m with constraints := r }
  | .constant, r => { m with constants := r }

/-- The empty expression of this model. -/
def expression (m : Model A) : Expression α := ⟨m.token, []⟩

def entity (m : Model A) (k : Kind) (id : String) : Except (ModelError α) (k.Entity α) :=
  (m.registry k).entity id

def entities (m : Model A) (k : Kind) : List (k.Entity α) := (m.registry k).values

def group (m : Model A) (k : Kind) (id : String) : Except (ModelError α) (Group k) := (m.registry k).group id

def groupIds (m : Model A) (k : Kind) : List String := (m.registry k).groups.keys

/-- The identifiers of the members of a group that the model has. -/
def members (m : Model A) (k : Kind) (group : String) : Except (ModelError α) (List String) := do
  discard (m.group k group)
  return (m.registry k).members group

def getObjective (m : Model A) : Except (ModelError α) (Objective α) :=
  match m.objective with
  | some o => .ok o
  | none => .error .missingObjective

/-- A figure of the last solve. -/
def figure (m : Model A) (key : SolutionKey) : Except (ModelError α) (SolutionValue α) :=
  match m.solution.get? key with
  | some v => .ok v
  | none => .error (.missingSolution key)

def status (m : Model A) : Except (ModelError α) Status := do
  match ← m.figure .status with
  | .status s => return s
  | v => throw (.solutionType .status v.valueType)

/-- A figure that ought to be a number. -/
def floatFigure (m : Model A) (key : SolutionKey) : Except (ModelError α) α := do
  match ← m.figure key with
  | .float x => return x
  | v => throw (.solutionType key v.valueType)

def objectiveValue (m : Model A) : Except (ModelError α) α := m.floatFigure .objective

def mipGap (m : Model A) : Except (ModelError α) α := m.floatFigure .mipGap

/-- How long the last solve took, in milliseconds. -/
def time (m : Model A) : Except (ModelError α) UInt64 := do
  match ← m.figure .time with
  | .millis n => return n
  | v => throw (.solutionType .time v.valueType)

/-- The value that the last extraction gave a variable. -/
def variableResult (m : Model A) (id : String) : Except (ModelError α) (Option α) := do
  return (← m.entity .var id).result

/-- The values that the last extraction gave, by the identifier of the variable. -/
def results (m : Model A) : List (String × α) :=
  m.vars.entities.entries.filterMap fun e => e.2.entity.result.map (e.1, ·)

/-- The text of a model for debugging. -/
def debugText (m : Model A) : String :=
  "Model \x7b identifier: " ++ Text.quoted m.identifier ++ ", backend: " ++ Text.quoted m.adapterName ++
    ", state: " ++ m.stage.label ++ " \x7d"

end Model
end Milp
