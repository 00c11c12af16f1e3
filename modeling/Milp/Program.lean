import Milp.Restore

/-! Programs that declare on a model while it is initialized. -/
namespace Milp

/-- A step of a program that declares something or changes it. -/
inductive Action (α : Type)
  | createGroup (k : Kind) (id description : String) (generator : Option Naming.Namer)
  | createVariable (id : String) (varType : VarType) (lower upper : α) (group : Group .var)
  | addConstraint (id : String) (left : Expression α) (comparison : Comparison) (right : Expression α)
      (group : Group .constraint)
  | createConstant (id : String) (value : α) (group : Group .constant)
  | setConstant (id : String) (value : α)
  | setObjective (e : Expression α) (direction : Direction)
  | restore (d : Document α)
  | restoreVariables (s : Stored.Group (Stored.Variable α))
  | restoreConstraints (s : Stored.Group (Stored.Constraint α))
  | restoreConstants (s : Stored.Group (Stored.Constant α))
  | restoreHeader (s : Stored.Header α)

namespace Action

variable {α η κ : Type} {A : Adapter α η κ}

/-- What an action gives back. -/
abbrev Value : Action α → Type
  | .createGroup k .. => Group k
  | .createVariable .. => Variable α
  | .addConstraint .. => Constraint α
  | .createConstant .. => Constant α
  | _ => Unit

def perform [Unbounded α] : (a : Action α) → Edit A a.Value
  | .createGroup k id description generator => Edit.createGroup k id description generator
  | .createVariable id varType lower upper group => Edit.createVariable id varType lower upper group
  | .addConstraint id left comparison right group => Edit.addConstraint id left comparison right group
  | .createConstant id value group => Edit.createConstant id value group
  | .setConstant id value => Edit.setConstant id value
  | .setObjective e direction => Edit.setObjective e direction
  | .restore d => Edit.restore d
  | .restoreVariables s => Edit.restoreVariables s
  | .restoreConstraints s => Edit.restoreConstraints s
  | .restoreConstants s => Edit.restoreConstants s
  | .restoreHeader s => Edit.restoreHeader s

end Action

/-- What a program is run for: a group, or the objective. -/
inductive Purpose
  | group
  | objective
deriving DecidableEq, Repr

/-- What a program that succeeds gives back. -/
abbrev Purpose.Value (α : Type) : Purpose → Type
  | .group => Unit
  | .objective => Expression α

/-- A program: a tree of steps, each followed by what to do with its answer. Besides acting on the
model it may keep a state of its own, shared with the other programs of a run. -/
inductive Program {α η κ : Type} (A : Adapter α η κ) (ω : Type) : Purpose → Type
  | finish {p : Purpose} (r : Except (ModelError α) (p.Value α)) : Program A ω p
  /-- Reads the model. -/
  | read {p : Purpose} (next : Model A → Program A ω p) : Program A ω p
  /-- Changes the shared state and goes on with what it was. -/
  | share {p : Purpose} (f : ω → ω) (next : ω → Program A ω p) : Program A ω p
  /-- Writes events. -/
  | note {p : Purpose} (events : List (Event α)) (next : Program A ω p) : Program A ω p
  | act {p : Purpose} (a : Action α) (next : Except (ModelError α) a.Value → Program A ω p) : Program A ω p
  /-- Creates a group with a program of its own, to be run when its kind's turn comes. -/
  | spawn {p : Purpose} (k : Kind) (id description : String) (generator : Option Naming.Namer)
      (program : Group k → Program A ω .group) (next : Except (ModelError α) (Group k) → Program A ω p) :
      Program A ω p
  /-- Attaches a program that builds the objective. -/
  | attach {p : Purpose} (direction : Direction) (program : Program A ω .objective)
      (next : Except (ModelError α) Unit → Program A ω p) : Program A ω p

/-- The programs that wait for initialization. -/
structure Agenda {α η κ : Type} (A : Adapter α η κ) (ω : Type) where
  vars : Table (Program A ω .group) := .empty
  constraints : Table (Program A ω .group) := .empty
  constants : Table (Program A ω .group) := .empty
  objective : Option (Direction × Program A ω .objective) := none

namespace Agenda

variable {α η κ ω : Type} {A : Adapter α η κ}

/-- The programs of the groups of a kind, by group. -/
def programs (a : Agenda A ω) : Kind → Table (Program A ω .group)
  | .var => a.vars
  | .constraint => a.constraints
  | .constant => a.constants

def withPrograms (a : Agenda A ω) (k : Kind) (t : Table (Program A ω .group)) : Agenda A ω :=
  match k with
  | .var => { a with vars := t }
  | .constraint => { a with constraints := t }
  | .constant => { a with constants := t }

end Agenda
end Milp
