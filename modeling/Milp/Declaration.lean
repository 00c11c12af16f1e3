import Milp.Model

/-! Declaring groups, entities and the objective on a model. A refused declaration changes nothing. -/
namespace Milp

/-- The last phase of initialization in which entities of a kind are declared, if not all. -/
def Kind.lastPhase : Kind → Option Phase
  | .var => some .variableGroups
  | .constraint => some .constraintGroups
  | .constant => none

/-- Whether entities of a kind may be declared. -/
def Stage.admits (s : Stage) (k : Kind) : Bool :=
  match s with
  | .declaring => true
  | .initializing phase => match k.lastPhase with
    | some last => decide (phase.index ≤ last.index)
    | none => true
  | _ => false

/-- Whether the objective may change. -/
def Stage.admitsObjective : Stage → Bool
  | .declaring | .initializing _ => true
  | _ => false

namespace Model

variable {α η κ : Type} {A : Adapter α η κ}

def checkOpen (m : Model A) (k : Kind) : Except (ModelError α) Unit :=
  if m.stage.admits k then .ok () else .error (.lifecycle (.closed k m.stage))

def checkObjectiveOpen (m : Model A) : Except (ModelError α) Unit :=
  if m.stage.admitsObjective then .ok () else .error (.lifecycle (.objectiveClosed m.stage))

/-- The expression is this model's, and names only variables that are registered here. -/
def checkOwned (m : Model A) (e : Expression α) : Except (ModelError α) Unit :=
  if e.owner = m.token then
    match e.names.find? fun id => !m.vars.contains id with
    | some id => .error (.foreignVariable id)
    | none => .ok ()
  else .error .foreignExpression

def createGroup (m : Model A) (k : Kind) (id description : String) (generator : Option Naming.Namer) :
    Except (ModelError α) (Group k × Model A) := do
  m.checkOpen k
  checkIdentifier k id
  let g : Group k := ⟨id, description, generator⟩
  let r ← (m.registry k).addGroup g
  return (g, m.withRegistry k r)

def createVariable (m : Model A) (id : String) (varType : VarType) (lower upper : α) (group : Group .var) :
    Except (ModelError α) (Variable α × Model A) := do
  m.checkOpen .var
  discard (m.vars.group group.identifier)
  m.vars.ensureAbsent id
  let v ← m.variableFactory m.token id varType lower upper
  let r ← m.vars.insert group.identifier id v
  return (v, { m with vars := r })

def addConstraint (m : Model A) (id : String) (left : Expression α) (comparison : Comparison)
    (right : Expression α) (group : Group .constraint) : Except (ModelError α) (Constraint α × Model A) := do
  m.checkOpen .constraint
  m.checkOwned left
  m.checkOwned right
  discard (m.constraints.group group.identifier)
  m.constraints.ensureAbsent id
  let c ← m.constraintFactory id left comparison right
  let r ← m.constraints.insert group.identifier id c
  return (c, { m with constraints := r })

def createConstant (m : Model A) (id : String) (value : α) (group : Group .constant) :
    Except (ModelError α) (Constant α × Model A) := do
  m.checkOpen .constant
  let c ← Constant.new id value
  let r ← m.constants.insert group.identifier id c
  return (c, { m with constants := r })

/-- Gives a constant another value, at any stage. Expressions built before keep the old one. -/
def setConstant (m : Model A) (id : String) (value : α) : Except (ModelError α) (Model A) := do
  discard (m.constants.entity id)
  return { m with constants := m.constants.modify id fun c => { c with value } }

def setObjective (m : Model A) (e : Expression α) (direction : Direction) : Except (ModelError α) (Model A) := do
  m.checkObjectiveOpen
  m.checkOwned e
  return { m with objective := some ⟨e, direction⟩ }

end Model
end Milp
