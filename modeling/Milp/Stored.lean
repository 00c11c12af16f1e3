import Milp.Comparison
import Milp.Expression

/-! Models as they are stored: plain data, with identifiers in place of variables. -/
namespace Milp.Stored

variable {α : Type}

/-- A term; without an identifier it is a constant. -/
structure Term (α : Type) where
  coefficient : α
  id : Option String := none
deriving BEq

structure Expression (α : Type) where
  terms : List (Term α) := []
deriving BEq

/-- A variable. An infinite bound is stored as none. -/
structure Variable (α : Type) where
  identifier : String
  varType : VarType
  lower : Option α
  upper : Option α
  result : Option α := none
deriving BEq

structure Constraint (α : Type) where
  identifier : String
  left : Expression α
  comparison : Comparison
  right : Expression α
deriving BEq

structure Constant (α : Type) where
  identifier : String
  value : α
deriving BEq

/-- A group with the entities in it. -/
structure Group (E : Type) where
  identifier : String
  description : String
  members : List E
deriving BEq

/-- A set of identifiers. -/
abbrev Names := Table Unit

def Names.ofList (ids : List String) : Names := Table.ofList (ids.map fun id => (id, ()))

/-- What a model is beside its groups. -/
structure Header (α : Type) where
  identifier : String
  variableGroups : Names
  constraintGroups : Names
  constantGroups : Names
  objective : Option (Expression α) := none
  direction : Option Direction := none
  solution : Solution α := {}
deriving BEq

end Milp.Stored

namespace Milp

/-- A whole model as one value. -/
structure Document (α : Type) where
  header : Stored.Header α
  variableGroups : List (Stored.Group (Stored.Variable α))
  constraintGroups : List (Stored.Group (Stored.Constraint α))
  constantGroups : List (Stored.Group (Stored.Constant α))
deriving BEq

end Milp
