/-! The kinds of entity that a model declares. -/
namespace Milp

/-- Identifiers are unique within a kind. -/
inductive Kind
  | var
  | constraint
  | constant
deriving DecidableEq, Repr

namespace Kind

/-- The kind as messages name it. -/
def name : Kind → String
  | .var => "Variable"
  | .constraint => "Constraint"
  | .constant => "Constant"

/-- The kind as the debugging text of a group names it. -/
def label : Kind → String
  | .var => "Var"
  | .constraint => "Constraint"
  | .constant => "Constant"

/-- The group that every model has from the start. -/
def defaultGroup : Kind → String
  | .var => "Default"
  | .constraint => "Default_Constraints"
  | .constant => "Default_Constants"

def defaultDescription : Kind → String
  | .var => "Default variable group"
  | .constraint => "Default constraint group"
  | .constant => "Default constant group"

end Kind
end Milp
