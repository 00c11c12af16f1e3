/-! The stages of a model's life. -/
namespace Milp

/-- The steps of initialization, in the order in which they run. -/
inductive Phase
  | model
  | constantGroups
  | variableGroups
  | vars
  | constraintGroups
  | constraints
  | objective
deriving DecidableEq, Repr

namespace Phase

def name : Phase → String
  | .model => "init_model"
  | .constantGroups => "init_constant_groups"
  | .variableGroups => "init_var_groups"
  | .vars => "init_vars"
  | .constraintGroups => "init_constraint_groups"
  | .constraints => "init_constraints"
  | .objective => "init_obj_function_generator"

/-- The phase as the debugging text of a model names it. -/
def label : Phase → String
  | .model => "InitModel"
  | .constantGroups => "InitConstantGroups"
  | .variableGroups => "InitVarGroups"
  | .vars => "InitVars"
  | .constraintGroups => "InitConstraintGroups"
  | .constraints => "InitConstraints"
  | .objective => "InitObjective"

def index : Phase → Nat
  | .model => 0
  | .constantGroups => 1
  | .variableGroups => 2
  | .vars => 3
  | .constraintGroups => 4
  | .constraints => 5
  | .objective => 6

def all : List Phase :=
  [.model, .constantGroups, .variableGroups, .vars, .constraintGroups, .constraints, .objective]

end Phase

/-- Where a model stands. -/
inductive Stage
  | declaring
  | initializing (phase : Phase)
  | initialized
  | solved
  | failed
deriving DecidableEq, Repr

namespace Stage

def text : Stage → String
  | .declaring => "Declaring"
  | .initializing phase => "Initializing (" ++ phase.name ++ ")"
  | .initialized => "Initialized"
  | .solved => "Solved"
  | .failed => "Failed"

def label : Stage → String
  | .declaring => "Declaring"
  | .initializing phase => "Initializing(" ++ phase.label ++ ")"
  | .initialized => "Initialized"
  | .solved => "Solved"
  | .failed => "Failed"

end Stage
end Milp
