import Milp.Kind
import Milp.Phase
import Milp.Scalar
import Milp.Solution

/-! What can go wrong, by cause; the wording is in the `message` functions. -/
namespace Milp

/-- Why no name was generated. -/
inductive NameError
  | noGenerator
  | arityMismatch (expected provided : Nat)
  | slotOutOfRange (slot indexCount : Nat)
  | rejected (reason : String)
deriving DecidableEq, Repr

def NameError.message : NameError → String
  | .noGenerator => "No valid name generator available"
  | .arityMismatch expected provided =>
    "Number of prefixes provided (" ++ toString provided ++ ") does not match index count " ++ toString expected
  | .slotOutOfRange slot count =>
    "Validator slot " ++ toString slot ++ " is outside the index count " ++ toString count
  | .rejected reason => reason

/-- Why a solver adapter refused. -/
inductive AdapterError
  | notInitialized
  | missingHandle (id : String)
  | unavailable (reason : String)
  | unsupported (reason : String)
  | failed (reason : String)
deriving DecidableEq, Repr

def AdapterError.message : AdapterError → String
  | .notInitialized => "Native model has not been initialized"
  | .missingHandle id => "No native handle for variable " ++ id
  | .unavailable reason => "Solver not available: " ++ reason
  | .unsupported reason => "Unsupported by this backend: " ++ reason
  | .failed reason => "Solver execution failed: " ++ reason

/-- Why a model cannot be solved as it is declared. -/
inductive Issue (α : Type)
  | outsideUnit (id : String) (lower upper : α)
  | noInteger (id : String) (lower upper : α)
  | noVariable (constraint : String)
  | unknownInConstraint (constraint id : String)
  | unknownInObjective (id : String)
deriving DecidableEq

/-- What a model's stage does not allow. -/
inductive Violation
  | closed (kind : Kind) (stage : Stage)
  | objectiveClosed (stage : Stage)
  | cannotInit (stage : Stage)
  | cannotCompute (stage : Stage)
  | cannotExtract (stage : Stage)
deriving DecidableEq, Repr

def Violation.message : Violation → String
  | .closed kind stage => kind.name ++ " declarations are closed in state " ++ stage.text
  | .objectiveClosed stage => "Objective cannot change in state " ++ stage.text
  | .cannotInit stage => "init() requires a declaring model, state is " ++ stage.text
  | .cannotCompute stage => "compute_model() requires an initialized model, state is " ++ stage.text
  | .cannotExtract stage => "extract_results() requires a solved model, state is " ++ stage.text

/-- When an adapter is called. -/
inductive Occasion
  | phase (p : Phase)
  | compute
  | extract
deriving DecidableEq, Repr

def Occasion.name : Occasion → String
  | .phase p => p.name
  | .compute => "compute_model"
  | .extract => "extract_results"

/-- Why a model refused. -/
inductive ModelError (α : Type)
  | emptyIdentifier (kind : Kind)
  | duplicateEntity (kind : Kind) (id : String)
  | unknownEntity (kind : Kind) (id : String)
  | duplicateGroup (kind : Kind) (id : String)
  | unknownGroup (kind : Kind) (id : String)
  | invalidBounds (id : String) (lower upper : α)
  | emptyExpression (constraint : String)
  | foreignVariable (id : String)
  | foreignExpression
  | naming (cause : NameError)
  | missingObjective
  | missingSolution (key : SolutionKey)
  | solutionType (key : SolutionKey) (found : ValueType)
  | invalid (issues : List (Issue α))
  | lifecycle (violation : Violation)
  | adapter (occasion : Occasion) (cause : AdapterError)
deriving DecidableEq

section Messages

variable {α : Type} [NumberText α]

def Issue.text : Issue α → String
  | .outsideUnit id lower upper =>
    "Boolean variable " ++ id ++ " has bounds [" ++ NumberText.text lower ++ ", " ++ NumberText.text upper ++
      "] outside [0, 1]"
  | .noInteger id lower upper =>
    "Variable " ++ id ++ " has no integer value within [" ++ NumberText.text lower ++ ", " ++
      NumberText.text upper ++ "]"
  | .noVariable id => "Constraint " ++ id ++ " has no variable term"
  | .unknownInConstraint constraint id => "Constraint " ++ constraint ++ " references unknown variable " ++ id
  | .unknownInObjective id => "Objective references unknown variable " ++ id

def ModelError.message : ModelError α → String
  | .emptyIdentifier kind => kind.name ++ " identifier cannot be empty"
  | .duplicateEntity kind id => kind.name ++ " with identifier (" ++ id ++ ") already exists"
  | .unknownEntity kind id => kind.name ++ " with identifier " ++ id ++ " not found in model"
  | .duplicateGroup kind id => kind.name ++ " group identifier (" ++ id ++ ") already exists"
  | .unknownGroup kind id => kind.name ++ " group identifier (" ++ id ++ ") not found in the model"
  | .invalidBounds id lower upper =>
    "Lower bound " ++ NumberText.text lower ++ " of variable " ++ id ++
      " cannot be greater than upper bound " ++ NumberText.text upper
  | .emptyExpression id => "Constraint " ++ id ++ " has no terms on either side"
  | .foreignVariable id => "Variable " ++ id ++ " is not registered on the model owning this expression"
  | .foreignExpression => "Expressions belong to different models"
  | .naming cause => "Naming error: " ++ cause.message
  | .missingObjective => "Objective function has not been defined"
  | .missingSolution key => "Solution parameter " ++ key.name ++ " is not available"
  | .solutionType key found =>
    "Solution parameter " ++ key.name ++ " holds a " ++ found.name ++ " value, expected " ++ key.valueType.name
  | .invalid issues => "Model validation failed: " ++ "; ".intercalate (issues.map Issue.text)
  | .lifecycle violation => "Lifecycle violation: " ++ violation.message
  | .adapter occasion cause => "Backend failure during " ++ occasion.name ++ ": " ++ cause.message

end Messages
end Milp
