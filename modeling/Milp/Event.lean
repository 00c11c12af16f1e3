import Milp.Error

/-! What happens to a model, as events for its log. -/
namespace Milp

inductive Event (α : Type)
  | modelCreated (adapter : String)
  | groupCreated (kind : Kind) (group : String)
  | variableDeclared (id group : String)
  | constraintDeclared (id group : String)
  | constantDeclared (id : String) (value : α)
  | issueFound (issue : Issue α)
  | initStarted (adapter : String)
  | phaseEntered (phase : Phase)
  | initializerStarted (phase : Phase) (group : String)
  | initializerFailed (phase : Phase) (group : String) (error : ModelError α)
  | variablesMaterialized (count : Nat)
  | constraintsMaterialized (count : Nat)
  | objectiveMissing
  | initFinished (vars constraints : Nat)
  | initFailed (stage : Stage) (error : ModelError α)
  | computeStarted
  | computeFailed (error : AdapterError)
  | computeFinished (status : Status)
  | unknownVariable (id : String)
  | resultsExtracted (count : Nat)
  | statusUnmapped (status : String)
  | solveFinished (model : String) (status : Status)
  | stemBlank
  | separatorBlank
  | boundsCollapsed (lower upper : Float)
  | objectiveSkipped (model : String)
  | fileWritten (path : String)
  | modelExported (model folder : String)
  | modelImported (model folder : String)

inductive Level
  | debug
  | info
  | warn
  | error
deriving DecidableEq, Repr

def Level.name : Level → String
  | .debug => "DEBUG"
  | .info => "INFO"
  | .warn => "WARN"
  | .error => "ERROR"

/-- A line of the log. -/
structure LogLine where
  level : Level
  message : String
  fields : List (String × String)

/-- The line as one text: level, message, and then each field with its value. -/
def LogLine.text (l : LogLine) : String :=
  l.level.name ++ " " ++ l.message ++ String.join (l.fields.map fun f => " " ++ f.1 ++ "=" ++ f.2)

namespace Event

variable {α : Type}

private def inModel (fields : List (String × String)) : List (String × String) :=
  ("component", "model") :: fields

private def during (operation : String) (fields : List (String × String)) : List (String × String) :=
  inModel (("operation", operation) :: fields)

private def inSolver (fields : List (String × String)) : List (String × String) :=
  ("component", "solver") :: ("backend", "HiGHS") :: fields

/-- The line that an event writes. -/
def line [NumberText α] : Event α → LogLine
  | .modelCreated adapter => ⟨.debug, "Model created", inModel [("backend", adapter)]⟩
  | .groupCreated kind group =>
    ⟨.debug, "Group created", during "create_group" [("kind", kind.name), ("group", group)]⟩
  | .variableDeclared id group =>
    ⟨.debug, "Variable declared", during "create_var" [("var", id), ("group", group)]⟩
  | .constraintDeclared id group =>
    ⟨.debug, "Constraint declared", during "add_constraint" [("constraint", id), ("group", group)]⟩
  | .constantDeclared id value =>
    ⟨.debug, "Constant declared", during "create_constant" [("constant", id), ("value", NumberText.text value)]⟩
  | .issueFound issue => ⟨.warn, issue.text, during "validate" []⟩
  | .initStarted adapter => ⟨.info, "Initializing model", during "init" [("backend", adapter)]⟩
  | .phaseEntered phase => ⟨.info, "Entering phase", inModel [("phase", phase.name)]⟩
  | .initializerStarted phase group =>
    ⟨.debug, "Running group initializer", inModel [("phase", phase.name), ("group", group)]⟩
  | .initializerFailed phase group error =>
    ⟨.error, "Group initializer failed",
      inModel [("phase", phase.name), ("group", group), ("error", error.message)]⟩
  | .variablesMaterialized count =>
    ⟨.debug, "Variables materialized", inModel [("phase", Phase.vars.name), ("count", toString count)]⟩
  | .constraintsMaterialized count =>
    ⟨.debug, "Constraints materialized", inModel [("phase", Phase.constraints.name), ("count", toString count)]⟩
  | .objectiveMissing =>
    ⟨.warn, "No objective function defined, backend objective left empty",
      inModel [("phase", Phase.objective.name)]⟩
  | .initFinished vars constraints =>
    ⟨.info, "Model initialized",
      during "init" [("vars", toString vars), ("constraints", toString constraints)]⟩
  | .initFailed stage error =>
    ⟨.error, "Model initialization failed", during "init" [("state", stage.text), ("error", error.message)]⟩
  | .computeStarted => ⟨.info, "Computing model", during "compute_model" []⟩
  | .computeFailed error => ⟨.error, "Solver failed", during "compute_model" [("error", error.message)]⟩
  | .computeFinished status => ⟨.info, "Model computed", during "compute_model" [("status", status.text)]⟩
  | .unknownVariable id =>
    ⟨.warn, "Backend reported a value for an unknown variable", during "extract_results" [("var", id)]⟩
  | .resultsExtracted count =>
    ⟨.debug, "Results extracted", during "extract_results" [("count", toString count)]⟩
  | .statusUnmapped status => ⟨.warn, "Unmapped HiGHS model status", inSolver [("status", status)]⟩
  | .solveFinished model status =>
    ⟨.info, "Solve finished", inSolver [("model", model), ("status", status.text)]⟩
  | .stemBlank => ⟨.debug, "Name generator initialized with an empty prefix", [("component", "naming")]⟩
  | .separatorBlank =>
    ⟨.debug, "Name generator given an empty separator, keeping the default", [("component", "naming")]⟩
  | .boundsCollapsed lower upper =>
    ⟨.warn, "Range validator given inverted bounds, collapsing to the lower bound",
      [("component", "naming"), ("lower", NumberText.text lower), ("upper", NumberText.text upper)]⟩
  | .objectiveSkipped model =>
    ⟨.warn, "Stored objective has no direction, skipped", [("component", "mappers"), ("model", model)]⟩
  | .fileWritten path =>
    ⟨.debug, "File written", [("component", "json_file"), ("operation", "write"), ("path", path)]⟩
  | .modelExported model folder =>
    ⟨.info, "Model exported",
      [("component", "json_file"), ("operation", "export_model"), ("model", model), ("folder", folder)]⟩
  | .modelImported model folder =>
    ⟨.info, "Model imported",
      [("component", "json_file"), ("operation", "import_model"), ("model", model), ("folder", folder)]⟩

end Event
end Milp
