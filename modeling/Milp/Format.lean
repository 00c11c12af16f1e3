import Milp.Json.Codec
import Milp.Stored

/-! The JSON form of stored models. -/
namespace Milp.Format

open Json

/-- A field that must be there. -/
def required {β : Type} (name : String) (c : Codec β) : Member β := { name, codec := c }

/-- A field that is left out when it has no value. -/
def whenPresent {β : Type} (name : String) (c : Codec β) : Member (Option β) where
  name
  codec := c.optional
  fallback := some none
  trailing := true
  hidden := Option.isNone

/-- A field that is `null` when it has no value. -/
def nullable {β : Type} (name : String) (c : Codec β) : Member (Option β) where
  name
  codec := c.optional
  fallback := some none

def varTypes : List (String × VarType) :=
  [("DOUBLE", .double), ("INTEGER", .integer), ("BOOLEAN", .boolean)]

def varType : Codec VarType := .named varTypes VarType.name

def comparisons : List (String × Comparison) :=
  [("LESS_EQUAL", .lessEqual), ("GREATER_EQUAL", .greaterEqual), ("EQUAL", .equal)]

def comparisonName : Comparison → String
  | .lessEqual => "LESS_EQUAL"
  | .greaterEqual => "GREATER_EQUAL"
  | .equal => "EQUAL"

def comparison : Codec Comparison := .named comparisons comparisonName

def directions : List (String × Direction) := [("MINIMIZE", .minimize), ("MAXIMIZE", .maximize)]

def direction : Codec Direction := .named directions Direction.name

def statuses : List (String × Status) :=
  [("OPTIMAL", .optimal), ("INFEASIBLE", .infeasible), ("UNBOUNDED", .unbounded),
    ("INFEASIBLE_OR_UNBOUNDED", .infeasibleOrUnbounded), ("TIME_LIMIT", .timeLimit), ("CUTOFF", .cutoff),
    ("UNKNOWN", .unknown)]

def statusName : Status → String
  | .optimal => "OPTIMAL"
  | .infeasible => "INFEASIBLE"
  | .unbounded => "UNBOUNDED"
  | .infeasibleOrUnbounded => "INFEASIBLE_OR_UNBOUNDED"
  | .timeLimit => "TIME_LIMIT"
  | .cutoff => "CUTOFF"
  | .unknown => "UNKNOWN"

def status : Codec Status := .named statuses statusName

def solutionKeys : List (String × SolutionKey) := SolutionKey.all.map fun k => (k.name, k)

def solutionValue : Codec (SolutionValue Float) :=
  .tagged [⟨"status", SolutionValue.status <$> status.read⟩, ⟨"float", SolutionValue.float <$> Codec.float.read⟩,
      ⟨"millis", SolutionValue.millis <$> Codec.word.read⟩]
    fun
    | .status s => ("status", status.write s)
    | .float x => ("float", Codec.float.write x)
    | .millis n => ("millis", Codec.word.write n)

/-- Figures by key, in the order of the keys. Of two values under one key the later counts. -/
def solution : Codec (Solution Float) where
  write s := .object (s.entries.map fun e => (e.1.name, solutionValue.write e.2))
  read := do
    Decoder.expect .openBrace
    Decoder.openObject (fun key s => match solutionKeys.lookup key with
      | some k => do
        Decoder.expect .colon
        return s.set k (← solutionValue.read)
      | none => throw (.unknownVariant key (solutionKeys.map (·.1)))) {}

def term : Codec (Stored.Term Float) :=
  (Members.cons (required "coefficient" .float) (.cons (whenPresent "var" .text) .nil)).codec.iso
    (fun (coefficient, id, _) => { coefficient, id }) fun t => (t.coefficient, t.id, ())

def expression : Codec (Stored.Expression Float) :=
  (Members.cons (required "terms" term.list) .nil).codec.iso (fun (terms, _) => { terms }) fun e => (e.terms, ())

def variableForm : Codec (Stored.Variable Float) :=
  (Members.cons (required "identifier" .text) <| .cons (required "varType" varType) <|
    .cons (nullable "lowerBound" .float) <| .cons (nullable "upperBound" .float) <|
    .cons (whenPresent "result" .float) .nil).codec.iso
    (fun (identifier, varType, lower, upper, result, _) => { identifier, varType, lower, upper, result })
    fun v => (v.identifier, v.varType, v.lower, v.upper, v.result, ())

def constraint : Codec (Stored.Constraint Float) :=
  (Members.cons (required "identifier" .text) <| .cons (required "lhs" expression) <|
    .cons (required "operator" comparison) <| .cons (required "rhs" expression) .nil).codec.iso
    (fun (identifier, left, comparison, right, _) => { identifier, left, comparison, right })
    fun c => (c.identifier, c.left, c.comparison, c.right, ())

def constant : Codec (Stored.Constant Float) :=
  (Members.cons (required "identifier" .text) <| .cons (required "value" .float) .nil).codec.iso
    (fun (identifier, value, _) => { identifier, value }) fun c => (c.identifier, c.value, ())

/-- A group whose members stand under `name`. -/
def group {E : Type} (name : String) (member : Codec E) : Codec (Stored.Group E) :=
  (Members.cons (required "identifier" .text) <| .cons (required "description" .text) <|
    .cons (required name member.list) .nil).codec.iso
    (fun (identifier, description, members, _) => { identifier, description, members })
    fun g => (g.identifier, g.description, g.members, ())

def variableGroup : Codec (Stored.Group (Stored.Variable Float)) := group "variables" variableForm

def constraintGroup : Codec (Stored.Group (Stored.Constraint Float)) := group "constraints" constraint

def constantGroup : Codec (Stored.Group (Stored.Constant Float)) := group "constants" constant

/-- Identifiers in ascending order, each once. -/
def names : Codec Stored.Names := (Codec.text.list).iso Stored.Names.ofList Table.keys

def header : Codec (Stored.Header Float) :=
  (Members.cons (required "identifier" .text) <| .cons (required "variableGroups" names) <|
    .cons (required "constraintGroups" names) <| .cons (required "constantGroups" names) <|
    .cons (whenPresent "objectiveFn" expression) <| .cons (whenPresent "objType" direction) <|
    .cons { required "solutionParams" solution with fallback := some {}, trailing := true } .nil).codec.iso
    (fun (identifier, variableGroups, constraintGroups, constantGroups, objective, direction, solution, _) =>
      { identifier, variableGroups, constraintGroups, constantGroups, objective, direction, solution })
    fun h => (h.identifier, h.variableGroups, h.constraintGroups, h.constantGroups, h.objective, h.direction,
      h.solution, ())

def document : Codec (Document Float) :=
  (Members.cons (required "model" header) <| .cons (required "varGroups" variableGroup.list) <|
    .cons (required "constraintGroups" constraintGroup.list) <|
    .cons (required "constantGroups" constantGroup.list) .nil).codec.iso
    (fun (header, variableGroups, constraintGroups, constantGroups, _) =>
      { header, variableGroups, constraintGroups, constantGroups })
    fun d => (d.header, d.variableGroups, d.constraintGroups, d.constantGroups, ())

end Milp.Format
