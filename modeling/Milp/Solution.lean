/-! What a solve reports: a status and a few figures under fixed keys. -/
namespace Milp

/-- How a solve ended. None of these is an error. -/
inductive Status
  | optimal
  | infeasible
  | unbounded
  /-- The solver could not tell which of the two. -/
  | infeasibleOrUnbounded
  | timeLimit
  | cutoff
  | unknown
deriving DecidableEq, Repr

namespace Status

def text : Status → String
  | .optimal => "Optimal"
  | .infeasible => "Infeasible"
  | .unbounded => "Unbounded"
  | .infeasibleOrUnbounded => "Infeasible or Unbounded"
  | .timeLimit => "Time Limit Reached"
  | .cutoff => "Cutoff Reached"
  | .unknown => "Unknown"

def isOptimal (s : Status) : Bool := s = .optimal

def isInfeasible (s : Status) : Bool := s = .infeasible || s = .infeasibleOrUnbounded

def isUnbounded (s : Status) : Bool := s = .unbounded || s = .infeasibleOrUnbounded

end Status

/-- What a figure of a solve can be. -/
inductive SolutionValue (α : Type)
  | status (s : Status)
  | float (x : α)
  | millis (n : UInt64)

/-- The types of `SolutionValue`. -/
inductive ValueType
  | status
  | float
  | milliseconds
deriving DecidableEq, Repr

def ValueType.name : ValueType → String
  | .status => "status"
  | .float => "float"
  | .milliseconds => "milliseconds"

namespace SolutionValue

variable {α : Type}

def valueType : SolutionValue α → ValueType
  | .status _ => .status
  | .float _ => .float
  | .millis _ => .milliseconds

instance [BEq α] : BEq (SolutionValue α) where
  beq
    | .status s, .status t => s == t
    | .float x, .float y => x == y
    | .millis m, .millis n => m == n
    | _, _ => false

end SolutionValue

/-- The keys that a solve reports under. -/
inductive SolutionKey
  | status
  | objective
  | mipGap
  | time
deriving DecidableEq, Repr

namespace SolutionKey

def name : SolutionKey → String
  | .status => "STATUS"
  | .objective => "OBJECTIVE"
  | .mipGap => "MIP_GAP"
  | .time => "TIME"

def description : SolutionKey → String
  | .status => "Solution Status"
  | .objective => "Objective Function Value"
  | .mipGap => "MIP Gap"
  | .time => "Time in milliseconds"

/-- The type that a value under this key ought to have. -/
def valueType : SolutionKey → ValueType
  | .status => .status
  | .objective | .mipGap => .float
  | .time => .milliseconds

def all : List SolutionKey := [.status, .objective, .mipGap, .time]

end SolutionKey

/-- The figures of a solve. A value of any type may stand under any key. -/
structure Solution (α : Type) where
  status : Option (SolutionValue α) := none
  objective : Option (SolutionValue α) := none
  mipGap : Option (SolutionValue α) := none
  time : Option (SolutionValue α) := none
deriving BEq

namespace Solution

variable {α : Type}

def get? (s : Solution α) : SolutionKey → Option (SolutionValue α)
  | .status => s.status
  | .objective => s.objective
  | .mipGap => s.mipGap
  | .time => s.time

def set (s : Solution α) (key : SolutionKey) (v : SolutionValue α) : Solution α :=
  match key with
  | .status => { s with status := some v }
  | .objective => { s with objective := some v }
  | .mipGap => { s with mipGap := some v }
  | .time => { s with time := some v }

/-- The figures that are there, in the order of the keys. -/
def entries (s : Solution α) : List (SolutionKey × SolutionValue α) :=
  SolutionKey.all.filterMap fun k => (s.get? k).map (k, ·)

/-- The reported status; a solve that reports none ended in an unknown way. -/
def outcome (s : Solution α) : Status :=
  match s.status with
  | some (.status s) => s
  | _ => .unknown

end Solution
end Milp
