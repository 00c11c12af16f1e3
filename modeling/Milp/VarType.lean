/-! The value sets of variables. -/
namespace Milp

inductive VarType
  | double
  | integer
  | boolean
deriving DecidableEq, Repr

namespace VarType

def name : VarType → String
  | .double => "DOUBLE"
  | .integer => "INTEGER"
  | .boolean => "BOOLEAN"

def description : VarType → String
  | .double => "Double variable"
  | .integer => "Integer variable"
  | .boolean => "Boolean variable"

/-- Only whole values. -/
def isIntegral : VarType → Bool
  | .double => false
  | .integer | .boolean => true

end VarType
end Milp
