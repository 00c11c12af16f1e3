import Milp.Scalar

/-! How the two sides of a constraint are compared. -/
namespace Milp

inductive Comparison
  | lessEqual
  | greaterEqual
  | equal
deriving DecidableEq, Repr

namespace Comparison

def symbol : Comparison → String
  | .lessEqual => "<="
  | .greaterEqual => ">="
  | .equal => "="

/-- Whether two values compare as asked, up to a tolerance. -/
def holds {α : Type} [Scalar α] : Comparison → (left right tolerance : α) → Bool
  | .lessEqual, l, r, t => Scalar.le l (r + t)
  | .greaterEqual, l, r, t => Scalar.le r (l + t)
  | .equal, l, r, t => Scalar.le (Scalar.abs (l - r)) t

end Comparison
end Milp
