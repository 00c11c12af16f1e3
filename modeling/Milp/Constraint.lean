import Milp.Comparison
import Milp.Expression

/-! Linear constraints and the matrix rows that they stand for. -/
namespace Milp

/-- `left comparison right`. -/
structure Constraint (α : Type) where
  identifier : String
  left : Expression α
  comparison : Comparison
  right : Expression α

/-- Variables on the left, a number on the right. -/
structure Row (α : Type) where
  terms : List (String × α)
  comparison : Comparison
  bound : α

namespace Row

variable {α : Type}

def hasVariables (r : Row α) : Bool := !r.terms.isEmpty

/-- Adds `c` to the entry of a variable, or appends one that starts with it. -/
def absorb [Add α] (id : String) (c : α) : List (String × α) → List (String × α)
  | [] => [(id, c)]
  | e :: rest => if e.1 = id then (e.1, e.2 + c) :: rest else e :: absorb id c rest

/-- Moves the variable terms of one side into a row, each coefficient changed by `sign`. -/
def absorbSide [Add α] (sign : α → α) (acc : List (String × α)) (ts : List (Term α)) : List (String × α) :=
  ts.foldl (fun acc t => match t with
    | .constant _ => acc
    | .linear c id _ => absorb id (sign c) acc) acc

/-- The value of the left side, if each of its variables has one. -/
def evaluate [Scalar α] (values : Table α) (r : Row α) : Option α :=
  r.terms.foldlM (fun acc e => (values.find? e.1).map fun v => acc + e.2 * v) Scalar.zero

end Row

namespace Constraint

variable {α : Type}

/-- The sides belong to one model and are not both empty. -/
def new (id : String) (left : Expression α) (comparison : Comparison) (right : Expression α) :
    Except (ModelError α) (Constraint α) := do
  checkIdentifier .constraint id
  if left.owner ≠ right.owner then .error .foreignExpression
  else if left.isEmpty && right.isEmpty then .error (.emptyExpression id)
  else .ok ⟨id, left, comparison, right⟩

def owner (c : Constraint α) : Token := c.left.owner

/-- Moves every variable to the left and every constant to the right. -/
def row [Scalar α] (c : Constraint α) : Row α :=
  let terms := Row.absorbSide id [] c.left.reduce.terms
  { terms := Row.absorbSide (- ·) terms c.right.reduce.terms
    comparison := c.comparison
    bound := c.right.constantPart - c.left.constantPart }

def text [NumberText α] (c : Constraint α) : String :=
  c.identifier ++ ": " ++ c.left.text ++ " " ++ c.comparison.symbol ++ " " ++ c.right.text

end Constraint
end Milp
