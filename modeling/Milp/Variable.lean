import Milp.Error
import Milp.Text.Blank
import Milp.VarType

/-! Decision variables and named constants. -/
namespace Milp

/-- The identity of a model. Models created later have larger numbers. -/
structure Token where
  number : Nat
deriving DecidableEq, Repr

/-- Identifiers hold at least one character that is not white space. -/
def checkIdentifier {α : Type} (kind : Kind) (id : String) : Except (ModelError α) Unit :=
  if Text.isBlank id then .error (.emptyIdentifier kind) else .ok ()

/-- A decision variable of the model with token `owner`. -/
structure Variable (α : Type) where
  identifier : String
  varType : VarType
  lower : α
  upper : α
  owner : Token
  /-- The value that the last solve gave, once it was read. -/
  result : Option α := none

namespace Variable

variable {α : Type}

/-- Refuses bounds that are in the wrong order or cannot be compared. -/
def new [Scalar α] (owner : Token) (id : String) (varType : VarType) (lower upper : α) :
    Except (ModelError α) (Variable α) := do
  checkIdentifier .var id
  if Scalar.le lower upper then .ok ⟨id, varType, lower, upper, owner, none⟩
  else .error (.invalidBounds id lower upper)

def text [NumberText α] (v : Variable α) : String :=
  "[identifier: " ++ v.identifier ++ ", type: " ++ v.varType.name ++ ", bounds: [" ++
    NumberText.text v.lower ++ ", " ++ NumberText.text v.upper ++ "]]"

end Variable

/-- A named number, which expressions take the value of when they are built. -/
structure Constant (α : Type) where
  identifier : String
  value : α

namespace Constant

variable {α : Type}

def new (id : String) (value : α) : Except (ModelError α) (Constant α) := do
  checkIdentifier .constant id
  return ⟨id, value⟩

def text [NumberText α] (c : Constant α) : String :=
  "[Constant] " ++ c.identifier ++ " : " ++ NumberText.text c.value

end Constant
end Milp
