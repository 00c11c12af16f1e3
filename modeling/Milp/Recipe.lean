import Milp.Model

/-! Building expressions from what a model has. -/
namespace Milp

/-- A step on the way to an expression. -/
inductive Ingredient (α : Type)
  | number (c : α)
  /-- A multiple of a variable of the model. -/
  | scaled (c : α) (id : String)
  /-- The value of a constant of the model. -/
  | constant (id : String)
  /-- A variable of the model, times a constant of it. -/
  | product (constant id : String)
  /-- A multiple of a variable that may be another model's. -/
  | foreign (c : α) (v : Variable α)
  | expression (e : Expression α)
  /-- Every variable of a group. -/
  | members (group : String)
  /-- Multiplies what is there. -/
  | times (c : α)

namespace Model

variable {α η κ : Type} {A : Adapter α η κ} [Scalar α]

/-- Adds an ingredient. What it names must be there. -/
def mix (m : Model A) (e : Expression α) : Ingredient α → Except (ModelError α) (Expression α)
  | .number c => .ok (e.addConstant c)
  | .scaled c id => do e.addScaled c (← m.entity .var id)
  | .constant id => do return e.addConstant (← m.entity .constant id).value
  | .product constant id => do
    let v ← m.entity .var id
    e.addScaled (← m.entity .constant constant).value v
  | .foreign c v => e.addScaled c v
  | .expression other => e.add other
  | .members group => do (← m.members .var group).foldlM (fun e id => do e.addVariable (← m.entity .var id)) e
  | .times c => .ok (e.scale c)

def build (m : Model A) (ingredients : List (Ingredient α)) : Except (ModelError α) (Expression α) :=
  ingredients.foldlM m.mix m.expression

end Model
end Milp
