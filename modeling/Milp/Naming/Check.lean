import Milp.Error
import Milp.Naming.Slot

/-! Checks on the slots of a name, and the conditions that are supplied for them. -/
namespace Milp.Naming

inductive Condition
  /-- The slot is of one of these kinds. -/
  | kind (slot : Nat) (kinds : List SlotKind)
  /-- The slot is a number within bounds. -/
  | range (slot : Nat) (lower upper : Float)
  /-- The slot has one of these values. -/
  | oneOf (slot : Nat) (values : List Slot)
  /-- Two slots differ. -/
  | distinct (first second : Nat)

namespace Condition

/-- Bounds in the wrong order leave the lower one alone. -/
def within (slot : Nat) (lower upper : Float) : Condition :=
  .range slot lower (if upper < lower then lower else upper)

/-- The last slot that the condition reads. -/
def slot : Condition → Nat
  | .kind slot _ | .range slot _ _ | .oneOf slot _ => slot
  | .distinct first second => max first second

/-- Whether the condition holds; never, if a slot that it reads is missing. -/
def holds (slots : List Slot) : Condition → Bool
  | .kind slot kinds => match slots[slot]? with
    | some s => kinds.contains s.kind
    | none => false
  | .range slot lower upper => match slots[slot]?.bind Slot.number? with
    | some x => lower ≤ x && x ≤ upper
    | none => false
  | .oneOf slot values => match slots[slot]? with
    | some s => values.contains s
    | none => false
  | .distinct first second => match slots[first]?, slots[second]? with
    | some a, some b => a != b
    | _, _ => false

def kindList (kinds : List SlotKind) : String :=
  "[" ++ ", ".intercalate (kinds.map SlotKind.label) ++ "]"

def message : Condition → String
  | .kind slot kinds => "Object at index " ++ toString slot ++ " is not of kind " ++ kindList kinds
  | .range slot lower upper =>
    "Object at index " ++ toString slot ++ " is not within the bounds [" ++ NumberText.text lower ++ ", " ++
      NumberText.text upper ++ "]"
  | .oneOf slot _ => "Object at index " ++ toString slot ++ " is not in the provided value set"
  | .distinct first second =>
    "Object at index " ++ toString first ++ " and " ++ toString second ++ " are the same"

end Condition

/-- What is asked of the slots of a name: the last slot that is read, and the answer. -/
structure Check where
  slot : Nat
  run : List Slot → Except NameError Unit

/-- A condition with the words of its refusal. -/
structure Rule where
  condition : Condition
  reason : String

namespace Rule

def ofCondition (c : Condition) : Rule := ⟨c, c.message⟩

def slot (r : Rule) : Nat := r.condition.slot

/-- The check that lets slots through just where the condition holds. -/
def check (r : Rule) : Check where
  slot := r.slot
  run slots := if r.condition.holds slots then .ok () else .error (.rejected r.reason)

@[simp] theorem slot_check (r : Rule) : r.check.slot = r.slot := rfl

theorem run_check (r : Rule) (slots : List Slot) :
    r.check.run slots = if r.condition.holds slots then .ok () else .error (.rejected r.reason) := rfl

end Rule

namespace Check

def ofCondition (c : Condition) : Check := (Rule.ofCondition c).check

/-- The check with other words for what it refuses. -/
def withReason (c : Check) (reason : String) : Check :=
  { c with run := fun slots => (c.run slots).mapError fun _ => .rejected reason }

end Check

/-- Other words for a refusal are those of another rule. -/
theorem Rule.withReason_check (r : Rule) (reason : String) :
    r.check.withReason reason = ({ r with reason } : Rule).check := by
  refine congrArg (Check.mk r.slot) (funext fun slots => ?_)
  rw [run_check]
  cases r.condition.holds slots <;> rfl

end Milp.Naming
