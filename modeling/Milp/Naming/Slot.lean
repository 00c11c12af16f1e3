import Milp.Scalar

/-! The values that fill the slots of a generated name. -/
namespace Milp.Naming

inductive SlotKind
  | int
  | float
  | text
deriving DecidableEq, Repr

def SlotKind.label : SlotKind → String
  | .int => "Int"
  | .float => "Float"
  | .text => "Text"

inductive Slot
  | int (n : Int64)
  | float (x : Float)
  | text (s : String)

namespace Slot

def kind : Slot → SlotKind
  | .int _ => .int
  | .float _ => .float
  | .text _ => .text

/-- The value as a double; an integer beyond 2^53 is rounded. -/
def number? : Slot → Option Float
  | .int n => some (Binary64.ofRat n.toInt)
  | .float x => some x
  | .text _ => none

/-- The value as it stands in a name. -/
def display : Slot → String
  | .int n => toString n.toInt
  | .float x => NumberText.text x
  | .text s => s

/-- Equal kinds and equal values. -/
instance : BEq Slot where
  beq
    | .int m, .int n => m == n
    | .float x, .float y => x == y
    | .text s, .text t => s == t
    | _, _ => false

/-- A machine word of 64 bits, read as a signed number. -/
def ofWord (n : UInt64) : Slot := .int n.toInt64

end Slot

/-- The machine integers that slots are made of. -/
inductive MachineInteger
  | int8 (n : Int8)
  | int16 (n : Int16)
  | int32 (n : Int32)
  | int64 (n : Int64)
  | uint8 (n : UInt8)
  | uint16 (n : UInt16)
  | uint32 (n : UInt32)
  | word (n : UInt64)
deriving DecidableEq, Repr

/-- The integer that is meant. -/
def MachineInteger.toInt : MachineInteger → Int
  | .int8 n => n.toInt
  | .int16 n => n.toInt
  | .int32 n => n.toInt
  | .int64 n => n.toInt
  | .uint8 n => n.toNat
  | .uint16 n => n.toNat
  | .uint32 n => n.toNat
  | .word n => n.toNat

def Slot.ofMachine : MachineInteger → Slot
  | .int8 n => .int n.toInt64
  | .int16 n => .int n.toInt64
  | .int32 n => .int n.toInt64
  | .int64 n => .int n
  | .uint8 n => .ofWord n.toUInt64
  | .uint16 n => .ofWord n.toUInt64
  | .uint32 n => .ofWord n.toUInt64
  | .word n => .ofWord n

end Milp.Naming
