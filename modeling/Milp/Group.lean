import Milp.Naming.Generator
import Milp.Text.Quoted

/-! Groups: named parts of a model, each for entities of one kind. -/
namespace Milp

structure Group (k : Kind) where
  identifier : String
  description : String
  generator : Option Naming.Namer := none

namespace Group

variable {k : Kind}

/-- The group that a model of any kind of entity starts with. -/
def default (k : Kind) : Group k := ⟨k.defaultGroup, k.defaultDescription, none⟩

def isDefault (g : Group k) : Bool := g.identifier == k.defaultGroup

/-- How many slots the names of this group have; none without a generator. -/
def indexCount (g : Group k) : Nat := (g.generator.map Naming.Namer.indexCount).getD 0

def name (g : Group k) (slots : List Naming.Slot) : Except NameError String :=
  match g.generator with
  | none => .error .noGenerator
  | some generator => generator.name slots

/-- Groups are the same when their identifiers are. -/
instance : BEq (Group k) where
  beq g h := g.identifier == h.identifier

def text (g : Group k) : String :=
  "(Identifier: " ++ g.identifier ++ ", Description: " ++ g.description ++ ")"

/-- The text of a group for debugging. -/
def debugText (g : Group k) : String :=
  "Group \x7b kind: " ++ k.label ++ ", identifier: " ++ Text.quoted g.identifier ++ ", description: " ++
    Text.quoted g.description ++ " \x7d"

end Group
end Milp
