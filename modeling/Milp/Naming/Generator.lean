import Milp.Naming.Check
import Milp.Text.Blank

/-! Names built from a stem and checked slots. -/
namespace Milp.Naming

/-- What makes names out of slots. -/
structure Namer where
  /-- How many slots a name has. -/
  indexCount : Nat
  name : List Slot → Except NameError String

/-- Names of the form `stem sep slot sep slot …`. -/
structure Generator where
  stem : String
  separator : String
  /-- One list of checks for each slot, each in the order of attachment. -/
  checks : List (List Check)

namespace Generator

def defaultSeparator : String := "-/-"

/-- White space around the stem is dropped. -/
def new (stem : String) (indexCount : Nat) : Generator :=
  ⟨Text.trim stem, defaultSeparator, List.replicate indexCount []⟩

/-- A blank separator leaves the one that is there. -/
def withSeparator (g : Generator) (separator : String) : Generator :=
  if Text.isBlank separator then g else { g with separator }

def indexCount (g : Generator) : Nat := g.checks.length

/-- Attaches a check to the last slot that it reads, which must be one of the generator's. -/
def withCheck (g : Generator) (c : Check) : Except NameError Generator :=
  if c.slot < g.indexCount then .ok { g with checks := g.checks.modify c.slot (· ++ [c]) }
  else .error (.slotOutOfRange c.slot g.indexCount)

/-- The name for a list of slots, if every check passes. The first that does not gives the reason. -/
def name (g : Generator) (slots : List Slot) : Except NameError String := do
  if slots.length ≠ g.indexCount then throw (.arityMismatch g.indexCount slots.length)
  g.checks.flatten.forM fun c => c.run slots
  return slots.foldl (fun text s => text ++ g.separator ++ s.display) g.stem

def namer (g : Generator) : Namer := ⟨g.indexCount, g.name⟩

instance : Coe Generator Namer := ⟨namer⟩

instance : Coe (Option Generator) (Option Namer) := ⟨Option.map namer⟩

end Generator
end Milp.Naming
