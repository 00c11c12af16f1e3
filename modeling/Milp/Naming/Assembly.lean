import Milp.Event
import Milp.Naming.Generator
import Milp.Text.Quoted

/-! Setting up generators, with a journal of what was not taken as it was given. -/
namespace Milp.Naming

abbrev Assembly (β : Type) := ExceptT NameError (StateM (List (Event Float))) β

namespace Assembly

def note (happened : Bool) (e : Event Float) : Assembly Unit := modify fun es => if happened then es ++ [e] else es

def generator (stem : String) (indexCount : Nat) : Assembly Generator := do
  note (Text.isBlank stem) .stemBlank
  return .new stem indexCount

def withSeparator (g : Generator) (separator : String) : Assembly Generator := do
  note (Text.isBlank separator) .separatorBlank
  return g.withSeparator separator

/-- The condition that a slot is a number within bounds. -/
def within (slot : Nat) (lower upper : Float) : Assembly Condition := do
  note (upper < lower) (.boundsCollapsed lower upper)
  return .within slot lower upper

def withCheck (g : Generator) (c : Check) : Assembly Generator := liftExcept (g.withCheck c)

end Assembly

/-- The text of a generator for debugging. -/
def Generator.debugText (g : Generator) : String :=
  "PrefixNameGenerator \x7b prefix: " ++ Text.quoted g.stem ++ ", separator: " ++ Text.quoted g.separator ++
    ", index_count: " ++ toString g.indexCount ++ " \x7d"

end Milp.Naming
