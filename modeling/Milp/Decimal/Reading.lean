import Milp.Decimal.Layout
import Milp.Json.Token

/-! The double that a text stands for. -/
namespace Milp.NumberLayout

/-- The nearest double to the number in a text, or what the layout calls it if it is not finite. -/
def read? (layout : NumberLayout) (s : String) : Option Float :=
  if s = layout.nan then some (0.0 / 0.0)
  else if s = layout.infinity then some (Float.ofBits 0x7FF0000000000000)
  else if s = layout.negativeInfinity then some (Float.ofBits 0xFFF0000000000000)
  else match Json.lexNumber s.toList with
    | some (n, []) => some n.toFloat
    | _ => none

end Milp.NumberLayout
