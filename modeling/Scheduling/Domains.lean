import Scheduling.Model.Node
import Scheduling.SortedMap

/-!
# Domains

What propagation leaves of the domains of variables.
-/

namespace Scheduling

/-- The domain of a variable: its bounds, and whether it is present. -/
structure Domain where
  presence : Option Presence
  bounds : Bounds
deriving DecidableEq, Repr, Inhabited

namespace Domain

/-- Whether the variable is absent. -/
def isAbsent (d : Domain) : Bool := d.presence == some .absent

/-- The least and the greatest start, if both are known. -/
def startRange? (d : Domain) : Option (Int × Int) := do
  some (← d.bounds.startMin, ← d.bounds.startMax)

/-- The least and the greatest end, if both are known. -/
def endRange? (d : Domain) : Option (Int × Int) := do
  some (← d.bounds.endMin, ← d.bounds.endMax)

end Domain

/-- The domains of some variables of a model. -/
abbrev ModelDomains := SortedMap NodeId Domain

end Scheduling
