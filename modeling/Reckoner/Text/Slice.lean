/-!
# Slices

The stretch of a text between two bounds. A negative bound counts from the end, a bound outside
the text is moved to the nearer end, and bounds that cross leave nothing.
-/

set_option autoImplicit false

namespace Reckoner.Text

/-- The number of characters that a bound leaves in front of it. -/
def offset (length : Nat) (bound : Int) : Nat :=
  min length (if bound < 0 then bound + length else bound).toNat

def slice (start stop : Int) (s : List Char) : List Char :=
  (s.take (offset s.length stop)).drop (offset s.length start)

end Reckoner.Text
