import Reckoner.Fault

/-!
# Diagnostics

A fault is shown below its line, with a caret under the place that it points at. The caret may
stand one past the last character.
-/

set_option autoImplicit false

namespace Reckoner

/-- A place in front of the line is shown like the first one. -/
def caretMessage (line : String) (place : Int) (message : String) : String :=
  String.join [line, "\n", String.ofList (List.replicate place.toNat ' '), "^ ", message, "\n"]

def Fault.describe (fault : Fault) (line : String) : String :=
  match fault.location? with
  | none => String.join [fault.message, "\n"]
  | some place => caretMessage line place fault.message

end Reckoner
