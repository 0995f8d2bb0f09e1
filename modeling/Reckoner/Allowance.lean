/-!
# Allowances

What the runtime lets the writing of a text take. It may set a limit to the digits of an integer, and
another to the calls that are nested while the form of a list within lists is written. A text that would
take more is not written, and what asked for it meets the cause instead. The program lifts the limit on
digits before it reads a line, so operations go by no limit unless they are given one. The calls that are
nested for a line are few, and are not counted.
-/

set_option autoImplicit false

namespace Reckoner

/-- Why a text cannot be written. -/
inductive Unwritable where
  | digits (limit : Nat)
  | depth
  deriving DecidableEq, Repr

def Unwritable.message : Unwritable → String
  | digits limit => String.join ["Exceeds the limit (", toString limit, " digits) for integer string ",
      "conversion; use sys.set_int_max_str_digits() to increase the limit"]
  | depth => "maximum recursion depth exceeded while getting the repr of an object"

structure Allowance where
  digits? : Option Nat := none
  calls? : Option Nat := none
  deriving DecidableEq, Repr

namespace Allowance

def unlimited : Allowance := {}

/-- What a fresh runtime allows, where no call has taken up any of it. -/
def customary : Allowance := ⟨some 4300, some 1000⟩

/-- What the program leaves of an allowance before it reads a line. -/
def lift (allowance : Allowance) : Allowance := { allowance with digits? := none }

/-- The digits of an integer in base ten; the sign is none. -/
def digitCount (n : Int) : Nat := (Nat.toDigits 10 n.natAbs).length

/-- What stands in the way of writing an integer. -/
def digitHindrance? (allowance : Allowance) (n : Int) : Option Unwritable :=
  match allowance.digits? with
  | none => none
  | some limit => if limit < digitCount n then some (.digits limit) else none

/-- What is allowed so many calls further down, if it goes that far. -/
def below? (allowance : Allowance) (calls : Nat) : Option Allowance :=
  match allowance.calls? with
  | none => some allowance
  | some limit =>
    if calls ≤ limit then some { allowance with calls? := some (limit - calls) } else none

end Allowance

end Reckoner
