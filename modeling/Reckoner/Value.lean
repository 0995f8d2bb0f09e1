import Reckoner.Fault

/-!
# Values

Values are exact fractions in lowest terms. A whole number is written without a denominator.
-/

set_option autoImplicit false

namespace Reckoner.Value

/-- The text of a value, which is written only if the allowance goes that far. -/
def written (q : Rat) : String :=
  if q.den = 1 then toString q.num else String.join [toString q.num, "/", toString q.den]

def format (q : Rat) (allowance : Allowance := .unlimited) : Except Fault String :=
  if q.den = 1 then allowance.write q.num
  else (allowance.write q.num).bind fun numerator =>
    (allowance.write q.den).map fun denominator => String.join [numerator, "/", denominator]

@[simp] theorem format_unlimited (q : Rat) : format q = .ok (written q) := by
  rw [format, written]
  split <;> rfl

/-- The fault of a denominator that is zero quotes the numerator. -/
def ofQuotient (numerator denominator : Int) (allowance : Allowance := .unlimited) :
    Except Fault Rat :=
  if denominator = 0 then
    .error ((Fault.zeroDenominator numerator).orUnwritable (allowance.digitHindrance? numerator))
  else .ok (Rat.divInt numerator denominator)

end Reckoner.Value
