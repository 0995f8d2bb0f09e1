import Reckoner.Fault
import Reckoner.Token
import Reckoner.Text.Slice

/-!
# Building tokens from arguments

A token is built from any kind and value that describe one. An invalid kind is reported before any
fault of the value.
-/

set_option autoImplicit false

namespace Reckoner

/-- A number needs an integer that is not negative, every other kind takes no value at all. -/
def Lexeme.build (kind : Kind) (value : Datum) (allowance : Allowance := .unlimited) :
    Except Fault Lexeme :=
  match kind, value with
  | .number, .int (.ofNat n) => .ok (.number n)
  | .plus, .nothing => .ok .plus
  | .minus, .nothing => .ok .minus
  | .star, .nothing => .ok .star
  | .slash, .nothing => .ok .slash
  | .eof, .nothing => .ok .eof
  | kind, value => .error (.ofValue kind value allowance)

namespace Token

def build (kind : Datum) (value : Datum := .nothing) (location : Int := 0) (text : String := "")
    (allowance : Allowance := .unlimited) : Except Fault Token :=
  match kind.kind? with
  | none => .error (.ofKind kind none allowance)
  | some k => (Lexeme.build k value allowance).map fun lexeme => ⟨lexeme, location, text⟩

/-- Builds a token at the start of a span of a line, with the text of the span. -/
def ofSpan (kind : Datum) (start stop : Int) (line : String) (value : Datum := .nothing)
    (allowance : Allowance := .unlimited) : Except Fault Token :=
  build kind value start (String.ofList (Text.slice start stop line.toList)) allowance

theorem build_number (n : Nat) (location : Int) (text : String) (allowance : Allowance) :
    build (.kind .number) (.int n) location text allowance = .ok ⟨.number n, location, text⟩ := rfl

theorem build_number_of_neg {v : Int} (hv : v < 0) (location : Int) (text : String)
    (allowance : Allowance) : build (.kind .number) (.int v) location text allowance =
      .error (.ofValue .number (.int v) allowance) := by
  obtain ⟨n, rfl⟩ := Int.eq_negSucc_of_lt_zero hv
  rfl

end Token

end Reckoner
