import Reckoner.Datum

/-!
# Faults

Every cause for which an operation is refused, the message that names it, and the place in the
line that it points at, where it has one. A message may quote an argument or a number; if that cannot
be written, there is no such fault, and the operation meets the cause of that.
-/

set_option autoImplicit false

namespace Reckoner

inductive Fault where
  | general (note : String) (place : Option Int)
  | invalidKind (argument : Datum) (note : String)
  | unrecognizedSymbol (symbol : String) (position : Int)
  | unexpectedToken (actual expected : Kind) (position : Int)
  | divisionByZero (position : Int)
  | noCharacter
  | zeroDenominator (numerator : Int)
  | unwritable (cause : Unwritable)

namespace Fault

def message : Fault → String
  | general note _ => note
  | invalidKind _ note => note
  | unrecognizedSymbol symbol _ => String.join ["unrecognized symbol ", Text.quote symbol]
  | unexpectedToken actual expected _ =>
    String.join ["expected ", expected.name, ", got ", actual.name]
  | divisionByZero _ => "division by zero"
  | noCharacter => "ord() expected string of length 1, but NoneType found"
  | zeroDenominator numerator => String.join ["Fraction(", toString numerator, ", 0)"]
  | unwritable cause => cause.message

def location? : Fault → Option Int
  | general _ place => place
  | unrecognizedSymbol _ position => some position
  | unexpectedToken _ _ position => some position
  | divisionByZero position => some position
  | _ => none

/-- A fault whose message is written, or else what stands in the way of that. -/
def orUnwritable (fault : Fault) : Option Unwritable → Fault
  | none => fault
  | some cause => unwritable cause

/-- The refusal of an argument. A note that is empty counts as none, and then the argument is quoted. -/
def ofKind (argument : Datum) (note? : Option String := none)
    (allowance : Allowance := .unlimited) : Fault :=
  match note?.filter (· ≠ "") with
  | some note => invalidKind argument note
  | none =>
    (invalidKind argument (String.join ["unknown token type ", argument.written])).orUnwritable
      (argument.hindrance? allowance)

theorem ofKind_of_note {note : String} (h : note ≠ "") (argument : Datum) (allowance : Allowance) :
    ofKind argument (some note) allowance = invalidKind argument note := by
  simp [ofKind, Option.filter, h]

/-- Only a number takes a value, and it needs one. -/
def valueNote : Kind → Datum → String
  | .number, .nothing => "number token without a value"
  | .number, value => String.join ["invalid number value ", value.written]
  | kind, _ => String.join [kind.name, " token cannot carry a value"]

/-- The refusal of a value, which is quoted if the kind is that of numbers. -/
def ofValue (kind : Kind) (value : Datum) (allowance : Allowance := .unlimited) : Fault :=
  (ofKind (.kind kind) (some (valueNote kind value)) allowance).orUnwritable
    (if kind = .number then value.hindrance? allowance else none)

end Fault

/-- The digits of an integer and its sign, if they can be written. -/
def Allowance.write (allowance : Allowance) (n : Int) : Except Fault String :=
  match allowance.digitHindrance? n with
  | none => .ok (toString n)
  | some cause => .error (.unwritable cause)

end Reckoner
