/-!
# Classes of characters

What a character of a line can begin. Digits are the ASCII digits and the only blank is U+0020.
-/

set_option autoImplicit false

namespace Reckoner

inductive CharClass where
  | plus | minus | star | slash | digit | blank | ending | unrecognized
  deriving DecidableEq, Repr

namespace CharClass

def code : CharClass → Nat
  | plus => 1
  | minus => 2
  | star => 3
  | slash => 4
  | digit => 5
  | blank => 6
  | ending => 7
  | unrecognized => 8

def name : CharClass → String
  | plus => "Plus"
  | minus => "Minus"
  | star => "Star"
  | slash => "Slash"
  | digit => "DigitStart"
  | blank => "Space"
  | ending => "End"
  | unrecognized => "Unrecognized"

def ofChar (c : Char) : CharClass :=
  if c = '+' then plus
  else if c = '-' then minus
  else if c = '*' then star
  else if c = '/' then slash
  else if c = ' ' then blank
  else if c.isDigit then digit
  else unrecognized

/-- The class of a text of any length. A longer text has no class of its own unless it lies between
0 and 9 in dictionary order, as the texts do that begin with a digit below 9. -/
def ofText : List Char → CharClass
  | [c] => ofChar c
  | s => if s.lex ['0'] || ['9'].lex s then unrecognized else digit

/-- Beyond either end of a line there is no character. -/
def ofChar? : Option Char → CharClass
  | some c => ofChar c
  | none => ending

end CharClass

end Reckoner
