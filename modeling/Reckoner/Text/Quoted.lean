import Reckoner.Text.Unprintable

/-!
# Quoted text

The quoted form of a text on one line of printable characters. Messages and log records quote
whatever the user typed, so neither a line break nor an escape character leaves them bare.
-/

set_option autoImplicit false

namespace Reckoner.Text

/-- Lower-case hexadecimal digits, filled with zeros up to a width. -/
def hexDigits (width n : Nat) : List Char :=
  let digits := Nat.toDigits 16 n
  List.replicate (width - digits.length) '0' ++ digits

/-- Texts stand between apostrophes, those with an apostrophe and no double quote between double
quotes. -/
def quoteMark (s : List Char) : Char :=
  if '\x27' ∈ s ∧ '\x22' ∉ s then '\x22' else '\x27'

def escapeCode (n : Nat) : List Char :=
  if n < 0x100 then '\\' :: 'x' :: hexDigits 2 n
  else if n < 0x10000 then '\\' :: 'u' :: hexDigits 4 n
  else '\\' :: 'U' :: hexDigits 8 n

/-- The form of one character between two marks. -/
def escape (mark c : Char) : List Char :=
  if c = mark ∨ c = '\\' then ['\\', c]
  else if c = '\t' then ['\\', 't']
  else if c = '\n' then ['\\', 'n']
  else if c = '\r' then ['\\', 'r']
  else if isUnprintable c then escapeCode c.toNat
  else [c]

def quoteChars (s : List Char) : List Char :=
  quoteMark s :: s.flatMap (escape (quoteMark s)) ++ [quoteMark s]

def quote (s : String) : String := String.ofList (quoteChars s.toList)

@[simp] theorem toList_quote (s : String) : (quote s).toList = quoteChars s.toList :=
  String.toList_ofList

end Reckoner.Text
