import Reckoner.Kind
import Reckoner.Text.Quoted

/-!
# Tokens

A token is a lexeme with the place and the text it was read from. Only a number carries a value,
and the value is a natural number: signs belong to the grammar.
-/

set_option autoImplicit false

namespace Reckoner

inductive Lexeme where
  | number (n : Nat)
  | plus
  | minus
  | star
  | slash
  | eof
  deriving DecidableEq, Repr

namespace Lexeme

def kind : Lexeme → Kind
  | number _ => .number
  | plus => .plus
  | minus => .minus
  | star => .star
  | slash => .slash
  | eof => .eof

def value? : Lexeme → Option Nat
  | number n => some n
  | _ => none

theorem isSome_value?_iff (l : Lexeme) : l.value?.isSome ↔ l.kind = .number := by
  cases l <;> simp [value?, kind]

theorem kind_eq_eof_iff {l : Lexeme} : l.kind = .eof ↔ l = .eof := by
  cases l <;> simp [kind]

theorem eq_of_kind_of_value? {l m : Lexeme} (hKind : l.kind = m.kind)
    (hValue : l.value? = m.value?) : l = m := by
  cases l <;> cases m <;> simp_all [kind, value?]

end Lexeme

structure Token where
  lexeme : Lexeme
  location : Int := 0
  text : String := ""
  deriving DecidableEq, Repr

namespace Token

def kind (t : Token) : Kind := t.lexeme.kind

def value? (t : Token) : Option Nat := t.lexeme.value?

/-- The short form, if it can be written: the name of the kind, with the value of a number in parentheses. -/
def label (t : Token) : String :=
  match t.value? with
  | none => t.kind.name
  | some n => String.join [t.kind.name, "(", toString n, ")"]

/-- The full form, with every field. -/
def written (t : Token) : String :=
  let value := match t.value? with
    | none => "None"
    | some n => toString n
  String.join ["Token(kind=", t.kind.written, ", value=", value, ", location=",
    toString t.location, ", expression=", Text.quote t.text, ")"]

end Token

end Reckoner
