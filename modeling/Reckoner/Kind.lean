/-!
# Kinds of tokens

The six kinds, their codes and their names.
-/

set_option autoImplicit false

namespace Reckoner

inductive Kind where
  | number | plus | minus | star | slash | eof
  deriving DecidableEq, Repr

namespace Kind

def all : List Kind := [number, plus, minus, star, slash, eof]

def code : Kind → Nat
  | number => 1
  | plus => 2
  | minus => 3
  | star => 4
  | slash => 5
  | eof => 6

def name : Kind → String
  | number => "Number"
  | plus => "Plus"
  | minus => "Minus"
  | star => "Star"
  | slash => "Slash"
  | eof => "EOF"

/-- How a kind is written in the description of a token. -/
def written (k : Kind) : String :=
  String.join ["<TokenType.", k.name, ": ", toString k.code, ">"]

def ofCode? (n : Int) : Option Kind := all.find? fun k => (k.code : Int) = n

@[simp] theorem ofCode?_code (k : Kind) : ofCode? k.code = some k := by cases k <;> rfl

theorem ofCode?_eq_some_iff {n : Int} {k : Kind} : ofCode? n = some k ↔ n = k.code := by
  constructor
  · intro h
    have hCode := List.find?_some h
    exact (of_decide_eq_true hCode).symm
  · rintro rfl
    exact ofCode?_code k

end Kind

end Reckoner
