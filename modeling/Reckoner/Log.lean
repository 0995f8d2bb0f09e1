import Reckoner.Feed
import Reckoner.Value

/-!
# The log

What the log tells of a line: every token pulled, the value reached, and, in the console, why the
line was rejected. Each repetition of the verbosity option lowers the level shown by one step, down
to the level of the tokens. Entries are written by the program only, which has lifted the limit on digits
by then, so nothing stands in the way of that.
-/

set_option autoImplicit false

namespace Reckoner

inductive Severity where
  | debug | info | warning | error | critical
  deriving DecidableEq, Repr

namespace Severity

def all : List Severity := [debug, info, warning, error, critical]

def level : Severity → Int
  | debug => 10
  | info => 20
  | warning => 30
  | error => 40
  | critical => 50

def name : Severity → String
  | debug => "DEBUG"
  | info => "INFO"
  | warning => "WARNING"
  | error => "ERROR"
  | critical => "CRITICAL"

end Severity

namespace Log

/-- The least level that is shown. -/
def threshold (verbosity : Int) : Int := Severity.warning.level - 10 * min verbosity 2

theorem threshold_of_two_le {verbosity : Nat} (h : 2 ≤ verbosity) :
    threshold verbosity = Severity.debug.level := by
  simp only [threshold, Severity.level]
  omega

/-- A level between the named ones goes by its number. -/
def levelName (level : Int) : String :=
  match Severity.all.find? fun s => s.level = level with
  | some s => s.name
  | none => String.join ["Level ", toString level]

inductive Entry where
  | token (t : Token)
  | value (line : String) (q : Rat)
  | rejection (line : String) (fault : Fault)

namespace Entry

def severity : Entry → Severity
  | token _ => .debug
  | value _ _ => .debug
  | rejection _ _ => .info

def source : Entry → String
  | token _ => "kazoe.tokenize"
  | value _ _ => "kazoe.parse"
  | rejection _ _ => "kazoe.main"

def message : Entry → String
  | token t => String.join ["token ", t.kind.name, " at ", toString t.location, ": ", t.written]
  | value line q => String.join [Text.quote line, " = ", Value.written q]
  | rejection line fault => String.join ["rejected ", Text.quote line, ": ", fault.message]

def written (entry : Entry) : String :=
  String.join [entry.severity.name, " ", entry.source, ": ", entry.message, "\n"]

end Entry

/-- Items that are no tokens leave no trace. -/
def ofFeed (feed : Feed) : List Entry :=
  feed.pulled.reverse.filterMap fun item => item.toOption.map Entry.token

end Log

end Reckoner
