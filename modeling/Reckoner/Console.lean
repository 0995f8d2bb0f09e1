import Reckoner.Diagnostic
import Reckoner.Log
import Reckoner.Options
import Reckoner.Reckoning
import Reckoner.Text.ControlSequence
import Reckoner.Text.Whitespace

/-!
# The console

A line is answered by its value or by its tokens. The program answers one line given as an option,
or prompts for lines until the input ends or one of them says so. What it does is a list of writes
in order; log entries stand between the texts and are shown from a level upwards.
-/

set_option autoImplicit false

namespace Reckoner

inductive Write where
  | out (text : String)
  | err (text : String)
  | log (entry : Log.Entry)

namespace Write

/-- Neither stream is a terminal, so texts lose their control sequences. Log entries keep theirs. -/
def plain (text : String) : String := String.ofList (Text.withoutSequences text.toList)

def isShown (level : Int) : Write → Bool
  | log entry => level ≤ entry.severity.level
  | _ => true

def onOut : Write → String
  | out text => plain text
  | _ => ""

def onErr : Write → String
  | out _ => ""
  | err text => plain text
  | log entry => entry.written

end Write

/-- The short form of a token, which is written only if the allowance goes that far. -/
def Token.format (t : Token) (allowance : Allowance := .unlimited) : Except Fault String :=
  match t.value? with
  | none => .ok t.kind.name
  | some n => (allowance.write n).map fun digits => String.join [t.kind.name, "(", digits, ")"]

@[simp] theorem Token.format_unlimited (t : Token) : t.format = .ok t.label := by
  rw [format, label]
  cases t.value? <;> rfl

namespace Console

/-- The answer to a line, and the log of finding it. The program answers with no limit on digits; where
one is set, a value or a token that goes beyond it cannot be written. -/
def answer (showTokens : Bool) (line : String) (allowance : Allowance := .unlimited) :
    Except Fault String × List Log.Entry :=
  if showTokens then
    let outcome := Feed.tokens line
    let texts := outcome.result.bind (List.mapM (Token.format · allowance))
    (texts.map (" ".intercalate ·), Log.ofFeed outcome.left)
  else
    match Reckoning.ofLine line with
    | ⟨.ok q, feed⟩ => (Value.format q allowance, Log.ofFeed feed ++ [.value line q])
    | ⟨.error fault, feed⟩ => (.error fault, Log.ofFeed feed)

theorem answer_true (line : String) : (answer true line).1 =
    (Feed.tokens line).result.map fun ts => " ".intercalate (ts.map Token.label) := by
  rw [answer, if_pos rfl]
  dsimp only
  cases (Feed.tokens line).result with
  | error fault => rfl
  | ok ts =>
    have hTexts : ts.mapM (Token.format ·) = .ok (ts.map Token.label) := by
      simp only [Token.format_unlimited]
      exact List.mapM_pure
    exact congrArg (Except.map (" ".intercalate ·)) hTexts

theorem answer_false (line : String) : answer false line =
    match Reckoning.ofLine line with
    | ⟨.ok q, feed⟩ => (.ok (Value.written q), Log.ofFeed feed ++ [.value line q])
    | ⟨.error fault, feed⟩ => (.error fault, Log.ofFeed feed) := by
  rw [answer, if_neg Bool.false_ne_true]
  simp only [Value.format_unlimited]

/-- Diagnostics are red where colours show. -/
def red (text : String) : String := String.join ["\x1b[31m", text, "\x1b[0m"]

def report (line : String) (fault : Fault) : Write := .err (red (fault.describe line))

/-- Answers one line, and tells whether that succeeded. -/
def once (showTokens : Bool) (line : String) : List Write × Bool :=
  match answer showTokens line with
  | (.ok text, entries) => (entries.map .log ++ [.out (text ++ "\n")], true)
  | (.error fault, entries) => (entries.map .log ++ [report line fault], false)

def quitWords : List String := ["quit", "exit"]

/-- Does what one line of input asks for, unless it ends the conversation. White space around a
word or on an empty line is overlooked here; the line is answered with it. -/
def step (showTokens : Bool) (line : String) : Option (List Write) :=
  let word := String.ofList (Text.trim line.toList)
  if word ∈ quitWords then none
  else if word = "" then some []
  else
    match answer showTokens line with
    | (.ok text, entries) => some (entries.map .log ++ [.out (text ++ "\n")])
    | (.error fault, entries) =>
      some (entries.map .log ++ [.log (.rejection line fault), report line fault])

/-- The first line of an input and what follows its line break. A last line needs no break. -/
def nextLine? (input : List Char) : Option (List Char × List Char) :=
  if input = [] then none
  else some (input.takeWhile (· ≠ '\n'), (input.dropWhile (· ≠ '\n')).tail)

theorem length_lt_of_nextLine? {input line rest : List Char}
    (h : nextLine? input = some (line, rest)) : rest.length < input.length := by
  unfold nextLine? at h
  split at h
  · cases h
  · next hInput =>
    cases h
    have hPositive := List.length_pos_iff.mpr hInput
    have hDrop := Text.length_dropWhile_le (· ≠ '\n') input
    rw [List.length_tail]
    omega

/-- A prompt is followed by a blank and no line break. -/
def ask (prompt : String) : Write := .out (prompt ++ " ")

/-- At the end of the input the line of the last prompt is completed. -/
def farewell : Write := .out "\n"

/-- Prompts for lines and does what they ask for; answers the writes and the input left unread. -/
def converse (prompt : String) (showTokens : Bool) (input : List Char) : List Write × List Char :=
  match h : nextLine? input with
  | none => ([ask prompt, farewell], [])
  | some (line, rest) =>
    match step showTokens (String.ofList line) with
    | none => ([ask prompt], rest)
    | some writes =>
      have := length_lt_of_nextLine? h
      let later := converse prompt showTokens rest
      (ask prompt :: writes ++ later.1, later.2)
termination_by input.length

structure Run where
  exitCode : Nat
  writes : List Write
  unread : String

namespace Run

def stdout (run : Run) : String := String.join (run.writes.map Write.onOut)

def stderr (run : Run) : String := String.join (run.writes.map Write.onErr)

end Run

/-- A whole run of the program, with the writes that its verbosity shows. It has lifted the limit on digits,
so it answers lines without one. -/
def run (options : Options) (environment : Option String) (input : String) : Run :=
  let shown := List.filter (Write.isShown (Log.threshold options.verbosity))
  match options.expression? with
  | some line =>
    let (writes, succeeded) := once options.showTokens line
    ⟨if succeeded then 0 else 1, shown writes, input⟩
  | none =>
    let (writes, unread) :=
      converse (options.prompt environment) options.showTokens input.toList
    ⟨0, shown writes, String.ofList unread⟩

/-- The run of a command line, unless it is refused. The text of the help is not the console's. -/
def start? (arguments : List String) (environment : Option String) (input : String)
    (help : String := "") : Option Run :=
  match Options.ofCommandLine? arguments with
  | none => none
  | some .help => some ⟨0, [.out help], input⟩
  | some (.run options) => some (run options environment input)

end Console

end Reckoner
