import Reckoner.Console

/-!
# The program

Reads the arguments, the environment and standard input, and performs the writes of the console as
they come.
-/

set_option autoImplicit false

namespace Reckoner.Main

def usage : String :=
  "usage: [-e EXPRESSION | --expression EXPRESSION] [--prompt PROMPT] [--tokens] [-v | --verbose] [--help]\n"

def perform (level : Int) (write : Write) : IO Unit := do
  if write.isShown level then
    let out ← IO.getStdout
    out.putStr write.onOut
    out.flush
    (← IO.getStderr).putStr write.onErr

partial def converse (level : Int) (prompt : String) (showTokens : Bool) : IO Unit := do
  perform level (Console.ask prompt)
  let input ← (← IO.getStdin).getLine
  match Console.nextLine? input.toList with
  | none => perform level Console.farewell
  | some (line, _) =>
    match Console.step showTokens (String.ofList line) with
    | none => return
    | some writes =>
      writes.forM (perform level)
      converse level prompt showTokens

def start (arguments : List String) : IO UInt32 := do
  match Options.ofCommandLine? arguments with
  | none =>
    (← IO.getStderr).putStr usage
    return 2
  | some .help =>
    (← IO.getStdout).putStr usage
    return 0
  | some (.run options) =>
    let level := Log.threshold options.verbosity
    match options.expression? with
    | some line =>
      let (writes, succeeded) := Console.once options.showTokens line
      writes.forM (perform level)
      return if succeeded then 0 else 1
    | none =>
      converse level (options.prompt (← IO.getEnv "KAZOE_PROMPT")) options.showTokens
      return 0

end Reckoner.Main

def main (arguments : List String) : IO UInt32 := Reckoner.Main.start arguments
