/-!
# Options of the command line

Long options stand alone, or carry a value after an equals sign or in the next argument. Short ones
share an argument; the one that takes a value takes the rest of it, or else the next argument, as
it is. Of a repeated value the last wins, and the verbosity counts its repetitions. Nothing but
options is accepted, except that help is given to whoever asks for it with options that can be read.
-/

set_option autoImplicit false

namespace Reckoner

structure Options where
  expression? : Option String := none
  prompt? : Option String := none
  showTokens : Bool := false
  verbosity : Nat := 0
  deriving DecidableEq, Repr

namespace Options

/-- The options that take a value. -/
inductive Setting where
  | expression | prompt
  deriving DecidableEq, Repr

def set (options : Options) (setting : Setting) (value : String) : Options :=
  match setting with
  | .expression => { options with expression? := some value }
  | .prompt => { options with prompt? := some value }

/-- How far one argument gets. A stray argument is no option. -/
inductive Reading where
  | complete (options : Options)
  | awaiting (options : Options) (setting : Setting)
  | help
  | stray
  | ended
  | refused
  deriving DecidableEq, Repr

def readShort (options : Options) : List Char → Reading
  | [] => .complete options
  | 'v' :: rest => readShort { options with verbosity := options.verbosity + 1 } rest
  | ['e'] => .awaiting options .expression
  | 'e' :: value => .complete (options.set .expression (String.ofList value))
  | _ => .refused

def readSetting (options : Options) (setting : Setting) : Option String → Reading
  | some value => .complete (options.set setting value)
  | none => .awaiting options setting

def readLong (options : Options) (name : String) (value? : Option String) : Reading :=
  if name = "expression" then options.readSetting .expression value?
  else if name = "prompt" then options.readSetting .prompt value?
  else if name = "tokens" ∧ value? = none then .complete { options with showTokens := true }
  else if name = "verbose" ∧ value? = none then
    .complete { options with verbosity := options.verbosity + 1 }
  else if name = "help" ∧ value? = none then .help
  else .refused

def attachedValue? : List Char → Option String
  | '=' :: value => some (String.ofList value)
  | _ => none

def readArgument (options : Options) : List Char → Reading
  | ['-', '-'] => .ended
  | '-' :: '-' :: body =>
    options.readLong (String.ofList (body.takeWhile (· ≠ '=')))
      (attachedValue? (body.dropWhile (· ≠ '=')))
  | '-' :: c :: rest => options.readShort (c :: rest)
  | _ => .stray

/-- What a command line asks for. -/
inductive Request where
  | help
  | run (options : Options)
  deriving DecidableEq, Repr

/-- Help goes before all else, once every option is read; stray arguments are refused after that. -/
def request? (options : Options) (help stray : Bool) : Option Request :=
  if help then some .help else if stray then none else some (.run options)

/-- Reads arguments from the left, or refuses them all. -/
def read (options : Options) (help stray : Bool) : List String → Option Request
  | [] => options.request? help stray
  | argument :: rest =>
    match options.readArgument argument.toList with
    | .complete options => options.read help stray rest
    | .awaiting options setting =>
      match rest with
      | [] => none
      | value :: rest => (options.set setting value).read help stray rest
    | .help => options.read true stray rest
    | .stray => options.read help true rest
    | .ended => options.request? help (stray || !rest.isEmpty)
    | .refused => none

def ofCommandLine? (arguments : List String) : Option Request := read {} false false arguments

/-- The options of a command line that asks for more than help. -/
def ofArguments? (arguments : List String) : Option Options :=
  match ofCommandLine? arguments with
  | some (.run options) => some options
  | _ => none

/-- The prompt of the command line, else that of the environment unless it is empty, else the
customary one. -/
def prompt (options : Options) (environment : Option String) : String :=
  match options.prompt? with
  | some prompt => prompt
  | none => (environment.filter (· ≠ "")).getD "expr>"

end Options

end Reckoner
