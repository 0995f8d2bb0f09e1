import Reckoner.Console
import Reckoner.Proofs.CommandLine
import Reckoner.Proofs.ControlSequences

/-!
# The toolkit

The command line is read, and the terminal written to, by libraries. What the program takes from them is
gathered here with the laws that it relies on. The console has a toolkit of its own that does what theirs
do for this program, and keeps these laws.
-/

set_option autoImplicit false

namespace Reckoner

/-- The text of the help and those of refused command lines are left to the libraries. -/
structure Toolkit where
  /-- What a command line asks for, unless it is refused. -/
  request? : List String → Option Options.Request
  /-- The prompt, from the options and the environment. -/
  prompt : Options → Option String → String
  /-- What is written to ask for a line. -/
  ask : String → Write
  /-- What is written once there is no line any more. -/
  farewell : Write
  red : String → String
  /-- What is left of a text that is written to no terminal. -/
  plain : String → String

namespace Toolkit

structure Lawful (kit : Toolkit) : Prop where
  request?_nil : kit.request? [] = some (.run {})
  request?_verbose : ∀ arguments,
    kit.request? ("-v" :: arguments) = (kit.request? arguments).map (Options.Request.raise 1)
  request?_expression : ∀ line, kit.request? ["-e", line] = some (.run { expression? := some line })
  request?_prompt : ∀ prompt, kit.request? ["--prompt", prompt] = some (.run { prompt? := some prompt })
  request?_tokens : kit.request? ["--tokens"] = some (.run { showTokens := true })
  request?_help : ∀ arguments request, kit.request? arguments = some request →
    kit.request? ("--help" :: arguments) = some .help
  prompt_given : ∀ options environment prompt,
    options.prompt? = some prompt → kit.prompt options environment = prompt
  prompt_environment : ∀ options prompt,
    options.prompt? = none → prompt ≠ "" → kit.prompt options (some prompt) = prompt
  prompt_customary : ∀ options environment,
    options.prompt? = none → environment = none ∨ environment = some "" →
      kit.prompt options environment = "expr>"
  ask_eq : ∀ prompt, kit.ask prompt = .out (prompt ++ " ")
  farewell_eq : kit.farewell = .out "\n"
  plain_of_escape_notMem : ∀ text, '\x1b' ∉ text.toList → kit.plain text = text
  plain_red : ∀ text, kit.plain (kit.red text) = kit.plain text

variable {kit : Toolkit}

theorem Lawful.request?_replicate (h : kit.Lawful) (n : Nat) (arguments : List String) :
    kit.request? (List.replicate n "-v" ++ arguments) =
      (kit.request? arguments).map (Options.Request.raise n) := by
  induction n with
  | zero =>
    rw [List.replicate_zero, List.nil_append]
    rcases kit.request? arguments with _ | _ | options <;> rfl
  | succ n ih =>
    rw [List.replicate_succ, List.cons_append, h.request?_verbose, ih]
    rcases kit.request? arguments with _ | _ | options <;> rfl

def console : Toolkit where
  request? := Options.ofCommandLine?
  prompt := Options.prompt
  ask := Console.ask
  farewell := Console.farewell
  red := Console.red
  plain := Write.plain

theorem strips_red {text : String} {stripped : List Char} (h : Text.Strips text.toList stripped) :
    Text.Strips (Console.red text).toList stripped := by
  have hBegins : Text.IsSequence ['\x1b', '[', '3', '1', 'm'] := @Text.isSequence_style ['3', '1'] (by simp)
  have hEnds : Text.IsSequence ['\x1b', '[', '0', 'm'] := @Text.isSequence_style ['0'] (by simp)
  have hRed : (Console.red text).toList =
      ['\x1b', '[', '3', '1', 'm'] ++ (text.toList ++ ['\x1b', '[', '0', 'm']) := by
    simp [Console.red, String.join_cons, String.toList_append]
  rw [hRed]
  exact .sequence hBegins (h.append_sequence hEnds)

theorem lawful_console : console.Lawful where
  request?_nil := rfl
  request?_verbose := Options.ofCommandLine?_cons
  request?_expression line := by
    have hReading : Options.readArgument {} "-e".toList = .awaiting {} .expression := by decide
    change Options.read {} false false ["-e", line] = _
    rw [Options.read, hReading]
    rfl
  request?_prompt prompt := by
    have hReading : Options.readArgument {} "--prompt".toList = .awaiting {} .prompt := by decide
    change Options.read {} false false ["--prompt", prompt] = _
    rw [Options.read, hReading]
    rfl
  request?_tokens := by decide
  request?_help _ _ := Options.ofCommandLine?_help
  prompt_given options environment prompt h := by
    change options.prompt environment = prompt
    rw [Options.prompt, h]
  prompt_environment options prompt h hPrompt := by
    change options.prompt (some prompt) = prompt
    simp [Options.prompt, h, Option.filter, hPrompt]
  prompt_customary options environment h hEnvironment := by
    change options.prompt environment = "expr>"
    rcases hEnvironment with rfl | rfl <;> simp [Options.prompt, h, Option.filter]
  ask_eq _ := rfl
  farewell_eq := rfl
  plain_of_escape_notMem text h := by
    change String.ofList (Text.withoutSequences text.toList) = text
    rw [← (Text.strips_of_escape_notMem h).eq_withoutSequences, String.ofList_toList]
  plain_red text := by
    have hStrips := strips_red (Text.strips_withoutSequences text.toList)
    exact congrArg String.ofList hStrips.eq_withoutSequences.symm

end Toolkit

end Reckoner
