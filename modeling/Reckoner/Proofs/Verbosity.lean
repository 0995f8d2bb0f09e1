import Reckoner.Console
import Reckoner.Proofs.Toolkit

/-!
# The verbosity of a run

How often the verbosity option is given decides what the log shows, and bears on nothing else. In a run
it only takes entries out of the log: the fewer repetitions, the more entries, and all else stays in
place.
-/

set_option autoImplicit false

namespace Reckoner

/-! ## Writes -/

/-- The least severity that is shown if the verbosity option is given so many times. -/
def Log.leastShown : Nat → Severity
  | 0 => .warning
  | 1 => .info
  | _ => .debug

theorem Log.threshold_eq_level (v : Nat) : threshold v = (leastShown v).level := by
  rcases v with _ | _ | v
  · rfl
  · rfl
  · exact threshold_of_two_le (Nat.le_add_left 2 v)

theorem Log.threshold_le {v w : Nat} (h : v ≤ w) : threshold w ≤ threshold v := by
  simp only [threshold]
  omega

namespace Write

/-- Log entries of lower severity than some least one. -/
def isBelow (least : Severity) : Write → Bool
  | log entry => entry.severity.level < least.level
  | _ => false

/-- What goes to the stream of diagnostics, log entries among them. -/
def isOnErr : Write → Bool
  | out _ => false
  | _ => true

theorem isShown_threshold (v : Nat) (write : Write) :
    write.isShown (Log.threshold v) = !write.isBelow (Log.leastShown v) := by
  cases write with
  | out text | err text => rfl
  | log entry => simp only [isShown, isBelow, Log.threshold_eq_level, ← Int.not_lt, decide_not]

theorem isShown_mono {level higher : Int} (h : level ≤ higher) {write : Write}
    (hShown : write.isShown higher = true) : write.isShown level = true := by
  cases write with
  | out text | err text => rfl
  | log entry =>
    have hHigher : higher ≤ entry.severity.level := of_decide_eq_true hShown
    exact decide_eq_true (Int.le_trans h hHigher)

theorem onOut_of_not_shown {level : Int} {write : Write} (h : write.isShown level = false) :
    write.onOut = "" := by
  cases write with
  | out text | err text => cases h
  | log entry => rfl

end Write

namespace Console

namespace Run

/-- The writes to the stream of diagnostics, in order. -/
def errWrites (run : Run) : List Write := run.writes.filter Write.isOnErr

end Run

theorem join_onOut_filter (level : Int) (writes : List Write) :
    String.join ((writes.filter (Write.isShown level)).map Write.onOut) =
      String.join (writes.map Write.onOut) := by
  induction writes with
  | nil => rfl
  | cons write writes ih =>
    rw [List.map_cons, String.join_cons, List.filter_cons]
    split
    · rw [List.map_cons, String.join_cons, ih]
    · next hHidden =>
      rw [ih, Write.onOut_of_not_shown (Bool.eq_false_iff.mpr hHidden), String.empty_append]

/-- A stream of diagnostics is what its writes come to. -/
theorem stderr_eq_join (run : Run) :
    run.stderr = String.join (run.errWrites.map Write.onErr) := by
  rw [Run.stderr, Run.errWrites]
  induction run.writes with
  | nil => rfl
  | cons write writes ih =>
    rw [List.map_cons, String.join_cons, List.filter_cons, ih]
    cases write with
    | out text => exact String.empty_append
    | err text | log entry => exact String.join_cons.symm

/-! ## Runs -/

/-- All that a run does, whether shown or not. -/
def full (options : Options) (environment : Option String) (input : String) : Run :=
  match options.expression? with
  | some line =>
    let reply := once options.showTokens line
    ⟨if reply.2 then 0 else 1, reply.1, input⟩
  | none =>
    let conversation := converse (options.prompt environment) options.showTokens input.toList
    ⟨0, conversation.1, String.ofList conversation.2⟩

theorem run_eq_full (options : Options) (environment : Option String) (input : String) :
    run options environment input =
      { full options environment input with
        writes := (full options environment input).writes.filter
          (Write.isShown (Log.threshold options.verbosity)) } := by
  rw [run, full]
  cases options.expression? <;> rfl

/-- No part of a run asks for the verbosity before something is to be shown. -/
theorem full_verbosity (options : Options) (v : Nat) (environment : Option String) (input : String) :
    full { options with verbosity := v } environment input = full options environment input := rfl

theorem run_verbosity (options : Options) (v : Nat) (environment : Option String) (input : String) :
    run { options with verbosity := v } environment input =
      { full options environment input with
        writes := (full options environment input).writes.filter
          (Write.isShown (Log.threshold v)) } := by
  rw [run_eq_full, full_verbosity]

theorem stdout_verbosity (options : Options) (v : Nat) (environment : Option String) (input : String) :
    (run { options with verbosity := v } environment input).stdout =
      (full options environment input).stdout := by
  rw [run_verbosity]
  exact join_onOut_filter _ _

/-- Of the writes at a verbosity those at a lower one are left if their entries are taken out. -/
theorem writes_verbosity {v w : Nat} (h : v ≤ w) (options : Options) (environment : Option String)
    (input : String) : (run { options with verbosity := v } environment input).writes =
      (run { options with verbosity := w } environment input).writes.filter
        fun write => !write.isBelow (Log.leastShown v) := by
  have hBoth (write : Write) : (write.isShown (Log.threshold v) && write.isShown (Log.threshold w)) =
      write.isShown (Log.threshold v) :=
    Bool.and_eq_left_iff_imp.mpr (Write.isShown_mono (Log.threshold_le h))
  simp only [run_verbosity, ← Write.isShown_threshold, List.filter_filter, hBoth]

theorem start?_of_options {arguments : List String} {options : Options}
    (h : Options.ofArguments? arguments = some options) (environment : Option String) (input : String) :
    start? arguments environment input = some (run options environment input) := by
  rw [start?, Options.ofArguments?_eq_some_iff.mp h]

/-- Whoever asks for help gets it, however often the verbosity option is given besides. -/
theorem start?_of_help {arguments : List String} (h : Options.ofCommandLine? arguments = some .help)
    (n : Nat) (environment : Option String) (input help : String) :
    start? (List.replicate n "-v" ++ arguments) environment input help =
      some ⟨0, [.out help], input⟩ := by
  have hRequest := Toolkit.lawful_console.request?_replicate n arguments
  have hHelp : Options.ofCommandLine? (List.replicate n "-v" ++ arguments) = some .help :=
    hRequest.trans (congrArg (Option.map _) h)
  rw [start?, hHelp]

/-- Two command lines that differ in nothing but the number of times the verbosity option is given
have the same output, exit code and unread input. What the one with fewer of them writes to the
stream of diagnostics is what the other writes, in the same order, but for the log entries that are
below its level; from two on there is no difference. Any command line is accepted with more of them. -/
theorem runs_of_verbosity (options : Options) {v w : Nat} (h : v ≤ w)
    {arguments arguments' : List String}
    (hLess : Options.ofArguments? arguments = some { options with verbosity := v })
    (hMore : Options.ofArguments? arguments' = some { options with verbosity := w })
    (environment : Option String) (input : String) : ∃ less more : Run,
      start? arguments environment input = some less ∧
      start? arguments' environment input = some more ∧
      less.stdout = more.stdout ∧
      less.exitCode = more.exitCode ∧
      less.unread = more.unread ∧
      less.errWrites = more.errWrites.filter (fun write => !write.isBelow (Log.leastShown v)) ∧
      less.stderr = String.join (less.errWrites.map Write.onErr) ∧
      (2 ≤ v → less = more) ∧
      ∀ n, Options.ofArguments? (List.replicate n "-v" ++ arguments) =
        some { options with verbosity := v + n } := by
  refine ⟨run { options with verbosity := v } environment input,
    run { options with verbosity := w } environment input,
    start?_of_options hLess environment input, start?_of_options hMore environment input,
    ?_, ?_, ?_, ?_, ?_, ?_, ?_⟩
  · rw [stdout_verbosity, stdout_verbosity]
  · rw [run_verbosity, run_verbosity]
  · rw [run_verbosity, run_verbosity]
  · rw [Run.errWrites, Run.errWrites, writes_verbosity h, List.filter_filter, List.filter_filter]
    simp only [Bool.and_comm]
  · exact stderr_eq_join _
  · intro hTwo
    rw [run_verbosity, run_verbosity, Log.threshold_of_two_le hTwo,
      Log.threshold_of_two_le (Nat.le_trans hTwo h)]
  · intro n
    have hRequest := Toolkit.lawful_console.request?_replicate n arguments
    rw [Options.ofArguments?_eq_some_iff] at hLess ⊢
    exact hRequest.trans (congrArg (Option.map _) hLess)

theorem runs_of_verbosity_of_rejection :
    Options.ofArguments? ["--prompt", "-v", "-v"] = some { prompt? := some "-v", verbosity := 1 } ∧
    Options.ofArguments? ["-vv", "--prompt=-v", "--verbose"] =
      some { prompt? := some "-v", verbosity := 3 } ∧
    ∃ less more : Run,
      start? ["--prompt", "-v", "-v"] none "1/0\n2" = some less ∧
      start? ["-vv", "--prompt=-v", "--verbose"] none "1/0\n2" = some more ∧
      less.stdout = more.stdout ∧
      less.errWrites = more.errWrites.filter (fun write => !write.isBelow .info) := by
  have hLess : Options.ofArguments? ["--prompt", "-v", "-v"] =
      some { prompt? := some "-v", verbosity := 1 } := by decide
  have hMore : Options.ofArguments? ["-vv", "--prompt=-v", "--verbose"] =
      some { prompt? := some "-v", verbosity := 3 } := by decide
  have hVerbosity : 1 ≤ 3 := by decide
  obtain ⟨less, more, hStart, hStart', hOut, -, -, hErr, -⟩ :=
    runs_of_verbosity { prompt? := some "-v" } hVerbosity hLess hMore none "1/0\n2"
  exact ⟨hLess, hMore, less, more, hStart, hStart', hOut, hErr⟩

end Console

end Reckoner
