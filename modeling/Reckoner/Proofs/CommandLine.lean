import Reckoner.Options

/-!
# The verbosity option on a command line

On the command line the verbosity option only counts: whatever else is accepted or refused is so with more
of it, and help is given with it as without.
-/

set_option autoImplicit false

namespace Reckoner.Options

/-- The same options with the verbosity option repeated more often. -/
def raise (n : Nat) (options : Options) : Options :=
  { options with verbosity := options.verbosity + n }

def Reading.raise (n : Nat) : Reading → Reading
  | complete options => complete (options.raise n)
  | awaiting options setting => awaiting (options.raise n) setting
  | reading => reading

def Request.raise (n : Nat) : Request → Request
  | help => help
  | run options => run (options.raise n)

theorem set_raise (n : Nat) (options : Options) (setting : Setting) (value : String) :
    (options.raise n).set setting value = (options.set setting value).raise n := by
  cases setting <;> rfl

theorem raise_succ (n : Nat) (options : Options) :
    { options.raise n with verbosity := (options.raise n).verbosity + 1 } =
      raise n { options with verbosity := options.verbosity + 1 } := by
  simp only [raise, Nat.add_right_comm]

theorem readShort_raise (n : Nat) (options : Options) (cs : List Char) :
    readShort (options.raise n) cs = (readShort options cs).raise n := by
  fun_induction readShort options cs with
  | case1 => rfl
  | case2 options rest ih => rw [readShort, raise_succ, ih]
  | case3 => rfl
  | case4 options value hValue =>
    rw [readShort, set_raise, Reading.raise]
    exact hValue
  | case5 options cs hNil hVerbose hAwaiting hValue =>
    rw [readShort, Reading.raise] <;> first | assumption | nofun

theorem readSetting_raise (n : Nat) (options : Options) (setting : Setting) (value? : Option String) :
    readSetting (options.raise n) setting value? = (readSetting options setting value?).raise n := by
  cases value? with
  | none => rfl
  | some value => rw [readSetting, set_raise, readSetting, Reading.raise]

theorem readLong_raise (n : Nat) (options : Options) (name : String) (value? : Option String) :
    readLong (options.raise n) name value? = (readLong options name value?).raise n := by
  unfold readLong
  split
  · exact readSetting_raise n options .expression value?
  split
  · exact readSetting_raise n options .prompt value?
  split
  · rfl
  split
  · rw [raise_succ, Reading.raise]
  split
  · rfl
  · rfl

theorem readArgument_raise (n : Nat) (options : Options) (argument : List Char) :
    readArgument (options.raise n) argument = (readArgument options argument).raise n := by
  unfold readArgument
  split
  · rfl
  · exact readLong_raise n options _ _
  · exact readShort_raise n options _
  · rfl

theorem request?_raise (n : Nat) (options : Options) (help stray : Bool) :
    request? (options.raise n) help stray = (request? options help stray).map (Request.raise n) := by
  cases help <;> cases stray <;> rfl

/-- Arguments are accepted or refused whatever the verbosity is before them. -/
theorem read_raise (n : Nat) (options : Options) (help stray : Bool) (arguments : List String) :
    read (options.raise n) help stray arguments =
      (read options help stray arguments).map (Request.raise n) := by
  fun_induction read options help stray arguments with
  | case1 options help stray => exact request?_raise n options help stray
  | case2 options help stray argument rest next hReading ih =>
    rw [read, readArgument_raise, hReading, Reading.raise]
    exact ih
  | case3 options help stray argument next setting hReading =>
    rw [read, readArgument_raise, hReading]
    rfl
  | case4 options help stray argument next setting hReading value rest ih =>
    rw [read, readArgument_raise, hReading, Reading.raise]
    dsimp only
    rw [set_raise]
    exact ih
  | case5 options help stray argument rest hReading ih
  | case6 options help stray argument rest hReading ih =>
    rw [read, readArgument_raise, hReading]
    exact ih
  | case7 options help stray argument rest hReading =>
    rw [read, readArgument_raise, hReading]
    exact request?_raise n options help _
  | case8 options help stray argument rest hReading =>
    rw [read, readArgument_raise, hReading]
    rfl

/-- One repetition in front is one more, and nothing else. -/
theorem ofCommandLine?_cons (arguments : List String) :
    ofCommandLine? ("-v" :: arguments) = (ofCommandLine? arguments).map (Request.raise 1) := by
  have hFlag : readArgument {} "-v".toList = .complete (raise 1 {}) := by decide
  rw [ofCommandLine?, read, hFlag]
  exact read_raise 1 {} false false arguments

/-- Help is given whatever else is asked for, once that is accepted. -/
theorem read_help {options : Options} {help stray : Bool} {arguments : List String} {request : Request}
    (h : read options help stray arguments = some request) :
    read options true stray arguments = some .help := by
  fun_induction read options help stray arguments with
  | case1 => rfl
  | case2 options help stray argument rest next hReading ih =>
    rw [read, hReading]
    exact ih h
  | case3 => cases h
  | case4 options help stray argument next setting hReading value rest ih =>
    rw [read, hReading]
    exact ih h
  | case5 options help stray argument rest hReading ih
  | case6 options help stray argument rest hReading ih =>
    rw [read, hReading]
    exact ih h
  | case7 options help stray argument rest hReading =>
    rw [read, hReading]
    rfl
  | case8 => cases h

theorem ofCommandLine?_help {arguments : List String} {request : Request}
    (h : ofCommandLine? arguments = some request) :
    ofCommandLine? ("--help" :: arguments) = some .help := by
  have hFlag : readArgument {} "--help".toList = .help := by decide
  rw [ofCommandLine?, read, hFlag]
  exact read_help h

theorem ofArguments?_eq_some_iff {arguments : List String} {options : Options} :
    ofArguments? arguments = some options ↔ ofCommandLine? arguments = some (.run options) := by
  rw [ofArguments?]
  rcases ofCommandLine? arguments with _ | _ | other <;> simp

end Reckoner.Options
