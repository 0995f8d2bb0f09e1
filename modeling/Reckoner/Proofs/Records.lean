import Reckoner.Proofs.Traces
import Reckoner.Proofs.Transcript

/-!
# What the log records

At its most verbose the log of a line tells of each token that was pulled, once and in order, and
then of the value if there is one. A conversation tells the same of a line, and if it rejects the
line it says so before the diagnostic.
-/

set_option autoImplicit false

namespace Reckoner

open Reading

/-- The tokens that are pulled from a line for a result. -/
inductive Traced (line : String) {α : Type} : Except Fault α → List Token → Prop
  | success {a : α} {ts : List Token} (hReads : Reads 0 line.toList (ts.map .ok)) :
      Traced line (.ok a) (ts ++ [.ending line.length, .ending line.length])
  | token {items others : List Item} {ts : List Token} {t : Token} {expected : Kind}
      (hReads : Reads 0 line.toList items)
      (hItems : items ++ [.ok (.ending line.length)] = ts.map .ok ++ .ok t :: others) :
      Traced line (.error (.unexpectedToken t.kind expected t.location)) (ts ++ [t])
  /-- The last of the tokens in front is the divisor. -/
  | division {items others : List Item} {ts : List Token} {t : Token} {place : Int}
      (hReads : Reads 0 line.toList items)
      (hItems : items ++ [.ok (.ending line.length)] = ts.map .ok ++ .ok t :: others)
      (hZero : DividesByZero place ts) :
      Traced line (.error (.divisionByZero place)) (ts ++ [t])
  | symbol {others : List Item} {ts : List Token} {symbol : String} {position : Int}
      (hReads : Reads 0 line.toList
        (ts.map .ok ++ .error (.unrecognizedSymbol symbol position) :: others)) :
      Traced line (.error (.unrecognizedSymbol symbol position)) ts

namespace Log

/-- A record as the log keeps it: its level, where it comes from, and its message. -/
def Entry.record (entry : Entry) : Severity × String × String :=
  (entry.severity, entry.source, entry.message)

def tokenRecord (t : Token) : Severity × String × String :=
  (.debug, "kazoe.tokenize",
    String.join ["token ", t.kind.name, " at ", toString t.location, ": ", t.written])

def valueRecord (line : String) (q : Rat) : Severity × String × String :=
  (.debug, "kazoe.parse", String.join [Text.quote line, " = ", Value.written q])

def rejectionRecord (line : String) (fault : Fault) : Severity × String × String :=
  (.info, "kazoe.main", String.join ["rejected ", Text.quote line, ": ", fault.message])

theorem ofFeed_of_pulled {feed : Feed} {ts : List Token} (h : feed.pulled.reverse = ts.map .ok) :
    ofFeed feed = ts.map Entry.token := by
  rw [ofFeed, h, List.filterMap_map]
  exact congrFun List.filterMap_eq_map ts

theorem ofFeed_of_pulled_error {feed : Feed} {ts : List Token} {fault : Fault}
    (h : feed.pulled.reverse = ts.map .ok ++ [.error fault]) : ofFeed feed = ts.map Entry.token := by
  rw [ofFeed, h, List.filterMap_append, List.filterMap_map]
  exact (List.append_nil _).trans (congrFun List.filterMap_eq_map ts)

end Log

/-! ## Lines -/

theorem Reckoning.Stops.exists_traced {line : String} {fault : Fault} {feed : Feed}
    (h : Stops line fault feed.pulled.reverse) : ∃ ts,
      Traced line (.error fault : Except Fault Rat) ts ∧ Log.ofFeed feed = ts.map .token := by
  obtain ⟨items, hReads⟩ := exists_reads 0 line.toList
  generalize hPulled : feed.pulled.reverse = pulled at h
  cases h with
  | symbol ts hAhead =>
    obtain ⟨later, hReads⟩ := Cursor.exists_reads_of_ahead hAhead rfl
    obtain ⟨symbol, position, rfl⟩ :=
      hReads.eq_unrecognizedSymbol_of_mem (List.mem_append_right _ List.mem_cons_self)
    exact ⟨ts, .symbol hReads, Log.ofFeed_of_pulled_error hPulled⟩
  | token ts hAhead =>
    rw [Cursor.reads_before_iff.mp hReads] at hAhead
    exact ⟨_, .token hReads hAhead, Log.ofFeed_of_pulled hPulled⟩
  | division ts hAhead hZero =>
    rw [Cursor.reads_before_iff.mp hReads] at hAhead
    exact ⟨_, .division hReads hAhead hZero, Log.ofFeed_of_pulled hPulled⟩

theorem Reckoning.exists_traced (line : String) : ∃ ts,
    Traced line (ofLine line).result ts ∧ Log.ofFeed (ofLine line).left = ts.map .token := by
  rcases h : ofLine line with ⟨fault | q, feed⟩
  · exact (stops_of_fault h).exists_traced
  · obtain ⟨ts, hReads, hPulled⟩ := exhausted_of_value h
    exact ⟨_, .success hReads, Log.ofFeed_of_pulled hPulled⟩

theorem Feed.exists_traced (line : String) : ∃ ts,
    Traced line (tokens line).result ts ∧ Log.ofFeed (tokens line).left = ts.map .token := by
  cases h : (tokens line).result with
  | ok us =>
    obtain ⟨ts, hReads, hPulled⟩ := exhausted_of_tokens h
    exact ⟨_, .success hReads, Log.ofFeed_of_pulled hPulled⟩
  | error fault =>
    obtain ⟨ts, others, hReads, hPulled⟩ := pulled_of_tokens_error h
    obtain ⟨symbol, position, rfl⟩ :=
      hReads.eq_unrecognizedSymbol_of_mem (List.mem_append_right _ List.mem_cons_self)
    exact ⟨ts, .symbol hReads, Log.ofFeed_of_pulled_error hPulled⟩

namespace Console

/-- The log records among some writes. -/
def records (writes : List Write) : List (Severity × String × String) :=
  writes.filterMap fun
    | .log entry => some entry.record
    | _ => none

theorem records_log_append (entries : List Log.Entry) (writes : List Write) :
    records (entries.map .log ++ writes) = entries.map Log.Entry.record ++ records writes := by
  rw [records, List.filterMap_append, List.filterMap_map]
  exact congrArg (· ++ _) (congrFun List.filterMap_eq_map entries)

theorem records_once (showTokens : Bool) (line : String) :
    records (once showTokens line).1 = (answer showTokens line).2.map Log.Entry.record := by
  rw [once]
  rcases answer showTokens line with ⟨fault | text, entries⟩
  · exact (records_log_append entries _).trans (List.append_nil _)
  · exact (records_log_append entries _).trans (List.append_nil _)

/-- With the verbosity option given twice or more often nothing is left out. -/
theorem isShown_of_verbose {verbosity : Nat} (h : 2 ≤ verbosity) (write : Write) :
    write.isShown (Log.threshold verbosity) = true := by
  rw [Log.threshold_of_two_le h]
  rcases write with _ | _ | ⟨_ | _ | _⟩ <;> rfl

theorem filter_of_verbose {verbosity : Nat} (h : 2 ≤ verbosity) (writes : List Write) :
    writes.filter (Write.isShown (Log.threshold verbosity)) = writes :=
  List.filter_eq_self.mpr fun write _ => isShown_of_verbose h write

theorem writes_of_expression {options : Options} (hVerbose : 2 ≤ options.verbosity) {line : String}
    (hLine : options.expression? = some line) (environment : Option String) (input : String) :
    (run options environment input).writes = (once options.showTokens line).1 := by
  rw [run, hLine]
  exact filter_of_verbose hVerbose _

theorem writes_of_conversation {options : Options} (hVerbose : 2 ≤ options.verbosity)
    (hLine : options.expression? = none) (environment : Option String) (input : String) :
    (run options environment input).writes =
      (converse (options.prompt environment) options.showTokens input.toList).1 := by
  rw [run, hLine]
  exact filter_of_verbose hVerbose _

/-- A line that is rejected is told of in the log before the diagnostic. -/
theorem reply_of_fault {showTokens : Bool} {line : String} {fault : Fault}
    (h : (answer showTokens line).1 = .error fault) (hBlank : Text.trim line.toList ≠ [])
    (hQuits : quits line.toList = false) : reply showTokens line.toList =
      ((answer showTokens line).2 ++ [Log.Entry.rejection line fault]).map .log ++
        [report line fault] := by
  rw [reply_of_ne_nil hQuits hBlank, String.ofList_toList]
  rcases hAnswer : answer showTokens line with ⟨other | text, entries⟩
  · rw [hAnswer] at h
    cases h
    rw [List.map_append, List.append_assoc]
    rfl
  · rw [hAnswer] at h
    cases h

theorem entries_of_value (line : String) :
    (answer false line).2 = Log.ofFeed (Reckoning.ofLine line).left ++
      match (Reckoning.ofLine line).result with
      | .ok q => [.value line q]
      | .error _ => [] := by
  rw [answer_false]
  rcases Reckoning.ofLine line with ⟨fault | q, feed⟩
  · exact (List.append_nil _).symm
  · rfl

theorem entries_of_fault {line : String} {fault : Fault} (h : (answer false line).1 = .error fault) :
    (answer false line).2 = Log.ofFeed (Reckoning.ofLine line).left := by
  rcases hLine : Reckoning.ofLine line with ⟨other | q, feed⟩
  · rw [answer_false, hLine]
  · rw [answer_false, hLine] at h
    cases h

/-- In a run for one line at the highest verbosity the log records the tokens that are pulled, one
after the other, and then the value if there is one; if all tokens are asked for it records these
alone. A conversation at that verbosity leaves out no write, and for a line that it rejects it
records the same tokens and then the rejection, before the diagnostic. -/
theorem records_of_line (line : String) : ∃ ts us : List Token,
    Traced line (Reckoning.ofLine line).result ts ∧
    Traced line (Feed.tokens line).result us ∧
    (∀ fault, (Feed.tokens line).result = .error fault →
      ∃ symbol position, fault = .unrecognizedSymbol symbol position) ∧
    (∀ options environment input, 2 ≤ options.verbosity → options.expression? = some line →
      records (run options environment input).writes =
        if options.showTokens then us.map Log.tokenRecord
        else ts.map Log.tokenRecord ++
          match (Reckoning.ofLine line).result with
          | .ok q => [Log.valueRecord line q]
          | .error _ => []) ∧
    Options.ofArguments? ["-vv", "-e", line] =
      some { expression? := some line, verbosity := 2 } ∧
    Options.ofArguments? ["-vv", "-e", line, "--tokens"] =
      some { expression? := some line, showTokens := true, verbosity := 2 } ∧
    (∀ options environment input, 2 ≤ options.verbosity → options.expression? = none →
      (run options environment input).writes =
        (answered input.toList).flatMap (fun other =>
          ask (options.prompt environment) :: reply options.showTokens other) ++
        ask (options.prompt environment) ::
          if (lines input.toList).any quits then [] else [farewell]) ∧
    ∀ showTokens fault, (answer showTokens line).1 = .error fault →
      Text.trim line.toList ≠ [] → quits line.toList = false → ∃ entries : List Log.Entry,
        reply showTokens line.toList = entries.map .log ++ [report line fault] ∧
        entries.map Log.Entry.record =
          (if showTokens then us else ts).map Log.tokenRecord ++ [Log.rejectionRecord line fault] := by
  obtain ⟨ts, hTraced, hLog⟩ := Reckoning.exists_traced line
  obtain ⟨us, hTracedTokens, hLogTokens⟩ := Feed.exists_traced line
  have hEntries (vs : List Token) :
      (vs.map Log.Entry.token).map Log.Entry.record = vs.map Log.tokenRecord := List.map_map
  have hAnswer : (answer true line).2 = us.map .token := hLogTokens
  refine ⟨ts, us, hTraced, hTracedTokens, ?_, ?_, rfl, rfl, ?_, ?_⟩
  · intro fault h
    obtain ⟨_, _, hReads, -⟩ := Feed.pulled_of_tokens_error h
    exact hReads.eq_unrecognizedSymbol_of_mem (List.mem_append_right _ List.mem_cons_self)
  · intro options environment input hVerbose hLine
    rw [writes_of_expression hVerbose hLine, records_once]
    cases options.showTokens with
    | true => rw [hAnswer, hEntries, if_pos rfl]
    | false =>
      rw [entries_of_value, List.map_append, hLog, hEntries, if_neg Bool.false_ne_true]
      cases (Reckoning.ofLine line).result <;> rfl
  · intro options environment input hVerbose hLine
    rw [writes_of_conversation hVerbose hLine, converse_eq]
  · intro showTokens fault h hBlank hQuits
    refine ⟨_, reply_of_fault h hBlank hQuits, ?_⟩
    rw [List.map_append]
    cases showTokens with
    | true =>
      rw [hAnswer, hEntries, if_pos rfl]
      rfl
    | false =>
      rw [entries_of_fault h, hLog, hEntries, if_neg Bool.false_ne_true]
      rfl

end Console

end Reckoner
