import Reckoner.Console
import Reckoner.Proofs.Automaton
import Reckoner.Proofs.Toolkit

/-!
# What a conversation leaves behind

A conversation asks for the lines of its input one by one, up to the first that ends it. What it
writes for a line depends on that line alone and is what a run for this line alone writes.
-/

set_option autoImplicit false

namespace Reckoner.Console

/-- The pieces of an input between its line breaks, without a last piece that is empty. -/
def lines (input : List Char) : List (List Char) :=
  if (input.splitOn '\n').getLast? = some [] then (input.splitOn '\n').dropLast
  else input.splitOn '\n'

def quits (line : List Char) : Bool := String.ofList (Text.trim line) ∈ quitWords

/-- The lines that are answered. -/
def answered (input : List Char) : List (List Char) := (lines input).takeWhile fun line => !quits line

/-- The length of the lines that are asked for, with their line breaks. -/
def asked (input : List Char) : Nat :=
  (((lines input).take ((answered input).length + 1)).map fun line => line.length + 1).sum

/-- A run that answers one line given as an option. -/
def single (showTokens : Bool) (line : String) : Run :=
  run { expression? := some line, showTokens := showTokens } none ""

/-- A run that converses. Like the one above it shows no log. -/
def conversation (prompt? environment : Option String) (showTokens : Bool) (input : String) : Run :=
  run { prompt? := prompt?, showTokens := showTokens } environment input

def promptText (prompt? environment : Option String) : String :=
  Write.plain (({ prompt? := prompt? } : Options).prompt environment ++ " ")

/-- What a conversation writes for a line to the one stream and to the other. -/
def replyOut (showTokens : Bool) (line : List Char) : String :=
  if Text.trim line = [] then "" else (single showTokens (String.ofList line)).stdout

def replyErr (showTokens : Bool) (line : List Char) : String :=
  if Text.trim line = [] then "" else (single showTokens (String.ofList line)).stderr

/-! ## Lines of an input -/

theorem eq_nil_of_nextLine? {input : List Char} (h : nextLine? input = none) : input = [] := by
  by_contra hInput
  rw [nextLine?, if_neg hInput] at h
  cases h

theorem nextLine?_eq_some {input line rest : List Char} (h : nextLine? input = some (line, rest)) :
    '\n' ∉ line ∧ (input = line ++ '\n' :: rest ∨ input = line ∧ line ≠ [] ∧ rest = []) := by
  unfold nextLine? at h
  split at h
  · cases h
  · next hInput =>
    cases h
    have hSplit : input.takeWhile (· ≠ '\n') ++ input.dropWhile (· ≠ '\n') = input :=
      List.takeWhile_append_dropWhile
    refine ⟨fun hMem => by simpa using List.mem_takeWhile_imp hMem, ?_⟩
    cases hDrop : input.dropWhile (· ≠ '\n') with
    | nil =>
      rw [hDrop, List.append_nil] at hSplit
      exact .inr ⟨hSplit.symm, hSplit.symm ▸ hInput, rfl⟩
    | cons c rest =>
      have hHead := List.head?_dropWhile_not (· ≠ '\n') input
      rw [hDrop] at hHead
      obtain rfl : c = '\n' := by simpa using hHead
      rw [hDrop] at hSplit
      exact .inl hSplit.symm

theorem lines_nil : lines [] = [] := rfl

theorem lines_of_nextLine? {input line rest : List Char} (h : nextLine? input = some (line, rest)) :
    lines input = line :: lines rest := by
  obtain ⟨hLine, rfl | ⟨rfl, hNonempty, rfl⟩⟩ := nextLine?_eq_some h
  · have hLast : (line :: rest.splitOn '\n').getLast? = (rest.splitOn '\n').getLast? :=
      List.getLast?_cons_of_ne_nil (List.splitOn_ne_nil '\n' rest)
    rw [lines, List.splitOn_append_cons_self_of_not_mem hLine, hLast, lines]
    split
    · exact List.dropLast_cons_of_ne_nil (List.splitOn_ne_nil '\n' rest)
    · rfl
  · rw [lines, List.splitOn_eq_singleton hLine, lines_nil, List.getLast?_singleton,
      if_neg fun hEmpty => hNonempty (Option.some.inj hEmpty)]

theorem drop_of_nextLine? {input line rest : List Char} (h : nextLine? input = some (line, rest)) :
    input.drop (line.length + 1) = rest := by
  obtain ⟨_, rfl | ⟨rfl, _, rfl⟩⟩ := nextLine?_eq_some h
  · rw [List.drop_length_add_append]
    rfl
  · exact List.drop_of_length_le (Nat.le_succ _)

theorem answered_of_quits {input line rest : List Char}
    (h : nextLine? input = some (line, rest)) (hQuits : quits line = true) : answered input = [] := by
  rw [answered, lines_of_nextLine? h, List.takeWhile_cons, hQuits]
  rfl

theorem answered_of_not_quits {input line rest : List Char}
    (h : nextLine? input = some (line, rest)) (hQuits : quits line = false) :
    answered input = line :: answered rest := by
  rw [answered, lines_of_nextLine? h, List.takeWhile_cons, hQuits]
  rfl

theorem asked_of_quits {input line rest : List Char}
    (h : nextLine? input = some (line, rest)) (hQuits : quits line = true) :
    asked input = line.length + 1 := by
  rw [asked, answered_of_quits h hQuits, lines_of_nextLine? h]
  rfl

theorem asked_of_not_quits {input line rest : List Char}
    (h : nextLine? input = some (line, rest)) (hQuits : quits line = false) :
    asked input = line.length + 1 + asked rest := by
  rw [asked, answered_of_not_quits h hQuits, lines_of_nextLine? h, List.length_cons,
    List.take_succ_cons, List.map_cons, List.sum_cons, asked]

/-! ## A conversation -/

/-- What a conversation does for a line, shown or not. -/
def reply (showTokens : Bool) (line : List Char) : List Write :=
  (step showTokens (String.ofList line)).getD []

theorem step_eq_none_iff {showTokens : Bool} {line : List Char} :
    step showTokens (String.ofList line) = none ↔ quits line = true := by
  rw [quits, decide_eq_true_iff, step, String.toList_ofList]
  constructor
  · intro h
    by_contra hQuits
    rw [if_neg hQuits] at h
    split at h
    · cases h
    · split at h <;> cases h
  · intro h
    rw [if_pos h]

theorem reply_of_ne_nil {showTokens : Bool} {line : List Char} (hQuits : quits line = false)
    (hLine : Text.trim line ≠ []) : reply showTokens line =
      match answer showTokens (String.ofList line) with
      | (.ok text, entries) => entries.map .log ++ [.out (text ++ "\n")]
      | (.error fault, entries) => entries.map .log ++
        [.log (.rejection (String.ofList line) fault), report (String.ofList line) fault] := by
  have hWord : String.ofList (Text.trim line) ∉ quitWords := of_decide_eq_false hQuits
  have hWritten : String.ofList (Text.trim line) ≠ "" := fun hEmpty =>
    hLine (String.ofList_injective (hEmpty.trans String.ofList_nil.symm))
  rw [reply, step, String.toList_ofList, if_neg hWord, if_neg hWritten]
  rcases answer showTokens (String.ofList line) with ⟨_ | _, _⟩ <;> rfl

/-- Each line that is answered has a prompt in front, and there is one prompt more. -/
theorem converse_eq (prompt : String) (showTokens : Bool) (input : List Char) :
    converse prompt showTokens input =
      ((answered input).flatMap (fun line => ask prompt :: reply showTokens line) ++
        ask prompt :: (if (lines input).any quits then [] else [farewell]),
      input.drop (asked input)) := by
  fun_induction converse prompt showTokens input with
  | case1 input hNone =>
    rw [eq_nil_of_nextLine? hNone]
    rfl
  | case2 input line rest hLine hStep =>
    have hQuits := step_eq_none_iff.mp hStep
    rw [answered_of_quits hLine hQuits, asked_of_quits hLine hQuits, drop_of_nextLine? hLine,
      lines_of_nextLine? hLine, List.any_cons, hQuits]
    rfl
  | case3 input line rest hLine writes hStep hLess later ih =>
    have hQuits : quits line = false := by
      rw [Bool.eq_false_iff]
      intro hQuits
      cases hStep.symm.trans (step_eq_none_iff.mpr hQuits)
    have hReply : reply showTokens line = writes := by rw [reply, hStep, Option.getD_some]
    have hLater : later = _ := ih
    rw [hLater, answered_of_not_quits hLine hQuits, asked_of_not_quits hLine hQuits,
      ← List.drop_drop, drop_of_nextLine? hLine, lines_of_nextLine? hLine, List.any_cons, hQuits,
      Bool.false_or, List.flatMap_cons, hReply, List.append_assoc]

/-! ## What is shown -/

/-- The one write that shows the answer to a line. -/
def shownAnswer (showTokens : Bool) (line : String) : Write :=
  match (answer showTokens line).1 with
  | .ok text => .out (text ++ "\n")
  | .error fault => report line fault

theorem isShown_log (entry : Log.Entry) : Write.isShown (Log.threshold 0) (.log entry) = false := by
  cases entry <;> rfl

theorem filter_log (entries : List Log.Entry) :
    (entries.map Write.log).filter (Write.isShown (Log.threshold 0)) = [] := by
  rw [List.filter_eq_nil_iff]
  intro write hWrite
  obtain ⟨entry, _, rfl⟩ := List.mem_map.mp hWrite
  rw [isShown_log]
  exact Bool.false_ne_true

theorem filter_once (showTokens : Bool) (line : String) :
    (once showTokens line).1.filter (Write.isShown (Log.threshold 0)) = [shownAnswer showTokens line] := by
  rw [once, shownAnswer]
  rcases answer showTokens line with ⟨_ | _, entries⟩
  · simp only [List.filter_append, filter_log]
    rfl
  · simp only [List.filter_append, filter_log]
    rfl

theorem filter_reply {showTokens : Bool} {line : List Char} (hQuits : quits line = false) :
    (reply showTokens line).filter (Write.isShown (Log.threshold 0)) =
      if Text.trim line = [] then [] else [shownAnswer showTokens (String.ofList line)] := by
  by_cases hBlank : Text.trim line = []
  · have hWord : String.ofList (Text.trim line) ∉ quitWords := of_decide_eq_false hQuits
    rw [reply, step, String.toList_ofList, if_neg hWord, hBlank, if_pos String.ofList_nil, if_pos rfl]
    rfl
  · rw [reply_of_ne_nil hQuits hBlank, if_neg hBlank, shownAnswer]
    rcases answer showTokens (String.ofList line) with ⟨fault | _, entries⟩
    · simp only [List.filter_append, filter_log, List.filter_cons, isShown_log]
      rfl
    · simp only [List.filter_append, filter_log]
      rfl

theorem run_expression (line : String) (prompt? environment : Option String) (showTokens : Bool)
    (input : String) :
    run { expression? := some line, prompt? := prompt?, showTokens := showTokens } environment input =
      ⟨if (once showTokens line).2 then 0 else 1, [shownAnswer showTokens line], input⟩ := by
  rw [← filter_once]
  rfl

theorem stdout_single (showTokens : Bool) (line : String) :
    (single showTokens line).stdout = (shownAnswer showTokens line).onOut := by
  rw [single, run_expression, Run.stdout, List.map_singleton, String.join_cons, String.join_nil,
    String.append_empty]

theorem stderr_single (showTokens : Bool) (line : String) :
    (single showTokens line).stderr = (shownAnswer showTokens line).onErr := by
  rw [single, run_expression, Run.stderr, List.map_singleton, String.join_cons, String.join_nil,
    String.append_empty]

theorem join_flatMap {α : Type} (f : α → List String) (xs : List α) :
    String.join (xs.flatMap f) = String.join (xs.map fun x => String.join (f x)) := by
  induction xs with
  | nil => rfl
  | cons x xs ih => rw [List.flatMap_cons, String.join_append, ih, List.map_cons, String.join_cons]

/-- What one of the streams shows of a list of writes. -/
def shownOn (stream : Write → String) (writes : List Write) : String :=
  String.join ((writes.filter (Write.isShown (Log.threshold 0))).map stream)

theorem shownOn_append (stream : Write → String) (writes others : List Write) :
    shownOn stream (writes ++ others) = shownOn stream writes ++ shownOn stream others := by
  rw [shownOn, List.filter_append, List.map_append, String.join_append, shownOn, shownOn]

theorem shownOn_flatMap (stream : Write → String) {α : Type} (f : α → List Write) (xs : List α) :
    shownOn stream (xs.flatMap f) = String.join (xs.map fun x => shownOn stream (f x)) := by
  rw [shownOn, List.filter_flatMap, List.map_flatMap, join_flatMap]
  rfl

theorem shownOn_nil (stream : Write → String) : shownOn stream [] = "" := rfl

theorem shownOn_cons {stream : Write → String} {write : Write} {writes : List Write}
    (hShown : write.isShown (Log.threshold 0) = true) :
    shownOn stream (write :: writes) = stream write ++ shownOn stream writes := by
  rw [shownOn, List.filter_cons_of_pos hShown, List.map_cons, String.join_cons, shownOn]

theorem shownOn_reply (stream : Write → String) {showTokens : Bool} {line : List Char}
    (hQuits : quits line = false) : shownOn stream (reply showTokens line) =
      if Text.trim line = [] then "" else stream (shownAnswer showTokens (String.ofList line)) := by
  rw [shownOn, filter_reply hQuits]
  split
  · rfl
  · rw [List.map_singleton, String.join_cons, String.join_nil, String.append_empty]

theorem shownOn_converse (stream : Write → String) (prompt : String) (showTokens : Bool)
    (input : List Char) : shownOn stream (converse prompt showTokens input).1 =
      String.join ((answered input).map fun line => stream (ask prompt) ++
        if Text.trim line = [] then "" else stream (shownAnswer showTokens (String.ofList line))) ++
      stream (ask prompt) ++ (if (lines input).any quits then "" else stream farewell) := by
  have hAnswered : (answered input).map
        (fun line => shownOn stream (ask prompt :: reply showTokens line)) =
      (answered input).map fun line => stream (ask prompt) ++
        if Text.trim line = [] then "" else stream (shownAnswer showTokens (String.ofList line)) := by
    apply List.map_congr_left
    intro line hLine
    have hQuits : quits line = false := by simpa using List.mem_takeWhile_imp hLine
    rw [shownOn_cons rfl, shownOn_reply stream hQuits]
  have hEnd : shownOn stream (if (lines input).any quits then [] else [farewell]) =
      if (lines input).any quits then "" else stream farewell := by
    split
    · rfl
    · rw [shownOn_cons rfl, shownOn_nil, String.append_empty]
  rw [converse_eq, shownOn_append, shownOn_flatMap, shownOn_cons rfl, hAnswered, hEnd, String.append_assoc]

theorem onOut_farewell : farewell.onOut = "\n" :=
  Toolkit.lawful_console.plain_of_escape_notMem "\n" (by decide)

/-! ## Whole runs -/

theorem stdout_conversation (prompt? environment : Option String) (showTokens : Bool) (input : String) :
    (conversation prompt? environment showTokens input).stdout =
      String.join ((answered input.toList).map fun line =>
        promptText prompt? environment ++ replyOut showTokens line) ++
      promptText prompt? environment ++ if (lines input.toList).any quits then "" else "\n" := by
  have hConverse := shownOn_converse Write.onOut
    (Options.prompt { prompt? := prompt?, showTokens := showTokens } environment) showTokens input.toList
  simp only [onOut_farewell] at hConverse
  simp only [replyOut, stdout_single]
  exact hConverse

theorem stderr_conversation (prompt? environment : Option String) (showTokens : Bool) (input : String) :
    (conversation prompt? environment showTokens input).stderr =
      String.join ((answered input.toList).map (replyErr showTokens)) := by
  have hConverse := shownOn_converse Write.onErr
    (Options.prompt { prompt? := prompt?, showTokens := showTokens } environment) showTokens input.toList
  have hAsk (prompt : String) : (ask prompt).onErr = "" := rfl
  have hFarewell : farewell.onErr = "" := rfl
  simp only [hAsk, hFarewell, String.empty_append, ite_self, String.append_empty] at hConverse
  have hReply : replyErr showTokens = fun line => if Text.trim line = [] then ""
      else (shownAnswer showTokens (String.ofList line)).onErr := by
    funext line
    rw [replyErr, stderr_single]
  rw [hReply]
  exact hConverse

theorem unread_conversation (prompt? environment : Option String) (showTokens : Bool) (input : String) :
    (conversation prompt? environment showTokens input).unread =
      String.ofList (input.toList.drop (asked input.toList)) := by
  have hConverse := converse_eq
    (Options.prompt { prompt? := prompt?, showTokens := showTokens } environment) showTokens input.toList
  exact congrArg String.ofList (congrArg Prod.snd hConverse)

theorem drop_asked {input : List Char} (h : (lines input).any quits = false) :
    input.drop (asked input) = [] := by
  induction hLength : input.length using Nat.strongRecOn generalizing input with
  | ind n ih =>
    subst hLength
    cases hLine : nextLine? input with
    | none =>
      rw [eq_nil_of_nextLine? hLine]
      rfl
    | some pair =>
      obtain ⟨line, rest⟩ := pair
      rw [lines_of_nextLine? hLine, List.any_cons, Bool.or_eq_false_iff] at h
      rw [asked_of_not_quits hLine h.1, ← List.drop_drop, drop_of_nextLine? hLine]
      exact ih _ (length_lt_of_nextLine? hLine) h.2 rfl

theorem answer_true_eq_error_iff {line : String} {fault : Fault} :
    (answer true line).1 = .error fault ↔ (Feed.tokens line).result = .error fault := by
  rw [answer_true]
  cases (Feed.tokens line).result with
  | error other => simp [Except.map]
  | ok ts => exact iff_of_false nofun nofun

theorem answer_false_eq_error_iff {line : String} {fault : Fault} :
    (answer false line).1 = .error fault ↔ (Reckoning.ofLine line).result = .error fault := by
  rw [answer_false]
  rcases Reckoning.ofLine line with ⟨other | q, feed⟩
  · simp
  · exact iff_of_false nofun nofun

theorem ofLine_of_answer {showTokens : Bool} {line : String} {fault : Fault}
    (h : (answer showTokens line).1 = .error fault) : fault.OfLine := by
  cases showTokens with
  | true => exact Feed.ofLine_of_result_tokens (answer_true_eq_error_iff.mp h)
  | false => exact Reckoning.ofLine_of_result (answer_false_eq_error_iff.mp h)

theorem single_eq (showTokens : Bool) (line : String) :
    (∃ text, (answer showTokens line).1 = .ok text ∧
      single showTokens line = ⟨0, [.out (text ++ "\n")], ""⟩) ∨
    ∃ fault : Fault, fault.OfLine ∧ (answer showTokens line).1 = .error fault ∧
      single showTokens line = ⟨1, [report line fault], ""⟩ := by
  rw [single, run_expression, once, shownAnswer]
  rcases hAnswer : answer showTokens line with ⟨fault | text, entries⟩
  · exact .inr ⟨fault, ofLine_of_answer (congrArg Prod.fst hAnswer), rfl, rfl⟩
  · exact .inl ⟨text, rfl, rfl⟩

/-- A conversation asks for the lines up to the first that ends it, writes for each what a run for
this line alone writes, and leaves what follows unread. A run for one line reads no input, and only
the line and the kind of answer asked for bear on it. -/
theorem transcript_of_input (prompt? environment : Option String) (showTokens : Bool) (input : String) :
    (conversation prompt? environment showTokens input).stdout =
      String.join ((answered input.toList).map fun line =>
        promptText prompt? environment ++ replyOut showTokens line) ++
      promptText prompt? environment ++ (if (lines input.toList).any quits then "" else "\n") ∧
    (conversation prompt? environment showTokens input).stderr =
      String.join ((answered input.toList).map (replyErr showTokens)) ∧
    (conversation prompt? environment showTokens input).unread =
      String.ofList (input.toList.drop (asked input.toList)) ∧
    ((lines input.toList).any quits = false →
      (conversation prompt? environment showTokens input).unread = "") ∧
    (conversation prompt? environment showTokens input).exitCode = 0 ∧
    ∀ (line : String) (prompt? environment : Option String) (input : String),
      run { expression? := some line, prompt? := prompt?, showTokens := showTokens } environment input =
        { single showTokens line with unread := input } ∧
      ((∃ text, (answer showTokens line).1 = .ok text ∧
          single showTokens line = ⟨0, [.out (text ++ "\n")], ""⟩) ∨
        ∃ fault : Fault, fault.OfLine ∧ (answer showTokens line).1 = .error fault ∧
          single showTokens line = ⟨1, [report line fault], ""⟩) := by
  refine ⟨stdout_conversation prompt? environment showTokens input,
    stderr_conversation prompt? environment showTokens input,
    unread_conversation prompt? environment showTokens input, ?_, rfl, ?_⟩
  · intro hQuits
    rw [unread_conversation, drop_asked hQuits, String.ofList_nil]
  · intro line prompt? environment input
    have hSingle : run { expression? := some line, prompt? := prompt?, showTokens := showTokens }
        environment input = { single showTokens line with unread := input } := by
      rw [single, run_expression, run_expression]
    exact ⟨hSingle, single_eq showTokens line⟩

end Reckoner.Console
