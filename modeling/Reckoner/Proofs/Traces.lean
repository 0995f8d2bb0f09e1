import Reckoner.Proofs.Cuts
import Reckoner.Proofs.Matching

/-!
# What a reckoning leaves pulled

A reckoning has pulled the tokens that it is past, its lookahead and no more. If it stops with a
fault, the last item that it pulled is the fault itself, the token that was not expected, or the one
behind a divisor that is zero.
-/

set_option autoImplicit false

namespace Reckoner

/-- A feed that has given all tokens of a line and the end twice. -/
def Feed.Exhausted (line : String) (feed : Feed) : Prop :=
  ∃ ts : List Token, Reading.Reads 0 line.toList (ts.map .ok) ∧
    feed.pulled.reverse = (ts ++ [Token.ending line.length, .ending line.length]).map .ok

namespace Reckoning

open Grammar

/-- A reckoning of a line that is past some tokens. -/
structure Past (line : String) (passed : List Token) (state : Reckoning) : Prop where
  line_eq : state.feed.cursor.line = line.toList
  pulled_eq : state.feed.pulled.reverse = (passed ++ [state.lookahead]).map .ok
  ahead_eq : (Cursor.before line.toList).ahead = passed.map .ok ++ state.ahead

/-- The items that have been pulled from a line when a fault stops its reckoning. -/
inductive Stops (line : String) : Fault → List Item → Prop
  | symbol (passed : List Token) {fault : Fault} {others : List Item}
      (hAhead : (Cursor.before line.toList).ahead = passed.map .ok ++ .error fault :: others) :
      Stops line fault (passed.map .ok ++ [.error fault])
  | token (passed : List Token) {t : Token} {expected : Kind} {others : List Item}
      (hAhead : (Cursor.before line.toList).ahead = passed.map .ok ++ .ok t :: others) :
      Stops line (.unexpectedToken t.kind expected t.location) ((passed ++ [t]).map .ok)
  | division (passed : List Token) {t : Token} {place : Int} {others : List Item}
      (hAhead : (Cursor.before line.toList).ahead = passed.map .ok ++ .ok t :: others)
      (hZero : DividesByZero place passed) :
      Stops line (.divisionByZero place) ((passed ++ [t]).map .ok)

/-- A success leaves what it should, and a fault only what it may. -/
def Ensures (line : String) {α : Type} (post : α → Reckoning → Prop) : Outcome Reckoning α → Prop
  | ⟨.ok a, next⟩ => post a next
  | ⟨.error fault, next⟩ => Stops line fault next.feed.pulled.reverse

variable {line : String} {α β : Type} {post : α → Reckoning → Prop} {post' : β → Reckoning → Prop}

theorem Ensures.map {outcome : Outcome Reckoning α} (h : Ensures line post outcome) {f : α → β}
    (hPost : ∀ a next, post a next → post' (f a) next) : Ensures line post' (outcome.map f) := by
  obtain ⟨fault | a, next⟩ := outcome
  · exact h
  · exact hPost a next h

theorem Ensures.andThen {outcome : Outcome Reckoning α} (h : Ensures line post outcome)
    {operation : α → Reckoning → Outcome Reckoning β}
    (hPost : ∀ a next, outcome = ⟨.ok a, next⟩ → post a next → Ensures line post' (operation a next)) :
    Ensures line post' (outcome.andThen operation) := by
  obtain ⟨fault | a, next⟩ := outcome
  · exact h
  · exact hPost a next rfl h

/-! ## The operations -/

variable {passed : List Token} {state : Reckoning}

theorem Past.of_shift {next : Reckoning} (h : Past line passed state)
    (hEof : state.lookahead.lexeme ≠ .eof) (hShift : state.shift = ⟨.ok (), next⟩) :
    Past line (passed ++ [state.lookahead]) next where
  line_eq := (Feed.line_of_pull (pull_of_shift hShift)).trans h.line_eq
  pulled_eq := by
    rw [Feed.pulled_of_pull (pull_of_shift hShift), h.pulled_eq]
    simp only [List.map_append, List.map_singleton]
  ahead_eq := by
    rw [h.ahead_eq, ahead_of_shift hShift hEof, List.map_append, List.append_assoc]
    rfl

theorem Past.of_matches {ts : List Token} {next : Reckoning} (h : Past line passed state)
    (hMatches : Matches state ts next) : Past line (passed ++ ts) next := by
  induction hMatches generalizing passed with
  | nil => rwa [List.append_nil]
  | cons hEof hShift _ ih =>
    rw [List.append_cons]
    exact ih (h.of_shift hEof hShift)

/-- A reckoning that has pulled the end has read all of its line. -/
theorem Past.ahead_of_eof (h : Past line passed state) (hEof : state.lookahead.lexeme = .eof) :
    Reading.Reads 0 line.toList (passed.map .ok) ∧ state.ahead = [.ok (.ending line.length)] := by
  obtain ⟨items, hReads⟩ := Reading.exists_reads 0 line.toList
  have hAhead := h.ahead_eq
  rw [Cursor.reads_before_iff.mp hReads] at hAhead
  obtain rfl := hReads.eq_of_append hAhead (decide_eq_true hEof)
  exact ⟨hReads, (List.append_cancel_left hAhead).symm⟩

theorem Past.pull_of_eof (h : Past line passed state) (hEof : state.lookahead.lexeme = .eof) :
    state.feed.pull.result = .ok (.ending line.length) := by
  rw [Feed.result_pull_of_nil (unread_of_ahead (h.ahead_of_eof hEof).2), h.line_eq,
    String.length_toList]

theorem Past.stops (h : Past line passed state) (kind : Kind) :
    Stops line (state.mismatch kind) state.feed.pulled.reverse := by
  rw [h.pulled_eq]
  exact .token passed h.ahead_eq

theorem Past.stops_of_shift {fault : Fault} {next : Reckoning} (h : Past line passed state)
    (hShift : state.shift = ⟨.error fault, next⟩) : Stops line fault next.feed.pulled.reverse := by
  obtain ⟨-, hPull⟩ := lookahead_of_shift_error hShift
  have hEof : state.lookahead.lexeme ≠ .eof := by
    intro hEof
    have hEnding := h.pull_of_eof hEof
    rw [hPull] at hEnding
    cases hEnding
  have hAhead := h.ahead_eq
  rw [ahead_of_shift_error hShift hEof, Reading.tokens_append_cons] at hAhead
  rw [Feed.pulled_of_pull hPull, h.pulled_eq]
  exact .symbol _ hAhead

theorem Past.stops_of_halts {fault : Fault} {next : Reckoning} (h : Past line passed state)
    (hHalts : Halts state fault next) : Stops line fault next.feed.pulled.reverse := by
  cases hHalts with
  | token hMatches => exact (h.of_matches hMatches).stops _
  | symbol hMatches hShift => exact (h.of_matches hMatches).stops_of_shift hShift
  | division hMatches hZero =>
    have hNext := h.of_matches hMatches
    rw [hNext.pulled_eq]
    exact .division _ hNext.ahead_eq (hZero.append passed)

/-- A reckoning of a line that is past some of its tokens, whichever they are. -/
def OnLine (line : String) (state : Reckoning) : Prop := ∃ passed, Past line passed state

theorem OnLine.ensures_expression (h : OnLine line state) :
    Ensures line (fun _ next => OnLine line next) state.expression := by
  obtain ⟨passed, hPast⟩ := h
  rcases hExpression : state.expression with ⟨fault | q, next⟩
  · exact hPast.stops_of_halts (state.proceeds_expression.halts hExpression)
  · obtain ⟨ts, hMatches, -⟩ := state.proceeds_expression.exists_matches hExpression
    exact ⟨passed ++ ts, hPast.of_matches hMatches⟩

/-- Behind the end that a reckoning expects it pulls the end once more. -/
theorem OnLine.ensures_expect_eof (h : OnLine line state) :
    Ensures line (fun _ next => next.feed.Exhausted line) (state.expect .eof) := by
  obtain ⟨ts, hPast⟩ := h
  rw [expect]
  split
  · next hKind =>
    have hEof : state.lookahead.lexeme = .eof := Lexeme.kind_eq_eof_iff.mp hKind
    obtain ⟨hReads, hEnding⟩ := hPast.ahead_of_eof hEof
    have hPull := hPast.pull_of_eof hEof
    rcases hNext : state.feed.pull with ⟨fault | t, feed⟩ <;> rw [hNext] at hPull
    · cases hPull
    · cases hPull
      rw [shift, hNext]
      refine ⟨ts, hReads, ?_⟩
      rw [Feed.pulled_of_pull hNext, hPast.pulled_eq, lookahead_of_ahead hEnding, List.map_append,
        List.append_assoc, List.map_append]
      rfl
  · exact hPast.stops .eof

theorem OnLine.ensures_evaluate (h : OnLine line state) :
    Ensures line (fun _ next => next.feed.Exhausted line) state.evaluate :=
  h.ensures_expression.andThen fun _ _ _ hNext => hNext.ensures_expect_eof.map fun _ _ hEnd => hEnd

/-! ## Lines -/

theorem past_of_pull {t : Token} {feed : Feed} (h : (Feed.ofLine line).pull = ⟨.ok t, feed⟩) :
    Past line [] ⟨feed, t⟩ where
  line_eq := Feed.line_of_pull h
  pulled_eq := Feed.pulled_of_pull h
  ahead_eq := ahead_of_pull h

theorem exhausted_of_value {q : Rat} {feed : Feed} (h : ofLine line = ⟨.ok q, feed⟩) :
    feed.Exhausted line := by
  rcases hPull : (Feed.ofLine line).pull with ⟨fault | t, first⟩
  · rw [ofLine, hPull] at h
    cases h
  · have hEnsures := OnLine.ensures_evaluate ⟨[], past_of_pull hPull⟩
    rw [ofLine, hPull, Outcome.ok_andThen] at h
    rcases hEvaluate : evaluate ⟨first, t⟩ with ⟨fault | value, next⟩
    · rw [hEvaluate] at h
      cases h
    · rw [hEvaluate] at h hEnsures
      cases h
      exact hEnsures

theorem stops_of_fault {fault : Fault} {feed : Feed} (h : ofLine line = ⟨.error fault, feed⟩) :
    Stops line fault feed.pulled.reverse := by
  rcases hPull : (Feed.ofLine line).pull with ⟨first | t, next⟩
  · rw [ofLine, hPull] at h
    cases h
    rw [Feed.pulled_of_pull hPull]
    exact .symbol [] (ahead_of_pull_error hPull)
  · have hEnsures := OnLine.ensures_evaluate ⟨[], past_of_pull hPull⟩
    rw [ofLine, hPull, Outcome.ok_andThen] at h
    rcases hEvaluate : evaluate ⟨next, t⟩ with ⟨other | value, last⟩
    · rw [hEvaluate] at h hEnsures
      cases h
      exact hEnsures
    · rw [hEvaluate] at h
      cases h

end Reckoning

/-! ## All tokens of a line -/

namespace Feed

theorem pulled_of_drain {feed left : Feed} {ts : List Token} (h : feed.drain = ⟨.ok ts, left⟩) :
    left.pulled.reverse = feed.pulled.reverse ++ feed.cursor.ahead := by
  fun_induction drain feed generalizing ts with
  | case1 => cases h
  | case2 feed t next hPull hEof =>
    cases h
    have hEnding : Item.isEnding feed.cursor.nextToken.result = true := by
      rw [nextToken_of_pull hPull]
      exact decide_eq_true hEof
    rw [pulled_of_pull hPull, Cursor.ahead_eq_ite, if_pos hEnding, nextToken_of_pull hPull]
  | case3 feed t next hPull hEof _ ih =>
    obtain ⟨us, hDrain, rfl⟩ := Outcome.map_eq_ok_iff.mp h
    rw [ih hDrain, pulled_of_pull hPull,
      Cursor.ahead_of_nextToken (nextToken_of_pull hPull) (decide_eq_false hEof), List.append_assoc]
    rfl

theorem pulled_of_drain_error {feed left : Feed} {fault : Fault}
    (h : feed.drain = ⟨.error fault, left⟩) : ∃ (ts : List Token) (others : List Item),
      feed.cursor.ahead = ts.map .ok ++ .error fault :: others ∧
        left.pulled.reverse = feed.pulled.reverse ++ (ts.map .ok ++ [.error fault]) := by
  fun_induction drain feed with
  | case1 feed fault next hPull =>
    cases h
    exact ⟨[], left.cursor.ahead, Cursor.ahead_of_nextToken (nextToken_of_pull hPull) rfl,
      pulled_of_pull hPull⟩
  | case2 => cases h
  | case3 feed t next hPull hEof _ ih =>
    obtain ⟨ts, others, hAhead, hPulled⟩ := ih (Outcome.map_eq_error_iff.mp h)
    refine ⟨t :: ts, others, ?_, ?_⟩
    · rw [Cursor.ahead_of_nextToken (nextToken_of_pull hPull) (decide_eq_false hEof), hAhead]
      rfl
    · rw [hPulled, pulled_of_pull hPull, List.append_assoc]
      rfl

/-- Behind the end that all tokens end with it is pulled once more, to be one of them. -/
theorem exhausted_of_tokens {line : String} {ts : List Token} (h : (tokens line).result = .ok ts) :
    (tokens line).left.Exhausted line := by
  obtain ⟨us, hReads, -⟩ := result_tokens_eq_ok_iff.mp h
  refine ⟨us, hReads, ?_⟩
  rcases hDrain : (ofLine line).drain with ⟨fault | vs, left⟩
  · rw [tokens, hDrain] at h
    cases h
  · obtain ⟨-, hUnread, hLine⟩ := ahead_of_drain hDrain
    have hAhead : (ofLine line).cursor.ahead = us.map .ok ++ [.ok (.ending line.length)] :=
      Cursor.reads_before_iff.mp hReads
    have hLength : left.cursor.line.length = line.length := by
      rw [hLine]
      exact String.length_toList
    rw [tokens, hDrain, Outcome.ok_andThen, Outcome.left_map, pulled_left_pull, List.reverse_cons,
      pulled_of_drain hDrain, hAhead, result_pull_of_nil hUnread, hLength]
    simp [ofLine]

theorem pulled_of_tokens_error {line : String} {fault : Fault}
    (h : (tokens line).result = .error fault) : ∃ (us : List Token) (others : List Item),
      Reading.Reads 0 line.toList (us.map .ok ++ .error fault :: others) ∧
        (tokens line).left.pulled.reverse = us.map .ok ++ [.error fault] := by
  rcases hDrain : (ofLine line).drain with ⟨other | us, left⟩
  · obtain ⟨us, others, hAhead, hPulled⟩ := pulled_of_drain_error hDrain
    have hTokens : tokens line = ⟨.error other, left⟩ := by rw [tokens, hDrain, Outcome.error_andThen]
    rw [hTokens] at h
    cases h
    obtain ⟨later, hReads⟩ := Cursor.exists_reads_of_ahead hAhead rfl
    rw [hTokens]
    exact ⟨us, later, hReads, hPulled⟩
  · rw [result_tokens_of_drain hDrain] at h
    cases h

end Feed

end Reckoner
