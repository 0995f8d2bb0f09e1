import Reckoner.Proofs.Interleaving
import Reckoner.Proofs.Matching
import Reckoner.Proofs.Nonterminals

/-!
# What a fault leaves

A fault takes nothing back. The tokens that were matched before it are gone, and where it leaves the
lookahead and the cursor depends on its kind. A token that is refused stays the lookahead, and so does
the token behind a divisor that is zero. A symbol is not taken for a token: the cursor is on it, the
token in front of it is still the lookahead, and going past that one again reads on behind the symbol.
-/

set_option autoImplicit false

namespace Reckoner

open Reading

/-! ## Cursors on symbols -/

namespace Cursor

/-- A cursor on a symbol that stands for nothing. The calls go on with what is read behind it. -/
structure StopsAt (cur : Cursor) (c : Char) (place : Int) : Prop where
  mark_eq : cur.mark = ⟨place, some c⟩
  subscript_eq : Text.subscript? cur.line place = some c
  ofChar_eq : CharClass.ofChar c = .unrecognized
  exists_reads : ∃ items, Reads (place.toNat + 1) (cur.line.drop (place.toNat + 1)) items ∧
    ∀ n, cur.call n = items[n]?.getD (.ok (.ending cur.line.length))

theorem stopsAt_on (passed : List Char) {c : Char} (rest : List Char)
    (h : CharClass.ofChar c = .unrecognized) : (on passed c rest).StopsAt c passed.length where
  mark_eq := rfl
  subscript_eq := by
    rw [line_on]
    exact subscript?_line passed (c :: rest)
  ofChar_eq := h
  exists_reads := by
    obtain ⟨items, hReads⟩ := Reading.exists_reads (passed.length + 1) rest
    have hRest : (on passed c rest).line.drop (passed.length + 1) = rest := by
      rw [line_on, List.append_cons]
      exact List.drop_left' (by simp)
    refine ⟨items, ?_, (on passed c rest).call_of_reads hReads⟩
    rwa [Int.toNat_natCast, hRest]

end Cursor

theorem Reading.Reads.stopsAt {place : Nat} {s : List Char} {items : List Item}
    (h : Reads place s items) {cur left : Cursor} (hUnread : cur.unread = s) {fault : Fault}
    (hNext : cur.nextToken = ⟨.error fault, left⟩) :
    ∃ c position, fault = .unrecognizedSymbol c.toString position ∧ left.StopsAt c position := by
  induction h generalizing cur with
  | nothing =>
    rw [Cursor.nextToken_of_nil hUnread] at hNext
    cases hNext
  | blank _ ih =>
    rw [Cursor.nextToken_of_blank hUnread] at hNext
    exact ih rfl hNext
  | operator hOperator =>
    rw [Cursor.nextToken_of_operator hUnread hOperator] at hNext
    cases hNext
  | number hRun =>
    obtain ⟨_, hOk, -⟩ := Cursor.nextToken_of_run hUnread hRun
    cases hOk.symm.trans hNext
  | symbol hBlank hDigit hOperator =>
    rw [Cursor.nextToken_of_symbol hUnread hBlank hDigit hOperator] at hNext
    cases hNext
    exact ⟨_, _, rfl, Cursor.stopsAt_on _ _ (Cursor.ofChar_eq_unrecognized hBlank hDigit hOperator)⟩

theorem Feed.stopsAt_of_pull {feed next : Feed} {fault : Fault} (h : feed.pull = ⟨.error fault, next⟩) :
    ∃ c position, fault = .unrecognizedSymbol c.toString position ∧ next.cursor.StopsAt c position := by
  obtain ⟨items, hReads⟩ := exists_reads feed.cursor.consumed.length feed.cursor.unread
  exact hReads.stopsAt rfl (nextToken_of_pull h)

/-! ## Reckonings -/

namespace Reckoning

theorem stream_of_shift {state next : Reckoning} {u : Unit} (h : state.shift = ⟨.ok u, next⟩)
    (n : Nat) : state.stream (n + 1) = next.stream n := by
  have hNext := Feed.nextToken_of_pull (pull_of_shift h)
  cases n with
  | zero => rw [stream, stream, Cursor.call, hNext]
  | succ n => rw [stream, stream, Cursor.call, hNext]

theorem Matches.stream_add {state next : Reckoning} {ts : List Token} (h : Matches state ts next)
    (n : Nat) : state.stream (ts.length + n) = next.stream n := by
  induction h with
  | nil => rw [List.length_nil, Nat.zero_add]
  | cons _ hShift _ ih => rw [List.length_cons, Nat.succ_add, stream_of_shift hShift, ih]

theorem Matches.stream_eq {state next : Reckoning} {ts : List Token} (h : Matches state ts next) :
    (List.range ts.length).map state.stream = ts.map .ok := by
  induction h with
  | nil => rfl
  | @cons state _ _ ts _ hShift _ ih =>
    have hLater : state.stream ∘ Nat.succ = _ := funext (stream_of_shift hShift)
    rw [List.length_cons, List.range_succ_eq_map, List.map_cons, List.map_map, hLater, ih]
    rfl

end Reckoning

/-! ## Sessions -/

/-- The steps of a reckoning. -/
def Step.reckons : Step → Bool
  | .expect _ | .factor | .term | .expression | .evaluate => true
  | _ => false

namespace Session

/-- What a fault leaves of a session whose reckoning has matched some tokens before it, by the
lookahead of the later session. -/
def LeftBy (session : Session) (t : Token) (matched : List Token) (u : Token) (later : Session) :
    Fault → Prop
  | .unexpectedToken actual expected position =>
    Reckoning.stream ⟨session.feed, t⟩ matched.length = .ok u ∧ u.kind = actual ∧
      u.location = position ∧ actual ≠ expected ∧ (matched = [] → later = session)
  | .unrecognizedSymbol symbol position =>
    Reckoning.stream ⟨session.feed, t⟩ matched.length = .error (.unrecognizedSymbol symbol position) ∧
      (∃ before, matched = before ++ [u]) ∧
      (∃ c, symbol = c.toString ∧ later.feed.cursor.StopsAt c position) ∧
      later.step (.expect u.kind) = (answerAfter (.matched u.value?) (later.feed.cursor.call 0),
        { later with
          feed := later.feed.pulls 1
          lookahead := some ((later.feed.cursor.call 0).toOption.getD u) })
  | .divisionByZero place =>
    Reckoning.stream ⟨session.feed, t⟩ matched.length = .ok u ∧ DividesByZero place matched
  | _ => False

theorem halts_of_reckon {α : Type} {operation : Reckoning → Outcome Reckoning α} {answer : α → Answer}
    (hAnswer : ∀ a fault, answer a ≠ .fault fault)
    (hOperation : ∀ {state next fault}, operation state = ⟨.error fault, next⟩ →
      Reckoning.Halts state fault next) {session : Session} {t : Token} {fault : Fault}
    (hLookahead : session.lookahead = some t)
    (hFault : (session.reckon operation answer).1 = .fault fault) : ∃ next,
      Reckoning.Halts ⟨session.feed, t⟩ fault next ∧ (session.reckon operation answer).2 =
        { session with feed := next.feed, lookahead := some next.lookahead } := by
  obtain ⟨next, hError, hLater⟩ := exists_of_fault hLookahead hAnswer hFault
  exact ⟨next, hOperation hError, hLater⟩

theorem halts_of_step {session : Session} {s : Step} {t : Token} {fault : Fault}
    (hReckons : s.reckons = true) (hLookahead : session.lookahead = some t)
    (hFault : (session.step s).1 = .fault fault) : ∃ next,
      Reckoning.Halts ⟨session.feed, t⟩ fault next ∧ (session.step s).2 =
        { session with feed := next.feed, lookahead := some next.lookahead } := by
  cases s with
  | expect kind => exact halts_of_reckon nofun Reckoning.halts_of_expect hLookahead hFault
  | factor =>
    exact halts_of_reckon nofun (Reckoning.proceeds_factor _).halts hLookahead hFault
  | term => exact halts_of_reckon nofun (Reckoning.proceeds_term _).halts hLookahead hFault
  | expression =>
    exact halts_of_reckon nofun (Reckoning.proceeds_expression _).halts hLookahead hFault
  | evaluate => exact halts_of_reckon nofun Reckoning.halts_of_evaluate hLookahead hFault
  | _ => cases hReckons

theorem leftBy_of_halts {session : Session} {t : Token} {fault : Fault} {next : Reckoning}
    (hLookahead : session.lookahead = some t) (h : Reckoning.Halts ⟨session.feed, t⟩ fault next) :
    let later := { session with feed := next.feed, lookahead := some next.lookahead }
    ∃ matched : List Token,
      (List.range matched.length).map (Reckoning.stream ⟨session.feed, t⟩) = matched.map .ok ∧
        next.feed = session.feed.pulls matched.length ∧
          session.LeftBy t matched next.lookahead later fault := by
  intro later
  cases h with
  | @token ts _ expected hMatches hKind =>
    refine ⟨ts, hMatches.stream_eq, hMatches.feed_eq, hMatches.stream_add 0, rfl, rfl, hKind, ?_⟩
    rintro rfl
    cases hMatches
    exact congrArg (fun lookahead => { session with lookahead }) hLookahead.symm
  | @division ts _ place hMatches hZero =>
    exact ⟨ts, hMatches.stream_eq, hMatches.feed_eq, hMatches.stream_add 0, hZero⟩
  | @symbol before middle _ _ hMatches hShift =>
    obtain ⟨hStays, hPull⟩ := Reckoning.lookahead_of_shift_error hShift
    obtain ⟨c, position, rfl, hStops⟩ := Feed.stopsAt_of_pull hPull
    have hItem : middle.feed.cursor.call 0 = .error (.unrecognizedSymbol c.toString position) :=
      congrArg Outcome.result hPull
    -- The lookahead has been matched, since only the pull behind it failed.
    refine ⟨before ++ [next.lookahead], ?_, ?_, ?_, ⟨before, rfl⟩, ⟨c, rfl, hStops⟩, ?_⟩
    · rw [List.length_append, List.length_singleton, List.range_succ, List.map_append, hMatches.stream_eq,
        List.map_append, List.map_singleton, List.map_singleton, hStays]
      exact congrArg (fun item => before.map .ok ++ [item]) (hMatches.stream_add 0)
    · rw [List.length_append, List.length_singleton, Feed.pulls_succ, ← hMatches.feed_eq, hPull]
    · rw [List.length_append, List.length_singleton]
      exact (hMatches.stream_add 1).trans hItem
    · exact step_expect_of_kind rfl

/-- However a session with a reckoning came about, a fault of the reckoning leaves the line as it is,
matches some tokens of the stream, with one pull for each, and leaves what belongs to its kind. If a
token is refused, it is the lookahead, and nothing at all has changed if none was matched before. If a
symbol is not recognized, the cursor is on it, and the last token that was matched is the lookahead,
to be matched again when the reading goes on behind the symbol. If a divisor is zero, the item behind
it is the lookahead. A new reckoning that finds a symbol in place of its lookahead is none. -/
theorem state_after_fault (line : String) (steps : List Step) :
    let session := (ofLine line).after steps
    (∀ (s : Step) (t : Token) (fault : Fault), s.reckons = true → session.lookahead = some t →
      (session.step s).1 = .fault fault →
      let later := (session.step s).2
      later.feed.cursor.line = line.toList ∧
      ∃ (matched : List Token) (u : Token),
        (List.range matched.length).map (Reckoning.stream ⟨session.feed, t⟩) = matched.map .ok ∧
        later = { session with feed := session.feed.pulls matched.length, lookahead := some u } ∧
        session.LeftBy t matched u later fault) ∧
    ∀ fault : Fault, (session.step .newReckoning).1 = .fault fault →
      let later := (session.step .newReckoning).2
      later.feed.cursor.line = line.toList ∧
      later = { session with feed := session.feed.pulls 1, lookahead := none } ∧
      ∃ c position, fault = .unrecognizedSymbol c.toString position ∧
        later.feed.cursor.StopsAt c position := by
  intro session
  have hLine : ∀ s, (session.step s).2.feed.cursor.line = line.toList := fun s =>
    (session.leads_step s).line_eq.trans (line_after_ofLine line steps)
  refine ⟨?_, ?_⟩
  · intro s t fault hReckons hLookahead hFault later
    obtain ⟨next, hHalts, hLater⟩ := halts_of_step hReckons hLookahead hFault
    obtain ⟨matched, hStream, hFeed, hLeft⟩ := leftBy_of_halts hLookahead hHalts
    rw [← hLater] at hLeft
    rw [hFeed] at hLater
    exact ⟨hLine s, matched, next.lookahead, hStream, hLater, hLeft⟩
  · intro fault hFault later
    rcases hPull : session.feed.pull with ⟨other | t, feed⟩
    · have hStep : session.step .newReckoning =
          (.fault other, { session with feed, lookahead := none }) := by
        rw [step, newReckoning, hPull]
      obtain ⟨c, position, rfl, hStops⟩ := Feed.stopsAt_of_pull hPull
      have hLater : later = { session with feed, lookahead := none } := congrArg Prod.snd hStep
      rw [hStep] at hFault
      cases hFault
      refine ⟨hLine .newReckoning, ?_, c, position, rfl, ?_⟩
      · rw [hLater, Feed.pulls, hPull]
        rfl
      · rw [hLater]
        exact hStops
    · rw [step, newReckoning, hPull] at hFault
      cases hFault

/-- The number in front of the symbol is matched again, and what follows the symbol is pulled. -/
theorem state_after_fault_of_symbol :
    let session := (ofLine "7 ? 2").after [.newReckoning]
    let later := (session.step .factor).2
    (session.step .factor).1 = .fault (.unrecognizedSymbol "?" 2) ∧
    later.lookahead = some ⟨.number 7, 0, "7"⟩ ∧
    (∃ c, "?" = c.toString ∧ later.feed.cursor.StopsAt c 2) ∧
    (later.step (.expect .number)).1 = .matched (some 7) := by
  intro session later
  have hLookahead : session.lookahead = some ⟨.number 7, 0, "7"⟩ := by decide
  have hFault : (session.step .factor).1 = .fault (.unrecognizedSymbol "?" 2) := rfl
  have hStays : later.lookahead = some ⟨.number 7, 0, "7"⟩ := by decide
  obtain ⟨-, matched, u, -, hLater, -, -, hStops, hExpect⟩ :=
    (state_after_fault "7 ? 2" [.newReckoning]).1 .factor _ _ rfl hLookahead hFault
  obtain rfl : u = ⟨.number 7, 0, "7"⟩ :=
    Option.some.inj ((congrArg lookahead hLater).symm.trans hStays)
  exact ⟨hFault, hStays, hStops, congrArg Prod.fst hExpect⟩

end Session

end Reckoner
