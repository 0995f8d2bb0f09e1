import Reckoner.Proofs.Cuts
import Reckoner.Proofs.Refusals

/-!
# Behind the end of a line

A cursor behind its line stays there, whatever is asked of it, and every call brings the end again. A
lookahead of the kind of the end has been pulled by such a cursor. So a session whose reckoning sees the
end has come to rest: no step moves the cursor or changes the lookahead, and no operation but the one
that expects the end goes on.
-/

set_option autoImplicit false

namespace Reckoner

namespace Cursor

theorem eq_past_of_position {cur : Cursor} (h : cur.position = cur.line.length) :
    cur = past cur.line.reverse := by
  cases cur with
  | before text =>
    simp only [position, line_before] at h
    omega
  | on passed c rest =>
    simp only [position, line_on, List.length_append, List.length_reverse, List.length_cons] at h
    omega
  | past passed => rw [line_past, List.reverse_reverse]

theorem Leads.eq_past {passed : List Char} {next : Cursor} (h : (past passed).Leads next) :
    next = past passed := by
  obtain ⟨n, rfl⟩ := h
  exact Function.iterate_fixed rfl n

theorem nextToken_past (passed : List Char) :
    (past passed).nextToken = ⟨.ok (.ending passed.length), past passed⟩ := nextToken_of_nil rfl

theorem landPastBlanks_of_blanks {blanks : List Char} (h : ∀ c ∈ blanks, c = ' ')
    (passed : List Char) : landPastBlanks passed blanks = past (blanks.reverse ++ passed) := by
  induction blanks generalizing passed with
  | nil => rfl
  | cons c rest ih =>
    obtain ⟨hBlank, hRest⟩ := List.forall_mem_cons.mp h
    rw [landPastBlanks, if_pos hBlank, ih hRest, List.reverse_cons, List.append_assoc]
    rfl

/-- A token of the kind of the end is the end of the line, and the cursor is behind the line. -/
def Settles (cur : Cursor) (t : Token) : Prop :=
  t.lexeme = .eof → ∃ passed, cur = past passed ∧ t = .ending passed.length

theorem Settles.leads {cur next : Cursor} {t : Token} (h : cur.Settles t) (hLeads : cur.Leads next) :
    next.Settles t := by
  intro hEof
  obtain ⟨passed, rfl, hEnding⟩ := h hEof
  exact ⟨passed, hLeads.eq_past, hEnding⟩

theorem settles_of_nextToken {cur left : Cursor} {t : Token} (h : cur.nextToken = ⟨.ok t, left⟩) :
    left.Settles t := by
  intro hEof
  have hEnding : Item.isEnding cur.nextToken.result = true := by
    rw [h]
    exact decide_eq_true hEof
  have hBlanks := (reads_nil_of_isEnding hEnding).eq_blank_of_nil
  rw [nextToken_eq_scan, landPastBlanks_of_blanks hBlanks] at h
  cases h
  exact ⟨_, rfl, rfl⟩

end Cursor

namespace Reckoning

section Kept

variable {P : Reckoning → Prop} (hShift : ∀ state, P state → P state.shift.left)
include hShift

/-! What going past one lookahead keeps is kept by every operation. -/

theorem Matches.kept {state next : Reckoning} {ts : List Token} (h : Matches state ts next)
    (hState : P state) : P next := by
  induction h with
  | nil => exact hState
  | @cons state middle _ _ _ hMiddle _ ih =>
    have hNext : state.shift.left = middle := congrArg Outcome.left hMiddle
    exact ih (hNext ▸ hShift state hState)

theorem Halts.kept {state next : Reckoning} {fault : Fault} (h : Halts state fault next)
    (hState : P state) : P next := by
  cases h with
  | token hMatches _ => exact hMatches.kept hShift hState
  | @symbol _ middle _ _ hMatches hFault =>
    have hNext : middle.shift.left = next := congrArg Outcome.left hFault
    exact hNext ▸ hShift middle (hMatches.kept hShift hState)
  | division hMatches _ => exact hMatches.kept hShift hState

theorem Proceeds.kept {α : Type} {state : Reckoning} {post : α → List Token → Prop}
    {outcome : Outcome Reckoning α} (h : Proceeds state post outcome) (hState : P state) :
    P outcome.left := by
  cases h with
  | ok hMatches _ => exact hMatches.kept hShift hState
  | error hHalts => exact hHalts.kept hShift hState

theorem kept_expect (kind : Kind) {state : Reckoning} (hState : P state) :
    P (state.expect kind).left := by
  rw [expect]
  split
  · exact hShift state hState
  · exact hState

theorem kept_evaluate {state : Reckoning} (hState : P state) : P state.evaluate.left := by
  have hExpression := (proceeds_expression state).kept hShift hState
  rw [evaluate]
  rcases hOutcome : state.expression with ⟨fault | q, next⟩
  · rw [hOutcome] at hExpression
    exact hExpression
  · rw [hOutcome] at hExpression
    exact kept_expect hShift .eof hExpression

end Kept

theorem settles_shift (state : Reckoning) (h : state.feed.cursor.Settles state.lookahead) :
    state.shift.left.feed.cursor.Settles state.shift.left.lookahead := by
  rcases hShift : state.shift with ⟨fault | u, next⟩
  · obtain ⟨hLookahead, hPull⟩ := lookahead_of_shift_error hShift
    have hLeads := state.feed.cursor.leads_nextToken
    rw [Feed.nextToken_of_pull hPull] at hLeads
    exact hLookahead ▸ h.leads hLeads
  · exact Cursor.settles_of_nextToken (Feed.nextToken_of_pull (pull_of_shift hShift))

/-- At the end of the line there is nothing but the end to see, and no character to read. -/
structure AtEnd (place : Nat) (state : Reckoning) : Prop where
  exists_past : ∃ passed, state.feed.cursor = .past passed ∧ passed.length = place
  lookahead_eq : state.lookahead = .ending place

theorem AtEnd.shift_eq {place : Nat} {state : Reckoning} (h : AtEnd place state) :
    state.shift = ⟨.ok (), state.feed.pull.left, .ending place⟩ := by
  obtain ⟨passed, hCursor, rfl⟩ := h.exists_past
  rw [shift, Feed.pull, hCursor, Cursor.nextToken_past]

theorem AtEnd.shift {place : Nat} (state : Reckoning) (h : AtEnd place state) :
    AtEnd place state.shift.left := by
  obtain ⟨passed, hCursor, hLength⟩ := h.exists_past
  rw [h.shift_eq]
  refine ⟨⟨passed, ?_, hLength⟩, rfl⟩
  rw [Feed.cursor_left_pull, hCursor, Cursor.nextToken_past]

/-- What an evaluation expects last is the end, and behind that it pulls the end again. -/
theorem atEnd_of_evaluate {state left : Reckoning} {q : Rat}
    (hState : state.feed.cursor.Settles state.lookahead) (h : state.evaluate = ⟨.ok q, left⟩) :
    AtEnd left.feed.cursor.line.length left := by
  obtain ⟨r, middle, hExpression, hEnd⟩ := Outcome.andThen_eq_ok_iff.mp h
  obtain ⟨_, hExpect, -⟩ := Outcome.map_eq_ok_iff.mp hEnd
  have hSettles := (proceeds_expression state).kept settles_shift hState
  rw [hExpression] at hSettles
  obtain ⟨passed, hCursor, hEnding⟩ := hSettles (eof_of_expect hExpect)
  have hMiddle : AtEnd passed.length middle := ⟨⟨passed, hCursor, rfl⟩, hEnding⟩
  have hLeft := kept_expect AtEnd.shift .eof hMiddle
  rw [hExpect] at hLeft
  obtain ⟨passed', hPast, hLength⟩ := hLeft.exists_past
  have hLine : left.feed.cursor.line.length = passed.length := by
    rw [hPast, Cursor.line_past, List.length_reverse, hLength]
  exact hLine ▸ hLeft

end Reckoning

namespace Session

/-! ## Sessions -/

theorem lookahead_next (age : Nat) (session : Session) :
    (session.next age).2.lookahead = session.lookahead := by
  rw [next]
  split
  · rcases session.feed.pull with ⟨fault | t, feed⟩
    · rfl
    · dsimp only
      split <;> rfl
  · rfl

theorem lookahead_list (session : Session) : session.list.2.lookahead = session.lookahead := by
  rw [list]
  rcases session.feed.drain with ⟨_ | _, _⟩ <;> rfl

theorem lookahead_step {session : Session} {s : Step} (hReckons : s.reckons = false)
    (hNew : s ≠ .newReckoning) : (session.step s).2.lookahead = session.lookahead := by
  cases s with
  | advance | skipBlanks | peek | nextToken | scan | readNumber | newIterator => rfl
  | next age => exact session.lookahead_next age
  | list => exact session.lookahead_list
  | newReckoning => exact absurd rfl hNew
  | expect | factor | term | expression | evaluate => cases hReckons

theorem kept_step {P : Reckoning → Prop} (hShift : ∀ state, P state → P state.shift.left)
    {session : Session} {s : Step} (hReckons : s.reckons = true) {t : Token}
    (hLookahead : session.lookahead = some t) (h : P ⟨session.feed, t⟩) : ∃ u,
      (session.step s).2.lookahead = some u ∧ P ⟨(session.step s).2.feed, u⟩ := by
  have hReckon {α : Type} {operation : Reckoning → Outcome Reckoning α} (answer : α → Answer)
      (hKept : P (operation ⟨session.feed, t⟩).left) : ∃ u,
        (session.reckon operation answer).2.lookahead = some u ∧
          P ⟨(session.reckon operation answer).2.feed, u⟩ := by
    rcases hOperation : operation ⟨session.feed, t⟩ with ⟨fault | a, left⟩
    · rw [hOperation] at hKept
      rw [reckon_of_error hLookahead hOperation]
      exact ⟨left.lookahead, rfl, hKept⟩
    · rw [hOperation] at hKept
      rw [reckon_of_ok hLookahead hOperation]
      exact ⟨left.lookahead, rfl, hKept⟩
  cases s with
  | expect kind => exact hReckon .matched (Reckoning.kept_expect hShift kind h)
  | factor => exact hReckon .value ((Reckoning.proceeds_factor _).kept hShift h)
  | term => exact hReckon .value ((Reckoning.proceeds_term _).kept hShift h)
  | expression => exact hReckon .value ((Reckoning.proceeds_expression _).kept hShift h)
  | evaluate => exact hReckon .value (Reckoning.kept_evaluate hShift h)
  | _ => cases hReckons

/-- The lookahead of the kind of the end, if there is one, is the end of the line. -/
def Settled (session : Session) : Prop := ∀ t ∈ session.lookahead, session.feed.cursor.Settles t

theorem Settled.step {session : Session} (h : session.Settled) (s : Step) :
    (session.step s).2.Settled := by
  cases hReckons : s.reckons with
  | true =>
    cases hLookahead : session.lookahead with
    | none =>
      rw [step_of_none hReckons hLookahead]
      exact h
    | some t =>
      obtain ⟨u, hNext, hSettles⟩ := kept_step Reckoning.settles_shift hReckons hLookahead (h t hLookahead)
      intro v hv
      rw [hNext] at hv
      exact Option.some.inj hv ▸ hSettles
  | false =>
    by_cases hNew : s = .newReckoning
    · subst hNew
      intro t ht
      rcases hPull : session.feed.pull with ⟨fault | u, feed⟩
      · rw [Session.step, newReckoning, hPull] at ht
        cases ht
      · rw [Session.step, newReckoning, hPull] at ht ⊢
        exact Option.some.inj ht ▸ Cursor.settles_of_nextToken (Feed.nextToken_of_pull hPull)
    · intro t ht
      rw [lookahead_step hReckons hNew] at ht
      exact (h t ht).leads (session.leads_step s)

theorem settled_after (line : String) (steps : List Step) : ((ofLine line).after steps).Settled :=
  after_induction (fun _ h => nomatch h) fun s _ _ h => h.step s

/-- The cursor is behind the line, and the reckoning, if there is one, sees nothing but the end. -/
structure AtEnd (place : Nat) (session : Session) : Prop where
  exists_past : ∃ passed, session.feed.cursor = .past passed ∧ passed.length = place
  lookahead_eq : ∀ t ∈ session.lookahead, t = .ending place

variable {place : Nat} {session : Session}

theorem AtEnd.nextToken_eq (h : AtEnd place session) :
    session.feed.cursor.nextToken = ⟨.ok (.ending place), session.feed.cursor⟩ := by
  obtain ⟨passed, hCursor, rfl⟩ := h.exists_past
  rw [hCursor, Cursor.nextToken_past]

theorem AtEnd.mark_eq (h : AtEnd place session) : session.feed.cursor.mark = ⟨place, none⟩ := by
  obtain ⟨passed, hCursor, rfl⟩ := h.exists_past
  rw [hCursor]
  rfl

theorem AtEnd.reckoning (h : AtEnd place session) {t : Token} (ht : session.lookahead = some t) :
    Reckoning.AtEnd place ⟨session.feed, t⟩ := ⟨h.exists_past, h.lookahead_eq t ht⟩

theorem AtEnd.lookahead_step (h : AtEnd place session) (s : Step) :
    (session.step s).2.lookahead =
      if session.lookahead.isSome ∨ s = .newReckoning then some (.ending place) else none := by
  cases hReckons : s.reckons with
  | true =>
    have hNew : s ≠ .newReckoning := by
      rintro rfl
      cases hReckons
    cases hLookahead : session.lookahead with
    | none => simp [step_of_none hReckons hLookahead, hLookahead, hNew]
    | some t =>
      obtain ⟨u, hNext, hEnd⟩ :=
        kept_step Reckoning.AtEnd.shift hReckons hLookahead (h.reckoning hLookahead)
      have hEnding : u = .ending place := hEnd.lookahead_eq
      rw [hNext, hEnding, if_pos (.inl rfl)]
  | false =>
    by_cases hNew : s = .newReckoning
    · subst hNew
      have hPull : session.feed.pull.result = .ok (.ending place) := congrArg Outcome.result h.nextToken_eq
      rw [if_pos (.inr rfl), Session.step, (newReckoning_of_pull session).2, hPull]
      rfl
    · rw [Session.lookahead_step hReckons hNew]
      cases hLookahead : session.lookahead with
      | none => simp [hNew]
      | some t => rw [h.lookahead_eq t hLookahead, if_pos (.inl rfl)]

theorem AtEnd.step (h : AtEnd place session) (s : Step) : AtEnd place (session.step s).2 where
  exists_past := by
    obtain ⟨passed, hCursor, hLength⟩ := h.exists_past
    have hLeads := session.leads_step s
    rw [hCursor] at hLeads
    exact ⟨passed, hLeads.eq_past, hLength⟩
  lookahead_eq t ht := by
    rw [h.lookahead_step s] at ht
    split at ht
    · exact (Option.some.inj ht).symm
    · cases ht

theorem AtEnd.after (h : AtEnd place session) (steps : List Step) : AtEnd place (session.after steps) :=
  after_induction h fun s _ _ hMiddle => hMiddle.step s

theorem AtEnd.lookahead_after (h : AtEnd place session) (steps : List Step) :
    (session.after steps).lookahead =
      if session.lookahead.isSome ∨ .newReckoning ∈ steps then some (.ending place) else none := by
  induction steps generalizing session with
  | nil =>
    cases hLookahead : session.lookahead with
    | none => exact hLookahead
    | some t => exact hLookahead.trans (congrArg some (h.lookahead_eq t hLookahead))
  | cons s steps ih =>
    rw [after_cons, ih (h.step s), h.lookahead_step s]
    have hIff : (if session.lookahead.isSome ∨ s = .newReckoning then some (Token.ending place)
        else none).isSome ∨ .newReckoning ∈ steps ↔
        session.lookahead.isSome ∨ .newReckoning ∈ s :: steps := by
      rw [List.mem_cons, ← or_assoc, eq_comm (a := Step.newReckoning)]
      split <;> simp_all
    exact if_congr hIff rfl rfl

/-! ## Answers -/

theorem AtEnd.nextToken_answer (h : AtEnd place session) :
    (session.step .nextToken).1 = .token (.ending place) := by
  have hPull : session.feed.pull.result = .ok (.ending place) := congrArg Outcome.result h.nextToken_eq
  rcases hOutcome : session.feed.pull with ⟨item, feed⟩
  rw [hOutcome] at hPull
  rw [Session.step, hOutcome]
  exact congrArg answerItem hPull

theorem AtEnd.scan_answer (h : AtEnd place session) :
    (session.step .scan).1 = .token (.ending place) := by
  obtain ⟨passed, hCursor, rfl⟩ := h.exists_past
  rw [Session.step, hCursor]
  rfl

theorem AtEnd.expect_answer (h : AtEnd place session) {t : Token} (ht : session.lookahead = some t)
    (kind : Kind) : (session.step (.expect kind)).1 =
      if kind = .eof then .matched none else .fault (.unexpectedToken .eof kind place) := by
  obtain rfl := h.lookahead_eq t ht
  split
  · next hKind =>
    have hPull : session.feed.pull.result = .ok (.ending place) := congrArg Outcome.result h.nextToken_eq
    have hStep := step_expect_of_kind ht
    rw [hPull] at hStep
    rw [hKind]
    exact congrArg Prod.fst hStep
  · next hKind => exact (expect_of_kind_ne ht (Ne.symm hKind)).2

theorem AtEnd.reckon_answer (h : AtEnd place session) {operation : Reckoning → Outcome Reckoning Rat}
    (hOperation : Reckoning.AsksForFactor operation) {t : Token} (ht : session.lookahead = some t) :
    (session.reckon operation .value).1 = .fault (.unexpectedToken .eof .number place) := by
  obtain rfl := h.lookahead_eq t ht
  rw [reckon_of_error ht (hOperation.refuses ⟨session.feed, .ending place⟩ rfl)]
  rfl

theorem AtEnd.grammar_answer (h : AtEnd place session) {t : Token} (ht : session.lookahead = some t)
    {s : Step} (hs : s ∈ [Step.factor, .term, .expression, .evaluate]) :
    (session.step s).1 = .fault (.unexpectedToken .eof .number place) := by
  simp only [List.mem_cons, List.not_mem_nil, or_false] at hs
  rcases hs with rfl | rfl | rfl | rfl
  · exact h.reckon_answer Reckoning.asksForFactor_factor ht
  · exact h.reckon_answer Reckoning.asksForFactor_term ht
  · exact h.reckon_answer Reckoning.asksForFactor_expression ht
  · exact h.reckon_answer Reckoning.asksForFactor_evaluate ht

theorem Settled.atEnd (h : session.Settled)
    (hPosition : session.feed.cursor.position = session.feed.cursor.line.length)
    (hKind : ∀ t ∈ session.lookahead, t.kind = .eof) :
    AtEnd session.feed.cursor.line.length session where
  exists_past := ⟨_, Cursor.eq_past_of_position hPosition, List.length_reverse⟩
  lookahead_eq t ht := by
    obtain ⟨passed, hCursor, hEnding⟩ := h t ht (Lexeme.kind_eq_eof_iff.mp (hKind t ht))
    rw [hEnding, hCursor, Cursor.line_past, List.length_reverse]

theorem Settled.atEnd_of_evaluate (h : session.Settled) {q : Rat}
    (hValue : (session.step .evaluate).1 = .value q) :
    AtEnd session.feed.cursor.line.length (session.step .evaluate).2 ∧
      (session.step .evaluate).2.lookahead = some (.ending session.feed.cursor.line.length) := by
  have hLine := (session.leads_step .evaluate).line_eq
  cases hLookahead : session.lookahead with
  | none =>
    rw [step_of_none rfl hLookahead] at hValue
    cases hValue
  | some t =>
    rcases hOutcome : Reckoning.evaluate ⟨session.feed, t⟩ with ⟨fault | r, left⟩
    · rw [Session.step, reckon_of_error hLookahead hOutcome] at hValue
      cases hValue
    · have hEnd := Reckoning.atEnd_of_evaluate (h t hLookahead) hOutcome
      rw [Session.step, reckon_of_ok hLookahead hOutcome] at hLine ⊢
      rw [← hLine]
      exact ⟨⟨hEnd.exists_past, fun u hu => Option.some.inj hu ▸ hEnd.lookahead_eq⟩,
        congrArg some hEnd.lookahead_eq⟩

/-- An evaluation that succeeds leaves the cursor behind the line and the end as the lookahead. From
any state of a session in which the cursor is there and a reckoning, if there is one, sees a token of
the kind of the end, every step leaves both as they are, and a reckoning that is made sees the same end
for ever. Calls bring that end again, it alone can be expected, and nothing can be reckoned. -/
theorem rest_behind_end (line : String) (steps : List Step) :
    let session := (ofLine line).after steps
    (∀ q, (session.step .evaluate).1 = .value q →
      (session.step .evaluate).2.feed.cursor.mark = ⟨line.length, none⟩ ∧
      (session.step .evaluate).2.lookahead = some (.ending line.length)) ∧
    (session.feed.cursor.position = line.length → (∀ t ∈ session.lookahead, t.kind = .eof) →
      ∀ more : List Step,
        let later := session.after more
        later.feed.cursor.mark = ⟨line.length, none⟩ ∧
        later.lookahead = (if session.lookahead.isSome ∨ .newReckoning ∈ more
          then some (.ending line.length) else none) ∧
        (later.step .nextToken).1 = .token (.ending line.length) ∧
        (later.step .scan).1 = .token (.ending line.length) ∧
        (later.lookahead.isSome →
          (∀ kind, (later.step (.expect kind)).1 = if kind = .eof then .matched none
            else .fault (.unexpectedToken .eof kind line.length)) ∧
          ∀ s ∈ [Step.factor, .term, .expression, .evaluate],
            (later.step s).1 = .fault (.unexpectedToken .eof .number line.length))) := by
  intro session
  have hSettled : session.Settled := settled_after line steps
  have hLine : session.feed.cursor.line.length = line.length := by
    rw [line_after_ofLine line steps, String.length_toList]
  refine ⟨?_, ?_⟩
  · intro q hValue
    have hEnd := hSettled.atEnd_of_evaluate hValue
    rw [hLine] at hEnd
    exact ⟨hEnd.1.mark_eq, hEnd.2⟩
  · intro hPosition hKind more later
    rw [← hLine] at hPosition
    have hEnd := hSettled.atEnd hPosition hKind
    rw [hLine] at hEnd
    have hLater : AtEnd line.length later := hEnd.after more
    refine ⟨hLater.mark_eq, hEnd.lookahead_after more, hLater.nextToken_answer, hLater.scan_answer, ?_⟩
    intro hSome
    obtain ⟨t, ht⟩ := Option.isSome_iff_exists.mp hSome
    exact ⟨hLater.expect_answer ht, fun s hs => hLater.grammar_answer ht hs⟩

end Session

end Reckoner
