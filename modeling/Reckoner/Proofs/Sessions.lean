import Reckoner.Proofs.Pulls
import Reckoner.Session

/-!
# Runs of sessions

A run goes on from whatever a step leaves, be it a fault. A step either works on the cursor itself
or belongs to a reader, which pulls from the feed; each of them moves the cursor by advancing. So in
every state that a run can reach the place of the cursor and the character kept for it agree, and
neither an end of the line nor its beginning is taken for a character.
-/

set_option autoImplicit false

namespace Reckoner

namespace Step

/-- The steps that work on the cursor itself. All others leave it to pulls to move the cursor. -/
def worksOnCursor : Step → Bool
  | advance | skipBlanks | scan | readNumber => true
  | _ => false

end Step

namespace Session

/-- The session that some steps leave. -/
def after (session : Session) (steps : List Step) : Session :=
  (session.run steps).foldl (fun _ result => result.2) session

theorem after_cons (session : Session) (s : Step) (steps : List Step) :
    session.after (s :: steps) = (session.step s).2.after steps := rfl

/-- What each step keeps, a run keeps. -/
theorem after_induction {motive : Session → Prop} {session : Session} {steps : List Step}
    (start : motive session)
    (step : ∀ s ∈ steps, ∀ middle, motive middle → motive (middle.step s).2) :
    motive (session.after steps) := by
  induction steps generalizing session with
  | nil => exact start
  | cons s steps ih =>
    have hFirst : motive (session.step s).2 := step s List.mem_cons_self session start
    exact ih hFirst fun t ht => step t (List.mem_cons_of_mem s ht)

/-- Whether a step makes the cursor advance, even if only at the end of the line. -/
def advances (session : Session) : Step → Bool
  | .advance | .nextToken | .list | .newReckoning => true
  | .peek | .newIterator => false
  | .skipBlanks => session.feed.cursor.char? = some ' '
  | .scan => session.feed.cursor.char?.any Char.isDigit && session.feed.cursor.peek?.any Char.isDigit
  | .readNumber => session.feed.cursor.char?.isSome && session.feed.cursor.peek?.any Char.isDigit
  | .next age => session.live[age]? = some true
  | .expect kind => session.lookahead.any fun t => t.kind = kind
  | .factor | .term | .expression | .evaluate =>
    session.lookahead.any fun t => t.lexeme.beginsFactor

/-- Whether any of some steps makes the cursor advance. -/
def advanced (session : Session) : List Step → Bool
  | [] => false
  | s :: steps => session.advances s || (session.step s).2.advanced steps

/-! ## Steps of readers -/

theorem feed_next_of_live {session : Session} {age : Nat} (h : session.live[age]? = some true) :
    (session.next age).2.feed = session.feed.pull.left := by
  rw [next, if_pos h]
  rcases session.feed.pull with ⟨fault | t, feed⟩
  · rfl
  · dsimp only
    split <;> rfl

theorem next_of_not_live {session : Session} {age : Nat} (h : session.live[age]? ≠ some true) :
    session.next age = (.exhausted, session) := by
  rw [next, if_neg h]

theorem feed_list (session : Session) : session.list.2.feed = session.feed.drain.left := by
  rw [list]
  rcases session.feed.drain with ⟨_ | _, _⟩ <;> rfl

theorem feed_newReckoning (session : Session) :
    session.newReckoning.2.feed = session.feed.pull.left := by
  rw [newReckoning]
  rcases session.feed.pull with ⟨_ | _, _⟩ <;> rfl

section Reckon

variable {α : Type} {operation : Reckoning → Outcome Reckoning α} {answer : α → Answer}

theorem reckon_of_none {session : Session} (h : session.lookahead = none) :
    session.reckon operation answer = (.noReckoning, session) := by
  rw [reckon, h]

theorem reckon_of_ok {session : Session} {t : Token} (h : session.lookahead = some t) {a : α}
    {left : Reckoning} (hOperation : operation ⟨session.feed, t⟩ = ⟨.ok a, left⟩) :
    session.reckon operation answer =
      (answer a, { session with feed := left.feed, lookahead := some left.lookahead }) := by
  simp only [reckon, h, hOperation]

theorem reckon_of_error {session : Session} {t : Token} (h : session.lookahead = some t) {fault : Fault}
    {left : Reckoning} (hOperation : operation ⟨session.feed, t⟩ = ⟨.error fault, left⟩) :
    session.reckon operation answer =
      (.fault fault, { session with feed := left.feed, lookahead := some left.lookahead }) := by
  simp only [reckon, h, hOperation]

theorem exists_of_fault {session : Session} {t : Token} (h : session.lookahead = some t)
    (hAnswer : ∀ a fault, answer a ≠ .fault fault) {fault : Fault}
    (hFault : (session.reckon operation answer).1 = .fault fault) : ∃ left,
      operation ⟨session.feed, t⟩ = ⟨.error fault, left⟩ ∧ (session.reckon operation answer).2 =
        { session with feed := left.feed, lookahead := some left.lookahead } := by
  rcases hOperation : operation ⟨session.feed, t⟩ with ⟨other | a, left⟩
  · rw [reckon_of_error h hOperation] at hFault ⊢
    cases hFault
    exact ⟨left, rfl, rfl⟩
  · rw [reckon_of_ok h hOperation] at hFault
    exact absurd hFault (hAnswer a fault)

theorem feed_reckon_of_some {session : Session} {t : Token} (h : session.lookahead = some t) :
    (session.reckon operation answer).2.feed = (operation ⟨session.feed, t⟩).left.feed := by
  rw [reckon, h]
  dsimp only
  rcases operation ⟨session.feed, t⟩ with ⟨_ | _, _⟩ <;> rfl

end Reckon

theorem reaches_reckon_of_begins {operation : Reckoning → Outcome Reckoning Rat}
    {answer : Rat → Answer} (hOperation : Reckoning.AsksForFactor operation) {session : Session}
    (h : (session.lookahead.any fun t => t.lexeme.beginsFactor) = true) :
    session.feed.Reaches 1 (session.reckon operation answer).2.feed := by
  obtain ⟨t, hLookahead, hBegins⟩ := (Option.any_eq_true _ _).mp h
  rw [feed_reckon_of_some hLookahead]
  exact hOperation.pulls ⟨session.feed, t⟩ hBegins

theorem feed_reckon_of_not_begins {operation : Reckoning → Outcome Reckoning Rat}
    {answer : Rat → Answer} (hOperation : Reckoning.AsksForFactor operation) {session : Session}
    (h : (session.lookahead.any fun t => t.lexeme.beginsFactor) = false) :
    (session.reckon operation answer).2.feed = session.feed := by
  cases hLookahead : session.lookahead with
  | none => rw [reckon_of_none hLookahead]
  | some t =>
    rw [hLookahead, Option.any_some] at h
    rw [feed_reckon_of_some hLookahead, hOperation.refuses ⟨session.feed, t⟩ h]

theorem reaches_step_of_advances {session : Session} {s : Step} (hReader : s.worksOnCursor = false)
    (h : session.advances s = true) : session.feed.Reaches 1 (session.step s).2.feed := by
  cases s with
  | advance | skipBlanks | scan | readNumber => cases hReader
  | peek | newIterator => cases h
  | nextToken => exact session.feed.reaches_pull
  | next age =>
    rw [step, feed_next_of_live (of_decide_eq_true h)]
    exact session.feed.reaches_pull
  | list =>
    rw [step, feed_list]
    exact session.feed.reaches_drain
  | newReckoning =>
    rw [step, feed_newReckoning]
    exact session.feed.reaches_pull
  | expect kind =>
    obtain ⟨t, hLookahead, hKind⟩ := (Option.any_eq_true _ _).mp h
    rw [step, feed_reckon_of_some hLookahead, Reckoning.expect, if_pos (of_decide_eq_true hKind)]
    exact Reckoning.reaches_shift ⟨session.feed, t⟩
  | factor => exact reaches_reckon_of_begins Reckoning.asksForFactor_factor h
  | term => exact reaches_reckon_of_begins Reckoning.asksForFactor_term h
  | expression => exact reaches_reckon_of_begins Reckoning.asksForFactor_expression h
  | evaluate => exact reaches_reckon_of_begins Reckoning.asksForFactor_evaluate h

theorem feed_step_of_not_advances {session : Session} {s : Step} (hReader : s.worksOnCursor = false)
    (h : session.advances s = false) : (session.step s).2.feed = session.feed := by
  cases s with
  | advance | skipBlanks | scan | readNumber => cases hReader
  | nextToken | list | newReckoning => cases h
  | peek | newIterator => rfl
  | next age => rw [step, next_of_not_live (of_decide_eq_false h)]
  | expect kind =>
    cases hLookahead : session.lookahead with
    | none => rw [step, reckon_of_none hLookahead]
    | some t =>
      rw [advances, hLookahead, Option.any_some] at h
      rw [step, feed_reckon_of_some hLookahead, Reckoning.expect, if_neg (of_decide_eq_false h)]
  | factor => exact feed_reckon_of_not_begins Reckoning.asksForFactor_factor h
  | term => exact feed_reckon_of_not_begins Reckoning.asksForFactor_term h
  | expression => exact feed_reckon_of_not_begins Reckoning.asksForFactor_expression h
  | evaluate => exact feed_reckon_of_not_begins Reckoning.asksForFactor_evaluate h

theorem reaches_step (session : Session) {s : Step} (hReader : s.worksOnCursor = false) :
    session.feed.Reaches 0 (session.step s).2.feed := by
  cases h : session.advances s with
  | true => exact (reaches_step_of_advances hReader h).zero
  | false =>
    rw [feed_step_of_not_advances hReader h]
    exact Feed.Reaches.refl session.feed

/-! ## The cursor through a step -/

theorem leads_step (session : Session) (s : Step) :
    session.feed.cursor.Leads (session.step s).2.feed.cursor := by
  cases hReader : s.worksOnCursor with
  | false => exact (session.reaches_step hReader).leads
  | true =>
    cases s with
    | advance => exact session.feed.cursor.leads_advance
    | skipBlanks => exact session.feed.cursor.leads_skipBlanks
    | scan => exact session.feed.cursor.leads_scan
    | readNumber => exact session.feed.cursor.leads_readNumber
    | _ => cases hReader

theorem cursor_step_of_not_advances {session : Session} {s : Step} (h : session.advances s = false) :
    (session.step s).2.feed.cursor = session.feed.cursor := by
  cases hReader : s.worksOnCursor with
  | false => rw [feed_step_of_not_advances hReader h]
  | true =>
    cases s with
    | advance => cases h
    | skipBlanks => exact Cursor.skipBlanks_of_ne (of_decide_eq_false h)
    | scan => exact Cursor.left_scan_of_eq_false h
    | readNumber => exact Cursor.left_readNumber_of_eq_false h
    | _ => cases hReader

theorem position_step_nonneg {session : Session} {s : Step} (h : session.advances s = true) :
    0 ≤ (session.step s).2.feed.cursor.position := by
  have hLe := (session.leads_step s).position_le
  cases hReader : s.worksOnCursor with
  | false => exact (reaches_step_of_advances hReader h).position_nonneg
  | true =>
    -- Beside a bare advance, each of these needs a character under the cursor.
    cases s with
    | advance => exact session.feed.cursor.position_advance_nonneg
    | skipBlanks =>
      exact Int.le_trans (Cursor.position_nonneg_of_char? (of_decide_eq_true h)) hLe
    | scan =>
      obtain ⟨c, hChar, -⟩ := (Option.any_eq_true _ _).mp (Bool.and_eq_true_iff.mp h).1
      exact Int.le_trans (Cursor.position_nonneg_of_char? hChar) hLe
    | readNumber =>
      obtain ⟨c, hChar⟩ := Option.isSome_iff_exists.mp (Bool.and_eq_true_iff.mp h).1
      exact Int.le_trans (Cursor.position_nonneg_of_char? hChar) hLe
    | _ => cases hReader

/-! ## The cursor through a run -/

theorem leads_after (session : Session) (steps : List Step) :
    session.feed.cursor.Leads (session.after steps).feed.cursor :=
  after_induction (motive := fun later => session.feed.cursor.Leads later.feed.cursor)
    (Cursor.Leads.refl _) fun s _ middle h => h.trans (middle.leads_step s)

theorem line_after_ofLine (line : String) (steps : List Step) :
    ((ofLine line).after steps).feed.cursor.line = line.toList :=
  ((ofLine line).leads_after steps).line_eq

theorem position_after_of_advanced {session : Session} {steps : List Step}
    (h : session.advanced steps = true) : 0 ≤ (session.after steps).feed.cursor.position := by
  induction steps generalizing session with
  | nil => cases h
  | cons s steps ih =>
    rw [after_cons]
    rcases Bool.or_eq_true_iff.mp h with hFirst | hLater
    · exact Int.le_trans (position_step_nonneg hFirst) (leads_after _ steps).position_le
    · exact ih hLater

theorem cursor_after_of_not_advanced {session : Session} {steps : List Step}
    (h : session.advanced steps = false) :
    (session.after steps).feed.cursor = session.feed.cursor := by
  induction steps generalizing session with
  | nil => rfl
  | cons s steps ih =>
    obtain ⟨hFirst, hLater⟩ := Bool.or_eq_false_iff.mp h
    rw [after_cons, ih hLater, cursor_step_of_not_advances hFirst]

/-- However a session on a line goes on, the cursor stays on the line and keeps the character at its
place. Each step moves it by advancing, some number of times, so it never goes back; a call for the
next token gets it on, up to the end. It stands in front of the line as long as no step has made
it advance. -/
theorem place_after_steps (line : String) (steps : List Step) :
    let session := (ofLine line).after steps
    let place (session : Session) : Int := session.feed.cursor.position
    session.feed.cursor.line = line.toList ∧
    session.feed.cursor.mark.Rests line.toList ∧
    (∀ s, place session ≤ place (session.step s).2) ∧
    (∀ s, ∃ n, (session.step s).2.feed.cursor.mark =
      (Mark.advance line.toList)^[n] session.feed.cursor.mark) ∧
    0 ≤ place (session.step .nextToken).2 ∧
    (place (session.step .nextToken).2 = line.length ∨
      place session < place (session.step .nextToken).2) ∧
    (place session = -1 ↔ (ofLine line).advanced steps = false) := by
  intro session place
  have hLine : session.feed.cursor.line = line.toList := line_after_ofLine line steps
  have hNext := session.feed.cursor.position_nextToken
  rw [hLine, String.length_toList] at hNext
  refine ⟨hLine, hLine ▸ session.feed.cursor.rests, ?_, ?_, hNext.1, hNext.2, ?_⟩
  · intro s
    exact (session.leads_step s).position_le
  · intro s
    obtain ⟨n, hAdvance⟩ := session.leads_step s
    refine ⟨n, ?_⟩
    rw [← hAdvance, Cursor.mark_iterate_advance, hLine]
  · cases hAdvanced : (ofLine line).advanced steps with
    | true =>
      have hPlace : 0 ≤ place session := position_after_of_advanced hAdvanced
      refine iff_of_false ?_ nofun
      omega
    | false =>
      have hCursor : session.feed.cursor = (ofLine line).feed.cursor :=
        cursor_after_of_not_advanced hAdvanced
      have hPlace : place session = -1 := congrArg Cursor.position hCursor
      exact iff_of_true hPlace rfl

end Session

end Reckoner
