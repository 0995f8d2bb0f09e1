import Reckoner.Proofs.Sessions

/-!
# Readers of one feed

Iterators, reckonings and bare calls take turns on one feed in any order. Nothing is lost between
them and nothing is read twice: what they have pulled is always what as many calls on a fresh cursor
bring, and where the cursor stands depends on their number alone. A cursor that only pulls have moved
never rests on a blank, so skipping blanks between two turns changes nothing.
-/

set_option autoImplicit false

namespace Reckoner

/-- The steps that take turns. What is left out works on the cursor past all readers. -/
def Step.takesTurns : Step → Bool
  | .advance | .scan | .readNumber => false
  | _ => true

/-- Whether an iterator is over that has met an item. -/
def Item.isLast : Item → Bool
  | .ok t => t.lexeme = .eof
  | .error _ => true

namespace Session

/-- The answer of a step that succeeds if its one pull does. -/
def answerAfter (success : Answer) : Item → Answer
  | .ok _ => success
  | .error fault => .fault fault

/-- Which items a step pulls, in the order of time, with the answer that it gives and the session
that it leaves. An operation of the grammar pulls as many as it needs, but none for a lookahead that
no factor begins with. -/
def Takes (session : Session) (items : List Item) (answer : Answer) (later : Session) : Step → Prop
  | .nextToken => ∃ item, items = [item] ∧ answer = answerItem item
  | .next age =>
    if session.live[age]? = some true then
      ∃ item, items = [item] ∧ answer = (if item.isEnding then .exhausted else answerItem item) ∧
        later.live[age]? = some (!item.isLast)
    else items = [] ∧ answer = .exhausted
  | .list => ∃ (ts : List Token) (last : Item), items = ts.map .ok ++ [last] ∧
      (∀ t ∈ ts, t.lexeme ≠ .eof) ∧ (last.isEnding = true ∧ answer = .tokens ts ∨
        ∃ fault, last = .error fault ∧ answer = .fault fault)
  | .newReckoning => ∃ item, items = [item] ∧ answer = answerAfter .nothing item ∧
      later.lookahead = item.toOption
  | .expect kind =>
    match session.lookahead with
    | none => items = [] ∧ answer = .noReckoning
    | some t =>
      if t.kind = kind then ∃ item, items = [item] ∧ answer = answerAfter (.matched t.value?) item
      else items = [] ∧ answer = .fault (.unexpectedToken t.kind kind t.location)
  | .factor | .term | .expression | .evaluate =>
    items = [] ↔ (session.lookahead.any fun t => t.lexeme.beginsFactor) = false
  | _ => items = []

/-! ## What one step takes -/

theorem pulled_of_feed_eq_pull {session later : Session} (h : later.feed = session.feed.pull.left) :
    later.feed.pulled.reverse = session.feed.pulled.reverse ++ [session.feed.pull.result] := by
  rw [h, Feed.pulled_left_pull, List.reverse_cons]

theorem pulled_of_feed_eq {session later : Session} (h : later.feed = session.feed) :
    later.feed.pulled.reverse = session.feed.pulled.reverse ++ [] := by
  rw [h, List.append_nil]

theorem pulled_step_of_reader (session : Session) {s : Step} (hReader : s.worksOnCursor = false) :
    ∃ items, (session.step s).2.feed.pulled.reverse = session.feed.pulled.reverse ++ items ∧
      (items = [] ↔ session.advances s = false) := by
  cases hAdvances : session.advances s with
  | false =>
    have hFeed : (session.step s).2.feed = session.feed := feed_step_of_not_advances hReader hAdvances
    exact ⟨[], pulled_of_feed_eq hFeed, iff_of_true rfl rfl⟩
  | true =>
    obtain ⟨n, hn, hFeed⟩ := reaches_step_of_advances hReader hAdvances
    refine ⟨(List.range n).map session.feed.cursor.call, ?_, iff_of_false ?_ nofun⟩
    · rw [hFeed, Feed.pulled_pulls]
    · rw [List.map_eq_nil_iff, List.range_eq_nil]
      exact Nat.one_le_iff_ne_zero.mp hn

theorem next_of_live {session : Session} {age : Nat} (h : session.live[age]? = some true) :
    (session.next age).1 = (if Item.isEnding session.feed.pull.result then .exhausted
      else answerItem session.feed.pull.result) ∧
    (session.next age).2.live[age]? = some (!Item.isLast session.feed.pull.result) := by
  obtain ⟨hLength, -⟩ := List.getElem?_eq_some_iff.mp h
  rw [next, if_pos h]
  rcases session.feed.pull with ⟨fault | t, feed⟩
  · exact ⟨rfl, List.getElem?_set_self hLength⟩
  · dsimp only
    by_cases hEof : t.lexeme = .eof
    · rw [if_pos hEof, Item.isEnding, Item.isLast, decide_eq_true hEof]
      exact ⟨rfl, List.getElem?_set_self hLength⟩
    · rw [if_neg hEof, Item.isEnding, Item.isLast, decide_eq_false hEof]
      exact ⟨rfl, h⟩

theorem newReckoning_of_pull (session : Session) :
    session.newReckoning.1 = answerAfter .nothing session.feed.pull.result ∧
    session.newReckoning.2.lookahead = session.feed.pull.result.toOption := by
  rw [newReckoning]
  rcases session.feed.pull with ⟨_ | _, _⟩ <;> exact ⟨rfl, rfl⟩

theorem list_of_drain {session : Session} {last : Item} {ts : List Token}
    (h : last.isEnding = true ∧ session.feed.drain.result = .ok ts ∨
      ∃ fault, last = .error fault ∧ session.feed.drain.result = .error fault) :
    last.isEnding = true ∧ session.list.1 = .tokens ts ∨
      ∃ fault, last = .error fault ∧ session.list.1 = .fault fault := by
  rcases hDrain : session.feed.drain with ⟨fault | us, feed⟩ <;> rw [list, hDrain] <;> rw [hDrain] at h
  · rcases h with ⟨_, hOk⟩ | ⟨other, hLast, hError⟩
    · cases hOk
    · cases hError
      exact .inr ⟨fault, hLast, rfl⟩
  · rcases h with ⟨hLast, hOk⟩ | ⟨other, _, hError⟩
    · cases hOk
      exact .inl ⟨hLast, rfl⟩
    · cases hError

theorem step_expect_of_kind {session : Session} {t : Token} (hLookahead : session.lookahead = some t) :
    session.step (.expect t.kind) = (answerAfter (.matched t.value?) session.feed.pull.result,
      { session with
        feed := session.feed.pull.left
        lookahead := some (session.feed.pull.result.toOption.getD t) }) := by
  rw [step, reckon, hLookahead]
  simp only [Reckoning.expect, Reckoning.shift, if_true]
  rcases session.feed.pull with ⟨_ | _, _⟩ <;> rfl

theorem expect_of_kind_ne {session : Session} {t : Token} {kind : Kind}
    (hLookahead : session.lookahead = some t) (hKind : t.kind ≠ kind) :
    (session.step (.expect kind)).2.feed = session.feed ∧
    (session.step (.expect kind)).1 = .fault (.unexpectedToken t.kind kind t.location) := by
  have hExpect : Reckoning.expect kind ⟨session.feed, t⟩ =
      ⟨.error (.unexpectedToken t.kind kind t.location), session.feed, t⟩ := if_neg hKind
  rw [step, reckon, hLookahead]
  dsimp only
  rw [hExpect]
  exact ⟨rfl, rfl⟩

theorem takes_step (session : Session) (s : Step) : ∃ items,
    (session.step s).2.feed.pulled.reverse = session.feed.pulled.reverse ++ items ∧
      session.Takes items (session.step s).1 (session.step s).2 s := by
  cases s with
  | advance | skipBlanks | peek | scan | readNumber | newIterator =>
    exact ⟨[], (List.append_nil _).symm, rfl⟩
  | nextToken => exact ⟨_, pulled_of_feed_eq_pull rfl, _, rfl, rfl⟩
  | next age =>
    by_cases hLive : session.live[age]? = some true
    · refine ⟨_, pulled_of_feed_eq_pull (feed_next_of_live hLive), ?_⟩
      rw [Takes, if_pos hLive]
      exact ⟨_, rfl, next_of_live hLive⟩
    · have hNext : session.step (.next age) = (.exhausted, session) := next_of_not_live hLive
      refine ⟨[], ?_, ?_⟩
      · exact pulled_of_feed_eq (congrArg (fun result => result.2.feed) hNext)
      · rw [Takes, if_neg hLive]
        exact ⟨rfl, congrArg Prod.fst hNext⟩
  | list =>
    obtain ⟨ts, last, -, hItems, hTokens, hResult⟩ := session.feed.drain_pulls
    refine ⟨ts.map .ok ++ [last], ?_, ts, last, rfl, hTokens, list_of_drain hResult⟩
    rw [step, feed_list, hItems]
  | newReckoning =>
    exact ⟨_, pulled_of_feed_eq_pull session.feed_newReckoning, _, rfl, session.newReckoning_of_pull⟩
  | expect kind =>
    cases hLookahead : session.lookahead with
    | none =>
      have hNone : session.step (.expect kind) = (.noReckoning, session) := reckon_of_none hLookahead
      refine ⟨[], ?_, ?_⟩
      · exact pulled_of_feed_eq (congrArg (fun result => result.2.feed) hNone)
      · rw [Takes, hLookahead]
        exact ⟨rfl, congrArg Prod.fst hNone⟩
    | some t =>
      by_cases hKind : t.kind = kind
      · subst hKind
        have hStep := step_expect_of_kind hLookahead
        refine ⟨_, pulled_of_feed_eq_pull (congrArg (fun result => result.2.feed) hStep), ?_⟩
        rw [Takes, hLookahead]
        dsimp only
        rw [if_pos rfl]
        exact ⟨_, rfl, congrArg Prod.fst hStep⟩
      · obtain ⟨hFeed, hAnswer⟩ := expect_of_kind_ne hLookahead hKind
        refine ⟨[], pulled_of_feed_eq hFeed, ?_⟩
        rw [Takes, hLookahead]
        dsimp only
        rw [if_neg hKind]
        exact ⟨rfl, hAnswer⟩
  | factor | term | expression | evaluate => exact session.pulled_step_of_reader rfl

/-! ## Iterators that are over -/

theorem live_reckon {α : Type} (operation : Reckoning → Outcome Reckoning α) (answer : α → Answer)
    (session : Session) : (session.reckon operation answer).2.live = session.live := by
  rw [reckon]
  cases session.lookahead with
  | none => rfl
  | some t =>
    dsimp only
    rcases operation ⟨session.feed, t⟩ with ⟨_ | _, _⟩ <;> rfl

theorem live_next_of_not_live {session : Session} {age : Nat} (h : session.live[age]? = some false)
    (other : Nat) : (session.next other).2.live[age]? = some false := by
  by_cases hOther : session.live[other]? = some true
  · have hNe : other ≠ age := by
      rintro rfl
      rw [h] at hOther
      cases hOther
    have hSet : (session.live.set other false)[age]? = some false := by
      rw [List.getElem?_set_ne hNe, h]
    rw [next, if_pos hOther]
    rcases session.feed.pull with ⟨fault | t, feed⟩
    · exact hSet
    · dsimp only
      split
      · exact hSet
      · exact h
  · rw [next_of_not_live hOther]
    exact h

/-- An iterator that is over stays so; it grows older as others are made. -/
theorem live_step_of_not_live {session : Session} {age : Nat} (h : session.live[age]? = some false)
    (s : Step) : (session.step s).2.live[age + [s].count .newIterator]? = some false := by
  cases s with
  | newIterator => exact h
  | next other => exact live_next_of_not_live h other
  | list =>
    change session.list.2.live[age]? = some false
    rw [list]
    rcases session.feed.drain with ⟨_ | _, _⟩ <;> exact h
  | newReckoning =>
    change session.newReckoning.2.live[age]? = some false
    rw [newReckoning]
    rcases session.feed.pull with ⟨_ | _, _⟩ <;> exact h
  | expect | factor | term | expression | evaluate =>
    exact (congrArg (·[age]?) (live_reckon _ _ session)).trans h
  | advance | skipBlanks | peek | nextToken | scan | readNumber => exact h

theorem live_after_of_not_live {session : Session} {age : Nat}
    (h : session.live[age]? = some false) (steps : List Step) :
    (session.after steps).live[age + steps.count .newIterator]? = some false := by
  induction steps generalizing session age with
  | nil => exact h
  | cons s steps ih =>
    have hCount : ([s] ++ steps).count .newIterator =
        [s].count .newIterator + steps.count .newIterator := List.count_append
    rw [after_cons, ← List.singleton_append, hCount, ← Nat.add_assoc]
    exact ih (live_step_of_not_live h s)

/-! ## Turns -/

theorem step_skipBlanks_of_ne {session : Session} (h : session.feed.cursor.char? ≠ some ' ') :
    session.step .skipBlanks = (.nothing, session) := by
  rw [step, Cursor.skipBlanks_of_ne h]
  rfl

theorem char?_pulls_ofLine (line : String) (n : Nat) :
    ((Feed.ofLine line).pulls n).cursor.char? ≠ some ' ' := by
  have hStart : (Feed.ofLine line).cursor.char? ≠ some ' ' := (Option.some_ne_none ' ').symm
  exact Feed.char?_pulls_ne hStart n

theorem feed_after_turns {line : String} {steps : List Step} (h : ∀ s ∈ steps, s.takesTurns = true) :
    ∃ n, ((ofLine line).after steps).feed = (Feed.ofLine line).pulls n := by
  refine after_induction (motive := fun session => ∃ n, session.feed = (Feed.ofLine line).pulls n)
    ⟨0, rfl⟩ ?_
  rintro s hs session ⟨n, hFeed⟩
  cases hReader : s.worksOnCursor with
  | false =>
    obtain ⟨m, -, hStep⟩ := session.reaches_step hReader
    exact ⟨n + m, by rw [hStep, hFeed, Feed.pulls_add]⟩
  | true =>
    have hTurns := h s hs
    cases s with
    | skipBlanks =>
      have hBlank : session.feed.cursor.char? ≠ some ' ' := hFeed ▸ char?_pulls_ofLine line n
      rw [step_skipBlanks_of_ne hBlank]
      exact ⟨n, hFeed⟩
    | advance | scan | readNumber => cases hTurns
    | _ => cases hReader

theorem pulled_pulls_ofLine (line : String) (n : Nat) :
    ((Feed.ofLine line).pulls n).pulled.reverse =
      (List.range n).map (Cursor.before line.toList).call := (Feed.ofLine line).pulled_pulls n

theorem length_pulled_pulls_ofLine (line : String) (n : Nat) :
    ((Feed.ofLine line).pulls n).pulled.length = n := by
  rw [← List.length_reverse, pulled_pulls_ofLine, List.length_map, List.length_range]

/-- Whatever turns the readers of a line take, together they have pulled what as many calls on a fresh
cursor bring, and the feed is as those calls leave it. Each step adds the items that belong to it; a
look at the cursor and skipping blanks change nothing, and an iterator that is over pulls no more. -/
theorem pulled_in_turns (line : String) (steps : List Step)
    (hSteps : ∀ s ∈ steps, s.takesTurns = true) :
    let session := (ofLine line).after steps
    session.feed.pulled.reverse =
      (List.range session.feed.pulled.length).map (Cursor.before line.toList).call ∧
    session.feed = (Feed.ofLine line).pulls session.feed.pulled.length ∧
    (∀ s, ∃ items,
      (session.step s).2.feed.pulled.reverse = session.feed.pulled.reverse ++ items ∧
      session.Takes items (session.step s).1 (session.step s).2 s) ∧
    (session.step .peek).2 = session ∧
    (session.step .skipBlanks).2 = session ∧
    ∀ age, session.live[age]? = some false → ∀ more,
      let later := session.after more
      later.step (.next (age + more.count .newIterator)) = (.exhausted, later) := by
  intro session
  obtain ⟨n, hFeed⟩ : ∃ n, session.feed = (Feed.ofLine line).pulls n := feed_after_turns hSteps
  have hLength : session.feed.pulled.length = n := by
    rw [hFeed, length_pulled_pulls_ofLine]
  have hBlank : session.feed.cursor.char? ≠ some ' ' := hFeed ▸ char?_pulls_ofLine line n
  refine ⟨?_, ?_, session.takes_step, rfl, ?_, ?_⟩
  · rw [hLength, hFeed, pulled_pulls_ofLine]
  · rw [hLength, hFeed]
  · rw [step_skipBlanks_of_ne hBlank]
  · intro age hOver more later
    have hLater : later.live[age + more.count .newIterator]? = some false :=
      live_after_of_not_live hOver more
    apply next_of_not_live
    rw [hLater]
    nofun

theorem pulled_in_turns_of_two_readers :
    let steps : List Step :=
      [.newReckoning, .newIterator, .next 0, .expect .number, .skipBlanks, .next 0, .nextToken]
    (∀ s ∈ steps, s.takesTurns = true) ∧
    ((ofLine "7 + ?").after steps).feed.pulled.reverse =
      (List.range 5).map (Cursor.before "7 + ?".toList).call := by
  intro steps
  have hSteps : ∀ s ∈ steps, s.takesTurns = true := by decide
  have hLength : ((ofLine "7 + ?").after steps).feed.pulled.length = 5 := by decide
  have hPulled := (pulled_in_turns "7 + ?" steps hSteps).1
  rw [hLength] at hPulled
  exact ⟨hSteps, hPulled⟩

end Session

end Reckoner
