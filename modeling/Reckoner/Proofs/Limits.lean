import Reckoner.Proofs.Aftermath

/-!
# How much is read

A pull uses up a character unless it brings the end, and behind the end nothing goes on but the last
step of an evaluation. So the characters in front of the cursor limit both the rounds of a loop and the
pulls of an operation, whatever has been done to the cursor and the lookahead before.
-/

set_option autoImplicit false

namespace Reckoner

/-- The characters that a cursor has in front of it, counted from its place. -/
theorem Cursor.length_unread (cur : Cursor) :
    (cur.unread.length : Int) = max 0 (cur.line.length - 1 - cur.position) := by
  cases cur with
  | before text =>
    simp only [unread, line_before, position]
    omega
  | on passed c rest =>
    simp only [unread, line_on, position, List.length_append, List.length_reverse, List.length_cons]
    omega
  | past passed =>
    simp only [unread, line_past, position, List.length_reverse, List.length_nil]
    omega

/-! ## Rounds of a loop -/

namespace Outcome

variable {σ α : Type}

/-- Goes round as long as a round asks for another. A loop has no outcome that is not over within the
number of rounds. -/
def loop (round : α → σ → Outcome σ (ForInStep α)) : Nat → α → σ → Option (Outcome σ α)
  | 0, _, _ => none
  | limit + 1, a, s =>
    match round a s with
    | ⟨.ok (.yield b), next⟩ => loop round limit b next
    | ⟨.ok (.done b), next⟩ => some ⟨.ok b, next⟩
    | ⟨.error fault, next⟩ => some ⟨.error fault, next⟩

/-- What comes of a round on a state has an outcome: a round that asks for another leaves less to do, and
what a function answers from there is the outcome. -/
def Follows (left : σ → Nat) (answer : α → σ → Outcome σ α) (s : σ) (outcome : Outcome σ α) :
    Outcome σ (ForInStep α) → Prop
  | ⟨.ok (.yield b), next⟩ => left next < left s ∧ answer b next = outcome
  | ⟨.ok (.done b), next⟩ => ⟨.ok b, next⟩ = outcome
  | ⟨.error fault, next⟩ => ⟨.error fault, next⟩ = outcome

theorem loop_eq_some {round : α → σ → Outcome σ (ForInStep α)} {left : σ → Nat}
    {answer : α → σ → Outcome σ α} (h : ∀ a s, Follows left answer s (answer a s) (round a s))
    {limit : Nat} {s : σ} (hLimit : left s < limit) (a : α) :
    loop round limit a s = some (answer a s) := by
  induction limit generalizing a s with
  | zero => exact absurd hLimit (Nat.not_lt_zero _)
  | succ limit ih =>
    have hRound := h a s
    rw [loop]
    rcases hOutcome : round a s with ⟨fault | b | b, next⟩ <;> rw [hOutcome] at hRound
    · exact congrArg some hRound
    · exact congrArg some hRound
    · obtain ⟨hLess, hAnswer⟩ := hRound
      rw [← hAnswer]
      exact ih (by omega) b

end Outcome

namespace Feed

theorem remaining_lt_of_pull_error {feed next : Feed} {fault : Fault}
    (h : feed.pull = ⟨.error fault, next⟩) : next.remaining < feed.remaining := by
  have hLess := feed.cursor.length_unread_nextToken
  rw [nextToken_of_pull h] at hLess
  simpa [remaining] using hLess

theorem drain_of_error {feed next : Feed} {fault : Fault} (h : feed.pull = ⟨.error fault, next⟩) :
    feed.drain = ⟨.error fault, next⟩ := by
  fun_cases drain feed <;> simp_all

theorem drain_of_ok {feed next : Feed} {t : Token} (h : feed.pull = ⟨.ok t, next⟩) :
    feed.drain = if t.lexeme = .eof then ⟨.ok [], next⟩ else next.drain.map (t :: ·) := by
  fun_cases drain feed <;> simp_all

/-- The tokens so far, and one more unless the end is pulled. -/
def drainRound (ts : List Token) (feed : Feed) : Outcome Feed (ForInStep (List Token)) :=
  feed.pull.map fun t => if t.lexeme = .eof then .done ts else .yield (ts ++ [t])

theorem follows_drainRound (ts : List Token) (feed : Feed) :
    Outcome.Follows remaining (fun ts feed => feed.drain.map (ts ++ ·)) feed
      (feed.drain.map (ts ++ ·)) (drainRound ts feed) := by
  rcases hPull : feed.pull with ⟨fault | t, next⟩
  · rw [drainRound, hPull, drain_of_error hPull]
    rfl
  · rw [drainRound, hPull, drain_of_ok hPull]
    by_cases hEof : t.lexeme = .eof
    · simp [hEof, Outcome.Follows]
    · rw [if_neg hEof, Outcome.map_ok, if_neg hEof]
      refine ⟨remaining_lt_of_pull hPull hEof, ?_⟩
      dsimp only
      rcases next.drain with ⟨fault | us, left⟩
      · rfl
      · simp

end Feed

namespace Reckoning

/-- A factor more behind an operator of a product. -/
def productRound (result : Rat) (state : Reckoning) : Outcome Reckoning (ForInStep Rat) :=
  match state.lookahead.lexeme with
  | .star => (state.after factor).map fun q => .yield (result * q)
  | .slash =>
    (state.after factor).andThen fun q next =>
      if q = 0 then ⟨.error (.divisionByZero state.lookahead.location), next⟩
      else ⟨.ok (.yield (result / q)), next⟩
  | _ => ⟨.ok (.done result), state⟩

/-- A term more behind an operator of a sum. -/
def sumRound (result : Rat) (state : Reckoning) : Outcome Reckoning (ForInStep Rat) :=
  match state.lookahead.lexeme with
  | .plus => (state.after term).map fun q => .yield (result + q)
  | .minus => (state.after term).map fun q => .yield (result - q)
  | _ => ⟨.ok (.done result), state⟩

theorem follows_productRound (result : Rat) (state : Reckoning) :
    Outcome.Follows remaining product state (state.product result) (state.productRound result) := by
  cases hLexeme : state.lookahead.lexeme with
  | star =>
    rw [product_of_star hLexeme, productRound, hLexeme]
    rcases hAfter : state.after factor with ⟨fault | q, next⟩
    · rfl
    · exact ⟨consumes_factor.remaining_lt_of_after hAfter, rfl⟩
  | slash =>
    rw [product_of_slash hLexeme, productRound, hLexeme]
    rcases hAfter : state.after factor with ⟨fault | q, next⟩
    · rfl
    · by_cases hZero : q = 0
      · simp [hZero, Outcome.Follows]
      · simp only [Outcome.ok_andThen, hZero, if_false]
        exact ⟨consumes_factor.remaining_lt_of_after hAfter, rfl⟩
  | number | plus | minus | eof =>
    rw [product_of_ne (by simp [hLexeme]) (by simp [hLexeme]), productRound, hLexeme]
    rfl

theorem follows_sumRound (result : Rat) (state : Reckoning) :
    Outcome.Follows remaining sum state (state.sum result) (state.sumRound result) := by
  cases hLexeme : state.lookahead.lexeme with
  | plus =>
    rw [sum_of_plus hLexeme, sumRound, hLexeme]
    rcases hAfter : state.after term with ⟨fault | q, next⟩
    · rfl
    · exact ⟨consumes_term.remaining_lt_of_after hAfter, rfl⟩
  | minus =>
    rw [sum_of_minus hLexeme, sumRound, hLexeme]
    rcases hAfter : state.after term with ⟨fault | q, next⟩
    · rfl
    · exact ⟨consumes_term.remaining_lt_of_after hAfter, rfl⟩
  | number | star | slash | eof =>
    rw [sum_of_ne (by simp [hLexeme]) (by simp [hLexeme]), sumRound, hLexeme]
    rfl

/-! ## Pulls of an operation -/

variable {state middle next : Reckoning} {ts : List Token} {fault : Fault}

theorem remaining_lt_of_shift_error (h : state.shift = ⟨.error fault, next⟩) :
    next.remaining < state.remaining :=
  Feed.remaining_lt_of_pull_error (lookahead_of_shift_error h).2

/-- The tokens that have been matched were pulled one behind the other. Only the last pull need not
have used up a character, and only if it brought the end. -/
theorem Matches.length_add_remaining_le (h : Matches state ts next) :
    ts.length + next.remaining ≤
      state.remaining + if next.lookahead.lexeme = .eof then 1 else 0 := by
  induction h with
  | nil => simp
  | @cons state middle next ts hEof hShift hRest ih =>
    have hLe := state.remaining_shift_le
    rw [hShift] at hLe
    by_cases hMiddle : middle.lookahead.lexeme = .eof
    · cases hRest with
      | nil => simp [hMiddle, Nat.add_comm, hLe]
      | cons hNot => exact absurd hMiddle hNot
    · have hLess := remaining_lt_of_shift hShift hMiddle
      rw [List.length_cons]
      omega

theorem Matches.length_le (h : Matches state ts next) :
    ts.length + next.remaining ≤ state.remaining + 1 := by
  have hLe := h.length_add_remaining_le
  split at hLe <;> omega

theorem Halts.exists_pulls (h : Halts state fault next) :
    ∃ n ≤ state.remaining + 1, next.feed = state.feed.pulls n := by
  cases h with
  | @token ts _ _ hMatches _ =>
    have hLe := hMatches.length_le
    exact ⟨ts.length, by omega, hMatches.feed_eq⟩
  | @division ts _ _ hMatches _ =>
    have hLe := hMatches.length_le
    exact ⟨ts.length, by omega, hMatches.feed_eq⟩
  | @symbol ts middle _ _ hMatches hShift =>
    -- The pull that failed has used up the symbol.
    have hLe := hMatches.length_le
    have hLess := remaining_lt_of_shift_error hShift
    have hFeed := middle.feed_left_shift
    rw [hShift] at hFeed
    refine ⟨ts.length + 1, by omega, ?_⟩
    rw [Feed.pulls_succ, ← hMatches.feed_eq, ← hFeed]

theorem Proceeds.exists_pulls {α : Type} {post : α → List Token → Prop} {outcome : Outcome Reckoning α}
    (h : Proceeds state post outcome) :
    ∃ n ≤ state.remaining + 1, outcome.left.feed = state.feed.pulls n := by
  cases h with
  | @ok _ ts _ hMatches _ =>
    have hLe := hMatches.length_le
    exact ⟨ts.length, by omega, hMatches.feed_eq⟩
  | error hHalts => exact hHalts.exists_pulls

theorem exists_pulls_expect (kind : Kind) (state : Reckoning) :
    ∃ n ≤ 1, (state.expect kind).left.feed = state.feed.pulls n := by
  rw [expect]
  split
  · exact ⟨1, Nat.le_refl 1, state.feed_left_shift⟩
  · exact ⟨0, Nat.zero_le 1, rfl⟩

theorem exists_pulls_evaluate (state : Reckoning) :
    ∃ n ≤ state.remaining + 2, state.evaluate.left.feed = state.feed.pulls n := by
  obtain ⟨m, hm, hExpression⟩ := state.proceeds_expression.exists_pulls
  rw [evaluate]
  rcases hOutcome : state.expression with ⟨fault | q, middle⟩ <;> rw [hOutcome] at hExpression
  · exact ⟨m, by omega, hExpression⟩
  · obtain ⟨n, hn, hExpect⟩ := exists_pulls_expect .eof middle
    refine ⟨m + n, by omega, ?_⟩
    rw [Outcome.ok_andThen, Outcome.left_map, hExpect, hExpression, Feed.pulls_add]

end Reckoning

namespace Feed

theorem length_pulled_pulls (feed : Feed) (n : Nat) :
    (feed.pulls n).pulled.length = feed.pulled.length + n := by
  have hLength := congrArg List.length (feed.pulled_pulls n)
  simpa using hLength

theorem exists_pulls_drain (feed : Feed) : ∃ n ≤ feed.remaining + 1, feed.drain.left = feed.pulls n := by
  fun_induction drain feed with
  | case1 feed fault next hPull => exact ⟨1, by omega, (pulls_of_pull hPull 0).symm⟩
  | case2 feed t next hPull hEof => exact ⟨1, by omega, (pulls_of_pull hPull 0).symm⟩
  | case3 feed t next hPull hEof hLess ih =>
    obtain ⟨n, hn, hLeft⟩ := ih
    refine ⟨n + 1, by omega, ?_⟩
    rw [Outcome.left_map, hLeft, pulls_of_pull hPull]

end Feed

namespace Session

/-! ## Readers of a session -/

theorem exists_pulls_step {session : Session} {s : Step} (hReckons : s.reckons = true)
    (hSome : session.lookahead.isSome = true) :
    ∃ n ≤ session.feed.remaining + (if s = .evaluate then 2 else 1),
      (session.step s).2.feed = session.feed.pulls n := by
  obtain ⟨t, hLookahead⟩ := Option.isSome_iff_exists.mp hSome
  cases s with
  | expect kind =>
    obtain ⟨n, hn, hFeed⟩ := Reckoning.exists_pulls_expect kind ⟨session.feed, t⟩
    refine ⟨n, by simp; omega, ?_⟩
    rw [step, feed_reckon_of_some hLookahead, hFeed]
  | factor =>
    rw [step, feed_reckon_of_some hLookahead]
    exact (Reckoning.proceeds_factor ⟨session.feed, t⟩).exists_pulls
  | term =>
    rw [step, feed_reckon_of_some hLookahead]
    exact (Reckoning.proceeds_term ⟨session.feed, t⟩).exists_pulls
  | expression =>
    rw [step, feed_reckon_of_some hLookahead]
    exact (Reckoning.proceeds_expression ⟨session.feed, t⟩).exists_pulls
  | evaluate =>
    rw [step, feed_reckon_of_some hLookahead]
    exact Reckoning.exists_pulls_evaluate ⟨session.feed, t⟩
  | _ => cases hReckons

theorem isLast_eq_false {item : Item} (h : item.isLast = false) :
    ∃ t, item = .ok t ∧ t.lexeme ≠ .eof := by
  cases item with
  | ok t => exact ⟨t, rfl, of_decide_eq_false h⟩
  | error => cases h

/-- An iterator that is asked again and again is over when it has pulled the end or a fault. -/
theorem exists_nexts (session : Session) (age : Nat) : ∃ n ≤ session.feed.remaining + 1,
    let later := session.after (List.replicate n (.next age))
    later.live[age]? ≠ some true ∧ later.feed = session.feed.pulls n := by
  induction hRemaining : session.feed.remaining using Nat.strongRecOn generalizing session with
  | ind m ih =>
    subst hRemaining
    by_cases hLive : session.live[age]? = some true
    · have hFeed := feed_next_of_live hLive
      have hNext := (next_of_live hLive).2
      cases hLast : Item.isLast session.feed.pull.result with
      | true =>
        rw [hLast] at hNext
        refine ⟨1, Nat.le_add_left 1 _, ?_, hFeed⟩
        change (session.next age).2.live[age]? ≠ some true
        simp [hNext]
      | false =>
        obtain ⟨t, hItem, hEof⟩ := isLast_eq_false hLast
        have hLess : (session.next age).2.feed.remaining < session.feed.remaining := by
          rw [hFeed]
          exact Feed.remaining_lt_of_pull (congrArg (Outcome.mk · session.feed.pull.left) hItem) hEof
        obtain ⟨n, hn, hOver, hLater⟩ := ih _ hLess (session.next age).2 rfl
        refine ⟨n + 1, by omega, hOver, ?_⟩
        rw [hFeed] at hLater
        exact hLater
    · exact ⟨0, Nat.zero_le _, hLive, rfl⟩

/-- From any state of a session with a reckoning, an operation pulls no more items than there are
characters in front of the cursor, with one more for the end, and with a second one if it is an evaluation.
Draining the feed or asking an iterator until it is over takes no more pulls than that, and the loops are
over in as many rounds: that of draining, that of a product and, with products inside, that of a sum. -/
theorem pulls_of_readers (line : String) (steps : List Step) :
    let session := (ofLine line).after steps
    let left : Int := max 0 (line.length - 1 - session.feed.cursor.position)
    (∀ s, s.reckons = true → session.lookahead.isSome = true → ∃ n : Nat,
      n ≤ left + (if s = .evaluate then 2 else 1) ∧
      (session.step s).2.feed = session.feed.pulls n ∧
      (session.step s).2.feed.pulled.length = session.feed.pulled.length + n) ∧
    (∃ n : Nat, n ≤ left + 1 ∧ (session.step .list).2.feed = session.feed.pulls n) ∧
    (∀ age, ∃ n : Nat, n ≤ left + 1 ∧
      let later := session.after (List.replicate n (.next age))
      later.feed = session.feed.pulls n ∧ later.step (.next age) = (.exhausted, later)) ∧
    (∀ limit : Nat, left < limit →
      Outcome.loop Feed.drainRound limit [] session.feed = some session.feed.drain) ∧
    ∀ (state : Reckoning) (result : Rat) (limit : Nat), state.remaining < limit →
      Outcome.loop Reckoning.productRound limit result state = some (state.product result) ∧
      Outcome.loop Reckoning.sumRound limit result state = some (state.sum result) := by
  intro session left
  have hLine : session.feed.cursor.line.length = line.length := by
    rw [line_after_ofLine line steps, String.length_toList]
  have hLeft : (session.feed.remaining : Int) = left := by
    have h := session.feed.cursor.length_unread
    rwa [hLine] at h
  refine ⟨?_, ?_, ?_, ?_, ?_⟩
  · intro s hReckons hSome
    obtain ⟨n, hn, hFeed⟩ := exists_pulls_step hReckons hSome
    refine ⟨n, ?_, hFeed, ?_⟩
    · by_cases hEvaluate : s = .evaluate
      · rw [if_pos hEvaluate] at hn ⊢
        omega
      · rw [if_neg hEvaluate] at hn ⊢
        omega
    · rw [hFeed, Feed.length_pulled_pulls]
  · obtain ⟨n, hn, hFeed⟩ := session.feed.exists_pulls_drain
    exact ⟨n, by omega, session.feed_list.trans hFeed⟩
  · intro age
    obtain ⟨n, hn, hOver, hFeed⟩ := session.exists_nexts age
    exact ⟨n, by omega, hFeed, next_of_not_live hOver⟩
  · intro limit hLimit
    rw [Outcome.loop_eq_some Feed.follows_drainRound (by omega) []]
    rcases session.feed.drain with ⟨_ | _, _⟩ <;> rfl
  · intro state result limit hLimit
    exact ⟨Outcome.loop_eq_some Reckoning.follows_productRound hLimit result,
      Outcome.loop_eq_some Reckoning.follows_sumRound hLimit result⟩

/-- With no character in front of the cursor, an evaluation still pulls twice. -/
example : ((ofLine "1").after [.newReckoning, .evaluate]).feed.pulled.length = 3 := by decide +kernel

end Session

end Reckoner
