import Reckoner.Proofs.Calls
import Reckoner.Proofs.Grammar
import Reckoner.Reckoning

/-!
# What a reckoning sees

A reckoning sees its lookahead and the items behind it, up to the end. Going past the lookahead
uncovers the next item, which becomes the lookahead if it is a token and stops the reckoning if it
is a fault.
-/

set_option autoImplicit false

namespace Reckoner.Reckoning

open Grammar

/-- The lookahead with the items behind it. An end that the cursor is at is not told twice. -/
def ahead (state : Reckoning) : List Item :=
  .ok state.lookahead ::
    if state.lookahead.lexeme = .eof ∧ state.feed.cursor.unread = [] then []
    else state.feed.cursor.ahead

theorem lookahead_of_ahead {state : Reckoning} {t : Token} {others : List Item}
    (h : state.ahead = .ok t :: others) : state.lookahead = t :=
  Except.ok.inj (List.cons.inj h).1

theorem ahead_of_ne_eof {state : Reckoning} (h : state.lookahead.lexeme ≠ .eof) :
    state.ahead = .ok state.lookahead :: state.feed.cursor.ahead := by
  rw [ahead, if_neg fun hEof => h hEof.1]

theorem ahead_of_pull {feed next : Feed} {t : Token} (h : feed.pull = ⟨.ok t, next⟩) :
    feed.cursor.ahead = ahead ⟨next, t⟩ := by
  have hNext := Feed.nextToken_of_pull h
  by_cases hEof : t.lexeme = .eof
  · have hEnding : Item.isEnding feed.cursor.nextToken.result = true := by
      rw [hNext]
      exact decide_eq_true hEof
    have hUnread := Cursor.unread_of_isEnding hEnding
    rw [hNext] at hUnread
    rw [Cursor.ahead_eq_ite, if_pos hEnding, hNext, ahead, if_pos ⟨hEof, hUnread⟩]
  · rw [Cursor.ahead_of_nextToken hNext (decide_eq_false hEof), ahead_of_ne_eof hEof]

theorem ahead_of_pull_error {feed next : Feed} {fault : Fault}
    (h : feed.pull = ⟨.error fault, next⟩) :
    feed.cursor.ahead = .error fault :: next.cursor.ahead :=
  Cursor.ahead_of_nextToken (Feed.nextToken_of_pull h) rfl

/-- Either the next item is a token and becomes the lookahead, or it is a fault. -/
theorem ahead_shift (state : Reckoning) :
    (∃ next, state.shift = ⟨.ok (), next⟩ ∧ state.feed.cursor.ahead = next.ahead) ∨
      ∃ fault next, state.shift = ⟨.error fault, next⟩ ∧ next.lookahead = state.lookahead ∧
        state.feed.cursor.ahead = .error fault :: next.feed.cursor.ahead := by
  rcases hPull : state.feed.pull with ⟨fault | t, feed⟩
  · refine .inr ⟨fault, ⟨feed, state.lookahead⟩, ?_, rfl, ahead_of_pull_error hPull⟩
    rw [shift, hPull]
  · refine .inl ⟨⟨feed, t⟩, ?_, ahead_of_pull hPull⟩
    rw [shift, hPull]

theorem ahead_of_shift {state next : Reckoning} {u : Unit} (h : state.shift = ⟨.ok u, next⟩)
    (hLookahead : state.lookahead.lexeme ≠ .eof) :
    state.ahead = .ok state.lookahead :: next.ahead := by
  rw [ahead_of_ne_eof hLookahead]
  rcases state.ahead_shift with ⟨_, hShift, hAhead⟩ | ⟨_, _, hShift, _⟩
  · rw [hAhead]
    cases hShift.symm.trans h
    rfl
  · cases hShift.symm.trans h

theorem ahead_of_shift_error {state next : Reckoning} {fault : Fault}
    (h : state.shift = ⟨.error fault, next⟩) (hLookahead : state.lookahead.lexeme ≠ .eof) :
    state.ahead = .ok state.lookahead :: .error fault :: next.feed.cursor.ahead := by
  rw [ahead_of_ne_eof hLookahead]
  rcases state.ahead_shift with ⟨_, hShift, _⟩ | ⟨_, _, hShift, _, hAhead⟩
  · cases hShift.symm.trans h
  · rw [hAhead]
    cases hShift.symm.trans h
    rfl

theorem shift_of_ahead {state : Reckoning} {u : Token} {others : List Item}
    (h : state.ahead = .ok state.lookahead :: .ok u :: others) :
    ∃ next, state.shift = ⟨.ok (), next⟩ ∧ next.ahead = .ok u :: others := by
  have hAhead : state.feed.cursor.ahead = .ok u :: others := by
    rw [ahead] at h
    split at h
    · cases h
    · exact (List.cons.inj h).2
  rcases state.ahead_shift with ⟨next, hShift, hNext⟩ | ⟨_, _, _, _, hFault⟩
  · exact ⟨next, hShift, hNext.symm.trans hAhead⟩
  · cases hFault.symm.trans hAhead

theorem unread_of_ahead {state : Reckoning} {u : Token} (h : state.ahead = [.ok u]) :
    state.feed.cursor.unread = [] := by
  rw [ahead] at h
  split at h
  · next hEnd => exact hEnd.2
  · rw [Cursor.ahead_eq_ite] at h
    cases h

/-- A reckoning that sees nothing but the end can go past it. -/
theorem expect_eof_of_ahead {state : Reckoning} {u : Token} (h : state.ahead = [.ok u])
    (hEof : u.lexeme = .eof) : ∃ next, state.expect .eof = ⟨.ok none, next⟩ := by
  obtain rfl := lookahead_of_ahead h
  have hKind : state.lookahead.kind = .eof := congrArg Lexeme.kind hEof
  have hValue : state.lookahead.value? = none := congrArg Lexeme.value? hEof
  have hResult := Feed.result_pull_of_nil (unread_of_ahead h)
  rcases hPull : state.feed.pull with ⟨fault | t, feed⟩
  · rw [hPull] at hResult
    cases hResult
  · refine ⟨⟨feed, t⟩, ?_⟩
    rw [expect, if_pos hKind, shift, hPull, Outcome.map_ok, hValue]

theorem eof_of_expect {state next : Reckoning} {v : Option Nat}
    (h : state.expect .eof = ⟨.ok v, next⟩) : state.lookahead.lexeme = .eof := by
  unfold expect at h
  split at h
  · next hKind => exact Lexeme.kind_eq_eof_iff.mp hKind
  · cases h

/-! ## Loops

The operators of a level lead to one step each, which is the same up to the operator. -/

theorem product_of_scaling {o : Scaling} {result : Rat} {state : Reckoning}
    (h : state.lookahead.lexeme = o.lexeme) :
    state.product result = (state.after factor).andThen fun q next =>
      if o = .per ∧ q = 0 then ⟨.error (.divisionByZero state.lookahead.location), next⟩
      else next.product (o.apply result q) := by
  cases o with
  | times =>
    rw [product_of_star h]
    simp only [reduceCtorEq, false_and, if_false]
    rfl
  | per =>
    rw [product_of_slash h]
    simp only [true_and]
    rfl

theorem product_of_ne_scaling {result : Rat} {state : Reckoning}
    (h : ∀ o : Scaling, state.lookahead.lexeme ≠ o.lexeme) :
    state.product result = ⟨.ok result, state⟩ :=
  product_of_ne (h .times) (h .per)

theorem product_induction {motive : Rat → Reckoning → Prop}
    (scaling : ∀ (o : Scaling) result state, state.lookahead.lexeme = o.lexeme →
      (∀ q next, state.after factor = ⟨.ok q, next⟩ → motive (o.apply result q) next) →
      motive result state)
    (done : ∀ result state, (∀ o : Scaling, state.lookahead.lexeme ≠ o.lexeme) →
      motive result state)
    (result : Rat) (state : Reckoning) : motive result state := by
  induction hRemaining : state.remaining using Nat.strongRecOn generalizing result state with
  | ind n ih =>
    subst hRemaining
    by_cases hScaling : ∃ o : Scaling, state.lookahead.lexeme = o.lexeme
    · obtain ⟨o, hLexeme⟩ := hScaling
      exact scaling o result state hLexeme fun q next h =>
        ih _ (consumes_factor.remaining_lt_of_after h) _ _ rfl
    · exact done result state (not_exists.mp hScaling)

theorem sum_of_shift {o : Shift} {result : Rat} {state : Reckoning}
    (h : state.lookahead.lexeme = o.lexeme) :
    state.sum result =
      (state.after term).andThen fun q next => next.sum (o.apply result q) := by
  cases o with
  | plus => exact sum_of_plus h
  | minus => exact sum_of_minus h

theorem sum_of_ne_shift {result : Rat} {state : Reckoning}
    (h : ∀ o : Shift, state.lookahead.lexeme ≠ o.lexeme) : state.sum result = ⟨.ok result, state⟩ :=
  sum_of_ne (h .plus) (h .minus)

theorem sum_induction {motive : Rat → Reckoning → Prop}
    (shift : ∀ (o : Shift) result state, state.lookahead.lexeme = o.lexeme →
      (∀ q next, state.after term = ⟨.ok q, next⟩ → motive (o.apply result q) next) →
      motive result state)
    (done : ∀ result state, (∀ o : Shift, state.lookahead.lexeme ≠ o.lexeme) → motive result state)
    (result : Rat) (state : Reckoning) : motive result state := by
  induction hRemaining : state.remaining using Nat.strongRecOn generalizing result state with
  | ind n ih =>
    subst hRemaining
    by_cases hShift : ∃ o : Shift, state.lookahead.lexeme = o.lexeme
    · obtain ⟨o, hLexeme⟩ := hShift
      exact shift o result state hLexeme fun q next h =>
        ih _ (consumes_term.remaining_lt_of_after h) _ _ rfl
    · exact done result state (not_exists.mp hShift)

end Reckoner.Reckoning
