import Reckoner.Proofs.Lookahead
import Reckoner.Proofs.Travel

/-!
# What readers leave of a feed

A reader changes a feed by pulling from it and in no other way. So the feed that it leaves is told
by the number of its pulls, whatever it makes of the items.
-/

set_option autoImplicit false

namespace Reckoner

namespace Feed

/-- The feed after some number of pulls. -/
def pulls (feed : Feed) : Nat → Feed
  | 0 => feed
  | n + 1 => feed.pull.left.pulls n

theorem pulls_add (feed : Feed) (m n : Nat) : feed.pulls (m + n) = (feed.pulls m).pulls n := by
  induction m generalizing feed with
  | zero => rw [Nat.zero_add, pulls]
  | succ m ih => rw [Nat.succ_add, pulls, pulls, ih]

theorem pulled_pulls (feed : Feed) (n : Nat) :
    (feed.pulls n).pulled.reverse = feed.pulled.reverse ++ (List.range n).map feed.cursor.call := by
  induction n generalizing feed with
  | zero => rw [pulls, List.range_zero, List.map_nil, List.append_nil]
  | succ n ih =>
    have hLater : (List.range n).map (feed.cursor.call ∘ Nat.succ) =
        (List.range n).map feed.pull.left.cursor.call := rfl
    rw [pulls, ih, pulled_left_pull, List.reverse_cons, List.append_assoc, List.range_succ_eq_map,
      List.map_cons, List.map_map, hLater]
    rfl

theorem leads_pulls (feed : Feed) (n : Nat) : feed.cursor.Leads (feed.pulls n).cursor := by
  induction n generalizing feed with
  | zero => exact Cursor.Leads.refl feed.cursor
  | succ n ih => exact feed.cursor.leads_nextToken.trans (ih feed.pull.left)

theorem pulls_succ (feed : Feed) (n : Nat) : feed.pulls (n + 1) = (feed.pulls n).pull.left :=
  feed.pulls_add n 1

theorem position_pulls_nonneg (feed : Feed) (n : Nat) : 0 ≤ (feed.pulls (n + 1)).cursor.position := by
  rw [pulls_succ]
  exact (feed.pulls n).cursor.position_nextToken.1

theorem char?_pulls_ne {feed : Feed} (h : feed.cursor.char? ≠ some ' ') (n : Nat) :
    (feed.pulls n).cursor.char? ≠ some ' ' := by
  cases n with
  | zero => exact h
  | succ n =>
    rw [pulls_succ]
    exact (feed.pulls n).cursor.char?_nextToken_ne

/-- At least some number of pulls lead from the one feed to the other. -/
def Reaches (least : Nat) (feed next : Feed) : Prop := ∃ n, least ≤ n ∧ next = feed.pulls n

theorem Reaches.refl (feed : Feed) : feed.Reaches 0 feed := ⟨0, Nat.le_refl 0, rfl⟩

theorem reaches_pull (feed : Feed) : feed.Reaches 1 feed.pull.left := ⟨1, Nat.le_refl 1, rfl⟩

theorem Reaches.trans {l m : Nat} {feed middle next : Feed} (h : feed.Reaches l middle)
    (hNext : middle.Reaches m next) : feed.Reaches (l + m) next := by
  obtain ⟨n, hn, rfl⟩ := h
  obtain ⟨k, hk, rfl⟩ := hNext
  exact ⟨n + k, Nat.add_le_add hn hk, (feed.pulls_add n k).symm⟩

theorem Reaches.zero {least : Nat} {feed next : Feed} (h : feed.Reaches least next) :
    feed.Reaches 0 next := by
  obtain ⟨n, -, rfl⟩ := h
  exact ⟨n, Nat.zero_le n, rfl⟩

theorem Reaches.leads {least : Nat} {feed next : Feed} (h : feed.Reaches least next) :
    feed.cursor.Leads next.cursor := by
  obtain ⟨n, -, rfl⟩ := h
  exact feed.leads_pulls n

theorem Reaches.position_nonneg {feed next : Feed} (h : feed.Reaches 1 next) :
    0 ≤ next.cursor.position := by
  obtain ⟨n, hn, rfl⟩ := h
  obtain ⟨m, rfl⟩ := Nat.exists_eq_add_of_le' hn
  exact feed.position_pulls_nonneg m

theorem pulls_of_pull {feed next : Feed} {item : Item} (h : feed.pull = ⟨item, next⟩) (n : Nat) :
    feed.pulls (n + 1) = next.pulls n := by
  rw [pulls, h]

theorem pulled_of_pull {feed next : Feed} {item : Item} (h : feed.pull = ⟨item, next⟩) :
    next.pulled.reverse = feed.pulled.reverse ++ [item] := by
  have hPulled := feed.pulled_left_pull
  rw [h] at hPulled
  rw [hPulled, List.reverse_cons]

/-- All tokens are pulled up to the end or a fault, and this one as well. -/
theorem drain_pulls (feed : Feed) : ∃ (ts : List Token) (last : Item),
    feed.drain.left = feed.pulls (ts.length + 1) ∧
    feed.drain.left.pulled.reverse = feed.pulled.reverse ++ (ts.map .ok ++ [last]) ∧
    (∀ t ∈ ts, t.lexeme ≠ .eof) ∧
    (last.isEnding = true ∧ feed.drain.result = .ok ts ∨
      ∃ fault, last = .error fault ∧ feed.drain.result = .error fault) := by
  fun_induction drain feed with
  | case1 feed fault next hPull =>
    exact ⟨[], .error fault, (pulls_of_pull hPull 0).symm, pulled_of_pull hPull,
      fun _ h => absurd h List.not_mem_nil, .inr ⟨fault, rfl, rfl⟩⟩
  | case2 feed t next hPull hEof =>
    exact ⟨[], .ok t, (pulls_of_pull hPull 0).symm, pulled_of_pull hPull,
      fun _ h => absurd h List.not_mem_nil, .inl ⟨decide_eq_true hEof, rfl⟩⟩
  | case3 feed t next hPull hEof _ ih =>
    obtain ⟨ts, last, hLeft, hItems, hTokens, hResult⟩ := ih
    refine ⟨t :: ts, last, ?_, ?_, List.forall_mem_cons.mpr ⟨hEof, hTokens⟩, ?_⟩
    · rw [Outcome.left_map, hLeft, List.length_cons, pulls_of_pull hPull]
    · rw [Outcome.left_map, hItems, pulled_of_pull hPull, List.append_assoc]
      rfl
    · rcases hResult with ⟨hEnding, hOk⟩ | ⟨fault, hFault, hError⟩
      · exact .inl ⟨hEnding, congrArg (Except.map (t :: ·)) hOk⟩
      · exact .inr ⟨fault, hFault, congrArg (Except.map (t :: ·)) hError⟩

theorem reaches_drain (feed : Feed) : feed.Reaches 1 feed.drain.left := by
  obtain ⟨ts, _, hLeft, _⟩ := feed.drain_pulls
  exact ⟨ts.length + 1, Nat.le_add_left 1 ts.length, hLeft⟩

end Feed

/-! ## Reckonings -/

/-- The lexemes that a factor can begin with. -/
def Lexeme.beginsFactor : Lexeme → Bool
  | minus => true
  | number _ => true
  | _ => false

namespace Reckoning

open Grammar

theorem feed_left_shift (state : Reckoning) : state.shift.left.feed = state.feed.pull.left := by
  rcases hPull : state.feed.pull with ⟨fault | t, feed⟩
  · rw [shift, hPull]
  · rw [shift, hPull]

theorem reaches_shift (state : Reckoning) : state.feed.Reaches 1 state.shift.left.feed := by
  rw [feed_left_shift]
  exact state.feed.reaches_pull

theorem reaches_andThen {α β : Type} {least : Nat} {feed : Feed} {outcome : Outcome Reckoning α}
    {next : α → Reckoning → Outcome Reckoning β} (hFirst : feed.Reaches least outcome.left.feed)
    (hNext : ∀ a middle, outcome = ⟨.ok a, middle⟩ → middle.feed.Reaches 0 (next a middle).left.feed) :
    feed.Reaches least (outcome.andThen next).left.feed := by
  obtain ⟨fault | a, middle⟩ := outcome
  · exact hFirst
  · exact hFirst.trans (hNext a middle rfl)

theorem reaches_expect (kind : Kind) (state : Reckoning) :
    state.feed.Reaches 0 (state.expect kind).left.feed := by
  rw [expect]
  split
  · exact state.reaches_shift.zero
  · exact Feed.Reaches.refl state.feed

theorem reaches_number (state : Reckoning) : state.feed.Reaches 0 state.number.left.feed := by
  unfold number
  split
  · exact state.reaches_shift.zero
  · exact Feed.Reaches.refl state.feed

theorem reaches_after {operation : Reckoning → Outcome Reckoning Rat}
    (h : ∀ state : Reckoning, state.feed.Reaches 0 (operation state).left.feed) (state : Reckoning) :
    state.feed.Reaches 1 (state.after operation).left.feed :=
  reaches_andThen state.reaches_shift fun _ middle _ => h middle

/-- An operation that asks for a factor first: a lookahead that none begins with is refused and
stays, and behind any other at least one item is pulled. -/
structure AsksForFactor (operation : Reckoning → Outcome Reckoning Rat) : Prop where
  refuses (state : Reckoning) (h : state.lookahead.lexeme.beginsFactor = false) :
    operation state = ⟨.error (state.mismatch .number), state⟩
  pulls (state : Reckoning) (h : state.lookahead.lexeme.beginsFactor = true) :
    state.feed.Reaches 1 (operation state).left.feed

theorem AsksForFactor.reaches {operation : Reckoning → Outcome Reckoning Rat}
    (h : AsksForFactor operation) (state : Reckoning) :
    state.feed.Reaches 0 (operation state).left.feed := by
  cases hBegins : state.lookahead.lexeme.beginsFactor with
  | false =>
    rw [h.refuses state hBegins]
    exact Feed.Reaches.refl state.feed
  | true => exact (h.pulls state hBegins).zero

theorem AsksForFactor.andThen {operation : Reckoning → Outcome Reckoning Rat}
    (h : AsksForFactor operation) {next : Rat → Reckoning → Outcome Reckoning Rat}
    (hNext : ∀ q (middle : Reckoning), middle.feed.Reaches 0 (next q middle).left.feed) :
    AsksForFactor fun state => (operation state).andThen next where
  refuses state hBegins := by rw [h.refuses state hBegins, Outcome.error_andThen]
  pulls state hBegins := reaches_andThen (h.pulls state hBegins) fun q middle _ => hNext q middle

theorem asksForFactor_factor : AsksForFactor factor where
  refuses state h := by
    cases hLexeme : state.lookahead.lexeme with
    | minus | number =>
      rw [hLexeme] at h
      cases h
    | plus | star | slash | eof => simp only [factor, number, hLexeme]
  pulls state h := by
    cases hLexeme : state.lookahead.lexeme with
    | minus =>
      simp only [factor, hLexeme]
      exact reaches_after reaches_number state
    | number n =>
      simp only [factor, number, hLexeme]
      exact state.reaches_shift
    | plus | star | slash | eof =>
      rw [hLexeme] at h
      cases h

theorem reaches_product (result : Rat) (state : Reckoning) :
    state.feed.Reaches 0 (state.product result).left.feed := by
  induction result, state using product_induction with
  | scaling o result state hLexeme ih =>
    rw [product_of_scaling hLexeme]
    refine reaches_andThen (reaches_after asksForFactor_factor.reaches state).zero ?_
    intro q next hAfter
    split
    · exact Feed.Reaches.refl next.feed
    · exact ih q next hAfter
  | done result state hDone =>
    rw [product_of_ne_scaling hDone]
    exact Feed.Reaches.refl state.feed

theorem asksForFactor_term : AsksForFactor term :=
  asksForFactor_factor.andThen reaches_product

theorem reaches_sum (result : Rat) (state : Reckoning) :
    state.feed.Reaches 0 (state.sum result).left.feed := by
  induction result, state using sum_induction with
  | shift o result state hLexeme ih =>
    rw [sum_of_shift hLexeme]
    exact reaches_andThen (reaches_after asksForFactor_term.reaches state).zero ih
  | done result state hDone =>
    rw [sum_of_ne_shift hDone]
    exact Feed.Reaches.refl state.feed

theorem asksForFactor_expression : AsksForFactor expression :=
  asksForFactor_term.andThen reaches_sum

theorem asksForFactor_evaluate : AsksForFactor evaluate :=
  asksForFactor_expression.andThen fun _ => reaches_expect .eof

end Reckoning

end Reckoner
