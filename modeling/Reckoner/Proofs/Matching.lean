import Reckoner.Proofs.Paths
import Reckoner.Proofs.Pulls

/-!
# Matching tokens

All that an operation does to a reckoning is to match tokens, each of which lets the next item be
pulled. So a fault can come of three things only: a lookahead that is refused, a pull behind the last
token that was matched, or a division by the zero that was matched last.
-/

set_option autoImplicit false

namespace Reckoner

theorem DividesByZero.append {place : Int} {ts : List Token} (h : DividesByZero place ts)
    (us : List Token) : DividesByZero place (us ++ ts) := by
  cases h with
  | intro hSlash hZero =>
    rw [← List.append_assoc]
    exact .intro hSlash hZero

namespace Reckoning

open Grammar

/-- A reckoning that has gone past some tokens, none of which is the end. -/
inductive Matches : Reckoning → List Token → Reckoning → Prop
  | nil (state : Reckoning) : Matches state [] state
  | cons {state middle next : Reckoning} {ts : List Token} (hEof : state.lookahead.lexeme ≠ .eof)
      (hShift : state.shift = ⟨.ok (), middle⟩) (hRest : Matches middle ts next) :
      Matches state (state.lookahead :: ts) next

/-- The faults that can come when some tokens have been matched, with the reckoning that is left. -/
inductive Halts (state : Reckoning) : Fault → Reckoning → Prop
  | token {ts : List Token} {next : Reckoning} {expected : Kind} (hMatches : Matches state ts next)
      (hKind : next.lookahead.kind ≠ expected) : Halts state (next.mismatch expected) next
  | symbol {ts : List Token} {middle next : Reckoning} {fault : Fault}
      (hMatches : Matches state ts middle) (hShift : middle.shift = ⟨.error fault, next⟩) :
      Halts state fault next
  | division {ts : List Token} {next : Reckoning} {place : Int} (hMatches : Matches state ts next)
      (hZero : DividesByZero place ts) : Halts state (.divisionByZero place) next

/-- An outcome is either a value that some matched tokens account for, or a fault. -/
inductive Proceeds (state : Reckoning) {α : Type} (post : α → List Token → Prop) :
    Outcome Reckoning α → Prop
  | ok {a : α} {ts : List Token} {next : Reckoning} (hMatches : Matches state ts next)
      (hPost : post a ts) : Proceeds state post ⟨.ok a, next⟩
  | error {fault : Fault} {next : Reckoning} (hHalts : Halts state fault next) :
      Proceeds state post ⟨.error fault, next⟩

variable {state middle next : Reckoning} {ts us : List Token} {fault : Fault}

theorem Matches.trans (h : Matches state ts middle) (hNext : Matches middle us next) :
    Matches state (ts ++ us) next := by
  induction h with
  | nil => exact hNext
  | cons hEof hShift _ ih => exact .cons hEof hShift (ih hNext)

theorem Matches.feed_eq (h : Matches state ts next) : next.feed = state.feed.pulls ts.length := by
  induction h with
  | nil => rfl
  | @cons state middle _ _ _ hShift _ ih =>
    have hFeed := state.feed_left_shift
    rw [hShift] at hFeed
    rw [ih, List.length_cons, Feed.pulls, ← hFeed]

theorem Matches.halts (h : Matches state ts middle) (hHalts : Halts middle fault next) :
    Halts state fault next := by
  cases hHalts with
  | token hMatches hKind => exact .token (h.trans hMatches) hKind
  | symbol hMatches hShift => exact .symbol (h.trans hMatches) hShift
  | division hMatches hZero => exact .division (h.trans hMatches) (hZero.append ts)

theorem pull_of_shift {u : Unit} (h : state.shift = ⟨.ok u, next⟩) :
    state.feed.pull = ⟨.ok next.lookahead, next.feed⟩ := by
  rw [shift] at h
  rcases hPull : state.feed.pull with ⟨other | t, feed⟩ <;> rw [hPull] at h
  · cases h
  · cases h
    rfl

/-- A pull that fails leaves the lookahead. -/
theorem lookahead_of_shift_error (h : state.shift = ⟨.error fault, next⟩) :
    next.lookahead = state.lookahead ∧ state.feed.pull = ⟨.error fault, next.feed⟩ := by
  rw [shift] at h
  rcases hPull : state.feed.pull with ⟨other | t, feed⟩ <;> rw [hPull] at h
  · cases h
    exact ⟨rfl, rfl⟩
  · cases h

section Proceeds

variable {α β : Type} {post : α → List Token → Prop} {post' : β → List Token → Prop}
  {outcome : Outcome Reckoning α}

theorem Proceeds.exists_matches {a : α} (h : Proceeds state post outcome)
    (hOutcome : outcome = ⟨.ok a, next⟩) : ∃ ts, Matches state ts next ∧ post a ts := by
  cases h with
  | ok hMatches hPost =>
    cases hOutcome
    exact ⟨_, hMatches, hPost⟩
  | error => cases hOutcome

theorem Proceeds.halts (h : Proceeds state post outcome) (hOutcome : outcome = ⟨.error fault, next⟩) :
    Halts state fault next := by
  cases h with
  | ok => cases hOutcome
  | error hHalts =>
    cases hOutcome
    exact hHalts

theorem Proceeds.mono {weaker : α → List Token → Prop} (h : Proceeds state post outcome)
    (hPost : ∀ a ts, post a ts → weaker a ts) : Proceeds state weaker outcome := by
  cases h with
  | ok hMatches hOk => exact .ok hMatches (hPost _ _ hOk)
  | error hHalts => exact .error hHalts

theorem Proceeds.map (h : Proceeds state post outcome) {f : α → β}
    (hPost : ∀ a ts, post a ts → post' (f a) ts) : Proceeds state post' (outcome.map f) := by
  cases h with
  | ok hMatches hOk => exact .ok hMatches (hPost _ _ hOk)
  | error hHalts => exact .error hHalts

theorem Proceeds.andThen (h : Proceeds state post outcome)
    {operation : α → Reckoning → Outcome Reckoning β}
    (hPost : ∀ a ts next, outcome = ⟨.ok a, next⟩ → Matches state ts next → post a ts →
      Proceeds state post' (operation a next)) : Proceeds state post' (outcome.andThen operation) := by
  cases h with
  | ok hMatches hOk => exact hPost _ _ _ rfl hMatches hOk
  | error hHalts => exact .error hHalts

/-- What goes on from a later state goes on from an earlier one. -/
theorem Matches.proceeds (h : Matches state ts middle)
    (hOutcome : Proceeds middle (fun a us => post a (ts ++ us)) outcome) :
    Proceeds state post outcome := by
  cases hOutcome with
  | ok hMatches hPost => exact .ok (h.trans hMatches) hPost
  | error hHalts => exact .error (h.halts hHalts)

end Proceeds

/-! ## The operations -/

/-- Tokens that make up a factor of value zero. -/
def IsZero (ts : List Token) : Prop :=
  ts.map Token.lexeme = [.number 0] ∨ ts.map Token.lexeme = [.minus, .number 0]

theorem proceeds_shift (hEof : state.lookahead.lexeme ≠ .eof) :
    Proceeds state (fun _ ts => ts = [state.lookahead]) state.shift := by
  rcases hShift : state.shift with ⟨fault | _, next⟩
  · exact .error (.symbol (.nil state) hShift)
  · exact .ok (.cons hEof hShift (.nil next)) rfl

theorem proceeds_number (state : Reckoning) :
    Proceeds state (fun (q : Rat) ts => ∃ n : Nat, ts.map Token.lexeme = [.number n] ∧ q = n)
      state.number := by
  cases hLexeme : state.lookahead.lexeme with
  | number n =>
    have hEof : state.lookahead.lexeme ≠ .eof := by simp [hLexeme]
    rw [number, hLexeme]
    refine (proceeds_shift hEof).map ?_
    rintro _ ts rfl
    exact ⟨n, by rw [List.map_singleton, hLexeme], rfl⟩
  | plus | minus | star | slash | eof =>
    have hKind : state.lookahead.kind ≠ .number := by
      rw [Token.kind, hLexeme]
      decide
    rw [number, hLexeme]
    exact .error (.token (.nil state) hKind)

theorem proceeds_after {operation : Reckoning → Outcome Reckoning Rat}
    {post : Rat → List Token → Prop} (hEof : state.lookahead.lexeme ≠ .eof)
    (hOperation : ∀ next, Proceeds next (fun q ts => post q (state.lookahead :: ts)) (operation next)) :
    Proceeds state post (state.after operation) := by
  refine (proceeds_shift hEof).andThen ?_
  rintro _ ts next - hMatches rfl
  exact hMatches.proceeds (hOperation next)

theorem proceeds_factor (state : Reckoning) :
    Proceeds state (fun q ts => q = 0 → IsZero ts) state.factor := by
  cases hLexeme : state.lookahead.lexeme with
  | minus =>
    have hEof : state.lookahead.lexeme ≠ .eof := by simp [hLexeme]
    have hAfter : Proceeds state (fun (q : Rat) ts => ∃ n : Nat,
        ts.map Token.lexeme = [.minus, .number n] ∧ q = n) (state.after number) := by
      refine proceeds_after hEof fun next => next.proceeds_number.mono ?_
      rintro q ts ⟨n, hNumber, hValue⟩
      exact ⟨n, by rw [List.map_cons, hLexeme, hNumber], hValue⟩
    rw [factor, hLexeme]
    refine hAfter.map ?_
    rintro q ts ⟨n, hNumber, rfl⟩ hZero
    obtain rfl : n = 0 := by simpa using hZero
    exact .inr hNumber
  | number | plus | star | slash | eof =>
    rw [factor, hLexeme]
    refine state.proceeds_number.mono ?_
    rintro q ts ⟨n, hNumber, rfl⟩ hZero
    obtain rfl : n = 0 := by simpa using hZero
    exact .inl hNumber

theorem proceeds_product (result : Rat) (state : Reckoning) :
    Proceeds state (fun _ _ => True) (state.product result) := by
  induction result, state using product_induction with
  | scaling o result state hLexeme ih =>
    have hEof : state.lookahead.lexeme ≠ .eof := hLexeme ▸ o.lexeme_ne_eof
    have hFactor : Proceeds state
        (fun q ts => ∃ us, ts = state.lookahead :: us ∧ (q = 0 → IsZero us)) (state.after factor) :=
      proceeds_after hEof fun next => next.proceeds_factor.mono fun q us h => ⟨us, rfl, h⟩
    rw [product_of_scaling hLexeme]
    refine hFactor.andThen ?_
    rintro q _ next hAfter hMatches ⟨divisor, rfl, hZero⟩
    split
    · next hDivision =>
      -- The slash and the divisor are all that this round has matched.
      obtain ⟨rfl, hq⟩ := hDivision
      have hDivides : DividesByZero state.lookahead.location ([] ++ state.lookahead :: divisor) :=
        .intro hLexeme (hZero hq)
      exact .error (.division hMatches hDivides)
    · exact hMatches.proceeds (ih q next hAfter)
  | done result state hDone =>
    rw [product_of_ne_scaling hDone]
    exact .ok (.nil state) trivial

theorem proceeds_term (state : Reckoning) : Proceeds state (fun _ _ => True) state.term := by
  refine state.proceeds_factor.andThen ?_
  intro q ts next _ hMatches _
  exact hMatches.proceeds (proceeds_product q next)

theorem proceeds_sum (result : Rat) (state : Reckoning) :
    Proceeds state (fun _ _ => True) (state.sum result) := by
  induction result, state using sum_induction with
  | shift o result state hLexeme ih =>
    have hEof : state.lookahead.lexeme ≠ .eof := hLexeme ▸ o.lexeme_ne_eof
    have hTerm : Proceeds state (fun _ _ => True) (state.after term) :=
      proceeds_after hEof proceeds_term
    rw [sum_of_shift hLexeme]
    refine hTerm.andThen ?_
    intro q ts next hAfter hMatches _
    exact hMatches.proceeds (ih q next hAfter)
  | done result state hDone =>
    rw [sum_of_ne_shift hDone]
    exact .ok (.nil state) trivial

theorem proceeds_expression (state : Reckoning) :
    Proceeds state (fun _ _ => True) state.expression := by
  refine state.proceeds_term.andThen ?_
  intro q ts next _ hMatches _
  exact hMatches.proceeds (proceeds_sum q next)

theorem halts_of_expect {kind : Kind} (h : state.expect kind = ⟨.error fault, next⟩) :
    Halts state fault next := by
  rw [expect] at h
  split at h
  · exact .symbol (.nil state) (Outcome.map_eq_error_iff.mp h)
  · next hKind =>
    cases h
    exact .token (.nil state) hKind

theorem halts_of_evaluate (h : state.evaluate = ⟨.error fault, next⟩) : Halts state fault next := by
  rw [evaluate] at h
  rcases hExpression : state.expression with ⟨other | q, middle⟩ <;> rw [hExpression] at h
  · cases h
    exact state.proceeds_expression.halts hExpression
  · obtain ⟨ts, hMatches, -⟩ := state.proceeds_expression.exists_matches hExpression
    exact hMatches.halts (halts_of_expect (Outcome.map_eq_error_iff.mp h))

end Reckoning

end Reckoner
