import Reckoner.Proofs.Valuation

/-!
# Which fault a line has

Three kinds of fault compete for a line: a symbol that is unrecognized, a token out of place, and a
division by zero. Which of them is found is said by an automaton that takes the items one by one.
What a token leads to is settled when the item behind it has been fetched, so an unrecognized symbol
behind a divisor that is zero comes before the division, and the division comes before whatever else
is wrong with the item behind it.
-/

set_option autoImplicit false

namespace Reckoner

open Grammar Reading

namespace Automaton

/-- A factor to come is a divisor if it stands behind a slash, the place of which is kept. -/
inductive State where
  | needFactor (slash? : Option Int)
  | needNumber (slash? : Option Int)
  | afterFactor
  deriving DecidableEq, Repr

/-- A token is matched, and may complete a divisor that is zero, or it ends the run. -/
inductive Move where
  | go (state : State) (zeroBehind? : Option Int)
  | accept
  | refuse (expected : Kind)
  deriving DecidableEq, Repr

def State.move : State → Token → Move
  | needFactor slash?, t =>
    match t.lexeme with
    | .minus => .go (needNumber slash?) none
    | .number n => .go afterFactor (if n = 0 then slash? else none)
    | _ => .refuse .number
  | needNumber slash?, t =>
    match t.lexeme with
    | .number n => .go afterFactor (if n = 0 then slash? else none)
    | _ => .refuse .number
  | afterFactor, t =>
    match t.lexeme with
    | .number _ => .refuse .eof
    | .eof => .accept
    | .slash => .go (needFactor (some t.location)) none
    | _ => .go (needFactor none) none

/-- The fault that a run over some items ends with. -/
def run (state : State) : List Item → Option Fault
  | [] => none
  | .error fault :: _ => some fault
  | .ok t :: items =>
    match state.move t with
    | .accept => none
    | .refuse expected => some (.unexpectedToken t.kind expected t.location)
    | .go next zeroBehind? =>
      match items, zeroBehind? with
      | .error fault :: _, _ => some fault
      | _, some place => some (.divisionByZero place)
      | _, none => run next items

/-- The items up to the first that is a fault, and that one. -/
def untilFault : List Item → List Item
  | [] => []
  | .error fault :: _ => [.error fault]
  | .ok t :: items => .ok t :: untilFault items

/-- The fault that the items of a line lead to. -/
def verdict (items : List Item) : Option Fault := run (.needFactor none) (untilFault items)

theorem run_untilFault (state : State) (items : List Item) :
    run state (untilFault items) = run state items := by
  induction items generalizing state with
  | nil => rfl
  | cons item items ih =>
    cases item with
    | error fault => rfl
    | ok t =>
      rw [untilFault, run, run]
      cases state.move t with
      | accept | refuse => rfl
      | go next zeroBehind? =>
        cases items with
        | nil => rfl
        | cons other items =>
          cases other with
          | error fault => rfl
          | ok u => cases zeroBehind? <;> simp only [untilFault] at ih ⊢; exact ih next

end Automaton

namespace Outcome

variable {σ α β : Type}

/-- The fault of an outcome, or else of what is done next. -/
def verdict (outcome : Outcome σ α) (next : α → σ → Option Fault) : Option Fault :=
  match outcome with
  | ⟨.ok a, s⟩ => next a s
  | ⟨.error fault, _⟩ => some fault

theorem verdict_none_eq_some_iff {outcome : Outcome σ α} {fault : Fault} :
    (outcome.verdict fun _ _ => none) = some fault ↔ outcome.result = .error fault := by
  obtain ⟨other | a, s⟩ := outcome
  · constructor
    · intro h
      rw [Option.some.inj h]
    · intro h
      rw [Except.error.inj h]
      rfl
  · constructor
    · intro h
      cases h
    · intro h
      cases h

theorem verdict_none_eq_none_iff {outcome : Outcome σ α} :
    (outcome.verdict fun _ _ => none) = none ↔ ∃ a, outcome.result = .ok a := by
  obtain ⟨fault | a, s⟩ := outcome
  · constructor
    · intro h
      cases h
    · rintro ⟨_, h⟩
      cases h
  · exact ⟨fun _ => ⟨a, rfl⟩, fun _ => rfl⟩

@[simp] theorem verdict_ok (a : α) (s : σ) (next : α → σ → Option Fault) :
    verdict ⟨.ok a, s⟩ next = next a s := rfl

@[simp] theorem verdict_error (fault : Fault) (s : σ) (next : α → σ → Option Fault) :
    verdict ⟨.error fault, s⟩ next = some fault := rfl

theorem verdict_map (f : α → β) (outcome : Outcome σ α) (next : β → σ → Option Fault) :
    (outcome.map f).verdict next = outcome.verdict fun a s => next (f a) s := by
  rcases outcome with ⟨_ | _, _⟩ <;> rfl

theorem verdict_andThen (outcome : Outcome σ α) (f : α → σ → Outcome σ β)
    (next : β → σ → Option Fault) :
    (outcome.andThen f).verdict next = outcome.verdict fun a s => (f a s).verdict next := by
  rcases outcome with ⟨_ | _, _⟩ <;> rfl

theorem verdict_onLeft {τ : Type} (g : σ → τ) (outcome : Outcome σ α) (next : α → τ → Option Fault) :
    (outcome.onLeft g).verdict next = outcome.verdict fun a s => next a (g s) := by
  rcases outcome with ⟨_ | _, _⟩ <;> rfl

theorem verdict_congr {outcome : Outcome σ α} {next other : α → σ → Option Fault}
    (h : ∀ a s, outcome = ⟨.ok a, s⟩ → next a s = other a s) :
    outcome.verdict next = outcome.verdict other := by
  rcases outcome with ⟨fault | a, s⟩
  · rfl
  · exact h a s rfl

end Outcome

namespace Automaton

open Reckoning

theorem run_of_refuse {st : State} {state : Reckoning} {expected : Kind}
    (h : st.move state.lookahead = .refuse expected) :
    run st state.ahead = some (state.mismatch expected) := by
  rw [ahead, run, h]
  rfl

theorem run_of_go {st next : State} {zeroBehind? : Option Int} {state : Reckoning}
    (h : st.move state.lookahead = .go next zeroBehind?) (hEof : state.lookahead.lexeme ≠ .eof) :
    run st state.ahead = state.shift.verdict fun _ left =>
      zeroBehind?.elim (run next left.ahead) fun place => some (.divisionByZero place) := by
  rcases hShift : state.shift with ⟨fault | u, left⟩
  · rw [ahead_of_shift_error hShift hEof, run, h]
    rfl
  · rw [ahead_of_shift hShift hEof, run, h, Outcome.verdict_ok]
    cases zeroBehind? <;> rfl

/-- What follows a factor of some value, which may be a divisor. -/
def divided (slash? : Option Int) (q : Rat) (verdict : Option Fault) : Option Fault :=
  slash?.elim verdict fun place => if q = 0 then some (.divisionByZero place) else verdict

theorem run_number (slash? : Option Int) (state : Reckoning) :
    run (.needNumber slash?) state.ahead = state.number.verdict fun q next =>
      divided slash? q (run .afterFactor next.ahead) := by
  cases hLexeme : state.lookahead.lexeme with
  | number n =>
    have hMove : (State.needNumber slash?).move state.lookahead =
        .go .afterFactor (if n = 0 then slash? else none) := by
      simp only [State.move, hLexeme]
    have hNumber : state.number = state.shift.map fun _ => (n : Rat) := by
      simp only [number, hLexeme]
    rw [run_of_go hMove (by simp [hLexeme]), hNumber, Outcome.verdict_map]
    apply Outcome.verdict_congr
    intro _ next _
    cases slash? with
    | none => simp [divided]
    | some place => by_cases hn : n = 0 <;> simp [divided, hn]
  | plus | minus | star | slash | eof =>
    have hMove : (State.needNumber slash?).move state.lookahead = .refuse .number := by
      simp only [State.move, hLexeme]
    have hNumber : state.number = ⟨.error (state.mismatch .number), state⟩ := by
      simp only [number, hLexeme]
    rw [run_of_refuse hMove, hNumber, Outcome.verdict_error]

theorem divided_neg (slash? : Option Int) (q : Rat) (verdict : Option Fault) :
    divided slash? (-q) verdict = divided slash? q verdict := by
  cases slash? with
  | none => rfl
  | some place => simp only [divided, Option.elim_some, neg_eq_zero]

theorem run_factor (slash? : Option Int) (state : Reckoning) :
    run (.needFactor slash?) state.ahead = state.factor.verdict fun q next =>
      divided slash? q (run .afterFactor next.ahead) := by
  cases hLexeme : state.lookahead.lexeme with
  | minus =>
    have hMove : (State.needFactor slash?).move state.lookahead = .go (.needNumber slash?) none := by
      simp only [State.move, hLexeme]
    have hFactor : state.factor = (state.after number).map fun q => -q := by
      simp only [factor, hLexeme]
    rw [run_of_go hMove (by simp [hLexeme]), hFactor, Outcome.verdict_map, after,
      Outcome.verdict_andThen]
    apply Outcome.verdict_congr
    intro _ next _
    simp only [Option.elim_none, divided_neg]
    exact run_number slash? next
  | number | plus | star | slash | eof =>
    have hMove : (State.needFactor slash?).move state.lookahead =
        (State.needNumber slash?).move state.lookahead := by
      simp only [State.move, hLexeme]
    have hFactor : state.factor = state.number := by
      simp only [factor, hLexeme]
    rw [hFactor, ← run_number slash? state, ahead, run, run, hMove]

/-- Behind an operator stands a factor, which is a divisor behind a slash. -/
theorem run_after_factor {slash? : Option Int} {state : Reckoning}
    (hMove : State.afterFactor.move state.lookahead = .go (.needFactor slash?) none)
    (hEof : state.lookahead.lexeme ≠ .eof) :
    run .afterFactor state.ahead = (state.after factor).verdict fun q next =>
      divided slash? q (run .afterFactor next.ahead) := by
  rw [run_of_go hMove hEof, after, Outcome.verdict_andThen]
  apply Outcome.verdict_congr
  intro _ next _
  exact run_factor slash? next

theorem run_product (result : Rat) (state : Reckoning) :
    run .afterFactor state.ahead =
      (state.product result).verdict fun _ next => run .afterFactor next.ahead := by
  induction result, state using product_induction with
  | scaling o result state hLexeme ih =>
    have hMove : State.afterFactor.move state.lookahead =
        .go (.needFactor (if o = .per then some state.lookahead.location else none)) none := by
      cases o <;> simp [State.move, hLexeme, Scaling.lexeme]
    rw [run_after_factor hMove (hLexeme ▸ o.lexeme_ne_eof), product_of_scaling hLexeme,
      Outcome.verdict_andThen]
    apply Outcome.verdict_congr
    intro q next hAfter
    rw [ih q next hAfter]
    by_cases hZero : o = .per ∧ q = 0
    · simp [divided, hZero]
    · rw [if_neg hZero]
      by_cases hPer : o = .per
      · have hNonzero : q ≠ 0 := fun hq => hZero ⟨hPer, hq⟩
        simp [divided, hPer, hNonzero]
      · simp [divided, hPer]
  | done result state hDone =>
    rw [product_of_ne_scaling hDone, Outcome.verdict_ok]

theorem run_term (state : Reckoning) :
    run (.needFactor none) state.ahead =
      state.term.verdict fun _ next => run .afterFactor next.ahead := by
  rw [run_factor, term, Outcome.verdict_andThen]
  apply Outcome.verdict_congr
  intro q next _
  exact run_product q next

theorem run_after_term {state : Reckoning}
    (hMove : State.afterFactor.move state.lookahead = .go (.needFactor none) none)
    (hEof : state.lookahead.lexeme ≠ .eof) :
    run .afterFactor state.ahead =
      (state.after term).verdict fun _ next => run .afterFactor next.ahead := by
  rw [run_of_go hMove hEof, after, Outcome.verdict_andThen]
  apply Outcome.verdict_congr
  intro _ next _
  exact run_term next

theorem run_sum (result : Rat) (state : Reckoning) :
    run .afterFactor state.ahead =
      (state.sum result).verdict fun _ next => run .afterFactor next.ahead := by
  induction result, state using sum_induction with
  | shift o result state hLexeme ih =>
    have hMove : State.afterFactor.move state.lookahead = .go (.needFactor none) none := by
      cases o <;> simp only [State.move, hLexeme, Shift.lexeme]
    rw [run_after_term hMove (hLexeme ▸ o.lexeme_ne_eof), sum_of_shift hLexeme,
      Outcome.verdict_andThen]
    apply Outcome.verdict_congr
    intro q next hAfter
    exact ih q next hAfter
  | done result state hDone =>
    rw [sum_of_ne_shift hDone, Outcome.verdict_ok]

theorem run_expression (state : Reckoning) :
    run (.needFactor none) state.ahead =
      state.expression.verdict fun _ next => run .afterFactor next.ahead := by
  rw [run_term, expression, Outcome.verdict_andThen]
  apply Outcome.verdict_congr
  intro q next _
  exact run_sum q next

/-! ## Whole lines -/

/-- Behind an expression stands a number, which is out of place there, or the end. -/
theorem run_end {state : Reckoning} {items : List Item} {place : Nat} {s : List Char} {n : Nat}
    {e : Expression} {next : Reckoning} (hReads : Reads place s items)
    (hItems : state.ahead = items ++ [.ok (.ending n)])
    (hSpelled : Spelled e.lexemes state.ahead next.ahead)
    (hScaling : ∀ o : Scaling, next.lookahead.lexeme ≠ o.lexeme)
    (hShift : ∀ o : Shift, next.lookahead.lexeme ≠ o.lexeme) :
    run .afterFactor next.ahead = (next.expect .eof).verdict fun _ _ => none := by
  cases hLexeme : next.lookahead.lexeme with
  | number m =>
    have hMove : State.afterFactor.move next.lookahead = .refuse .eof := by
      simp only [State.move, hLexeme]
    have hKind : next.lookahead.kind ≠ .eof := fun hEof => by
      rw [Lexeme.kind_eq_eof_iff.mp hEof] at hLexeme
      cases hLexeme
    rw [run_of_refuse hMove, expect, if_neg hKind, Outcome.verdict_error]
  | plus => exact absurd hLexeme (hShift .plus)
  | minus => exact absurd hLexeme (hShift .minus)
  | star => exact absurd hLexeme (hScaling .times)
  | slash => exact absurd hLexeme (hScaling .per)
  | eof =>
    obtain ⟨ts, _, hTokens⟩ := hSpelled
    have hAll := hItems.symm.trans hTokens
    obtain rfl := hReads.eq_of_append hAll (decide_eq_true hLexeme)
    have hNext : next.ahead = [.ok (.ending n)] := (List.append_cancel_left hAll).symm
    obtain ⟨left, hExpect⟩ := expect_eof_of_ahead hNext rfl
    rw [hNext, hExpect]
    rfl

theorem run_evaluate {state : Reckoning} {items : List Item} {place : Nat} {s : List Char} {n : Nat}
    (hReads : Reads place s items) (hItems : state.ahead = items ++ [.ok (.ending n)]) :
    run (.needFactor none) state.ahead = state.evaluate.verdict fun _ _ => none := by
  rw [run_expression, evaluate, Outcome.verdict_andThen]
  apply Outcome.verdict_congr
  intro q next hExpression
  obtain ⟨e, hSpelled, _, _, hScaling, hShift⟩ := expression_sound hExpression
  rw [Outcome.verdict_map]
  exact run_end hReads hItems hSpelled hScaling hShift

theorem run_ofLine {line : String} {items : List Item} (hReads : Reads 0 line.toList items) :
    verdict (items ++ [.ok (.ending line.length)]) = (ofLine line).verdict fun _ _ => none := by
  have hItems := Cursor.reads_before_iff.mp hReads
  rw [verdict, run_untilFault]
  rcases hPull : (Feed.ofLine line).pull with ⟨fault | t, feed⟩
  · have hAhead : (Cursor.before line.toList).ahead = .error fault :: feed.cursor.ahead :=
      ahead_of_pull_error hPull
    rw [hAhead] at hItems
    rw [← hItems, ofLine, hPull, Outcome.error_andThen, Outcome.verdict_error, run]
  · have hAhead : (Cursor.before line.toList).ahead = ahead ⟨feed, t⟩ := ahead_of_pull hPull
    rw [hAhead] at hItems
    rw [← hItems, ofLine, hPull, Outcome.ok_andThen, Outcome.verdict_onLeft]
    exact run_evaluate hReads hItems

end Automaton

/-! ## The faults of lines -/

/-- The faults that are found in lines. Each points at a place of its line. -/
inductive Fault.OfLine : Fault → Prop
  | unrecognizedSymbol (symbol : String) (position : Int) : OfLine (.unrecognizedSymbol symbol position)
  | unexpectedToken (actual expected : Kind) (position : Int) :
      OfLine (.unexpectedToken actual expected position)
  | divisionByZero (position : Int) : OfLine (.divisionByZero position)

theorem Automaton.ofLine_of_run {state : State} {items : List Item} {fault : Fault}
    (hItems : ∀ other, .error other ∈ items → other.OfLine) (h : run state items = some fault) :
    fault.OfLine := by
  induction items generalizing state with
  | nil => cases h
  | cons item items ih =>
    have hRest : ∀ other, .error other ∈ items → other.OfLine := fun other hOther =>
      hItems other (List.mem_cons_of_mem item hOther)
    cases item with
    | error other =>
      cases h
      exact hItems fault List.mem_cons_self
    | ok t =>
      rw [run] at h
      split at h
      · cases h
      · cases h
        exact .unexpectedToken _ _ _
      · split at h
        · cases h
          exact hRest fault List.mem_cons_self
        · cases h
          exact .divisionByZero _
        · exact ih hRest h

theorem Reading.Reads.ofLine_of_mem {place : Nat} {s : List Char} {items : List Item} {n : Int}
    {fault : Fault} (h : Reads place s items) (hMem : .error fault ∈ items ++ [.ok (.ending n)]) :
    fault.OfLine := by
  rcases List.mem_append.mp hMem with hMem | hMem
  · obtain ⟨symbol, position, rfl⟩ := h.eq_unrecognizedSymbol_of_mem hMem
    exact .unrecognizedSymbol symbol position
  · cases List.mem_singleton.mp hMem

theorem Reckoning.ofLine_of_result {line : String} {fault : Fault}
    (h : (ofLine line).result = .error fault) : fault.OfLine := by
  obtain ⟨items, hReads⟩ := exists_reads 0 line.toList
  rw [← Outcome.verdict_none_eq_some_iff, ← Automaton.run_ofLine hReads, Automaton.verdict,
    Automaton.run_untilFault] at h
  exact Automaton.ofLine_of_run (fun _ hOther => hReads.ofLine_of_mem hOther) h

theorem Feed.ofLine_of_result_tokens {line : String} {fault : Fault}
    (h : (tokens line).result = .error fault) : fault.OfLine := by
  obtain ⟨items, hReads⟩ := exists_reads 0 line.toList
  rcases hDrain : (ofLine line).drain with ⟨other | ts, left⟩
  · rw [tokens, hDrain] at h
    cases h
    obtain ⟨ts, others, hAhead⟩ := ahead_of_drain_error hDrain
    have hItems : (ofLine line).cursor.ahead = items ++ [.ok (.ending line.length)] :=
      Cursor.reads_before_iff.mp hReads
    have hMem : .error fault ∈ (ofLine line).cursor.ahead := by
      rw [hAhead]
      exact List.mem_append_right _ List.mem_cons_self
    exact hReads.ofLine_of_mem (hItems ▸ hMem)
  · rw [result_tokens_of_drain hDrain] at h
    cases h

/-- A line is refused with the fault that the automaton ends with on the items of the line, and has
a value if the automaton ends with none. -/
theorem fault_of_line (line : String) : ∃ items : List Item,
    (∀ others, Reads 0 line.toList others ↔ others = items) ∧
    (∀ fault, (Reckoning.ofLine line).result = .error fault ↔
      Automaton.verdict (items ++ [.ok (.ending line.length)]) = some fault) ∧
    ((∃ q, (Reckoning.ofLine line).result = .ok q) ↔
      Automaton.verdict (items ++ [.ok (.ending line.length)]) = none) := by
  obtain ⟨items, hReads⟩ := exists_reads 0 line.toList
  refine ⟨items, ?_, ?_, ?_⟩
  · intro others
    constructor
    · intro hOthers
      exact hOthers.unique hReads
    · rintro rfl
      exact hReads
  · intro fault
    rw [Automaton.run_ofLine hReads, Outcome.verdict_none_eq_some_iff]
  · rw [Automaton.run_ofLine hReads, Outcome.verdict_none_eq_none_iff]

example : Automaton.verdict
    [.ok ⟨.number 1, 0, "1"⟩, .ok ⟨.slash, 1, "/"⟩, .ok ⟨.number 0, 2, "0"⟩,
      .error (.unrecognizedSymbol "?" 3)] = some (.unrecognizedSymbol "?" 3) := rfl

example : Automaton.verdict
    [.ok ⟨.number 1, 0, "1"⟩, .ok ⟨.slash, 1, "/"⟩, .ok ⟨.number 0, 2, "0"⟩,
      .ok ⟨.number 4, 4, "4"⟩, .ok (.ending 5)] = some (.divisionByZero 1) := rfl

end Reckoner
