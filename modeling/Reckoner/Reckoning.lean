import Reckoner.Feed

/-!
# Reckoning

The value of a line is reckoned while its tokens are pulled, with one token of lookahead.

    factor     := - number | number
    term       := factor, then any number of factors, each after * or /
    expression := term, then any number of terms, each after + or -

Operators of one level group to the left. A token is matched before the next is pulled, so if the
pull fails the lookahead stays while the feed has moved on.
-/

set_option autoImplicit false

namespace Reckoner

structure Reckoning where
  feed : Feed
  lookahead : Token

namespace Reckoning

def remaining (state : Reckoning) : Nat := state.feed.remaining

/-- Pulls the next lookahead. -/
def shift (state : Reckoning) : Outcome Reckoning Unit :=
  match state.feed.pull with
  | ⟨.ok t, feed⟩ => ⟨.ok (), feed, t⟩
  | ⟨.error fault, feed⟩ => ⟨.error fault, feed, state.lookahead⟩

/-- The fault of a lookahead that is not of the kind it should be. -/
def mismatch (state : Reckoning) (kind : Kind) : Fault :=
  .unexpectedToken state.lookahead.kind kind state.lookahead.location

/-- Matches a token of a kind and answers its value. -/
def expect (kind : Kind) (state : Reckoning) : Outcome Reckoning (Option Nat) :=
  if state.lookahead.kind = kind then state.shift.map fun _ => state.lookahead.value?
  else ⟨.error (state.mismatch kind), state⟩

def number (state : Reckoning) : Outcome Reckoning Rat :=
  match state.lookahead.lexeme with
  | .number n => state.shift.map fun _ => (n : Rat)
  | _ => ⟨.error (state.mismatch .number), state⟩

/-- Goes past the lookahead and on with an operation. -/
def after (operation : Reckoning → Outcome Reckoning Rat) (state : Reckoning) :
    Outcome Reckoning Rat :=
  state.shift.andThen fun _ next => operation next

def factor (state : Reckoning) : Outcome Reckoning Rat :=
  match state.lookahead.lexeme with
  | .minus => (state.after number).map fun q => -q
  | _ => state.number

/-- An operation that can succeed only before the end, and gives no character back. -/
def Consumes (operation : Reckoning → Outcome Reckoning Rat) : Prop :=
  ∀ {state next : Reckoning} {q : Rat}, operation state = ⟨.ok q, next⟩ →
    state.lookahead.lexeme ≠ .eof ∧ next.remaining ≤ state.remaining

theorem remaining_shift_le (state : Reckoning) : state.shift.left.remaining ≤ state.remaining := by
  have h := state.feed.remaining_pull_le
  unfold shift
  split <;> next hPull => rw [hPull] at h; exact h

theorem remaining_lt_of_shift {state next : Reckoning} {u : Unit} (h : state.shift = ⟨.ok u, next⟩)
    (hNext : next.lookahead.lexeme ≠ .eof) : next.remaining < state.remaining := by
  unfold shift at h
  split at h
  · next hPull =>
    cases h
    exact Feed.remaining_lt_of_pull hPull hNext
  · cases h

theorem Consumes.remaining_lt_of_after {operation : Reckoning → Outcome Reckoning Rat}
    (hOperation : Consumes operation) {state next : Reckoning} {q : Rat}
    (h : state.after operation = ⟨.ok q, next⟩) : next.remaining < state.remaining := by
  obtain ⟨_, middle, hShift, hRest⟩ := Outcome.andThen_eq_ok_iff.mp h
  obtain ⟨hLookahead, hLe⟩ := hOperation hRest
  exact Nat.lt_of_le_of_lt hLe (remaining_lt_of_shift hShift hLookahead)

theorem consumes_number : Consumes number := by
  intro state next q h
  unfold number at h
  split at h
  · next hNumber =>
    obtain ⟨_, hShift, _⟩ := Outcome.map_eq_ok_iff.mp h
    have hLe := state.remaining_shift_le
    rw [hShift] at hLe
    exact ⟨by simp [hNumber], hLe⟩
  · cases h

theorem consumes_factor : Consumes factor := by
  intro state next q h
  unfold factor at h
  split at h
  · next hMinus =>
    obtain ⟨_, hAfter, _⟩ := Outcome.map_eq_ok_iff.mp h
    exact ⟨by simp [hMinus], Nat.le_of_lt (consumes_number.remaining_lt_of_after hAfter)⟩
  · exact consumes_number h

/-- An operation past the lookahead, with the proof that success leaves less to read. -/
def operand (operation : Reckoning → Outcome Reckoning Rat) (hOperation : Consumes operation)
    (state : Reckoning) :
    { outcome : Outcome Reckoning Rat //
      ∀ q next, outcome = ⟨.ok q, next⟩ → next.remaining < state.remaining } :=
  ⟨state.after operation, fun _ _ h => hOperation.remaining_lt_of_after h⟩

/-- Multiplies and divides a product by the factors that follow. -/
def product (result : Rat) (state : Reckoning) : Outcome Reckoning Rat :=
  match state.lookahead.lexeme with
  | .star =>
    match state.operand factor consumes_factor with
    | ⟨⟨.error fault, next⟩, _⟩ => ⟨.error fault, next⟩
    | ⟨⟨.ok q, next⟩, hLess⟩ =>
      have := hLess q next rfl
      next.product (result * q)
  | .slash =>
    match state.operand factor consumes_factor with
    | ⟨⟨.error fault, next⟩, _⟩ => ⟨.error fault, next⟩
    | ⟨⟨.ok q, next⟩, hLess⟩ =>
      have := hLess q next rfl
      if q = 0 then ⟨.error (.divisionByZero state.lookahead.location), next⟩
      else next.product (result / q)
  | _ => ⟨.ok result, state⟩
termination_by state.remaining

theorem product_of_star {result : Rat} {state : Reckoning} (h : state.lookahead.lexeme = .star) :
    state.product result =
      (state.after factor).andThen fun q next => next.product (result * q) := by
  rw [product, h]
  rcases hAfter : state.after factor with ⟨_ | _, _⟩ <;> simp [operand, hAfter]

theorem product_of_slash {result : Rat} {state : Reckoning} (h : state.lookahead.lexeme = .slash) :
    state.product result =
      (state.after factor).andThen fun q next =>
        if q = 0 then ⟨.error (.divisionByZero state.lookahead.location), next⟩
        else next.product (result / q) := by
  rw [product, h]
  rcases hAfter : state.after factor with ⟨_ | _, _⟩ <;> simp [operand, hAfter]

theorem product_of_ne {result : Rat} {state : Reckoning} (hStar : state.lookahead.lexeme ≠ .star)
    (hSlash : state.lookahead.lexeme ≠ .slash) : state.product result = ⟨.ok result, state⟩ := by
  rw [product]
  split
  · contradiction
  · contradiction
  · rfl

theorem remaining_product_le {result q : Rat} {state next : Reckoning}
    (h : state.product result = ⟨.ok q, next⟩) : next.remaining ≤ state.remaining := by
  fun_induction product result state with
  | case1 | case3 | case4 => cases h
  | case2 _ _ _ _ _ _ _ hLess ih => exact Nat.le_trans (ih h) (Nat.le_of_lt hLess)
  | case5 _ _ _ _ _ _ _ hLess _ ih => exact Nat.le_trans (ih h) (Nat.le_of_lt hLess)
  | case6 =>
    cases h
    exact Nat.le_refl _

def term (state : Reckoning) : Outcome Reckoning Rat := state.factor.andThen product

theorem consumes_term : Consumes term := by
  intro state next q h
  obtain ⟨_, middle, hFactor, hProduct⟩ := Outcome.andThen_eq_ok_iff.mp h
  obtain ⟨hLookahead, hLe⟩ := consumes_factor hFactor
  exact ⟨hLookahead, Nat.le_trans (remaining_product_le hProduct) hLe⟩

/-- Adds to a sum, and takes from it, the terms that follow. -/
def sum (result : Rat) (state : Reckoning) : Outcome Reckoning Rat :=
  match state.lookahead.lexeme with
  | .plus =>
    match state.operand term consumes_term with
    | ⟨⟨.error fault, next⟩, _⟩ => ⟨.error fault, next⟩
    | ⟨⟨.ok q, next⟩, hLess⟩ =>
      have := hLess q next rfl
      next.sum (result + q)
  | .minus =>
    match state.operand term consumes_term with
    | ⟨⟨.error fault, next⟩, _⟩ => ⟨.error fault, next⟩
    | ⟨⟨.ok q, next⟩, hLess⟩ =>
      have := hLess q next rfl
      next.sum (result - q)
  | _ => ⟨.ok result, state⟩
termination_by state.remaining

theorem sum_of_plus {result : Rat} {state : Reckoning} (h : state.lookahead.lexeme = .plus) :
    state.sum result = (state.after term).andThen fun q next => next.sum (result + q) := by
  rw [sum, h]
  rcases hAfter : state.after term with ⟨_ | _, _⟩ <;> simp [operand, hAfter]

theorem sum_of_minus {result : Rat} {state : Reckoning} (h : state.lookahead.lexeme = .minus) :
    state.sum result = (state.after term).andThen fun q next => next.sum (result - q) := by
  rw [sum, h]
  rcases hAfter : state.after term with ⟨_ | _, _⟩ <;> simp [operand, hAfter]

theorem sum_of_ne {result : Rat} {state : Reckoning} (hPlus : state.lookahead.lexeme ≠ .plus)
    (hMinus : state.lookahead.lexeme ≠ .minus) : state.sum result = ⟨.ok result, state⟩ := by
  rw [sum]
  split
  · contradiction
  · contradiction
  · rfl

def expression (state : Reckoning) : Outcome Reckoning Rat := state.term.andThen sum

/-- The value of an expression that the line ends with. -/
def evaluate (state : Reckoning) : Outcome Reckoning Rat :=
  state.expression.andThen fun q next => (next.expect .eof).map fun _ => q

/-- The value of a line, with the feed as the evaluation leaves it. -/
def ofLine (line : String) : Outcome Feed Rat :=
  (Feed.ofLine line).pull.andThen fun t feed => (evaluate ⟨feed, t⟩).onLeft Reckoning.feed

end Reckoning

end Reckoner
