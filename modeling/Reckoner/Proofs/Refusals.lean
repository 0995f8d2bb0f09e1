import Reckoner.Proofs.Aftermath
import Reckoner.Proofs.Numerals
import Reckoner.Proofs.Transcript
import Reckoner.Proofs.WrittenValues

/-!
# What can go wrong

A line is refused for a symbol, a token or a division, each at a place of the line, and for nothing
else. The same holds of every reader in a session, whatever was done to the cursor before. Only a
bare reading of a number, which asks for no digit, can meet more. Where a limit on digits is set, it can
be the fault of an answer that goes beyond it, and of the refusal of such a number.
-/

set_option autoImplicit false

namespace Reckoner

namespace Fault

def IsSymbol (fault : Fault) : Prop := ∃ symbol position, fault = .unrecognizedSymbol symbol position

theorem IsSymbol.ofLine {fault : Fault} (h : fault.IsSymbol) : fault.OfLine := by
  obtain ⟨symbol, position, rfl⟩ := h
  exact .unrecognizedSymbol symbol position

theorem OfLine.exists_place {fault : Fault} (h : fault.OfLine) :
    ∃ place, fault.location? = some place := by
  cases h with
  | unrecognizedSymbol _ place | unexpectedToken _ _ place | divisionByZero place => exact ⟨place, rfl⟩

end Fault

/-- The faults that a step can meet. A bare reading of a number meets the fault of a limit just where it
would otherwise quote a number that goes beyond it. -/
def Step.Meets (allowance : Allowance) : Step → Fault → Prop
  | .nextToken, fault | .scan, fault | .next _, fault | .list, fault | .newReckoning, fault =>
    fault.IsSymbol
  | .expect _, fault | .factor, fault | .term, fault | .expression, fault | .evaluate, fault =>
    fault.OfLine
  | .readNumber, fault =>
    fault = .noCharacter ∨ ∃ value < 0,
      allowance.Fits value ∧
        fault = .invalidKind (.kind .number) ("invalid number value " ++ toString value) ∨
      ∃ limit, allowance.digits? = some limit ∧ limit < Allowance.digitCount value ∧
        fault = .unwritable (.digits limit)
  | .advance, _ | .skipBlanks, _ | .peek, _ | .newIterator, _ => False

/-! ## Cursors and feeds -/

namespace Cursor

theorem isSymbol_of_mem_ahead {cur : Cursor} {fault : Fault} (h : .error fault ∈ cur.ahead) :
    fault.IsSymbol := by
  obtain ⟨items, hReads, hAhead⟩ := cur.exists_reads_ahead
  rw [hAhead] at h
  rcases List.mem_append.mp h with hMem | hMem
  · exact hReads.eq_unrecognizedSymbol_of_mem hMem
  · cases List.mem_singleton.mp hMem

theorem isSymbol_of_nextToken {cur : Cursor} {fault : Fault}
    (h : cur.nextToken.result = .error fault) : fault.IsSymbol := by
  have hMem : .error fault ∈ cur.ahead := by
    rw [ahead_eq_ite, h]
    exact List.mem_cons_self
  exact isSymbol_of_mem_ahead hMem

theorem exists_consumed_unread (passed rest : List Char) :
    ∃ cur : Cursor, cur.consumed = passed ∧ cur.unread = rest := by
  cases passed with
  | nil => exact ⟨.before rest, rfl, rfl⟩
  | cons c passed => exact ⟨.on passed c rest, rfl, rfl⟩

/-- What a call scans, having skipped blanks, is scanned here without a call. -/
theorem isSymbol_of_scan {cur : Cursor} {fault : Fault} (h : cur.scan.result = .error fault) :
    fault.IsSymbol := by
  cases cur with
  | before | past => cases h
  | on passed c rest =>
    by_cases hBlank : c = ' '
    · subst hBlank
      cases h
      exact ⟨_, _, rfl⟩
    · obtain ⟨cur, rfl, hUnread⟩ := exists_consumed_unread passed (c :: rest)
      rw [← nextToken_of_ne_blank hUnread hBlank] at h
      exact isSymbol_of_nextToken h

theorem fault_of_readNumber {cur : Cursor} {allowance : Allowance} {fault : Fault}
    (h : (cur.readNumber allowance).result = .error fault) :
    fault = .noCharacter ∨ ∃ value < 0, fault = .ofValue .number (.int value) allowance := by
  cases cur with
  | before | past =>
    cases h
    exact .inl rfl
  | on passed c rest =>
    change Token.build (.kind .number)
      (.int (numeralValue (digitValue c) (rest.takeWhile Char.isDigit))) _ _ allowance = _ at h
    rcases Int.lt_or_le (numeralValue (digitValue c) (rest.takeWhile Char.isDigit)) 0 with hNeg | hNat
    · rw [Token.build_number_of_neg hNeg] at h
      cases h
      exact .inr ⟨_, hNeg, rfl⟩
    · obtain ⟨n, hn⟩ := Int.eq_ofNat_of_zero_le hNat
      rw [hn, Token.build_number] at h
      cases h

end Cursor

theorem Feed.isSymbol_of_pull {feed next : Feed} {fault : Fault}
    (h : feed.pull = ⟨.error fault, next⟩) : fault.IsSymbol :=
  Cursor.isSymbol_of_nextToken (congrArg Outcome.result (nextToken_of_pull h))

theorem Feed.isSymbol_of_drain {feed left : Feed} {fault : Fault}
    (h : feed.drain = ⟨.error fault, left⟩) : fault.IsSymbol := by
  obtain ⟨ts, others, hAhead⟩ := ahead_of_drain_error h
  have hMem : .error fault ∈ feed.cursor.ahead := by
    rw [hAhead]
    exact List.mem_append_right _ List.mem_cons_self
  exact Cursor.isSymbol_of_mem_ahead hMem

/-! ## Reckonings -/

namespace Reckoning

theorem Halts.ofLine {state next : Reckoning} {fault : Fault} (h : Halts state fault next) :
    fault.OfLine := by
  cases h with
  | token => exact .unexpectedToken _ _ _
  | symbol _ hShift => exact (Feed.isSymbol_of_pull (lookahead_of_shift_error hShift).2).ofLine
  | division => exact .divisionByZero _

/-! ### What is taken for granted is there -/

/-- A token that passes for a number has a value, whatever fault there might be for one without. -/
theorem number_eq_expect (state : Reckoning) (fault : Fault) :
    state.number = (state.expect .number).andThen fun value? next =>
      ⟨value?.elim (.error fault) fun n => .ok (n : Rat), next⟩ := by
  cases hLexeme : state.lookahead.lexeme with
  | number n =>
    have hKind : state.lookahead.kind = .number := congrArg Lexeme.kind hLexeme
    have hValue : state.lookahead.value? = some n := congrArg Lexeme.value? hLexeme
    rw [expect, if_pos hKind, hValue]
    simp only [number, hLexeme]
    rcases state.shift with ⟨_ | _, _⟩ <;> rfl
  | plus | minus | star | slash | eof =>
    have hKind : state.lookahead.kind ≠ .number := by
      rw [Token.kind, hLexeme]
      decide
    rw [expect, if_neg hKind]
    simp only [number, hLexeme]
    rfl

/-- The quotient by a divisor that is not zero has a denominator that is not zero. -/
theorem product_eq_ofQuotient {result : Rat} {state : Reckoning}
    (h : state.lookahead.lexeme = .slash) : state.product result =
      (state.after factor).andThen fun q next =>
        if q = 0 then ⟨.error (.divisionByZero state.lookahead.location), next⟩
        else match Value.ofQuotient (result.num * q.den) (result.den * q.num) with
          | .ok r => next.product r
          | .error fault => ⟨.error fault, next⟩ := by
  rw [product_of_slash h]
  congr 1
  funext q next
  by_cases hZero : q = 0
  · rw [if_pos hZero, if_pos hZero]
  · have hDenominator : (result.den : Int) * q.num ≠ 0 :=
      mul_ne_zero (Int.natCast_ne_zero.mpr result.den_nz) (Rat.num_ne_zero.mpr hZero)
    rw [if_neg hZero, if_neg hZero, Value.ofQuotient, if_neg hDenominator, Rat.div_def']

end Reckoning

/-- The argument from which the value of a token can be built. -/
def Token.datum (t : Token) : Datum := t.value?.elim .nothing fun n => .int n

/-- A token would be built again from what it holds. -/
theorem Token.build_eq_self (t : Token) (allowance : Allowance) :
    build (.kind t.kind) t.datum t.location t.text allowance = .ok t := by
  obtain ⟨lexeme, location, text⟩ := t
  cases lexeme <;> rfl

/-! ## Sessions -/

namespace Session

theorem fault_of_answerItem {item : Item} {fault : Fault} (h : answerItem item = .fault fault) :
    item = .error fault := by
  cases item with
  | ok t => cases h
  | error other =>
    cases h
    rfl

theorem step_of_none {session : Session} {s : Step} (hReckons : s.reckons = true)
    (h : session.lookahead = none) : session.step s = (.noReckoning, session) := by
  cases s with
  | expect | factor | term | expression | evaluate => exact reckon_of_none h
  | _ => cases hReckons

theorem ofLine_of_step {session : Session} {s : Step} {fault : Fault} (hReckons : s.reckons = true)
    (h : (session.step s).1 = .fault fault) : fault.OfLine := by
  cases hLookahead : session.lookahead with
  | none =>
    rw [step_of_none hReckons hLookahead] at h
    cases h
  | some t =>
    obtain ⟨next, hHalts, -⟩ := halts_of_step hReckons hLookahead h
    exact hHalts.ofLine

theorem isSymbol_of_next {age : Nat} {session : Session} {fault : Fault}
    (h : (session.next age).1 = .fault fault) : fault.IsSymbol := by
  rw [next] at h
  split at h
  · rcases hPull : session.feed.pull with ⟨other | t, feed⟩ <;> rw [hPull] at h
    · cases h
      exact Feed.isSymbol_of_pull hPull
    · dsimp only at h
      split at h <;> cases h
  · cases h

theorem isSymbol_of_list {session : Session} {fault : Fault} (h : session.list.1 = .fault fault) :
    fault.IsSymbol := by
  rw [list] at h
  rcases hDrain : session.feed.drain with ⟨other | ts, feed⟩ <;> rw [hDrain] at h
  · cases h
    exact Feed.isSymbol_of_drain hDrain
  · cases h

theorem isSymbol_of_newReckoning {session : Session} {fault : Fault}
    (h : session.newReckoning.1 = .fault fault) : fault.IsSymbol := by
  rw [newReckoning] at h
  rcases hPull : session.feed.pull with ⟨other | t, feed⟩ <;> rw [hPull] at h
  · cases h
    exact Feed.isSymbol_of_pull hPull
  · cases h

theorem meets_of_step {session : Session} {s : Step} {allowance : Allowance} {fault : Fault}
    (h : (session.step s allowance).1 = .fault fault) : s.Meets allowance fault := by
  by_cases hNumber : s = .readNumber
  · subst hNumber
    rcases Cursor.fault_of_readNumber (fault_of_answerItem h) with hNone | ⟨value, hNeg, rfl⟩
    · exact .inl hNone
    · exact .inr ⟨value, hNeg, Fault.ofValue_int_cases value allowance⟩
  · rw [step_of_ne_readNumber hNumber] at h
    cases s with
    | advance | skipBlanks | peek | newIterator => cases h
    | nextToken => exact Cursor.isSymbol_of_nextToken (fault_of_answerItem h)
    | scan => exact Cursor.isSymbol_of_scan (fault_of_answerItem h)
    | readNumber => exact absurd rfl hNumber
    | next age => exact isSymbol_of_next h
    | list => exact isSymbol_of_list h
    | newReckoning => exact isSymbol_of_newReckoning h
    | expect | factor | term | expression | evaluate => exact ofLine_of_step rfl h

theorem meets_of_run (session : Session) (steps : List Step) (allowance : Allowance) :
    List.Forall₂ (fun s result => ∀ fault, result.1 = .fault fault → s.Meets allowance fault) steps
      (session.run steps allowance) := by
  induction steps generalizing session with
  | nil => exact .nil
  | cons s steps ih => exact .cons (fun _ h => meets_of_step h) (ih (session.step s allowance).2)

end Session

/-- A line is answered or refused with a fault of lines, which has a place, or else it exceeds the limit on
digits, if there is one. In a session each step meets the faults that belong to it and no others. Where the
operations take something for granted, a value of a number, a quotient, a valid token, a character at an
index, they would do the same if they looked. -/
theorem faults_of_lines_and_steps (allowance : Allowance) :
    (∀ (showTokens : Bool) (line : String),
      (∃ text, (Console.answer showTokens line allowance).1 = .ok text) ∨
      (∃ fault, (Console.answer showTokens line allowance).1 = .error fault ∧ fault.OfLine) ∨
      ∃ limit, allowance.digits? = some limit ∧ Console.Exceeds limit line showTokens ∧
        (Console.answer showTokens line allowance).1 = .error (.unwritable (.digits limit))) ∧
    (∀ (showTokens : Bool) (line : String) (limit : Nat), allowance.digits? = some limit →
      Console.Exceeds limit line showTokens →
        (Console.answer showTokens line allowance).1 = .error (.unwritable (.digits limit))) ∧
    (∀ (line : String) (steps : List Step),
      List.Forall₂ (fun s result => ∀ fault, result.1 = .fault fault → s.Meets allowance fault) steps
        ((Session.ofLine line).run steps allowance)) ∧
    (∀ fault : Fault, fault.OfLine → ∃ place : Int, fault.location? = some place) ∧
    (∀ (state : Reckoning) (fault : Fault), state.number =
      (state.expect .number).andThen fun value? next =>
        ⟨value?.elim (.error fault) fun n => .ok (n : Rat), next⟩) ∧
    (∀ (result : Rat) (state : Reckoning), state.lookahead.lexeme = .slash → state.product result =
      (state.after Reckoning.factor).andThen fun q next =>
        if q = 0 then ⟨.error (.divisionByZero state.lookahead.location), next⟩
        else match Value.ofQuotient (result.num * q.den) (result.den * q.num) with
          | .ok r => next.product r
          | .error fault => ⟨.error fault, next⟩) ∧
    (∀ t : Token, Token.build (.kind t.kind) t.datum t.location t.text allowance = .ok t) ∧
    ∀ cur : Cursor, 0 ≤ cur.position + 1 ∧ (cur.position + 1 < cur.line.length →
      ∃ c, Text.subscript? cur.line (cur.position + 1) = some c ∧ cur.peek? = some c ∧
        cur.advance.char? = some c) := by
  refine ⟨?_, fun showTokens line limit =>
      (Console.curtails_answer showTokens line allowance).eq_error,
    fun line steps => (Session.ofLine line).meets_of_run steps allowance,
    fun _ h => h.exists_place, Reckoning.number_eq_expect,
    fun _ _ => Reckoning.product_eq_ofQuotient, fun t => t.build_eq_self allowance,
    fun cur => ⟨neg_le_iff_add_nonneg.mp cur.rests.neg_one_le, Cursor.exists_char_of_position_lt⟩⟩
  intro showTokens line
  rcases Console.curtails_answer showTokens line allowance with ⟨-, hFull⟩ | hExceeds
  · rw [hFull]
    cases hAnswer : (Console.answer showTokens line).1 with
    | ok text => exact .inl ⟨text, rfl⟩
    | error fault => exact .inr (.inl ⟨fault, rfl, Console.ofLine_of_answer hAnswer⟩)
  · exact .inr (.inr hExceeds)

/-- A fresh runtime answers no line with so many digits, and refuses it with no fault of lines; nor does it
quote a number of so many digits. -/
theorem fault_of_many_digits :
    let line := String.ofList ('1' :: List.replicate 4300 '0')
    let session := (Session.ofLine (String.ofList ('+' :: List.replicate 4300 '0'))).after [.advance]
    (Console.answer false line .customary).1 = .error (.unwritable (.digits 4300)) ∧
    ¬ ((∃ text, (Console.answer false line .customary).1 = .ok text) ∨
      ∃ fault, (Console.answer false line .customary).1 = .error fault ∧ fault.OfLine) ∧
    (session.step .readNumber .customary).1 = .fault (.unwritable (.digits 4300)) := by
  have hLimit : (0 : Nat) < 4300 := by decide
  have hResult := Value.result_ofLine_written ((10 ^ 4300 : Int) : Rat)
  rw [Value.written_pow] at hResult
  have hAnswer := (Console.curtails_answer false _ .customary).eq_error rfl
    (.value hResult (Value.isBeyond_pow hLimit))
  refine ⟨hAnswer, ?_, Session.step_readNumber_beyond hLimit rfl⟩
  rintro (⟨text, hText⟩ | ⟨fault, hFault, hOfLine⟩)
  · cases hAnswer.symm.trans hText
  · cases hAnswer.symm.trans hFault
    cases hOfLine

end Reckoner
