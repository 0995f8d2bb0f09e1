import Reckoner.Proofs.Divisors

/-!
# Lines that go on

A fault that an item of a line has set off is there whatever the line goes on with, since no text
behind takes back more than the digits of that item. A line that ended too early is the beginning of
one with a value. In front of an unexpected token stands a line that has a value, or one that ended
too early.
-/

set_option autoImplicit false

namespace Reckoner

open Automaton Reading

namespace Reckoning

/-! ## Faults that stay -/

theorem result_append_of_symbol {line : String} {symbol : String} {position : Int}
    (h : (ofLine line).result = .error (.unrecognizedSymbol symbol position)) (more : String) :
    (ofLine (line ++ more)).result = .error (.unrecognizedSymbol symbol position) := by
  obtain ⟨items, hReads, hFails⟩ := exists_fails h
  have hStays : ∀ {ts : List Token} {others},
      Reads 0 line.toList (ts.map .ok ++ .error (.unrecognizedSymbol symbol position) :: others) →
      ∃ later, Reads 0 (line ++ more).toList
        (ts.map .ok ++ .error (.unrecognizedSymbol symbol position) :: later) := by
    intro ts others hReads
    obtain ⟨first, later, hLonger, hOutline⟩ := hReads.exists_append more.toList
    rw [Item.eq_error_of_outline hOutline, ← String.toList_append] at hLonger
    exact ⟨later, hLonger⟩
  cases hFails with
  | symbol ts hPath =>
    obtain ⟨later, hLonger⟩ := hStays hReads
    exact (result_eq_error_iff hLonger).mpr (.symbol ts hPath)
  | @symbolBehind ts t _ _ _ _ _ _ hPath hGoes =>
    rw [tokens_append_cons] at hReads
    obtain ⟨later, hLonger⟩ := hStays hReads
    rw [← tokens_append_cons] at hLonger
    exact (result_eq_error_iff hLonger).mpr (.symbolBehind ts hPath hGoes)

theorem result_append_of_token {line : String} {actual expected : Kind} {position : Int}
    (h : (ofLine line).result = .error (.unexpectedToken actual expected position))
    (hActual : actual ≠ .eof) (more : String) :
    (ofLine (line ++ more)).result = .error (.unexpectedToken actual expected position) := by
  obtain ⟨items, hReads, hFails⟩ := exists_fails h
  cases hFails with
  | token ts hPath hRefuses =>
    obtain ⟨first, later, hLonger, hOutline⟩ := hReads.exists_append more.toList
    obtain ⟨u, rfl, hKind, hLocation⟩ := Item.exists_token_of_outline hOutline
    rw [← String.toList_append] at hLonger
    rw [← hKind] at hRefuses
    rw [← hKind, ← hLocation]
    exact (result_eq_error_iff hLonger).mpr (.token ts hPath hRefuses)
  | ending => exact absurd rfl hActual

theorem result_append_of_division {line : String} {place : Int} {after : List Char}
    (h : (ofLine line).result = .error (.divisionByZero place))
    (hZero : ZeroDivisor place line.toList after) (hAfter : ∃ c ∈ after, c ≠ ' ') (more : String) :
    (ofLine (line ++ more)).result = .error (.divisionByZero place) := by
  obtain ⟨items, hReads, hFails⟩ := exists_fails h
  cases hFails with
  | @division ts t _ _ _ others hPath hGoes hOthers =>
    rw [tokens_append_cons] at hReads
    obtain ⟨after', stop, hZero', hRest⟩ := hReads.exists_zeroDivisor (hPath.dividesByZero hGoes)
    obtain rfl := hZero.unique hZero'
    cases others with
    | nil =>
      obtain ⟨c, hc, hNonblank⟩ := hAfter
      exact absurd (hRest.eq_blank_of_nil c hc) hNonblank
    | cons item others =>
      obtain ⟨first, later, hLonger, hOutline⟩ := hReads.exists_append more.toList
      rw [← tokens_append_cons, ← String.toList_append] at hLonger
      -- What follows the divisor was no fault, and an item that only goes on becomes none.
      refine (result_eq_error_iff hLonger).mpr (.division ts hPath hGoes ?_)
      intro fault hFault
      obtain rfl : first = .error fault := Option.some.inj hFault
      exact hOthers fault (congrArg some (Item.eq_error_of_outline hOutline.symm))

/-! ## In front of unexpected tokens -/

/-- What stands in front of an unexpected token is read as tokens, which lead to its refusal. -/
theorem exists_front {line : String} {actual expected : Kind} {position : Int}
    (h : (ofLine line).result = .error (.unexpectedToken actual expected position)) :
    ∃ (ts : List Token) (last : State) (front back : List Char), line.toList = front ++ back ∧
      Text.slice 0 position line.toList = front ∧ position = front.length ∧
        (actual = .eof → back = []) ∧ Reads 0 front (ts.map .ok) ∧
          Path (.needFactor none) ts [] last ∧ last.Refuses expected actual := by
  have hSlice : ∀ front back : List Char, Text.slice 0 front.length (front ++ back) = front := by
    intro front back
    have hSlice := slice_append [] front back
    rwa [List.length_nil, Nat.cast_zero, zero_add, List.nil_append] at hSlice
  obtain ⟨items, hReads, hFails⟩ := exists_fails h
  cases hFails with
  | @token ts t last _ others hPath hRefuses =>
    have hEnding := hReads.isEnding_eq_false (List.mem_append_right _ List.mem_cons_self)
    obtain ⟨front, back, hLine, hFront, -, hPlace, -⟩ := hReads.exists_cut
    have hPlace : t.location = front.length := hPlace.trans (by rw [Nat.zero_add])
    refine ⟨ts, last, front, back, hLine, ?_, hPlace, fun hEof => ?_, hFront, hPath, hRefuses⟩
    · rw [hLine, hPlace, hSlice]
    · exact absurd (Lexeme.kind_eq_eof_iff.mp hEof) (of_decide_eq_false hEnding)
  | @ending ts last _ hPath hRefuses =>
    have hLine := (List.append_nil line.toList).symm
    refine ⟨ts, last, line.toList, [], hLine, ?_, ?_, fun _ => rfl, hReads, hPath, hRefuses⟩
    · have hFront := hSlice line.toList []
      rwa [List.append_nil, String.length_toList] at hFront
    · rw [String.length_toList]

theorem eq_of_refuses_eof {state : State} {expected : Kind} (h : state.Refuses expected .eof) :
    expected = .number ∧ ∃ slash?, state = .needFactor slash? ∨ state = .needNumber slash? := by
  cases state with
  | needFactor slash? => exact ⟨h.1, slash?, .inl rfl⟩
  | needNumber slash? => exact ⟨h.1, slash?, .inr rfl⟩
  | afterFactor => cases h.2

theorem refuses_eof_of_number {state : State} {kind : Kind} (h : state.Refuses .number kind) :
    state.Refuses .number .eof := by
  cases state with
  | needFactor => exact ⟨rfl, by decide⟩
  | needNumber => exact ⟨rfl, by decide⟩
  | afterFactor => cases h.1

theorem eq_afterFactor_of_refuses {state : State} {kind : Kind} (h : state.Refuses .eof kind) :
    state = .afterFactor := by
  cases state with
  | needFactor | needNumber => cases h.1
  | afterFactor => rfl

/-- All of a line that ends too early is read as tokens, behind which a number is missing. -/
theorem exists_path_of_ended {line : String} {expected : Kind} {position : Int}
    (h : (ofLine line).result = .error (.unexpectedToken .eof expected position)) :
    expected = .number ∧ position = line.length ∧ ∃ (ts : List Token) (last : State)
      (slash? : Option Int), Reads 0 line.toList (ts.map .ok) ∧ Path (.needFactor none) ts [] last ∧
        (last = .needFactor slash? ∨ last = .needNumber slash?) := by
  obtain ⟨ts, last, front, back, hLine, -, rfl, hBack, hReads, hPath, hRefuses⟩ := exists_front h
  obtain rfl := hBack rfl
  obtain rfl : line.toList = front := hLine.trans (List.append_nil front)
  obtain ⟨rfl, slash?, hLast⟩ := eq_of_refuses_eof hRefuses
  exact ⟨rfl, by rw [String.length_toList], ts, last, slash?, hReads, hPath, hLast⟩

/-- A line that ends too early lacks no more than a number. -/
theorem exists_result_append_one {line : String} {expected : Kind} {position : Int}
    (h : (ofLine line).result = .error (.unexpectedToken .eof expected position)) :
    expected = .number ∧ position = line.length ∧
      ∃ q, (ofLine (line ++ "1")).result = .ok q := by
  obtain ⟨hExpected, hPosition, ts, last, slash?, hReads, hPath, hLast⟩ := exists_path_of_ended h
  refine ⟨hExpected, hPosition, ?_⟩
  have hParted : Parted line.toList ['1'] := by
    refine hReads.parted (fun t ht => ?_) _
    rw [List.getLast?_map, Option.map_eq_some_iff] at ht
    obtain ⟨u, hu, hOk⟩ := ht
    cases hOk
    exact hPath.kind_ne_number (by rcases hLast with rfl | rfl <;> nofun) hu
  have hOne : IsRun ['1'] [] :=
    ⟨List.cons_ne_nil _ _, List.forall_mem_singleton.mpr rfl, fun _ hd => nomatch hd⟩
  let one : Token := ⟨.number 1, (0 + line.toList.length : Nat), "1"⟩
  have hLonger : Reads 0 (line ++ "1").toList ((ts ++ [one]).map .ok) := by
    rw [String.toList_append, List.map_append]
    exact hReads.append (.number hOne (.nothing _)) hParted
  have hLexeme : one.lexeme = .number 1 := rfl
  exact exists_result_eq_ok_iff.mpr ⟨_, hLonger, hPath.concat (.number hLast hLexeme)⟩

/-- In front of what was expected to be the end of a line, the line has a value. -/
theorem exists_result_front {line : String} {actual : Kind} {position : Int}
    (h : (ofLine line).result = .error (.unexpectedToken actual .eof position)) :
    ∃ q, (ofLine (String.ofList (Text.slice 0 position line.toList))).result = .ok q := by
  obtain ⟨ts, last, front, -, -, hSlice, -, -, hReads, hPath, hRefuses⟩ := exists_front h
  obtain rfl := eq_afterFactor_of_refuses hRefuses
  rw [hSlice]
  exact exists_result_eq_ok_iff.mpr ⟨ts, by rwa [String.toList_ofList], hPath⟩

theorem result_front_of_number {line : String} {actual : Kind} {position : Int}
    (h : (ofLine line).result = .error (.unexpectedToken actual .number position)) :
    (ofLine (String.ofList (Text.slice 0 position line.toList))).result =
      .error (.unexpectedToken .eof .number position) := by
  obtain ⟨ts, last, front, -, -, hSlice, hPosition, -, hReads, hPath, hRefuses⟩ := exists_front h
  rw [hSlice, hPosition, ← String.length_ofList]
  refine (result_eq_error_iff (by rwa [String.toList_ofList])).mpr ?_
  exact .ending ts hPath (refuses_eof_of_number hRefuses)

end Reckoning

/-- An unrecognized symbol and an unexpected token stay the fault of a line whatever it goes on
with, and so does a division by zero if anything but blanks follows the digits of the divisor. A
line that ended too early has a value with a digit behind it. In front of an unexpected token the
line has a value if its end was expected there, and otherwise it ended too early. -/
theorem faults_of_continuations (line : String) :
    (∀ symbol position,
      (Reckoning.ofLine line).result = .error (.unrecognizedSymbol symbol position) → ∀ more,
        (Reckoning.ofLine (line ++ more)).result = .error (.unrecognizedSymbol symbol position)) ∧
    (∀ actual expected position,
      (Reckoning.ofLine line).result = .error (.unexpectedToken actual expected position) →
        actual ≠ .eof → ∀ more, (Reckoning.ofLine (line ++ more)).result =
          .error (.unexpectedToken actual expected position)) ∧
    (∀ place, (Reckoning.ofLine line).result = .error (.divisionByZero place) →
      (∃ after, ZeroDivisor place line.toList after) ∧
      ∀ after, ZeroDivisor place line.toList after → (∃ c ∈ after, c ≠ ' ') → ∀ more,
        (Reckoning.ofLine (line ++ more)).result = .error (.divisionByZero place)) ∧
    (∀ expected position,
      (Reckoning.ofLine line).result = .error (.unexpectedToken .eof expected position) →
        expected = .number ∧ position = line.length ∧
          ∃ q, (Reckoning.ofLine (line ++ "1")).result = .ok q) ∧
    (∀ actual position,
      (Reckoning.ofLine line).result = .error (.unexpectedToken actual .eof position) →
        ∃ q, (Reckoning.ofLine (String.ofList (Text.slice 0 position line.toList))).result = .ok q) ∧
    ∀ actual position,
      (Reckoning.ofLine line).result = .error (.unexpectedToken actual .number position) →
        (Reckoning.ofLine (String.ofList (Text.slice 0 position line.toList))).result =
          .error (.unexpectedToken .eof .number position) := by
  refine ⟨?_, ?_, ?_, ?_, ?_, ?_⟩
  · exact fun _ _ => Reckoning.result_append_of_symbol
  · exact fun _ _ _ => Reckoning.result_append_of_token
  · intro place h
    exact ⟨exists_zeroDivisor_of_result h, fun _ => Reckoning.result_append_of_division h⟩
  · exact fun _ _ => Reckoning.exists_result_append_one
  · exact fun _ _ => Reckoning.exists_result_front
  · exact fun _ _ => Reckoning.result_front_of_number

end Reckoner
