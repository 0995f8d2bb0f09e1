import Reckoner.Proofs.Allowances
import Reckoner.Proofs.Sessions

/-!
# Numbers from any character

A bare reading of a number takes the character under the cursor for the leading place of a numeral,
whatever it is, and goes on over the digits behind it. The leading place outweighs all of them together,
so what is read is below zero just if that character is below the digits, and then it is no number. The fault
quotes it, where a limit on digits lets it be written; on a digit nothing is refused, under any limit.
-/

set_option autoImplicit false

namespace Reckoner

/-! ## The leading place -/

theorem ofDigitChars_lt_pow {digits : List Char} (h : ∀ d ∈ digits, d.isDigit = true) :
    Nat.ofDigitChars 10 digits 0 < 10 ^ digits.length := by
  induction digits with
  | nil => simp
  | cons d digits ih =>
    obtain ⟨hDigit, hDigits⟩ := List.forall_mem_cons.mp h
    have hRest := ih hDigits
    have hNine : d.toNat - '0'.toNat ≤ 9 := by
      have hHigh : d.toNat ≤ 57 := (Char.isDigit_iff_toNat.mp hDigit).2
      have hZero : '0'.toNat = 48 := rfl
      omega
    have hPlace : 10 ^ digits.length * (d.toNat - '0'.toNat) ≤ 10 ^ digits.length * 9 :=
      Nat.mul_le_mul_left _ hNine
    rw [Nat.ofDigitChars_cons, Nat.mul_zero, Nat.zero_add, Nat.ofDigitChars_eq_ofDigitChars_zero,
      List.length_cons, Nat.pow_succ]
    omega

/-- Nothing that stands behind a leading place makes up for its sign. -/
theorem numeral_neg_iff (first : Int) {digits : List Char} (h : ∀ d ∈ digits, d.isDigit = true) :
    first * 10 ^ digits.length + Nat.ofDigitChars 10 digits 0 < 0 ↔ first < 0 := by
  have hBehind : (Nat.ofDigitChars 10 digits 0 : Int) < 10 ^ digits.length := by
    exact_mod_cast ofDigitChars_lt_pow h
  have hPower : (0 : Int) ≤ 10 ^ digits.length := Int.pow_nonneg (by decide)
  constructor
  · intro hNeg
    by_contra hFirst
    have hPlace : 0 ≤ first * 10 ^ digits.length := Int.mul_nonneg (Int.not_lt.mp hFirst) hPower
    omega
  · intro hFirst
    have hPlace : first * 10 ^ digits.length ≤ -1 * 10 ^ digits.length :=
      Int.mul_le_mul_of_nonneg_right (by omega) hPower
    omega

/-! ## The cursor -/

namespace Cursor

/-- A character of a line under the cursor, with the digits directly behind it and what follows them. -/
structure Heads (line : List Char) (place : Nat) (c : Char) (digits rest : List Char) : Prop where
  exists_before : ∃ before, line = before ++ c :: digits ++ rest ∧ before.length = place
  isDigit : ∀ d ∈ digits, d.isDigit = true
  maximal : ∀ d ∈ rest.head?, d.isDigit = false

theorem position_overDigits (passed : List Char) (c : Char) (rest : List Char) :
    (overDigits passed c rest).position = passed.length + (rest.takeWhile Char.isDigit).length := by
  induction rest generalizing passed c with
  | nil => simp [overDigits, position]
  | cons d rest ih =>
    by_cases hDigit : d.isDigit = true
    · simp only [overDigits, hDigit, if_true, ih, List.takeWhile_cons_of_pos, List.length_cons]
      omega
    · simp [overDigits, hDigit, position]

theorem char?_overDigits (passed : List Char) (c : Char) (rest : List Char) :
    (overDigits passed c rest).char? = (c :: rest.takeWhile Char.isDigit).getLast? := by
  induction rest generalizing passed c with
  | nil => rfl
  | cons d rest ih =>
    by_cases hDigit : d.isDigit = true
    · simp [overDigits, hDigit, ih, List.getLast?_cons_cons]
    · simp [overDigits, hDigit, char?]

theorem heads_on (passed : List Char) (c : Char) (rest : List Char) :
    Heads (on passed c rest).line passed.length c (rest.takeWhile Char.isDigit)
      (rest.dropWhile Char.isDigit) where
  exists_before := by
    refine ⟨passed.reverse, ?_, List.length_reverse⟩
    simp [List.takeWhile_append_dropWhile]
  isDigit d hd := List.mem_takeWhile_imp hd
  maximal d hd := by
    have hHead := List.head?_dropWhile_not Char.isDigit rest
    rw [hd] at hHead
    simpa using hHead

/-- The number is built from the whole span of the line, of whatever value its leading place is. -/
theorem result_readNumber_on (passed : List Char) (c : Char) (rest : List Char) (allowance : Allowance) :
    let digits := rest.takeWhile Char.isDigit
    ((on passed c rest).readNumber allowance).result =
      Token.ofSpan (.kind .number) passed.length (passed.length + digits.length + 1)
        (String.ofList (on passed c rest).line)
        (.int (digitValue c * 10 ^ digits.length + Nat.ofDigitChars 10 digits 0)) allowance := by
  intro digits
  have hDigits : ∀ d ∈ digits, d.isDigit = true := fun d hd => List.mem_takeWhile_imp hd
  have hLine : (on passed c rest).line =
      passed.reverse ++ (c :: digits) ++ rest.dropWhile Char.isDigit := by
    simp [digits, List.takeWhile_append_dropWhile]
  have hSlice : Text.slice passed.length (passed.length + digits.length + 1) (on passed c rest).line =
      c :: digits := by
    have h := Reading.slice_append passed.reverse (c :: digits) (rest.dropWhile Char.isDigit)
    rw [List.length_reverse, List.length_cons, Int.natCast_succ, ← Int.add_assoc] at h
    rw [hLine, h]
  rw [Token.ofSpan, String.toList_ofList, hSlice, ← numeralValue_eq _ hDigits]
  rfl

theorem mark_left_readNumber_on (passed : List Char) (c : Char) (rest : List Char) :
    let digits := rest.takeWhile Char.isDigit
    (on passed c rest).readNumber.left.mark =
      ⟨passed.length + digits.length, (c :: digits).getLast?⟩ := by
  simp only [readNumber, mark, position_overDigits, char?_overDigits]

theorem exists_on_of_char? {cur : Cursor} {c : Char} (h : cur.char? = some c) :
    ∃ passed rest, cur = on passed c rest := by
  cases cur with
  | on passed d rest =>
    cases h
    exact ⟨passed, rest, rfl⟩
  | before | past => cases h

theorem readNumber_of_char?_eq_none {cur : Cursor} (h : cur.char? = none) (allowance : Allowance) :
    cur.readNumber allowance = ⟨.error .noCharacter, cur⟩ := by
  cases cur with
  | on => cases h
  | before | past => rfl

/-- A number that begins with a digit is read alike under every allowance, so what scans ahead for one
needs none. -/
theorem readNumber_of_isDigit {passed : List Char} {c : Char} {rest : List Char} (h : c.isDigit = true)
    (allowance : Allowance) :
    (on passed c rest).readNumber allowance = (on passed c rest).readNumber := by
  have hDigits : ∀ d ∈ rest.takeWhile Char.isDigit, d.isDigit = true :=
    fun d hd => List.mem_takeWhile_imp hd
  have hFirst : 0 ≤ digitValue c := by
    have hLow : '0'.toNat ≤ c.toNat := (Char.isDigit_iff_toNat.mp h).1
    rw [digitValue]
    omega
  have hValue : 0 ≤ numeralValue (digitValue c) (rest.takeWhile Char.isDigit) := by
    rw [numeralValue_eq _ hDigits]
    exact Int.not_lt.mp fun hNeg => absurd hFirst (Int.not_le.mpr ((numeral_neg_iff _ hDigits).mp hNeg))
  obtain ⟨n, hn⟩ := Int.eq_ofNat_of_zero_le hValue
  simp only [readNumber, hn, Token.build_number]

end Cursor

namespace Session

/-- Steps leave the same sessions under every allowance. Off the line nothing is read, and nothing
changes. On a character, a bare reading goes to the last of the digits behind it, and what it reads is the
numeral of that span with the character for its leading place. It is a number with the text of the span
unless the character is below the digits; then the value is below zero, whatever digits follow, and is
refused. The refusal quotes the value; if that has more digits than the limit there is, it is the fault of
the limit instead. -/
theorem number_from_any_character (line : String) (steps : List Step) (allowance : Allowance) :
    let session := (ofLine line).after steps
    let result := session.step .readNumber allowance
    (((ofLine line).run steps allowance).map Prod.snd = ((ofLine line).run steps).map Prod.snd) ∧
    (session.feed.cursor.char? = none → result = (.fault .noCharacter, session)) ∧
    ∀ c, session.feed.cursor.char? = some c → ∃ (p : Nat) (digits rest : List Char),
      session.feed.cursor.position = p ∧ Cursor.Heads line.toList p c digits rest ∧
      (∃ left : Cursor, result.2 = session.moveTo left ∧ left.line = line.toList ∧
        left.mark = ⟨p + digits.length, (c :: digits).getLast?⟩) ∧
      let v : Int := ((c.toNat : Int) - 48) * 10 ^ digits.length + Nat.ofDigitChars 10 digits 0
      (v < 0 ↔ c.toNat < 48) ∧
      (48 ≤ c.toNat → ∃ n : Nat, v = n ∧ result.1 =
        .token ⟨.number n, p, String.ofList (Text.slice p (p + digits.length + 1) line.toList)⟩) ∧
      (c.toNat < 48 → allowance.Fits v ∧
          result.1 = .fault (.invalidKind (.kind .number) ("invalid number value " ++ toString v)) ∨
        ∃ limit, allowance.digits? = some limit ∧ limit < Allowance.digitCount v ∧
          result.1 = .fault (.unwritable (.digits limit))) := by
  intro session result
  have hLine : session.feed.cursor.line = line.toList := line_after_ofLine line steps
  have hResult : result = (answerItem (session.feed.cursor.readNumber allowance).result,
      session.moveTo (session.feed.cursor.readNumber allowance).left) := rfl
  refine ⟨map_snd_run _ steps allowance, ?_, ?_⟩
  · intro hNone
    rw [hResult, Cursor.readNumber_of_char?_eq_none hNone]
    rfl
  · intro c hChar
    obtain ⟨passed, rest, hCursor⟩ := Cursor.exists_on_of_char? hChar
    rw [hCursor] at hLine hResult
    have hHeads := Cursor.heads_on passed c rest
    have hNumber := Cursor.result_readNumber_on passed c rest allowance
    rw [hLine] at hHeads
    rw [hLine, String.ofList_toList] at hNumber
    refine ⟨passed.length, _, _, congrArg Cursor.position hCursor, hHeads, ?_, ?_⟩
    · refine ⟨(Cursor.on passed c rest).readNumber.left, congrArg Prod.snd hResult, ?_,
        Cursor.mark_left_readNumber_on passed c rest⟩
      rw [Cursor.line_readNumber, hLine]
    · intro v
      have hNeg : v < 0 ↔ c.toNat < 48 := by
        rw [numeral_neg_iff _ hHeads.isDigit]
        omega
      have hAnswer : result.1 =
          answerItem (Token.ofSpan (.kind .number) passed.length _ line (.int v) allowance) :=
        (congrArg Prod.fst hResult).trans (congrArg answerItem hNumber)
      refine ⟨hNeg, ?_, ?_⟩
      · intro hLarge
        obtain ⟨n, hn⟩ := Int.eq_ofNat_of_zero_le (by omega : 0 ≤ v)
        rw [hn] at hAnswer
        exact ⟨n, hn, hAnswer⟩
      · intro hSmall
        rw [Token.ofSpan, Token.build_number_of_neg (hNeg.mpr hSmall)] at hAnswer
        rcases Fault.ofValue_int_cases v allowance with ⟨hFits, hFault⟩ | ⟨limit, hLimit, hLess, hFault⟩
        · exact .inl ⟨hFits, hAnswer.trans (congrArg Answer.fault hFault)⟩
        · exact .inr ⟨limit, hLimit, hLess, hAnswer.trans (congrArg Answer.fault hFault)⟩

theorem after_advance (c : Char) (rest : List Char) :
    (ofLine (String.ofList (c :: rest))).after [.advance] = { feed := ⟨.on [] c rest, []⟩ } := by
  have hLine : ofLine (String.ofList (c :: rest)) = { feed := ⟨.before (c :: rest), []⟩ } := by
    rw [ofLine, Feed.ofLine, String.toList_ofList]
  rw [hLine]
  rfl

/-- A sign in front of zeros is five times a power of ten, below zero. -/
theorem step_readNumber_of_zeros (n : Nat) (allowance : Allowance) :
    (((ofLine (String.ofList ('+' :: List.replicate n '0'))).after [.advance]).step .readNumber
      allowance).1 = .fault (.ofValue .number (.int (-5 * 10 ^ n)) allowance) := by
  have hZeros : ∀ d ∈ List.replicate n '0', d.isDigit = true := fun d hd => by
    rw [List.eq_of_mem_replicate hd]
    rfl
  have hValue : Cursor.numeralValue (Cursor.digitValue '+') (List.replicate n '0') = -5 * 10 ^ n := by
    rw [Cursor.numeralValue_eq _ hZeros, Nat.ofDigitChars_replicate_zero, Nat.mul_zero,
      List.length_replicate]
    exact Int.add_zero _
  have hNeg : (-5 : Int) * 10 ^ n < 0 :=
    Int.mul_neg_of_neg_of_pos (by decide) (Int.pow_pos (by decide))
  rw [after_advance]
  change answerItem (Token.build (.kind .number)
    (.int (Cursor.numeralValue _ ((List.replicate n '0').takeWhile Char.isDigit))) _ _ allowance) = _
  rw [List.takeWhile_eq_self_iff.mpr hZeros, hValue, Token.build_number_of_neg hNeg]
  rfl

theorem step_readNumber_beyond {limit : Nat} (h : 0 < limit) {allowance : Allowance}
    (hLimit : allowance.digits? = some limit) :
    (((ofLine (String.ofList ('+' :: List.replicate limit '0'))).after [.advance]).step .readNumber
      allowance).1 = .fault (.unwritable (.digits limit)) := by
  have hStep := step_readNumber_of_zeros limit allowance
  have hLess : limit < Allowance.digitCount (-5 * 10 ^ limit) :=
    Allowance.lt_digitCount_mul_pow h (by decide)
  rcases Fault.ofValue_int_cases (-5 * 10 ^ limit) allowance with ⟨hFits, -⟩ | ⟨other, hOther, -, hFault⟩
  · exact absurd (hFits limit hLimit) (Nat.not_le.mpr hLess)
  · rw [hLimit] at hOther
    cases hOther
    rw [hStep, hFault]

/-- A fresh runtime quotes no number of so many digits. -/
theorem number_from_sign_not_quoted :
    let session := (ofLine (String.ofList ('+' :: List.replicate 4300 '0'))).after [.advance]
    session.feed.cursor.char? = some '+' ∧
    (session.step .readNumber .customary).1 = .fault (.unwritable (.digits 4300)) ∧
    ¬ ∃ argument note, (session.step .readNumber .customary).1 = .fault (.invalidKind argument note) := by
  have hStep := step_readNumber_beyond (by decide : 0 < 4300) (rfl : Allowance.customary.digits? = _)
  refine ⟨?_, hStep, ?_⟩
  · rw [after_advance]
    rfl
  · rintro ⟨argument, note, h⟩
    cases hStep.symm.trans h

/-- The sign has minus five for its value, and the digit does not make up for it. -/
example : ((ofLine "7+9 ").after [.advance, .advance]).step .readNumber =
    (.fault (.invalidKind (.kind .number) "invalid number value -41"),
      (ofLine "7+9 ").after [.advance, .advance, .advance]) := by rfl

end Session

end Reckoner
