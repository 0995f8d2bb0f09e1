import Reckoner.Proofs.Sentences

/-!
# Lines that divide by zero

A division by zero is seen in the characters of a line: a slash, then a numeral of zeros, between
them at most blanks and one minus. The lines that match the pattern and have no such divisor are
just those that have a value.
-/

set_option autoImplicit false

namespace Reckoner

open Automaton Sentence

namespace Reading

open RegularExpression

/-- A slash at a place of a text that has a numeral of zeros behind it, and what follows that. -/
inductive ZeroDivisor : Int → List Char → List Char → Prop
  | intro {before gap zeros after : List Char} (hGap : gap ∈ (blanks * sign).matches')
      (hRun : IsRun zeros after) (hZeros : ∀ c ∈ zeros, c = '0') :
      ZeroDivisor before.length (before ++ '/' :: (gap ++ (zeros ++ after))) after

/-- The characters that a zero divisor has in front of its digits. -/
theorem mem_gap_iff {gap : List Char} : gap ∈ (blanks * sign).matches' ↔
    ∃ front back, (∀ c ∈ front, c = ' ') ∧ gap = front ++ back ∧
      (back = [] ∨ ∃ rest, (∀ c ∈ rest, c = ' ') ∧ back = '-' :: rest) := by
  rw [matches'_mul, Language.mem_mul]
  constructor
  · rintro ⟨front, hFront, back, hBack, rfl⟩
    exact ⟨front, back, mem_blanks_iff.mp hFront, rfl, mem_sign_iff.mp hBack⟩
  · rintro ⟨front, back, hFront, rfl, hBack⟩
    exact ⟨front, mem_blanks_iff.mpr hFront, back, mem_sign_iff.mpr hBack, rfl⟩

theorem ofDigitChars_eq_zero_iff {digits : List Char} (hDigits : ∀ d ∈ digits, d.isDigit = true)
    {n : Nat} : Nat.ofDigitChars 10 digits n = 0 ↔ n = 0 ∧ ∀ c ∈ digits, c = '0' := by
  induction digits generalizing n with
  | nil => simp [Nat.ofDigitChars_nil]
  | cons d digits ih =>
    obtain ⟨hDigit, hDigits⟩ := List.forall_mem_cons.mp hDigits
    have hLow := (Char.isDigit_iff_toNat.mp hDigit).1
    have hZero : 10 * n + (d.toNat - '0'.toNat) = 0 ↔ n = 0 ∧ d = '0' := by
      rw [← Char.toNat_inj]
      omega
    rw [Nat.ofDigitChars_cons, ih hDigits, hZero, List.forall_mem_cons, and_assoc]

/-! ## From tokens to characters -/

theorem Reads.exists_zeros {place : Nat} {s : List Char} {t : Token} {rest : List Item}
    (h : Reads place s (.ok t :: rest)) (hZero : t.lexeme = .number 0) :
    ∃ gap zeros after stop, s = gap ++ (zeros ++ after) ∧ (∀ c ∈ gap, c = ' ') ∧
      IsRun zeros after ∧ (∀ c ∈ zeros, c = '0') ∧ Reads stop after rest := by
  have hFirst : Reads place s ([] ++ .ok t :: rest) := h
  obtain ⟨gap, back, rfl, hGap, hBack, hPlace, -⟩ := hFirst.exists_cut
  obtain ⟨zeros, after, rfl, hRun, hValue, hAfter⟩ := hBack.exists_digits hPlace hZero
  exact ⟨gap, zeros, after, _, rfl, hGap.eq_blank_of_nil, hRun,
    ((ofDigitChars_eq_zero_iff hRun.isDigit).mp hValue).2, hAfter⟩

theorem Reads.exists_cut_operator {place : Nat} {s : List Char} {items others : List Item}
    {t : Token} {c : Char} (h : Reads place s (items ++ .ok t :: others))
    (hOperator : (c, t.lexeme) ∈ operators) : ∃ front back, s = front ++ c :: back ∧
      Reads place front items ∧ t.location = (place + front.length : Nat) ∧
        Reads (place + front.length + 1) back others := by
  obtain ⟨front, back, rfl, hFront, hBack, hPlace, -⟩ := h.exists_cut
  obtain ⟨d, back, rfl, hMem, hRest⟩ :=
    hBack.exists_operator hPlace (kind_ne_number_of_mem_operators hOperator)
  obtain rfl := eq_of_mem_operators hMem hOperator
  exact ⟨front, back, rfl, hFront, hPlace, hRest⟩

theorem Reads.exists_divisor {place : Nat} {s : List Char} {divisor : List Token} {rest : List Item}
    (h : Reads place s (divisor.map .ok ++ rest)) (hDivisor : divisor.map Token.lexeme = [.number 0] ∨
      divisor.map Token.lexeme = [.minus, .number 0]) :
    ∃ gap zeros after stop, s = gap ++ (zeros ++ after) ∧ gap ∈ (blanks * sign).matches' ∧
      IsRun zeros after ∧ (∀ c ∈ zeros, c = '0') ∧ Reads stop after rest := by
  rcases hDivisor with hDivisor | hDivisor
  · obtain ⟨zero, rfl, hZero⟩ := List.map_eq_singleton_iff.mp hDivisor
    obtain ⟨gap, zeros, after, stop, rfl, hGap, hZeros⟩ := Reads.exists_zeros h hZero
    have hGap := mem_gap_iff.mpr ⟨gap, [], hGap, (List.append_nil gap).symm, .inl rfl⟩
    exact ⟨gap, zeros, after, stop, rfl, hGap, hZeros⟩
  · obtain ⟨minus, tail, rfl, hMinus, hTail⟩ := List.map_eq_cons_iff.mp hDivisor
    obtain ⟨zero, rfl, hZero⟩ := List.map_eq_singleton_iff.mp hTail
    have hOperator : ('-', minus.lexeme) ∈ operators := by
      rw [hMinus]
      decide
    have hFirst : Reads place s ([] ++ .ok minus :: .ok zero :: rest) := h
    obtain ⟨front, back, rfl, hFront, -, hBack⟩ := hFirst.exists_cut_operator hOperator
    obtain ⟨gap, zeros, after, stop, rfl, hGap, hZeros⟩ := hBack.exists_zeros hZero
    have hGap := mem_gap_iff.mpr ⟨front, _, hFront.eq_blank_of_nil, rfl, .inr ⟨gap, hGap, rfl⟩⟩
    exact ⟨front ++ '-' :: gap, zeros, after, stop, by simp, hGap, hZeros⟩

theorem Reads.exists_zeroDivisor {s : List Char} {ts : List Token} {rest : List Item} {place : Int}
    (h : Reads 0 s (ts.map .ok ++ rest)) (hZero : DividesByZero place ts) :
    ∃ after stop, ZeroDivisor place s after ∧ Reads stop after rest := by
  obtain @⟨before, divisor, slash, hSlash, hDivisor⟩ := hZero
  rw [List.map_append, List.map_cons, List.append_assoc, List.cons_append] at h
  have hOperator : ('/', slash.lexeme) ∈ operators := by
    rw [hSlash]
    decide
  obtain ⟨front, back, rfl, -, hPlace, hBack⟩ := h.exists_cut_operator hOperator
  obtain ⟨gap, zeros, after, stop, rfl, hGap, hRun, hZeros, hAfter⟩ := hBack.exists_divisor hDivisor
  rw [hPlace, Nat.zero_add]
  exact ⟨after, stop, .intro hGap hRun hZeros, hAfter⟩

/-! ## From characters to tokens -/

theorem isDigit_of_mem_gap {gap : List Char} (h : gap ∈ (blanks * sign).matches') :
    ∀ c ∈ gap, c.isDigit = false := by
  have hBlank : ∀ s : List Char, (∀ c ∈ s, c = ' ') → ∀ c ∈ s, c.isDigit = false := by
    intro s hs c hc
    rw [hs c hc]
    rfl
  obtain ⟨front, back, hFront, rfl, rfl | ⟨rest, hRest, rfl⟩⟩ := mem_gap_iff.mp h
  · rw [List.append_nil]
    exact hBlank front hFront
  · exact List.forall_mem_append.mpr
      ⟨hBlank front hFront, List.forall_mem_cons.mpr ⟨rfl, hBlank rest hRest⟩⟩

theorem exists_reads_gap {gap : List Char} (h : gap ∈ (blanks * sign).matches') (place : Nat) :
    ∃ signs : List Token, Reads place gap (signs.map .ok) ∧
      (signs.map Token.lexeme = [] ∨ signs.map Token.lexeme = [.minus]) := by
  obtain ⟨front, back, hFront, rfl, rfl | ⟨rest, hRest, rfl⟩⟩ := mem_gap_iff.mp h
  · rw [List.append_nil]
    exact ⟨[], reads_blanks hFront place, .inl rfl⟩
  · have hOperator : ('-', Lexeme.minus) ∈ operators := by decide
    have hMinus := Reads.operator hOperator (reads_blanks hRest (place + front.length + 1))
    have hParted : Parted front ('-' :: rest) := by
      refine parted_of_forall_mem (fun c hc => ?_) _
      rw [hFront c hc]
      rfl
    exact ⟨[_], (reads_blanks hFront place).append hMinus hParted, .inr rfl⟩

theorem ZeroDivisor.exists_dividesByZero {place : Int} {s after : List Char} {ts : List Token}
    (h : ZeroDivisor place s after) (hReads : Reads 0 s (ts.map .ok)) :
    ∃ us vs, ts = us ++ vs ∧ DividesByZero place us := by
  obtain @⟨before, gap, zeros, _, hGap, hRun, hZeros⟩ := h
  have hBefore : Parted before ('/' :: (gap ++ (zeros ++ after))) := by
    intro _ _ d hHead _
    obtain rfl : '/' = d := Option.some.inj hHead
    rfl
  -- No digit stands next to another across these cuts, so each part is read by itself.
  obtain ⟨front, back, hItems, -, hBack⟩ := hReads.exists_of_append hBefore
  obtain ⟨signs, hSigns, hMinus⟩ := exists_reads_gap hGap (0 + before.length + 1)
  obtain ⟨others, hOthers⟩ := exists_reads (0 + before.length + 1 + gap.length + zeros.length) after
  have hDivisor := hSigns.append (.number hRun hOthers)
    (parted_of_forall_mem (isDigit_of_mem_gap hGap) _)
  have hOperator : ('/', Lexeme.slash) ∈ operators := by decide
  obtain rfl := hBack.unique (.operator hOperator hDivisor)
  rw [show ∀ slash zero : Token, front ++ .ok slash :: (signs.map .ok ++ .ok zero :: others) =
    front ++ (slash :: (signs ++ [zero])).map .ok ++ others by simp] at hItems
  obtain ⟨us, vs, rfl, hFirst, -⟩ := List.map_eq_append_iff.mp hItems
  obtain ⟨us, divisor, rfl, -, hDivisor⟩ := List.map_eq_append_iff.mp hFirst
  obtain rfl := (List.map_injective_iff.mpr fun _ _ => Except.ok.inj) hDivisor
  have hZero : Nat.ofDigitChars 10 zeros 0 = 0 :=
    (ofDigitChars_eq_zero_iff hRun.isDigit).mpr ⟨rfl, hZeros⟩
  have hLexeme : (Token.mk .slash (0 + before.length : Nat) '/'.toString).lexeme = .slash := rfl
  have hLocation : ((0 + before.length : Nat) : Int) = before.length := by rw [Nat.zero_add]
  rw [← hLocation]
  refine ⟨_, vs, rfl, .intro hLexeme ?_⟩
  rcases hMinus with hMinus | hMinus
  · exact .inl (by rw [List.map_append, hMinus, List.map_singleton, hZero]; rfl)
  · exact .inr (by rw [List.map_append, hMinus, List.map_singleton, hZero]; rfl)

/-- The place of a zero divisor tells what follows it. -/
theorem ZeroDivisor.unique {place : Int} {s after after' : List Char} (h : ZeroDivisor place s after)
    (h' : ZeroDivisor place s after') : after = after' := by
  have hDrop : ∀ {after}, ZeroDivisor place s after →
      (((s.drop (place.toNat + 1)).dropWhile (!·.isDigit)).dropWhile Char.isDigit) = after := by
    intro after h
    obtain @⟨before, gap, zeros, _, hGap, hRun, -⟩ := h
    obtain ⟨d, digits, rfl⟩ := List.exists_cons_of_ne_nil hRun.nonempty
    have hGap := isDigit_of_mem_gap hGap
    have hDigit := hRun.isDigit d List.mem_cons_self
    rw [Int.toNat_natCast, ← List.drop_drop, List.drop_left, List.drop_one, List.tail_cons,
      List.dropWhile_append_of_pos (by simpa using hGap), List.cons_append,
      List.dropWhile_cons_of_neg (by simpa using hDigit), List.dropWhile_cons_of_pos hDigit,
      hRun.dropWhile_append]
  rw [← hDrop h, hDrop h']

end Reading

open Reading

theorem exists_zeroDivisor_of_result {line : String} {place : Int}
    (h : (Reckoning.ofLine line).result = .error (.divisionByZero place)) :
    ∃ after, ZeroDivisor place line.toList after := by
  obtain ⟨items, hReads, hFails⟩ := exists_fails h
  cases hFails with
  | division _ hPath hGoes =>
    rw [tokens_append_cons] at hReads
    obtain ⟨after, -, hZero, -⟩ := hReads.exists_zeroDivisor (hPath.dividesByZero hGoes)
    exact ⟨after, hZero⟩

/-- A line that has a value matches the pattern, and a line that matches it has a value unless it
divides by zero. Where the reckoning divides by zero there is a numeral of zeros behind the slash,
and in a line that matches the pattern each such numeral keeps it from having a value. -/
theorem sentence_of_line (line : String) :
    (∀ q, (Reckoning.ofLine line).result = .ok q → line.toList ∈ pattern.matches') ∧
    (line.toList ∈ pattern.matches' → (∃ q, (Reckoning.ofLine line).result = .ok q) ∨
      ∃ place, (Reckoning.ofLine line).result = .error (.divisionByZero place)) ∧
    (∀ place, (Reckoning.ofLine line).result = .error (.divisionByZero place) →
      ∃ after, ZeroDivisor place line.toList after) ∧
    (line.toList ∈ pattern.matches' → ∀ place after, ZeroDivisor place line.toList after →
      ∃ first, (Reckoning.ofLine line).result = .error (.divisionByZero first)) := by
  refine ⟨?_, ?_, ?_, ?_⟩
  · intro q hResult
    obtain ⟨ts, hReads, hPath⟩ := exists_result_eq_ok_iff.mp ⟨q, hResult⟩
    exact mem_pattern_iff.mpr ⟨ts, [], hReads, hPath⟩
  · intro hMatches
    obtain ⟨ts, slashes, hReads, hPath⟩ := mem_pattern_iff.mp hMatches
    cases slashes with
    | nil => exact .inl (exists_result_eq_ok_iff.mpr ⟨ts, hReads, hPath⟩)
    | cons slash => exact .inr ⟨slash, (result_eq_error_iff hReads).mpr (hPath.fails _)⟩
  · exact fun _ => exists_zeroDivisor_of_result
  · intro hMatches place after hZero
    obtain ⟨ts, slashes, hReads, hPath⟩ := mem_pattern_iff.mp hMatches
    obtain ⟨us, vs, rfl, hDivides⟩ := hZero.exists_dividesByZero hReads
    cases slashes with
    | nil => cases hPath.mem_places hDivides
    | cons slash => exact ⟨slash, (result_eq_error_iff hReads).mpr (hPath.fails _)⟩

end Reckoner
