import Mathlib.Computability.RegularExpressions
import Mathlib.Order.CompletePartialOrder
import Reckoner.Proofs.Alphabet

/-!
# Which lines are expressions

The lines that have a value are found among those that match one regular expression as a whole, and
a line that matches it lacks a value only if it divides by a numeral of zeros. Each state of the
automaton has a regular expression of its own, for the texts that lead from it past the last factor.
That of the first state is the one for lines.
-/

set_option autoImplicit false

namespace Reckoner

open Automaton Reading
open scoped Computability

namespace Sentence

open RegularExpression

def oneOf (cs : List Char) : RegularExpression Char := (cs.map char).sum

def blanks : RegularExpression Char := star (char ' ')

def digit : RegularExpression Char := oneOf decimalDigits

def numeral : RegularExpression Char := digit * star digit

def sign : RegularExpression Char := 1 + char '-' * blanks

def operator : RegularExpression Char := oneOf ['-', '+', '*', '/']

/-- A factor behind an operator. -/
def link : RegularExpression Char := blanks * operator * blanks * sign * numeral

def pattern : RegularExpression Char := blanks * sign * numeral * star link * blanks

/-- What leads from a state past the last factor. -/
def patternFrom : State → RegularExpression Char
  | .needFactor _ => blanks * (sign * (numeral * (star link * blanks)))
  | .needNumber _ => blanks * (numeral * (star link * blanks))
  | .afterFactor => star link * blanks

theorem matches_pattern (slash? : Option Int) :
    pattern.matches' = (patternFrom (.needFactor slash?)).matches' := by
  simp only [pattern, patternFrom, matches'_mul, mul_assoc]

/-! ## Texts of one sort of characters -/

theorem mem_oneOf_iff {cs s : List Char} : s ∈ (oneOf cs).matches' ↔ ∃ c ∈ cs, s = [c] := by
  induction cs with
  | nil => exact iff_of_false (Language.notMem_zero s) (by simp)
  | cons c cs ih =>
    rw [oneOf, List.map_cons, List.sum_cons, matches'_add, Language.mem_add, matches'_char]
    rw [oneOf] at ih
    rw [ih, List.exists_mem_cons_iff]
    rfl

theorem mem_star_iff {P : RegularExpression Char} {p : Char → Prop}
    (hP : ∀ s, s ∈ P.matches' ↔ ∃ c, p c ∧ s = [c]) {s : List Char} :
    s ∈ (star P).matches' ↔ ∀ c ∈ s, p c := by
  rw [matches'_star, Language.mem_kstar]
  constructor
  · rintro ⟨pieces, rfl, hPieces⟩ c hc
    obtain ⟨piece, hPiece, hc⟩ := List.mem_flatten.mp hc
    obtain ⟨d, hd, rfl⟩ := (hP piece).mp (hPieces piece hPiece)
    exact List.mem_singleton.mp hc ▸ hd
  · intro h
    refine ⟨s.map fun c => [c], (List.flatMap_singleton' s).symm, ?_⟩
    intro piece hPiece
    obtain ⟨c, hc, rfl⟩ := List.mem_map.mp hPiece
    exact (hP [c]).mpr ⟨c, h c hc, rfl⟩

theorem mem_blanks_iff {s : List Char} : s ∈ blanks.matches' ↔ ∀ c ∈ s, c = ' ' := by
  refine mem_star_iff fun t => ?_
  rw [exists_eq_left, matches'_char]
  rfl

theorem mem_digit_iff {s : List Char} :
    s ∈ digit.matches' ↔ ∃ c : Char, c.isDigit = true ∧ s = [c] := by
  simp only [digit, mem_oneOf_iff, mem_decimalDigits_iff]

theorem mem_numeral_iff {s : List Char} :
    s ∈ numeral.matches' ↔ s ≠ [] ∧ ∀ c ∈ s, c.isDigit = true := by
  have hDigits {rest : List Char} := mem_star_iff (fun _ => mem_digit_iff) (s := rest)
  rw [numeral, matches'_mul, Language.mem_mul]
  constructor
  · rintro ⟨first, hFirst, rest, hRest, rfl⟩
    obtain ⟨c, hc, rfl⟩ := mem_digit_iff.mp hFirst
    exact ⟨List.cons_ne_nil c rest, List.forall_mem_cons.mpr ⟨hc, hDigits.mp hRest⟩⟩
  · rintro ⟨hNonempty, h⟩
    obtain ⟨c, rest, rfl⟩ := List.exists_cons_of_ne_nil hNonempty
    obtain ⟨hc, hRest⟩ := List.forall_mem_cons.mp h
    exact ⟨[c], mem_digit_iff.mpr ⟨c, hc, rfl⟩, rest, hDigits.mpr hRest, rfl⟩

theorem eq_of_mem_operators {c d : Char} {lexeme : Lexeme} (hc : (c, lexeme) ∈ operators)
    (hd : (d, lexeme) ∈ operators) : c = d := by
  have hAll : ∀ p ∈ operators, ∀ q ∈ operators, p.2 = q.2 → p.1 = q.1 := by decide
  exact hAll _ hc _ hd rfl

theorem mem_operator_iff {s : List Char} :
    s ∈ operator.matches' ↔ ∃ c lexeme, (c, lexeme) ∈ operators ∧ s = [c] := by
  have hOperator : ∀ c, c ∈ ['-', '+', '*', '/'] ↔ ∃ lexeme, (c, lexeme) ∈ operators := by
    simp [operators, or_left_comm, exists_or]
  simp only [operator, mem_oneOf_iff, hOperator, exists_and_right]

theorem mem_sign_iff {s : List Char} :
    s ∈ sign.matches' ↔ s = [] ∨ ∃ gap, (∀ c ∈ gap, c = ' ') ∧ s = '-' :: gap := by
  rw [sign, matches'_add, Language.mem_add, matches'_epsilon, Language.mem_one, matches'_mul,
    Language.mem_mul, matches'_char]
  simp only [← mem_blanks_iff]
  constructor
  · rintro (rfl | ⟨_, rfl, gap, hGap, rfl⟩)
    · exact .inl rfl
    · exact .inr ⟨gap, hGap, rfl⟩
  · rintro (rfl | ⟨gap, hGap, rfl⟩)
    · exact .inl rfl
    · exact .inr ⟨['-'], rfl, gap, hGap, rfl⟩

/-! ## From texts that are read to the pattern -/

theorem blanks_mul_blanks : blanks.matches' * blanks.matches' = blanks.matches' := by
  rw [blanks, matches'_star, kstar_mul_kstar]

theorem one_le_sign : 1 ≤ sign.matches' := fun _ h => mem_sign_iff.mpr (.inl h)

theorem one_le_blanks : 1 ≤ blanks.matches' := by
  rw [blanks, matches'_star]
  exact one_le_kstar

/-- A link and what follows it can be had behind a factor, and no less behind blanks. -/
theorem link_mul_le :
    link.matches' * (patternFrom .afterFactor).matches' ≤ (patternFrom .afterFactor).matches' := by
  rw [patternFrom, matches'_mul, matches'_star, ← mul_assoc]
  grw [mul_kstar_le_kstar]

theorem blanks_mul_le (state : State) :
    blanks.matches' * (patternFrom state).matches' ≤ (patternFrom state).matches' := by
  cases state with
  | needFactor | needNumber =>
    rw [patternFrom, matches'_mul, ← mul_assoc, blanks_mul_blanks]
  | afterFactor =>
    have hLink : blanks.matches' * link.matches' = link.matches' := by
      simp only [link, matches'_mul, ← mul_assoc, blanks_mul_blanks]
    -- Either there are blanks alone, or a link follows and begins with blanks of its own.
    calc blanks.matches' * (patternFrom .afterFactor).matches'
      _ = blanks.matches' * blanks.matches' +
          blanks.matches' * link.matches' * (patternFrom .afterFactor).matches' := by
        rw [patternFrom, matches'_mul, matches'_star, mul_assoc, ← mul_add, ← mul_assoc link.matches',
          ← one_add_mul (link.matches' * _), one_add_mul_kstar]
      _ = blanks.matches' + link.matches' * (patternFrom .afterFactor).matches' := by
        rw [blanks_mul_blanks, hLink]
      _ ≤ (patternFrom .afterFactor).matches' := by
        refine add_le ?_ link_mul_le
        rw [patternFrom, matches'_mul, matches'_star]
        exact le_mul_of_one_le_left' one_le_kstar

theorem operator_mul_le (slash? : Option Int) :
    operator.matches' * (patternFrom (.needFactor slash?)).matches' ≤
      (patternFrom .afterFactor).matches' := by
  calc operator.matches' * (patternFrom (.needFactor slash?)).matches'
    _ ≤ blanks.matches' * (operator.matches' * (patternFrom (.needFactor slash?)).matches') :=
      le_mul_of_one_le_left' one_le_blanks
    _ = link.matches' * (patternFrom .afterFactor).matches' := by
      simp only [link, patternFrom, matches'_mul, mul_assoc]
    _ ≤ (patternFrom .afterFactor).matches' := link_mul_le

theorem minus_mul_le (slash? : Option Int) :
    (char '-').matches' * (patternFrom (.needNumber slash?)).matches' ≤
      (patternFrom (.needFactor slash?)).matches' := by
  have hMinus : (char '-').matches' * blanks.matches' ≤ sign.matches' := by
    rw [sign, matches'_add, matches'_mul]
    exact le_add_left (le_refl _)
  calc (char '-').matches' * (patternFrom (.needNumber slash?)).matches'
    _ = (char '-').matches' * blanks.matches' * (numeral * (star link * blanks)).matches' := by
      rw [patternFrom, matches'_mul, mul_assoc]
    _ ≤ (sign * (numeral * (star link * blanks))).matches' := by
      rw [matches'_mul sign]
      grw [hMinus]
    _ ≤ (patternFrom (.needFactor slash?)).matches' := by
      rw [patternFrom, matches'_mul blanks]
      exact le_mul_of_one_le_left' one_le_blanks

theorem numeral_mul_le {state : State} {slash? : Option Int}
    (hState : state = .needFactor slash? ∨ state = .needNumber slash?) :
    numeral.matches' * (patternFrom .afterFactor).matches' ≤ (patternFrom state).matches' := by
  rcases hState with rfl | rfl
  · simp only [patternFrom, matches'_mul blanks, matches'_mul sign, matches'_mul numeral]
    exact (le_mul_of_one_le_left' one_le_sign).trans (le_mul_of_one_le_left' one_le_blanks)
  · simp only [patternFrom, matches'_mul blanks, matches'_mul numeral]
    exact le_mul_of_one_le_left' one_le_blanks

theorem mem_patternFrom_of_reads {place : Nat} {s : List Char} {ts : List Token} {state : State}
    {places : List Int} (h : Reads place s (ts.map .ok)) (hPath : Path state ts places .afterFactor) :
    s ∈ (patternFrom state).matches' := by
  generalize hItems : ts.map Except.ok = items at h
  induction h generalizing ts state places with
  | nothing =>
    obtain rfl := List.map_eq_nil_iff.mp hItems
    cases hPath
    exact ⟨[], Language.nil_mem_kstar _, [], mem_blanks_iff.mpr (by simp), rfl⟩
  | blank _ ih =>
    have hBlank : [' '] ∈ blanks.matches' := mem_blanks_iff.mpr (by simp)
    exact blanks_mul_le state ⟨_, hBlank, _, ih hPath hItems, rfl⟩
  | operator hOperator _ ih =>
    obtain ⟨t, ts, rfl, hFirst, hRest⟩ := List.map_eq_cons_iff.mp hItems
    cases hFirst
    cases hPath with
    | cons hGoes hPath =>
      have hMem := ih hPath hRest
      cases hGoes with
      | @sign slash? _ hLexeme =>
        cases hLexeme
        obtain rfl := eq_of_mem_operators hOperator (d := '-') (by decide)
        exact minus_mul_le slash? ⟨_, rfl, _, hMem, rfl⟩
      | number _ hLexeme =>
        exact absurd (congrArg Lexeme.kind hLexeme) (kind_ne_number_of_mem_operators hOperator)
      | operator =>
        exact operator_mul_le _ ⟨_, mem_operator_iff.mpr ⟨_, _, hOperator, rfl⟩, _, hMem, rfl⟩
  | @number _ digits rest _ hRun _ ih =>
    obtain ⟨t, ts, rfl, hFirst, hRest⟩ := List.map_eq_cons_iff.mp hItems
    cases hFirst
    cases hPath with
    | cons hGoes hPath =>
      have hMem := ih hPath hRest
      cases hGoes with
      | sign hLexeme => cases hLexeme
      | number hState =>
        have hNumeral := mem_numeral_iff.mpr ⟨hRun.nonempty, hRun.isDigit⟩
        exact numeral_mul_le hState ⟨digits, hNumeral, rest, hMem, rfl⟩
      | operator hNumber => exact absurd rfl hNumber
  | symbol =>
    obtain ⟨_, _, _, hFirst, _⟩ := List.map_eq_cons_iff.mp hItems
    cases hFirst

/-! ## From the pattern to texts that are read -/

/-- The texts that are read as tokens which lead from a state past the last factor. -/
def accepted (state : State) : Language Char :=
  {s | ∀ place, ∃ ts places, Reads place s (ts.map .ok) ∧ Path state ts places .afterFactor}

/-- Those that can follow the digits of a number. -/
def following : Language Char :=
  {s ∈ accepted .afterFactor | ∀ d ∈ s.head?, d.isDigit = false}

theorem blanks_mul_accepted_le (state : State) :
    blanks.matches' * accepted state ≤ accepted state := by
  rintro _ ⟨gap, hGap, s, hs, rfl⟩ place
  obtain ⟨ts, places, hReads, hPath⟩ := hs (place + gap.length)
  have hBlank := mem_blanks_iff.mp hGap
  have hParted : Parted gap s := parted_of_forall_mem (fun c hc => by rw [hBlank c hc]; rfl) s
  exact ⟨ts, places, (reads_blanks hBlank place).append hReads hParted, hPath⟩

theorem numeral_mul_following_le {state : State} {slash? : Option Int}
    (hState : state = .needFactor slash? ∨ state = .needNumber slash?) :
    numeral.matches' * following ≤ accepted state := by
  rintro _ ⟨digits, hDigits, s, ⟨hs, hMaximal⟩, rfl⟩ place
  obtain ⟨ts, places, hReads, hPath⟩ := hs (place + digits.length)
  obtain ⟨hNonempty, hIsDigit⟩ := mem_numeral_iff.mp hDigits
  exact ⟨_ :: ts, _, .number ⟨hNonempty, hIsDigit, hMaximal⟩ hReads, .cons (.number hState rfl) hPath⟩

theorem minus_mul_accepted_le (slash? : Option Int) :
    (char '-').matches' * accepted (.needNumber slash?) ≤ accepted (.needFactor slash?) := by
  rintro _ ⟨_, rfl, s, hs, rfl⟩ place
  obtain ⟨ts, places, hReads, hPath⟩ := hs (place + 1)
  have hOperator : ('-', Lexeme.minus) ∈ operators := by decide
  exact ⟨_ :: ts, _, .operator hOperator hReads, .cons (.sign rfl) hPath⟩

theorem operator_mul_le_following {factor : Language Char}
    (hFactor : ∀ slash?, factor ≤ accepted (.needFactor slash?)) :
    operator.matches' * factor ≤ following := by
  rintro _ ⟨_, hMem, s, hs, rfl⟩
  obtain ⟨c, lexeme, hOperator, rfl⟩ := mem_operator_iff.mp hMem
  refine ⟨fun place => ?_, fun d hd => Option.some.inj hd ▸ isDigit_of_mem_operators hOperator⟩
  obtain ⟨ts, places, hReads, hPath⟩ :=
    hFactor (if lexeme = .slash then some (place : Int) else none) hs (place + 1)
  have hEof : lexeme ≠ .eof := by
    rintro rfl
    simp [operators] at hOperator
  exact ⟨_ :: ts, _, .operator hOperator hReads,
    .cons (.operator (kind_ne_number_of_mem_operators hOperator) hEof) hPath⟩

theorem blanks_mul_following_le : blanks.matches' * following ≤ following := by
  rintro _ ⟨gap, hGap, s, ⟨hs, hMaximal⟩, rfl⟩
  refine ⟨blanks_mul_accepted_le .afterFactor ⟨gap, hGap, s, hs, rfl⟩, ?_⟩
  intro d hd
  cases gap with
  | nil => exact hMaximal d hd
  | cons c gap =>
    obtain rfl : c = d := Option.some.inj hd
    rw [mem_blanks_iff.mp hGap c List.mem_cons_self]
    rfl

theorem factor_mul_following_le (slash? : Option Int) :
    blanks.matches' * (sign.matches' * (numeral.matches' * following)) ≤
      accepted (.needFactor slash?) := by
  have hNumber : numeral.matches' * following ≤ accepted (.needFactor slash?) :=
    numeral_mul_following_le (.inl rfl)
  have hMinus : (char '-').matches' * blanks.matches' * (numeral.matches' * following) ≤
      accepted (.needFactor slash?) := by
    rw [mul_assoc]
    grw [numeral_mul_following_le (.inr rfl), blanks_mul_accepted_le, minus_mul_accepted_le]
  have hSign : sign.matches' * (numeral.matches' * following) ≤ accepted (.needFactor slash?) := by
    rw [sign, matches'_add, matches'_epsilon, matches'_mul, add_mul, one_mul]
    exact add_le hNumber hMinus
  grw [hSign, blanks_mul_accepted_le]

theorem patternFrom_afterFactor_le : (patternFrom .afterFactor).matches' ≤ following := by
  rw [patternFrom, matches'_mul, matches'_star]
  refine kstar_mul_le ?_ ?_
  · calc blanks.matches'
      _ = blanks.matches' * 1 := (mul_one _).symm
      _ ≤ blanks.matches' * following := by
        gcongr
        rintro _ rfl
        exact ⟨fun place => ⟨[], [], .nothing place, .nil _⟩, fun _ hd => nomatch hd⟩
      _ ≤ following := blanks_mul_following_le
  · calc link.matches' * following
      _ = blanks.matches' * (operator.matches' *
          (blanks.matches' * (sign.matches' * (numeral.matches' * following)))) := by
        simp only [link, matches'_mul, mul_assoc]
      _ ≤ blanks.matches' * following := by
        grw [operator_mul_le_following factor_mul_following_le]
      _ ≤ following := blanks_mul_following_le

theorem mem_pattern_iff {s : List Char} : s ∈ pattern.matches' ↔ ∃ ts places,
    Reads 0 s (ts.map .ok) ∧ Path (.needFactor none) ts places .afterFactor := by
  rw [matches_pattern none]
  constructor
  · intro h
    have hFactor : (patternFrom (.needFactor none)).matches' ≤ accepted (.needFactor none) := by
      refine le_trans ?_ (factor_mul_following_le none)
      simp only [patternFrom, matches'_mul]
      gcongr
      exact patternFrom_afterFactor_le
    exact hFactor h 0
  · rintro ⟨ts, places, hReads, hPath⟩
    exact mem_patternFrom_of_reads hReads hPath

example : "- 1*-02 - - 3 ".toList ∈ pattern.matches' := by decide

example : "1 2".toList ∉ pattern.matches' := by decide

end Sentence
end Reckoner
