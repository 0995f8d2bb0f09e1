import Mathlib.Data.List.Induction
import Reckoner.Console
import Reckoner.Proofs.Allowances
import Reckoner.Proofs.Valuation

/-!
# Written values

A value is written in one way only, and what is written reads as that value again. So answers can be
compared as texts, and an answer is its own answer. A limit on digits may keep a value from being written;
it keeps no text from being read.
-/

set_option autoImplicit false

namespace Reckoner

open Grammar Reading

namespace Value

/-! ## Canonical texts -/

/-- Some digits are the numeral of a number if no zero stands in front of another digit. -/
structure IsNumeral (n : Nat) (digits : List Char) : Prop where
  nonempty : digits ≠ []
  isDigit : ∀ d ∈ digits, d.isDigit = true
  leading : digits.head? = some '0' → digits = ['0']
  value : Nat.ofDigitChars 10 digits 0 = n

/-- Zero has no sign. -/
def IsSign (n : Nat) (sign : List Char) : Prop := sign = [] ∨ sign = ['-'] ∧ n ≠ 0

/-- A text is canonical if it is a numeral, with a sign or without, and behind it perhaps a divisor
from two up that has nothing in common with the number. -/
inductive Canonical : List Char → Prop
  | whole {n : Nat} {sign digits : List Char} (hSign : IsSign n sign) (hDigits : IsNumeral n digits) :
      Canonical (sign ++ digits)
  | quotient {n d : Nat} {sign digits divisor : List Char} (hSign : IsSign n sign)
      (hDigits : IsNumeral n digits) (hDivisor : IsNumeral d divisor) (hTwo : 2 ≤ d)
      (hCoprime : n.Coprime d) : Canonical (sign ++ digits ++ '/' :: divisor)

theorem isNumeral_toDigits (n : Nat) : IsNumeral n (Nat.toDigits 10 n) where
  nonempty := Nat.toDigits_ne_nil
  isDigit _ hd := Nat.isDigit_of_mem_toDigits (by decide) (by decide) hd
  value := Nat.ofDigitChars_ten_toDigits
  leading h := by
    induction n using Nat.strongRecOn with
    | ind n ih =>
      rcases Nat.lt_or_ge n 10 with hSmall | hLarge
      · rw [Nat.toDigits_of_lt_base hSmall] at h ⊢
        rw [Option.some.inj h]
      · -- The first digit is that of a tenth of the number, which is not zero.
        rw [Nat.toDigits_of_base_le (by decide) hLarge, List.head?_append_of_ne_nil _ Nat.toDigits_ne_nil] at h
        have hTenth := congrArg (Nat.ofDigitChars 10 · 0) (ih (n / 10) (by omega) h)
        rw [Nat.ofDigitChars_ten_toDigits] at hTenth
        have hZero : n / 10 = 0 := hTenth
        omega

theorem digitChar_of_isDigit {d : Char} (h : d.isDigit = true) :
    d.toNat - '0'.toNat < 10 ∧ Nat.digitChar (d.toNat - '0'.toNat) = d := by
  obtain ⟨hLow, hHigh⟩ := Char.isDigit_iff_toNat.mp h
  have hZero : '0'.toNat = 48 := rfl
  have hNine : '9'.toNat = 57 := rfl
  have hLess : d.toNat - '0'.toNat < 10 := by omega
  refine ⟨hLess, Char.toNat_inj.mp ?_⟩
  rw [Nat.toNat_digitChar_of_lt_ten hLess]
  omega

/-- There is one numeral only. -/
theorem IsNumeral.eq_toDigits {n : Nat} {digits : List Char} (h : IsNumeral n digits) :
    digits = Nat.toDigits 10 n := by
  induction digits using List.reverseRecOn generalizing n with
  | nil => exact absurd rfl h.nonempty
  | append_singleton init d ih =>
    obtain ⟨hLess, hChar⟩ :=
      digitChar_of_isDigit (h.isDigit d (List.mem_append_right init List.mem_cons_self))
    have hValue : n = 10 * Nat.ofDigitChars 10 init 0 + (d.toNat - '0'.toNat) := by
      rw [← h.value, Nat.ofDigitChars_append, Nat.ofDigitChars_cons, Nat.ofDigitChars_nil]
    by_cases hInit : init = []
    · rw [hInit, Nat.ofDigitChars_nil, Nat.mul_zero, Nat.zero_add] at hValue
      rw [hInit, hValue, Nat.toDigits_of_lt_base hLess, hChar]
      rfl
    · have hLeading : init.head? ≠ some '0' := fun hHead => by
        have hSingle := h.leading ((List.head?_append_of_ne_nil init hInit).trans hHead)
        have hLength := congrArg List.length hSingle
        rw [List.length_append, List.length_singleton, List.length_singleton] at hLength
        exact hInit (List.length_eq_zero_iff.mp (by omega))
      have hNumeral : IsNumeral (Nat.ofDigitChars 10 init 0) init :=
        ⟨hInit, fun c hc => h.isDigit c (List.mem_append_left _ hc),
          fun hHead => absurd hHead hLeading, rfl⟩
      have hDigits := ih hNumeral
      have hPositive : Nat.ofDigitChars 10 init 0 ≠ 0 := fun hZero => by
        rw [hZero] at hDigits
        rw [hDigits] at hLeading
        exact hLeading rfl
      have hTenth : n / 10 = Nat.ofDigitChars 10 init 0 := by omega
      have hLast : n % 10 = d.toNat - '0'.toNat := by omega
      rw [Nat.toDigits_of_base_le (by decide) (by omega : 10 ≤ n), hTenth, hLast, hChar, ← hDigits]

/-! ## The text of a value -/

def sign (z : Int) : List Char := if z < 0 then ['-'] else []

/-- The divisor is left out if it is one. -/
def divisor (d : Nat) : List Char := if d = 1 then [] else '/' :: Nat.toDigits 10 d

theorem toList_toString (z : Int) :
    (toString z).toList = sign z ++ Nat.toDigits 10 z.natAbs := by
  rw [Int.toString_eq_repr, Int.repr_eq_if]
  by_cases hNeg : z < 0
  · have hAbs : (-z).toNat = z.natAbs := by omega
    rw [if_neg (Int.not_le.mpr hNeg), sign, if_pos hNeg, String.toList_append, Nat.toList_repr, hAbs]
    rfl
  · have hAbs : z.toNat = z.natAbs := by omega
    rw [if_pos (Int.not_lt.mp hNeg), sign, if_neg hNeg, Nat.toList_repr, hAbs, List.nil_append]

theorem toList_written (q : Rat) : (written q).toList =
    sign q.num ++ Nat.toDigits 10 q.num.natAbs ++ divisor q.den := by
  rw [written, divisor]
  split
  · rw [toList_toString, List.append_nil]
  · have hDivisor : (toString q.den).toList = Nat.toDigits 10 q.den := Nat.toList_repr
    simp only [String.join_cons, String.join_nil, String.append_empty, String.toList_append,
      toList_toString, hDivisor, List.append_assoc]
    rfl

theorem canonical_written (q : Rat) : Canonical (written q).toList := by
  have hSign : IsSign q.num.natAbs (sign q.num) := by
    rw [sign]
    split
    · next hNeg => exact .inr ⟨rfl, by omega⟩
    · exact .inl rfl
  rw [toList_written, divisor]
  split
  · rw [List.append_nil]
    exact .whole hSign (isNumeral_toDigits _)
  · next hOne =>
    have hPositive := q.den_pos
    exact .quotient hSign (isNumeral_toDigits _) (isNumeral_toDigits _) (by omega) q.reduced

theorem exists_sign {n : Nat} {s : List Char} (h : IsSign n s) :
    ∃ z : Int, z.natAbs = n ∧ sign z = s := by
  rcases h with rfl | ⟨rfl, hn⟩
  · exact ⟨n, Int.natAbs_natCast n, if_neg (Int.not_lt.mpr (Int.natCast_nonneg n))⟩
  · exact ⟨-n, by omega, if_pos (by omega)⟩

theorem exists_of_canonical {s : List Char} (h : Canonical s) : ∃ q, (written q).toList = s := by
  cases h with
  | whole hSign hDigits =>
    obtain ⟨z, rfl, rfl⟩ := exists_sign hSign
    refine ⟨z, ?_⟩
    rw [toList_written, Rat.num_intCast, Rat.den_intCast, divisor, if_pos rfl, List.append_nil,
      hDigits.eq_toDigits]
  | @quotient _ d _ _ _ hSign hDigits hDivisor hTwo hCoprime =>
    obtain ⟨z, rfl, rfl⟩ := exists_sign hSign
    refine ⟨⟨z, d, by omega, hCoprime⟩, ?_⟩
    rw [toList_written, divisor, if_neg (by omega : d ≠ 1), hDigits.eq_toDigits, hDivisor.eq_toDigits]

/-! ## Reading what is written -/

theorem readsAs_toDigits {place n : Nat} {rest : List Char} {ls : List Lexeme}
    (hRest : ∀ d ∈ rest.head?, d.isDigit = false)
    (h : ReadsAs (place + (Nat.toDigits 10 n).length) rest ls) :
    ReadsAs place (Nat.toDigits 10 n ++ rest) (.number n :: ls) := by
  obtain ⟨ts, hReads, rfl⟩ := h
  have hRun : IsRun (Nat.toDigits 10 n) rest :=
    ⟨(isNumeral_toDigits n).nonempty, (isNumeral_toDigits n).isDigit, hRest⟩
  have hNumber := Reads.number hRun hReads
  rw [(isNumeral_toDigits n).value] at hNumber
  exact ⟨⟨.number n, place, String.ofList (Nat.toDigits 10 n)⟩ :: ts, hNumber, rfl⟩

def numerator (z : Int) : Factor := if z < 0 then .negated z.natAbs else .plain z.natAbs

/-- The expression that a written value is. -/
def expression (q : Rat) : Expression :=
  ⟨⟨numerator q.num, if q.den = 1 then [] else [(.per, .plain q.den)]⟩, []⟩

theorem value_numerator (z : Int) : (numerator z).value = z := by
  rw [numerator]
  split
  · next hNeg =>
    have hAbs : (z.natAbs : Int) = -z := by omega
    rw [Factor.value, ← Int.cast_natCast, hAbs, Int.cast_neg, neg_neg]
  · next hNat =>
    have hAbs : (z.natAbs : Int) = z := by omega
    rw [Factor.value, ← Int.cast_natCast, hAbs]

theorem value_expression (q : Rat) : (expression q).value = q := by
  have hTerm : (expression q).value = (expression q).first.value := rfl
  rw [hTerm, expression, Term.value, value_numerator]
  split
  · next hOne => exact Rat.coe_int_num_of_den_eq_one hOne
  · exact Rat.num_div_den q

theorem defined_expression (q : Rat) : (expression q).Defined := by
  refine ⟨?_, fun _ h => absurd h List.not_mem_nil⟩
  intro f hf
  rw [expression] at hf
  dsimp only at hf
  split at hf
  · cases hf
  · cases List.mem_singleton.mp hf
    exact Nat.cast_ne_zero.mpr q.den_nz

theorem readsAs_divisor (place d : Nat) : ReadsAs place (divisor d)
    (links Scaling.lexeme Factor.lexemes (if d = 1 then [] else [(.per, .plain d)])) := by
  rw [divisor]
  split
  · exact readsAs_nil place
  · have hDigits : ReadsAs (place + 1) (Nat.toDigits 10 d ++ []) [.number d] :=
      readsAs_toDigits (fun _ h => nomatch h) (readsAs_nil _)
    have hSlash : ('/', Lexeme.slash) ∈ operators := by decide
    rw [List.append_nil] at hDigits
    exact readsAs_operator hSlash hDigits

theorem head?_divisor_not_isDigit (d : Nat) : ∀ c ∈ (divisor d).head?, c.isDigit = false := by
  intro c hc
  rw [divisor] at hc
  split at hc
  · cases hc
  · cases hc
    rfl

theorem readsAs_written (q : Rat) : ReadsAs 0 (written q).toList (expression q).lexemes := by
  have hDigits (place : Nat) := readsAs_toDigits (n := q.num.natAbs)
    (head?_divisor_not_isDigit q.den) (readsAs_divisor (place + _) q.den)
  have hLexemes : (expression q).lexemes = (numerator q.num).lexemes ++
      links Scaling.lexeme Factor.lexemes (expression q).first.rest := List.append_nil _
  rw [toList_written, hLexemes, numerator, sign]
  split
  · have hMinus : ('-', Lexeme.minus) ∈ operators := by decide
    exact readsAs_operator hMinus (hDigits 1)
  · exact hDigits 0

theorem result_ofLine_written (q : Rat) : (Reckoning.ofLine (written q)).result = .ok q := by
  rw [(readsAs_written q).result (defined_expression q), value_expression]

/-- A power of ten is a one in front of zeros. -/
theorem written_pow (n : Nat) :
    written ((10 ^ n : Int) : Rat) = String.ofList ('1' :: List.replicate n '0') := by
  have hNumeral : IsNumeral (10 ^ n) ('1' :: List.replicate n '0') := by
    refine ⟨List.cons_ne_nil _ _, ?_, (fun h => nomatch h), ?_⟩
    · intro d hd
      rcases List.mem_cons.mp hd with rfl | hd
      · rfl
      · rw [List.eq_of_mem_replicate hd]
        rfl
    · rw [Nat.ofDigitChars_cons, Nat.ofDigitChars_replicate_zero]
      exact Nat.mul_one _
  have hSign : sign (10 ^ n) = [] := if_neg (Int.not_lt.mpr (Int.pow_nonneg (by decide)))
  rw [← String.toList_inj, String.toList_ofList, toList_written, Rat.num_intCast, Rat.den_intCast, divisor,
    if_pos rfl, List.append_nil, hSign, hNumeral.eq_toDigits, Int.natAbs_pow]
  rfl

theorem isBeyond_pow {limit : Nat} (h : 0 < limit) : IsBeyond limit ((10 ^ limit : Int) : Rat) := by
  rw [← Int.one_mul (10 ^ limit)]
  exact .inl (Allowance.lt_digitCount_mul_pow h (by decide))

theorem written_injective : Function.Injective written := by
  intro q r h
  have hResult := result_ofLine_written q
  rw [h, result_ofLine_written r] at hResult
  exact (Except.ok.inj hResult).symm

end Value

namespace Console

theorem answer_false_eq_ok_iff {line text : String} {allowance : Allowance} :
    (answer false line allowance).1 = .ok text ↔
      ∃ q, (Reckoning.ofLine line).result = .ok q ∧ Value.format q allowance = .ok text := by
  rw [answer, if_neg Bool.false_ne_true]
  rcases Reckoning.ofLine line with ⟨fault | q, feed⟩
  · refine iff_of_false (fun h => ?_) ?_
    · cases h
    · rintro ⟨_, h, -⟩
      cases h
  · constructor
    · intro h
      exact ⟨q, rfl, h⟩
    · rintro ⟨r, hr, h⟩
      cases hr
      exact h

theorem eq_written_of_format {q : Rat} {allowance : Allowance} {text : String}
    (h : Value.format q allowance = .ok text) : text = Value.written q := by
  rcases Value.curtails_format q allowance with ⟨-, hFormat⟩ | ⟨limit, -, -, hFormat⟩
  · exact Except.ok.inj (h.symm.trans hFormat)
  · cases h.symm.trans hFormat

/-- Whatever is written is its own answer. -/
theorem answer_of_format {q : Rat} {allowance : Allowance} {text : String}
    (h : Value.format q allowance = .ok text) : (answer false text allowance).1 = .ok text := by
  refine answer_false_eq_ok_iff.mpr ⟨q, ?_, h⟩
  rw [eq_written_of_format h]
  exact Value.result_ofLine_written q

/-- The text of a fraction reads as this fraction. It is written unless a number of it has more digits than
the limit there is, and then the fault is that of the limit; where there is none, it is written. So the
answer to a line is its own answer, and the answers to two lines are the same text just if the lines have
the same value. The texts of values are the canonical ones, and those that can be written, and no others,
stand for themselves. -/
theorem answer_of_answer (allowance : Allowance) :
    (∀ n d : Int, d ≠ 0 → ∃ q : Rat, Value.ofQuotient n d allowance = .ok q ∧ q = n / d ∧
      allowance.Curtails (Value.IsBeyond · q) (.ok (Value.written q)) (Value.format q allowance) ∧
      (allowance.digits? = none → Value.format q allowance = .ok (Value.written q)) ∧
      (Reckoning.ofLine (Value.written q)).result = .ok q) ∧
    (∀ line text, (answer false line allowance).1 = .ok text →
      (answer false text allowance).1 = .ok text) ∧
    (∀ line line' text text', (answer false line allowance).1 = .ok text →
      (answer false line' allowance).1 = .ok text' →
      (text = text' ↔ (Reckoning.ofLine line).result = (Reckoning.ofLine line').result)) ∧
    (∀ text : String, Value.Canonical text.toList ↔ ∃ q, Value.written q = text) ∧
    ∀ text : String, (answer false text allowance).1 = .ok text ↔ ∃ q, Value.format q allowance = .ok text := by
  refine ⟨?_, ?_, ?_, ?_, ?_⟩
  · intro n d hd
    have hFormat := Value.curtails_format (Rat.divInt n d) allowance
    exact ⟨Rat.divInt n d, if_neg hd, Rat.divInt_eq_div n d, hFormat, hFormat.eq_full,
      Value.result_ofLine_written _⟩
  · intro line text h
    obtain ⟨q, -, hText⟩ := answer_false_eq_ok_iff.mp h
    exact answer_of_format hText
  · intro line line' text text' h h'
    obtain ⟨q, hq, hText⟩ := answer_false_eq_ok_iff.mp h
    obtain ⟨r, hr, hText'⟩ := answer_false_eq_ok_iff.mp h'
    rw [hq, hr, eq_written_of_format hText, eq_written_of_format hText', Value.written_injective.eq_iff,
      Except.ok.injEq]
  · intro text
    constructor
    · intro h
      obtain ⟨q, hText⟩ := Value.exists_of_canonical h
      exact ⟨q, String.toList_injective hText⟩
    · rintro ⟨q, rfl⟩
      exact Value.canonical_written q
  · intro text
    constructor
    · intro h
      obtain ⟨q, -, hText⟩ := answer_false_eq_ok_iff.mp h
      exact ⟨q, hText⟩
    · rintro ⟨q, h⟩
      exact answer_of_format h

theorem answer_of_answer_of_quotient :
    (-4 : Int) ≠ 0 ∧ Value.format ((2 : Int) / (-4 : Int)) = .ok "-1/2" ∧
      (Reckoning.ofLine "-1/2").result = .ok ((2 : Int) / (-4 : Int)) := by
  have hDivisor : (-4 : Int) ≠ 0 := by decide
  have hWritten : Value.written ((2 : Int) / (-4 : Int)) = "-1/2" := by decide +kernel
  obtain ⟨q, -, rfl, -, hFormat, hResult⟩ := (answer_of_answer .unlimited).1 2 (-4) hDivisor
  rw [hWritten] at hFormat hResult
  exact ⟨hDivisor, hFormat rfl, hResult⟩

/-- A fresh runtime writes no value of so many digits. -/
theorem power_of_ten_not_written :
    Value.ofQuotient (10 ^ 4300) 1 .customary = .ok ((10 ^ 4300 : Int) : Rat) ∧
    Value.format ((10 ^ 4300 : Int) : Rat) .customary = .error (.unwritable (.digits 4300)) := by
  constructor
  · rw [Value.ofQuotient, if_neg (by decide), Rat.divInt_one]
  · exact (Value.curtails_format _ _).eq_error rfl (Value.isBeyond_pow (by decide))

end Console

end Reckoner
