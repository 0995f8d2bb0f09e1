import Mathlib.Algebra.Order.Field.Basic
import Mathlib.Algebra.Order.Field.Power
import Mathlib.Algebra.Order.Ring.Rat
import Mathlib.Tactic.IntervalCases
import Mathlib.Tactic.Linarith
import Mathlib.Tactic.Positivity
import Reckoner.Proofs.Divisors
import Reckoner.Proofs.Numerals
import Reckoner.Proofs.WrittenValues

/-!
# Numbers of arguments

An argument is a kind if it equals the code of that kind as a number. For a decimal that is the number
which its written form stands for, since the form of a small integer is exact. Each decimal has one form:
a fraction is never empty and ends in a zero only if it is nothing but a zero, and an exponent is kept
for numbers that are very large or very small. So a code has just one form, with the fraction zero.
-/

set_option autoImplicit false

namespace Reckoner

open Reading Value

namespace Decimal

/-- Digits behind a point. -/
structure IsFraction (digits : List Char) : Prop where
  nonempty : digits ≠ []
  isDigit : ∀ d ∈ digits, d.isDigit = true
  trailing : digits.getLast? = some '0' → digits = ['0']

def fraction (digits : List Char) : Rat := Nat.ofDigitChars 10 digits 0 / 10 ^ digits.length

/-- One digit that is not zero, and perhaps a fraction that is not zero. -/
inductive IsMantissa : List Char → Rat → Prop
  | digit {n : Nat} {d : Char} (hDigit : IsNumeral n [d]) (hn : n ≠ 0) : IsMantissa [d] n
  | fraction {n : Nat} {d : Char} {digits : List Char} (hDigit : IsNumeral n [d]) (hn : n ≠ 0)
      (hDigits : IsFraction digits) (hNe : digits ≠ ['0']) :
      IsMantissa (d :: '.' :: digits) (n + fraction digits)

/-- An exponent is written with two digits or more, and always with a sign. -/
inductive IsExponent : List Char → Int → Prop
  | positive {n : Nat} {digits : List Char} (hDigits : IsNumeral n digits) (hn : 16 ≤ n) :
      IsExponent ('+' :: digits) n
  | negative {n : Nat} {digits : List Char} (hDigits : IsNumeral n digits) (hn : 10 ≤ n) :
      IsExponent ('-' :: digits) (-n)
  | negative_small {n : Nat} {d : Char} (hDigit : IsNumeral n [d]) (hn : 5 ≤ n) :
      IsExponent ['-', '0', d] (-n)

/-- What a form without a sign stands for. -/
inductive IsMagnitude : List Char → Rat → Prop
  | plain {n : Nat} {whole digits : List Char} (hWhole : IsNumeral n whole)
      (hDigits : IsFraction digits) : IsMagnitude (whole ++ '.' :: digits) (n + fraction digits)
  | scientific {m : Rat} {e : Int} {mantissa exponent : List Char} (hMantissa : IsMantissa mantissa m)
      (hExponent : IsExponent exponent e) : IsMagnitude (mantissa ++ 'e' :: exponent) (m * 10 ^ e)

/-- What a form stands for. There are forms that stand for no number. -/
inductive Writes : List Char → Rat → Prop
  | unsigned {s : List Char} {q : Rat} (h : IsMagnitude s q) : Writes s q
  | negative {s : List Char} {q : Rat} (h : IsMagnitude s q) : Writes ('-' :: s) (-q)

/-! ## Small numbers -/

theorem fraction_nonneg (digits : List Char) : 0 ≤ fraction digits := by
  rw [fraction]
  positivity

theorem fraction_lt_one {digits : List Char} (h : ∀ d ∈ digits, d.isDigit = true) :
    fraction digits < 1 := by
  have hLess : (Nat.ofDigitChars 10 digits 0 : Rat) < 10 ^ digits.length := by
    exact_mod_cast ofDigitChars_lt_pow h
  rw [fraction, div_lt_one (by positivity)]
  exact hLess

theorem IsFraction.eq_zero {digits : List Char} (h : IsFraction digits) (hZero : fraction digits = 0) :
    digits = ['0'] := by
  have hPower : (10 : Rat) ^ digits.length ≠ 0 := by positivity
  rw [fraction, div_eq_zero_iff, or_iff_left hPower, Nat.cast_eq_zero,
    ofDigitChars_eq_zero_iff h.isDigit] at hZero
  apply h.trailing
  rw [List.getLast?_eq_some_getLast h.nonempty, hZero.2 _ (List.getLast_mem h.nonempty)]

theorem IsMantissa.bounds {s : List Char} {m : Rat} (h : IsMantissa s m) : 1 ≤ m ∧ m < 10 := by
  have hBounds {n : Nat} {d : Char} (hDigit : IsNumeral n [d]) (hn : n ≠ 0) :
      (1 : Rat) ≤ n ∧ (n : Rat) + 1 ≤ 10 := by
    have hLess := ofDigitChars_lt_pow hDigit.isDigit
    rw [hDigit.value, List.length_singleton] at hLess
    constructor
    · exact_mod_cast Nat.one_le_iff_ne_zero.mpr hn
    · exact_mod_cast Nat.succ_le_of_lt hLess
  cases h with
  | digit hDigit hn =>
    obtain ⟨hLow, hHigh⟩ := hBounds hDigit hn
    exact ⟨hLow, by linarith⟩
  | @fraction n d digits hDigit hn hDigits hNe =>
    obtain ⟨hLow, hHigh⟩ := hBounds hDigit hn
    have hNonneg := fraction_nonneg digits
    have hLess := fraction_lt_one hDigits.isDigit
    constructor <;> linarith

theorem IsExponent.bounds {s : List Char} {e : Int} (h : IsExponent s e) : 16 ≤ e ∨ e ≤ -5 := by
  cases h <;> omega

/-- The numbers that are written with an exponent leave out those from one to ten. -/
theorem not_between_of_scientific {mantissa exponent : List Char} {m : Rat} {e : Int}
    (hMantissa : IsMantissa mantissa m) (hExponent : IsExponent exponent e) :
    m * 10 ^ e < 1 ∨ 10 ≤ m * 10 ^ e := by
  obtain ⟨hLow, hHigh⟩ := hMantissa.bounds
  rcases hExponent.bounds with hLarge | hSmall
  · have hPower : (10 : Rat) ^ (1 : Int) ≤ 10 ^ e := zpow_le_zpow_right₀ (by norm_num) (by omega)
    rw [zpow_one] at hPower
    exact .inr (by nlinarith)
  · have hPower : (10 : Rat) ^ e ≤ 10 ^ (-1 : Int) := zpow_le_zpow_right₀ (by norm_num) (by omega)
    have hPositive : (0 : Rat) < 10 ^ e := by positivity
    rw [zpow_neg_one] at hPower
    exact .inl (by nlinarith)

theorem IsMagnitude.nonneg {s : List Char} {q : Rat} (h : IsMagnitude s q) : 0 ≤ q := by
  cases h with
  | @plain n whole digits _ _ =>
    have hFraction := fraction_nonneg digits
    positivity
  | scientific hMantissa _ =>
    have hLow := hMantissa.bounds.1
    positivity

theorem IsMagnitude.eq_of_digit {s : List Char} {k : Nat} (h : IsMagnitude s k) (hLow : 1 ≤ k)
    (hHigh : k < 10) : s = Nat.toDigits 10 k ++ ['.', '0'] := by
  generalize hq : (k : Rat) = q at h
  cases h with
  | @plain n whole digits hWhole hDigits =>
    have hNonneg := fraction_nonneg digits
    have hLess := fraction_lt_one hDigits.isDigit
    have hUpper : k < n + 1 := by
      have hCast : (k : Rat) < ((n + 1 : Nat) : Rat) := by
        push_cast
        linarith
      exact_mod_cast hCast
    have hLower : n ≤ k := by
      have hCast : (n : Rat) ≤ (k : Rat) := by linarith
      exact_mod_cast hCast
    obtain rfl : n = k := by omega
    have hZero : fraction digits = 0 := by linarith
    rw [hWhole.eq_toDigits, hDigits.eq_zero hZero]
  | scientific hMantissa hExponent =>
    have hOne : (1 : Rat) ≤ k := by exact_mod_cast hLow
    have hTen : (k : Rat) < 10 := by exact_mod_cast hHigh
    rcases not_between_of_scientific hMantissa hExponent with hSmall | hLarge <;> linarith

theorem writes_digit_iff {s : List Char} {k : Nat} (hLow : 1 ≤ k) (hHigh : k < 10) :
    Writes s k ↔ s = Nat.toDigits 10 k ++ ['.', '0'] := by
  constructor
  · intro h
    generalize hq : (k : Rat) = q at h
    cases h with
    | unsigned h => exact (hq ▸ h).eq_of_digit hLow hHigh
    | negative h =>
      have hNonneg := h.nonneg
      have hOne : (1 : Rat) ≤ k := by exact_mod_cast hLow
      linarith
  · rintro rfl
    have hFraction : IsFraction ['0'] := ⟨by simp, by simp, fun _ => rfl⟩
    have hPlain := IsMagnitude.plain (isNumeral_toDigits k) hFraction
    have hZero : fraction ['0'] = 0 := by simp [fraction, Nat.ofDigitChars]
    rw [hZero, add_zero] at hPlain
    exact .unsigned hPlain

end Decimal

/-! ## Kinds -/

namespace Kind

theorem exists_code_iff {n : Nat} : (∃ k : Kind, k.code = n) ↔ 1 ≤ n ∧ n ≤ 6 := by
  constructor
  · rintro ⟨k, rfl⟩
    cases k <;> decide
  · rintro ⟨hLow, hHigh⟩
    interval_cases n
    exacts [⟨number, rfl⟩, ⟨plus, rfl⟩, ⟨minus, rfl⟩, ⟨star, rfl⟩, ⟨slash, rfl⟩, ⟨eof, rfl⟩]

theorem code_injective : Function.Injective code := by
  intro j k h
  cases j <;> cases k <;> first | rfl | cases h

end Kind

namespace Datum

/-- Truth values count as one and zero, kinds as their codes. What is no number equals none. -/
def Equals : Datum → Rat → Prop
  | truth b, q => b.toNat = q
  | int n, q => n = q
  | decimal form, q => Decimal.Writes form.toList q
  | kind k, q => k.code = q
  | nothing, _ | text _, _ | list _, _ => False

theorem find?_code_eq_some_iff {form : String} {k : Kind} :
    (Kind.all.find? fun k => form = toString k.code ++ ".0") = some k ↔
      Decimal.Writes form.toList k.code := by
  have hBounds : 1 ≤ k.code ∧ k.code ≤ 6 := Kind.exists_code_iff.mp ⟨k, rfl⟩
  have hForm : form = toString k.code ++ ".0" ↔ Decimal.Writes form.toList k.code := by
    rw [Decimal.writes_digit_iff hBounds.1 (by omega), ← String.toList_inj, String.toList_append,
      Nat.toString_eq_repr, Nat.toList_repr]
    rfl
  rw [← hForm]
  constructor
  · intro h
    have hFound := List.find?_some h
    exact of_decide_eq_true hFound
  · rintro rfl
    cases k <;> decide

/-- An argument is taken for the kind whose code it equals. -/
theorem kind?_eq_some_iff {d : Datum} {k : Kind} : d.kind? = some k ↔ d.Equals k.code := by
  cases d with
  | truth b =>
    rw [kind?, Kind.ofCode?_eq_some_iff, Equals]
    norm_cast
  | int n =>
    rw [kind?, Kind.ofCode?_eq_some_iff, Equals]
    norm_cast
  | decimal form => exact find?_code_eq_some_iff
  | kind j => rw [kind?, Option.some.injEq, Equals, Nat.cast_inj, Kind.code_injective.eq_iff]
  | nothing | text | list => exact iff_of_false (Option.some_ne_none k).symm id

end Datum

end Reckoner
