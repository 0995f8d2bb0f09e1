import Mathlib.Data.Rat.Lemmas
import Reckoner.Proofs.Divisors
import Reckoner.Proofs.Sums
import Reckoner.Proofs.WrittenValues

/-!
# Denominators of values

Sums and products bring no denominators but those of their operands, and a quotient brings its divisor.
So the denominator of a value divides the product of the numbers that a line divides by, and a line
without slashes is worth a whole number.
-/

set_option autoImplicit false

namespace Reckoner

open Grammar Reading

/-- The numbers that stand as divisors: behind a slash, or behind a slash and a sign. -/
def Lexeme.divisors : List Lexeme → List Nat
  | .slash :: .number n :: ls => n :: divisors ls
  | .slash :: .minus :: .number n :: ls => n :: divisors ls
  | _ :: ls => divisors ls
  | [] => []

theorem Lexeme.divisors_of_slash_notMem {ls : List Lexeme} (h : .slash ∉ ls) : divisors ls = [] := by
  fun_induction divisors ls with
  | case1 | case2 => exact absurd List.mem_cons_self h
  | case3 l ls _ _ ih => exact ih (List.not_mem_of_not_mem_cons h)
  | case4 => rfl

namespace Grammar

open Lexeme (divisors)

/-! ## Divisors of trees -/

def Factor.magnitude : Factor → Nat
  | plain n => n
  | negated n => n

/-- The divisor that a factor becomes behind its operator, if it becomes one. -/
def Scaling.divisors : Scaling × Factor → List Nat
  | (times, _) => []
  | (per, f) => [f.magnitude]

def Term.divisors (t : Term) : List Nat := t.rest.flatMap Scaling.divisors

def Expression.divisors (e : Expression) : List Nat :=
  e.first.divisors ++ e.rest.flatMap fun link => link.2.divisors

theorem divisors_links {ω α : Type} {mark : ω → Lexeme} {spell : α → List Lexeme}
    {numbers : ω × α → List Nat}
    (h : ∀ link ls, divisors (mark link.1 :: (spell link.2 ++ ls)) = numbers link ++ divisors ls)
    (rest : List (ω × α)) (ls : List Lexeme) :
    divisors (links mark spell rest ++ ls) = rest.flatMap numbers ++ divisors ls := by
  induction rest with
  | nil => rfl
  | cons link rest ih =>
    rw [links_cons, List.append_assoc, List.cons_append, h, ih, List.flatMap_cons, List.append_assoc]

theorem divisors_factor (f : Factor) (ls : List Lexeme) :
    divisors (f.lexemes ++ ls) = divisors ls := by
  cases f <;> rfl

theorem divisors_factor_link (link : Scaling × Factor) (ls : List Lexeme) :
    divisors (link.1.lexeme :: (link.2.lexemes ++ ls)) = Scaling.divisors link ++ divisors ls := by
  obtain ⟨_ | _, f⟩ := link
  · exact divisors_factor f ls
  · cases f <;> rfl

theorem divisors_term (t : Term) (ls : List Lexeme) :
    divisors (t.lexemes ++ ls) = t.divisors ++ divisors ls := by
  rw [Term.lexemes, List.append_assoc, divisors_factor, divisors_links divisors_factor_link]
  rfl

theorem divisors_term_link (link : Shift × Term) (ls : List Lexeme) :
    divisors (link.1.lexeme :: (link.2.lexemes ++ ls)) = link.2.divisors ++ divisors ls := by
  rw [← divisors_term]
  obtain ⟨_ | _, t⟩ := link <;> rfl

theorem divisors_expression (e : Expression) (ls : List Lexeme) :
    divisors (e.lexemes ++ ls) = e.divisors ++ divisors ls := by
  rw [Expression.lexemes, List.append_assoc, divisors_term, divisors_links divisors_term_link,
    ← List.append_assoc]
  rfl

/-! ## Denominators of trees -/

/-- If each step brings into the denominator its own numbers at most, all steps together bring the
numbers of all of them at most. -/
theorem den_foldl_dvd {ω : Type} {f : Rat → ω → Rat} {numbers : ω → List Nat}
    (h : ∀ q link, (f q link).den ∣ q.den * (numbers link).prod) (rest : List ω) (q : Rat) :
    (rest.foldl f q).den ∣ q.den * (rest.flatMap numbers).prod := by
  induction rest generalizing q with
  | nil => exact dvd_mul_right q.den 1
  | cons link rest ih =>
    rw [List.foldl_cons, List.flatMap_cons, List.prod_append, ← mul_assoc]
    exact (ih (f q link)).trans (Nat.mul_dvd_mul_right (h q link) _)

theorem Factor.den_value (f : Factor) : f.value.den = 1 := by
  cases f with
  | plain n => exact Rat.den_natCast n
  | negated n => exact Rat.den_natCast n

theorem Factor.den_inv_value_dvd (f : Factor) : (f.value)⁻¹.den ∣ f.magnitude := by
  have hNumber (n : Nat) : ((n : Rat))⁻¹.den ∣ n := by
    rw [Rat.inv_natCast_den]
    split
    · exact one_dvd n
    · exact dvd_refl n
  cases f with
  | plain n => exact hNumber n
  | negated n =>
    rw [Factor.value, inv_neg, Rat.neg_den]
    exact hNumber n

theorem den_scaling_dvd (q : Rat) (link : Scaling × Factor) :
    (link.1.apply q link.2.value).den ∣ q.den * (Scaling.divisors link).prod := by
  obtain ⟨_ | _, f⟩ := link
  · have h := Rat.mul_den_dvd q f.value
    rwa [f.den_value] at h
  · have h := Rat.mul_den_dvd q f.value⁻¹
    rw [← div_eq_mul_inv] at h
    rw [Scaling.divisors, List.prod_singleton]
    exact h.trans (Nat.mul_dvd_mul_left q.den f.den_inv_value_dvd)

theorem Term.den_value_dvd (t : Term) : t.value.den ∣ t.divisors.prod := by
  have h := den_foldl_dvd den_scaling_dvd t.rest t.first.value
  rwa [t.first.den_value, one_mul] at h

theorem den_shift_dvd (q : Rat) (link : Shift × Term) :
    (link.1.apply q link.2.value).den ∣ q.den * link.2.divisors.prod := by
  obtain ⟨o, t⟩ := link
  refine dvd_trans ?_ (Nat.mul_dvd_mul_left q.den t.den_value_dvd)
  cases o with
  | plus => exact Rat.add_den_dvd q t.value
  | minus => exact Rat.sub_den_dvd q t.value

theorem Expression.den_value_dvd (e : Expression) : e.value.den ∣ e.divisors.prod := by
  have h := den_foldl_dvd den_shift_dvd e.rest e.first.value
  rw [Expression.divisors, List.prod_append]
  exact h.trans (Nat.mul_dvd_mul_right e.first.den_value_dvd _)

end Grammar

/-! ## Lines -/

theorem Reading.Reads.slash_notMem {line : String} {ts : List Token}
    (h : Reads 0 line.toList (ts.map .ok)) (hSlash : '/' ∉ line.toList) :
    .slash ∉ ts.map Token.lexeme := by
  intro hMem
  obtain ⟨t, ht, hLexeme⟩ := List.mem_map.mp hMem
  obtain ⟨front, back, rfl⟩ := List.append_of_mem ht
  rw [List.map_append, List.map_cons] at h
  have hOperator : ('/', t.lexeme) ∈ operators := by
    rw [hLexeme]
    decide
  obtain ⟨before, after, hLine, -⟩ := h.exists_cut_operator hOperator
  rw [hLine] at hSlash
  exact hSlash (List.mem_append_right before List.mem_cons_self)

theorem Value.slash_notMem_written (z : Int) : '/' ∉ (written z).toList := by
  have hDigits : '/' ∉ Nat.toDigits 10 z.natAbs := fun hMem =>
    absurd ((isNumeral_toDigits z.natAbs).isDigit '/' hMem) (by decide)
  have hSign : '/' ∉ sign z := by
    rw [sign]
    split <;> decide
  rw [toList_written, Rat.num_intCast, Rat.den_intCast, divisor, if_pos rfl, List.append_nil]
  exact List.not_mem_append hSign hDigits

/-- The denominator of the value of a line divides the product of the numbers that the line divides by.
A line without a slash is worth a whole number, and is answered without a slash. -/
theorem den_of_value {line : String} {q : Rat} (h : (Reckoning.ofLine line).result = .ok q) :
    ∃ ts, (Feed.tokens line).result = .ok ts ∧
      q.den ∣ (Lexeme.divisors (ts.map Token.lexeme)).prod ∧
      ('/' ∉ line.toList → (∃ z : Int, q = z) ∧
        ∃ text, (Console.answer false line).1 = .ok text ∧ '/' ∉ text.toList) := by
  obtain ⟨ts, e, hReads, hLexemes, -, rfl⟩ := Reckoning.ofLine_sound h
  have hDivisors : Lexeme.divisors ((ts ++ [Token.ending line.length]).map Token.lexeme) = e.divisors := by
    rw [List.map_append, ← hLexemes, divisors_expression]
    exact List.append_nil e.divisors
  refine ⟨_, Feed.result_tokens_eq_ok_iff.mpr ⟨ts, hReads, rfl⟩, ?_, ?_⟩
  · rw [hDivisors]
    exact e.den_value_dvd
  · intro hSlash
    have hNone : e.divisors = [] := by
      have hDivisors := divisors_expression e []
      rwa [List.append_nil, hLexemes, Lexeme.divisors_of_slash_notMem (hReads.slash_notMem hSlash),
        Lexeme.divisors, List.append_nil, eq_comm] at hDivisors
    have hDen : e.value.den = 1 := by
      have hDvd := e.den_value_dvd
      rw [hNone, List.prod_nil] at hDvd
      exact Nat.dvd_one.mp hDvd
    have hWhole : e.value = e.value.num := (Rat.coe_int_num_of_den_eq_one hDen).symm
    refine ⟨⟨e.value.num, hWhole⟩, Value.written e.value, ?_, ?_⟩
    · exact Console.answer_false_eq_ok_iff.mpr ⟨e.value, h, Value.format_unlimited _⟩
    · rw [hWhole]
      exact Value.slash_notMem_written e.value.num

/-- Both divisors count, although half of one of them is left. Where there is none, there is no slash. -/
theorem den_of_value_of_quarters :
    ((Reckoning.ofLine ("1/4" ++ "+" ++ "1/4")).result = .ok (1 / 4 + 1 / 4) ∧
      (1 / 4 + 1 / 4 : Rat).den = 2 ∧
      ∃ ts, (Feed.tokens ("1/4" ++ "+" ++ "1/4")).result = .ok ts ∧
        2 ∣ (Lexeme.divisors (ts.map Token.lexeme)).prod) ∧
    (Reckoning.ofLine ("7" ++ "+" ++ "5")).result = .ok (7 + 5) ∧
      '/' ∉ ("7" ++ "+" ++ "5").toList ∧ (∃ z : Int, (7 + 5 : Rat) = z) ∧
      ∃ text, (Console.answer false ("7" ++ "+" ++ "5")).1 = .ok text ∧ '/' ∉ text.toList := by
  have hQuarter : (Reckoning.ofLine "1/4").result = .ok (1 / 4) := by
    have hText : Value.written (1 / 4) = "1/4" := by decide +kernel
    rw [← hText]
    exact Value.result_ofLine_written (1 / 4)
  have hSeven : (Reckoning.ofLine "7").result = .ok 7 := by
    have hText : Value.written 7 = "7" := by decide +kernel
    rw [← hText]
    exact Value.result_ofLine_written 7
  have hFive : (Reckoning.ofLine "5").result = .ok 5 := by
    have hText : Value.written 5 = "5" := by decide +kernel
    rw [← hText]
    exact Value.result_ofLine_written 5
  have hHalf := Reckoning.result_sum hQuarter hQuarter
  have hTwelve := Reckoning.result_sum hSeven hFive
  have hDen : (1 / 4 + 1 / 4 : Rat).den = 2 := by decide +kernel
  have hSlash : '/' ∉ ("7" ++ "+" ++ "5").toList := by decide
  obtain ⟨ts, hTokens, hDvd, -⟩ := den_of_value hHalf
  obtain ⟨-, -, -, hWhole⟩ := den_of_value hTwelve
  obtain ⟨hInteger, hAnswer⟩ := hWhole hSlash
  rw [hDen] at hDvd
  exact ⟨⟨hHalf, hDen, ts, hTokens, hDvd⟩, hTwelve, hSlash, hInteger, hAnswer⟩

end Reckoner
