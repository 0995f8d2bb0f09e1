import Mathlib.Data.List.Perm.Basic
import Reckoner.Proofs.Cuts
import Reckoner.Proofs.Paths

/-!
# Operands in another order

Arithmetic is exact, so the factors of a term can be taken in any order, and so can the terms of an
expression, as long as each takes its operator along and the first stays in front. The value is the same
then. If there is a zero divisor it is met in either order, though maybe at another place.
-/

set_option autoImplicit false

namespace Reckoner

open Reading

namespace Grammar

/-! ## Trees -/

theorem Scaling.apply_right_comm (o p : Scaling) (q r s : Rat) :
    p.apply (o.apply q r) s = o.apply (p.apply q s) r := by
  cases o with
  | times =>
    cases p with
    | times => exact mul_right_comm q r s
    | per => exact (div_mul_eq_mul_div q s r).symm
  | per =>
    cases p with
    | times => exact div_mul_eq_mul_div q r s
    | per => exact div_right_comm q r s

theorem Shift.apply_right_comm (o p : Shift) (q r s : Rat) :
    p.apply (o.apply q r) s = o.apply (p.apply q s) r := by
  cases o with
  | plus =>
    cases p with
    | plus => exact add_right_comm q r s
    | minus => exact add_sub_right_comm q r s
  | minus =>
    cases p with
    | plus => exact sub_add_eq_add_sub q r s
    | minus => exact sub_right_comm q r s

/-- A term with the factors behind the first one, and their operators, in any order. -/
structure Term.Reorders (t t' : Term) : Prop where
  first : t'.first = t.first
  rest : t.rest.Perm t'.rest

/-- An expression with each of its terms reordered, and then the terms behind the first one, and their
operators, in any order. -/
structure Expression.Reorders (e e' : Expression) : Prop where
  first : e.first.Reorders e'.first
  rest : ∃ links, List.Forall₂ (fun link link' => link'.1 = link.1 ∧ link.2.Reorders link'.2) e.rest links ∧
    links.Perm e'.rest

theorem Term.Reorders.value_eq {t t' : Term} (h : t.Reorders t') : t'.value = t.value := by
  rw [Term.value, Term.value, h.first]
  refine (h.rest.foldl_eq' ?_ _).symm
  intro link _ link' _ q
  exact link.1.apply_right_comm link'.1 q link.2.value link'.2.value

theorem Term.Reorders.defined_iff {t t' : Term} (h : t.Reorders t') : t'.Defined ↔ t.Defined :=
  forall_congr' fun _ => imp_congr_left h.rest.mem_iff.symm

theorem foldl_of_forall₂_reorders {rest links : List (Shift × Term)}
    (h : List.Forall₂ (fun link link' => link'.1 = link.1 ∧ link.2.Reorders link'.2) rest links) (q : Rat) :
    links.foldl (fun q link => link.1.apply q link.2.value) q =
      rest.foldl (fun q link => link.1.apply q link.2.value) q := by
  induction h generalizing q with
  | nil => rfl
  | cons hLink _ ih => rw [List.foldl_cons, List.foldl_cons, hLink.1, hLink.2.value_eq, ih]

theorem forall_defined_of_forall₂_reorders {rest links : List (Shift × Term)}
    (h : List.Forall₂ (fun link link' => link'.1 = link.1 ∧ link.2.Reorders link'.2) rest links) :
    (∀ link ∈ links, link.2.Defined) ↔ ∀ link ∈ rest, link.2.Defined := by
  induction h with
  | nil => exact Iff.rfl
  | cons hLink _ ih => rw [List.forall_mem_cons, List.forall_mem_cons, hLink.2.defined_iff, ih]

theorem Expression.Reorders.value_eq {e e' : Expression} (h : e.Reorders e') : e'.value = e.value := by
  obtain ⟨links, hLinks, hPerm⟩ := h.rest
  rw [Expression.value, Expression.value, h.first.value_eq, ← foldl_of_forall₂_reorders hLinks]
  refine (hPerm.foldl_eq' ?_ _).symm
  intro link _ link' _ q
  exact link.1.apply_right_comm link'.1 q link.2.value link'.2.value

theorem Expression.Reorders.defined_iff {e e' : Expression} (h : e.Reorders e') :
    e'.Defined ↔ e.Defined := by
  obtain ⟨links, hLinks, hPerm⟩ := h.rest
  refine and_congr h.first.defined_iff ?_
  rw [← forall_defined_of_forall₂_reorders hLinks]
  exact forall_congr' fun _ => imp_congr_left hPerm.mem_iff.symm

end Grammar

/-! ## Lines of one tree -/

namespace Automaton

open Grammar

theorem exists_path_of_factor {f : Factor} {ts : List Token} (h : ts.map Token.lexeme = f.lexemes)
    (slash? : Option Int) : ∃ places, Path (.needFactor slash?) ts places .afterFactor := by
  cases f with
  | plain n =>
    obtain ⟨t, rfl, hNumber⟩ := List.map_eq_singleton_iff.mp h
    exact ⟨_, .cons (.number (.inl rfl) hNumber) (.nil _)⟩
  | negated n =>
    obtain ⟨t, rest, rfl, hMinus, hRest⟩ := List.map_eq_cons_iff.mp h
    obtain ⟨u, rfl, hNumber⟩ := List.map_eq_singleton_iff.mp hRest
    exact ⟨_, .cons (.sign hMinus) (.cons (.number (.inr rfl) hNumber) (.nil _))⟩

/-- Operands that lead back behind a factor do so one behind the other. -/
theorem exists_path_of_links {ω α : Type} {mark : ω → Lexeme} {spell : α → List Lexeme}
    (h : ∀ (link : ω × α) (ts : List Token), ts.map Token.lexeme = mark link.1 :: spell link.2 →
      ∃ places, Path .afterFactor ts places .afterFactor)
    {rest : List (ω × α)} {ts : List Token} (hts : ts.map Token.lexeme = links mark spell rest) :
    ∃ places, Path .afterFactor ts places .afterFactor := by
  induction rest generalizing ts with
  | nil =>
    obtain rfl := List.map_eq_nil_iff.mp hts
    exact ⟨[], .nil _⟩
  | cons link rest ih =>
    obtain ⟨us, vs, rfl, hFirst, hRest⟩ := List.map_eq_append_iff.mp hts
    obtain ⟨front, hFront⟩ := h link us hFirst
    obtain ⟨back, hBack⟩ := ih hRest
    exact ⟨front ++ back, hFront.append hBack⟩

theorem exists_path_of_operator {o : Lexeme} {ls : List Lexeme} (hNumber : o.kind ≠ .number)
    (hEof : o ≠ .eof)
    (h : ∀ (ts : List Token) (slash? : Option Int), ts.map Token.lexeme = ls →
      ∃ places, Path (.needFactor slash?) ts places .afterFactor)
    {ts : List Token} (hts : ts.map Token.lexeme = o :: ls) :
    ∃ places, Path .afterFactor ts places .afterFactor := by
  obtain ⟨t, rest, rfl, rfl, hRest⟩ := List.map_eq_cons_iff.mp hts
  obtain ⟨places, hPath⟩ := h rest _ hRest
  exact ⟨_, .cons (.operator hNumber hEof) hPath⟩

theorem exists_path_of_term {t : Term} {ts : List Token} (h : ts.map Token.lexeme = t.lexemes)
    (slash? : Option Int) : ∃ places, Path (.needFactor slash?) ts places .afterFactor := by
  obtain ⟨us, vs, rfl, hFirst, hRest⟩ := List.map_eq_append_iff.mp h
  obtain ⟨front, hFront⟩ := exists_path_of_factor hFirst slash?
  obtain ⟨back, hBack⟩ := exists_path_of_links (fun link _ => exists_path_of_operator
    (by cases link.1 <;> decide) link.1.lexeme_ne_eof fun _ slash? h => exists_path_of_factor h slash?) hRest
  exact ⟨front ++ back, hFront.append hBack⟩

theorem exists_path_of_expression {e : Expression} {ts : List Token}
    (h : ts.map Token.lexeme = e.lexemes) : ∃ places, Path (.needFactor none) ts places .afterFactor := by
  obtain ⟨us, vs, rfl, hFirst, hRest⟩ := List.map_eq_append_iff.mp h
  obtain ⟨front, hFront⟩ := exists_path_of_term hFirst none
  obtain ⟨back, hBack⟩ := exists_path_of_links (fun link _ => exists_path_of_operator
    (by cases link.1 <;> decide) link.1.lexeme_ne_eof fun _ slash? h => exists_path_of_term h slash?) hRest
  exact ⟨front ++ back, hFront.append hBack⟩

end Automaton

namespace Reckoning

open Automaton Grammar

/-- A line that a tree spells has the value of the tree, unless something in it is divided by zero, and
then it fails with that. -/
theorem result_of_tree {line : String} {ts : List Token} {e : Expression}
    (hReads : Reads 0 line.toList (ts.map .ok)) (hLexemes : e.lexemes = ts.map Token.lexeme) :
    (e.Defined → (ofLine line).result = .ok e.value) ∧
      (¬ e.Defined → ∃ place, (ofLine line).result = .error (.divisionByZero place)) := by
  refine ⟨ofLine_complete hReads hLexemes, ?_⟩
  intro hUndefined
  obtain ⟨places, hPath⟩ := exists_path_of_expression hLexemes.symm
  cases places with
  | nil =>
    obtain ⟨q, hValue⟩ := exists_result_eq_ok_iff.mpr ⟨ts, hReads, hPath⟩
    obtain ⟨us, e', hOthers, hLexemes', hDefined, -⟩ := ofLine_sound hValue
    have hTokens : us = ts :=
      List.map_injective_iff.mpr (fun _ _ h => Except.ok.inj h) (hOthers.unique hReads)
    rw [hTokens, ← hLexemes] at hLexemes'
    exact absurd (Expression.lexemes_injective hLexemes' ▸ hDefined) hUndefined
  | cons slash slashes => exact ⟨slash, (result_eq_error_iff hReads).mpr (hPath.fails line.length)⟩

end Reckoning

/-! ## Writing tokens out -/

/-- The texts of tokens with a blank between each two of them. -/
def Token.writtenOut (ts : List Token) : String := " ".intercalate (ts.map Token.text)

namespace Reading

theorem Reads.reads_text {place : Nat} {s : List Char} {items : List Item} (h : Reads place s items)
    {t : Token} (ht : .ok t ∈ items) (start : Nat) :
    Reads start t.text.toList [.ok ⟨t.lexeme, start, t.text⟩] := by
  induction h with
  | nothing => cases ht
  | blank _ ih => exact ih ht
  | @operator _ c lexeme _ _ hOperator _ ih =>
    rcases List.mem_cons.mp ht with hItem | ht
    · cases hItem
      have hText : c.toString.toList = [c] := String.toList_singleton c
      rw [hText]
      exact .operator hOperator (.nothing _)
    · exact ih ht
  | @number _ digits _ _ hRun _ ih =>
    rcases List.mem_cons.mp ht with hItem | ht
    · cases hItem
      have hText : (String.ofList digits).toList = digits ++ [] := by
        rw [String.toList_ofList, List.append_nil]
      rw [hText]
      exact .number ⟨hRun.nonempty, hRun.isDigit, nofun⟩ (.nothing _)
    · exact ih ht
  | symbol _ _ _ _ ih =>
    rcases List.mem_cons.mp ht with hItem | ht
    · cases hItem
    · exact ih ht

theorem readsAs_writtenOut {ts : List Token}
    (h : ∀ t ∈ ts, ∀ start, Reads start t.text.toList [.ok ⟨t.lexeme, start, t.text⟩]) (place : Nat) :
    ReadsAs place (Token.writtenOut ts).toList (ts.map Token.lexeme) := by
  have hText : (Token.writtenOut ts).toList = [' '].intercalate (ts.map fun t => t.text.toList) := by
    rw [Token.writtenOut, String.toList_intercalate, List.map_map]
    rfl
  rw [hText]
  clear hText
  induction ts generalizing place with
  | nil => exact readsAs_nil place
  | cons t ts ih =>
    obtain ⟨hFirst, hRest⟩ := List.forall_mem_cons.mp h
    cases ts with
    | nil =>
      rw [List.map_singleton, List.intercalate_singleton]
      exact ⟨[⟨t.lexeme, place, t.text⟩], hFirst place, rfl⟩
    | cons u ts =>
      obtain ⟨us, hReads, hLexemes⟩ := ih hRest (place + t.text.toList.length + 1)
      have hParted : Parted t.text.toList (' ' :: [' '].intercalate ((u :: ts).map fun t => t.text.toList)) :=
        fun _ _ d hd _ => Option.some.inj hd ▸ rfl
      have hWhole := (hFirst place).append (.blank hReads) hParted
      refine ⟨⟨t.lexeme, place, t.text⟩ :: us, ?_, congrArg (t.lexeme :: ·) hLexemes⟩
      rw [List.map_cons, List.map_cons, List.intercalate_cons_cons, List.append_assoc]
      exact hWhole

end Reading

namespace Reckoning

open Grammar

/-- If the tree of a line is reordered and the tokens of the line are written out again as it tells, the
line that comes out has the same value, or else something is divided by zero in both of them. -/
theorem outcome_of_reordering {line : String} {ts us : List Token} {e e' : Expression}
    (hReads : Reads 0 line.toList (ts.map .ok)) (hLexemes : e.lexemes = ts.map Token.lexeme)
    (hReorders : e.Reorders e') (hTokens : us ⊆ ts) (hLexemes' : e'.lexemes = us.map Token.lexeme) :
    (∃ q, (ofLine line).result = .ok q ∧ (ofLine (Token.writtenOut us)).result = .ok q) ∨
      ∃ place place', (ofLine line).result = .error (.divisionByZero place) ∧
        (ofLine (Token.writtenOut us)).result = .error (.divisionByZero place') := by
  obtain ⟨vs, hOthers, hSame⟩ := readsAs_writtenOut
    (fun t ht => hReads.reads_text (List.mem_map_of_mem (hTokens ht))) 0
  obtain ⟨hValue, hZero⟩ := result_of_tree hReads hLexemes
  obtain ⟨hValue', hZero'⟩ := result_of_tree hOthers (hLexemes'.trans hSame.symm)
  by_cases hDefined : e.Defined
  · refine .inl ⟨e.value, hValue hDefined, ?_⟩
    rw [← hReorders.value_eq]
    exact hValue' (hReorders.defined_iff.mpr hDefined)
  · obtain ⟨place, hFault⟩ := hZero hDefined
    obtain ⟨place', hFault'⟩ := hZero' (hReorders.defined_iff.not.mpr hDefined)
    exact .inr ⟨place, place', hFault, hFault'⟩

/-- Dividing last by what was divided by first, both lines are worth three. -/
theorem outcome_of_reordering_of_factors :
    let ts : List Token :=
      [⟨.number 6, 0, "6"⟩, ⟨.slash, 1, "/"⟩, ⟨.number 4, 2, "4"⟩, ⟨.star, 3, "*"⟩, ⟨.number 2, 4, "2"⟩]
    let us : List Token :=
      [⟨.number 6, 0, "6"⟩, ⟨.star, 3, "*"⟩, ⟨.number 2, 4, "2"⟩, ⟨.slash, 1, "/"⟩, ⟨.number 4, 2, "4"⟩]
    let e : Expression := ⟨⟨.plain 6, [(.per, .plain 4), (.times, .plain 2)]⟩, []⟩
    let e' : Expression := ⟨⟨.plain 6, [(.times, .plain 2), (.per, .plain 4)]⟩, []⟩
    Reads 0 "6/4*2".toList (ts.map .ok) ∧ e.lexemes = ts.map Token.lexeme ∧ e.Reorders e' ∧ us ⊆ ts ∧
      e'.lexemes = us.map Token.lexeme ∧ Token.writtenOut us = "6 * 2 / 4" ∧
      (ofLine "6/4*2").result = .ok 3 ∧ (ofLine "6 * 2 / 4").result = .ok 3 := by
  intro ts us e e'
  have hRun (c : Char) (rest : List Char) (hDigit : c.isDigit = true)
      (hRest : ∀ d ∈ rest.head?, d.isDigit = false) : IsRun [c] rest :=
    ⟨List.cons_ne_nil c [], List.forall_mem_singleton.mpr hDigit, hRest⟩
  have hTwo := Reads.number (hRun '2' [] rfl (by simp)) (.nothing 5)
  have hStar : ('*', Lexeme.star) ∈ operators := by decide
  have hSlash : ('/', Lexeme.slash) ∈ operators := by decide
  have hFour := Reads.number (hRun '4' ['*', '2'] rfl (by simp)) (Reads.operator hStar hTwo)
  have hReads : Reads 0 "6/4*2".toList (ts.map .ok) :=
    .number (hRun '6' ['/', '4', '*', '2'] rfl (by simp)) (.operator hSlash hFour)
  have hReorders : e.Reorders e' :=
    ⟨⟨rfl, .swap (Scaling.times, Factor.plain 2) (Scaling.per, Factor.plain 4) []⟩, [], .nil, .nil⟩
  have hTokens : us ⊆ ts := by decide
  have hLexemes : e.lexemes = ts.map Token.lexeme := rfl
  have hLexemes' : e'.lexemes = us.map Token.lexeme := rfl
  have hText : Token.writtenOut us = "6 * 2 / 4" := by decide
  have hOutcome := outcome_of_reordering hReads hLexemes hReorders hTokens hLexemes'
  rw [hText] at hOutcome
  have hDefined : e.Defined := by
    simp [e, Expression.Defined, Term.Defined, Factor.value]
  have hValue : e.value = 3 := by decide +kernel
  have hThree : (ofLine "6/4*2").result = .ok 3 := hValue ▸ (result_of_tree hReads hLexemes).1 hDefined
  refine ⟨hReads, hLexemes, hReorders, hTokens, hLexemes', hText, hThree, ?_⟩
  rcases hOutcome with ⟨q, hResult, hResult'⟩ | ⟨place, place', hFault, -⟩
  · rw [hResult', hResult.symm.trans hThree]
  · cases hThree.symm.trans hFault

end Reckoning

end Reckoner
