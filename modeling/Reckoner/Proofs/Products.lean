import Reckoner.Proofs.Sums

/-!
# Products, quotients and differences of lines

A line without shifts is a product of factors, and two of them with a star between them are one product.
A slash takes the next factor alone, and a minus the next term. A minus in front of a line is a sign of
its first number, and so of its first term.
-/

set_option autoImplicit false

namespace Reckoner

open Reading

/-- The kinds of all tokens of a line, if it can be read. -/
def Feed.kinds (line : String) : List Kind :=
  match (tokens line).result with
  | .ok ts => ts.map Token.kind
  | .error _ => []

/-- No plus among some kinds, and no minus that takes away, which would stand behind a number. -/
structure Unshifted (ks : List Kind) : Prop where
  plus : .plus ∉ ks
  minus : ks.IsChain fun k l => k = .number → l ≠ .minus

/-! ## Trees -/

namespace Grammar

theorem foldl_mul (rest : List (Scaling × Factor)) (p q : Rat) :
    rest.foldl (fun q link => link.1.apply q link.2.value) (p * q) =
      p * rest.foldl (fun q link => link.1.apply q link.2.value) q := by
  induction rest generalizing q with
  | nil => rfl
  | cons link rest ih =>
    obtain ⟨o, f⟩ := link
    have hApply : o.apply (p * q) f.value = p * o.apply q f.value := by
      cases o with
      | times => exact mul_assoc p q f.value
      | per => exact mul_div_assoc p q f.value
    rw [List.foldl_cons, List.foldl_cons, hApply, ih]

/-- A factor with the other sign. -/
def Factor.negate : Factor → Factor
  | plain n => .negated n
  | negated n => .plain n

theorem Factor.value_negate (f : Factor) : f.negate.value = -f.value := by
  cases f with
  | plain n => rfl
  | negated n => exact (neg_neg (n : Rat)).symm

theorem Factor.exists_of_kinds {ls : List Lexeme}
    (h : ls.map Lexeme.kind ++ [Kind.eof] = [.number, .eof] ∨
      ls.map Lexeme.kind ++ [Kind.eof] = [.minus, .number, .eof]) : ∃ f : Factor, f.lexemes = ls := by
  rcases h with h | h
  · have hKinds : ls.map Lexeme.kind = [.number] := List.append_cancel_right h
    obtain ⟨l, rfl, hNumber⟩ := List.map_eq_singleton_iff.mp hKinds
    cases l <;> cases hNumber
    exact ⟨.plain _, rfl⟩
  · have hKinds : ls.map Lexeme.kind = [.minus, .number] := List.append_cancel_right h
    obtain ⟨l, rest, rfl, hMinus, hRest⟩ := List.map_eq_cons_iff.mp hKinds
    obtain ⟨m, rfl, hNumber⟩ := List.map_eq_singleton_iff.mp hRest
    cases l <;> cases hMinus
    cases m <;> cases hNumber
    exact ⟨.negated _, rfl⟩

namespace Term

/-- One term times another, the factors of which go on behind those of the first. -/
def mul (t t' : Term) : Term := ⟨t.first, t.rest ++ (.times, t'.first) :: t'.rest⟩

theorem lexemes_mul (t t' : Term) : (t.mul t').lexemes = t.lexemes ++ .star :: t'.lexemes := by
  simp [lexemes, mul, links, Scaling.lexeme]

theorem value_mul (t t' : Term) : (t.mul t').value = t.value * t'.value := by
  rw [value, mul, List.foldl_append, List.foldl_cons]
  exact foldl_mul t'.rest t.value t'.first.value

theorem Defined.mul {t t' : Term} (h : t.Defined) (h' : t'.Defined) : (t.mul t').Defined := by
  intro f hf
  rcases List.mem_append.mp hf with hf | hf
  · exact h f hf
  · rcases List.mem_cons.mp hf with hf | hf
    · cases hf
    · exact h' f hf

/-- A term with the other sign, which is that of its first factor. -/
def negate (t : Term) : Term := ⟨t.first.negate, t.rest⟩

theorem value_negate (t : Term) : t.negate.value = -t.value := by
  -- The sign is a factor of its own, in front of all others.
  have h := foldl_mul t.rest (-1) t.first.value
  rwa [neg_one_mul, neg_one_mul, ← Factor.value_negate] at h

theorem getLast?_lexemes (t : Term) : ∃ n, t.lexemes.getLast? = some (.number n) := by
  obtain ⟨first, rest⟩ := t
  have hFactor (ls : List Lexeme) (f : Factor) : ∃ n, (ls ++ f.lexemes).getLast? = some (.number n) := by
    cases f with
    | plain n | negated n => exact ⟨n, by simp [Factor.lexemes]⟩
  rcases List.eq_nil_or_concat' rest with rfl | ⟨rest, ⟨o, f⟩, rfl⟩
  · rw [lexemes, links_nil, List.append_nil]
    exact hFactor [] first
  · rw [lexemes, links_concat, ← List.append_assoc, List.append_cons]
    exact hFactor _ f

end Term

namespace Expression

/-- An expression of which the first term has the other sign. -/
def negate (e : Expression) : Expression := ⟨e.first.negate, e.rest⟩

theorem lexemes_negate {e : Expression}
    (h : (e.lexemes.map Lexeme.kind ++ [Kind.eof]).head? = some .number) :
    e.negate.lexemes = .minus :: e.lexemes := by
  obtain ⟨⟨first, factors⟩, terms⟩ := e
  cases first with
  | plain n => rfl
  | negated n => cases h

theorem value_join_minus (e e' : Expression) :
    (e.join .minus e').value = e.value + e'.negate.value := by
  rw [value_join, Shift.apply, sub_eq_add_neg, ← Term.value_negate]
  exact foldl_add e'.rest e.value e'.negate.first.value

theorem eq_term_of_unshifted {e : Expression}
    (h : Unshifted (e.lexemes.map Lexeme.kind ++ [.eof])) : e = ⟨e.first, []⟩ := by
  obtain ⟨first, rest⟩ := e
  cases rest with
  | nil => rfl
  | cons link rest =>
    obtain ⟨o, t⟩ := link
    have hKinds : (lexemes ⟨first, (o, t) :: rest⟩).map Lexeme.kind ++ [Kind.eof] =
        first.lexemes.map Lexeme.kind ++ (o.lexeme.kind ::
          ((t.lexemes ++ links Shift.lexeme Term.lexemes rest).map Lexeme.kind ++ [.eof])) := by
      simp [lexemes, links]
    rw [hKinds] at h
    -- The first shift would be a plus, or a minus behind the number that ends the first term.
    cases o with
    | plus => exact absurd (List.mem_append_right _ List.mem_cons_self) h.plus
    | minus =>
      obtain ⟨n, hLast⟩ := first.getLast?_lexemes
      have hNumber : .number ∈ (first.lexemes.map Lexeme.kind).getLast? := by
        rw [List.getLast?_map, hLast]
        rfl
      exact absurd rfl ((List.isChain_append.mp h.minus).2.2 _ hNumber _ rfl rfl)

end Expression

end Grammar

/-- A divisor that is zero is met at its end, and its place is that of the slash. -/
theorem Automaton.path_of_zero {f : Grammar.Factor} {ts : List Token}
    (hLexemes : ts.map Token.lexeme = f.lexemes) (hZero : f.value = 0) (place : Int) :
    Path (.needFactor (some place)) ts [place] .afterFactor := by
  cases f with
  | plain n =>
    obtain rfl : n = 0 := Nat.cast_eq_zero.mp hZero
    obtain ⟨t, rfl, hNumber⟩ := List.map_eq_singleton_iff.mp hLexemes
    exact .cons (.number (.inl rfl) hNumber) (.nil _)
  | negated n =>
    obtain rfl : n = 0 := Nat.cast_eq_zero.mp (neg_eq_zero.mp hZero)
    obtain ⟨m, rest, rfl, hMinus, hRest⟩ := List.map_eq_cons_iff.mp hLexemes
    obtain ⟨t, rfl, hNumber⟩ := List.map_eq_singleton_iff.mp hRest
    exact .cons (.sign hMinus) (.cons (.number (.inr rfl) hNumber) (.nil _))

/-! ## Lines -/

namespace Reading

open Grammar

variable {line : String} {ls : List Lexeme}

/-- A minus in front of a line is one with nothing on its left. -/
theorem ReadsAs.minus (h : ReadsAs 0 line.toList ls) :
    ReadsAs 0 ("-" ++ line).toList (.minus :: ls) := by
  have hNothing : ReadsAs 0 "".toList [] := readsAs_nil 0
  have hMinus : ('-', Lexeme.minus) ∈ operators := by decide
  have hReads := hNothing.between hMinus h
  rw [String.empty_append] at hReads
  exact hReads

theorem ReadsAs.kinds (h : ReadsAs 0 line.toList ls) :
    Feed.kinds line = ls.map Lexeme.kind ++ [Kind.eof] := by
  obtain ⟨ts, hReads, rfl⟩ := h
  rw [Feed.kinds, Feed.result_tokens_eq_ok_iff.mpr ⟨ts, hReads, rfl⟩, List.map_map]
  exact List.map_append

theorem ReadsAs.result_of_term {t : Term} (h : ReadsAs 0 line.toList t.lexemes)
    (hDefined : t.Defined) : (Reckoning.ofLine line).result = .ok t.value := by
  have hLexemes : t.lexemes = Expression.lexemes ⟨t, []⟩ := (List.append_nil t.lexemes).symm
  rw [hLexemes] at h
  exact h.result ⟨hDefined, nofun⟩

end Reading

namespace Reckoning

open Automaton Grammar

theorem exists_term {line : String} {q : Rat} (h : (ofLine line).result = .ok q)
    (hUnshifted : Unshifted (Feed.kinds line)) :
    ∃ t : Term, ReadsAs 0 line.toList t.lexemes ∧ t.Defined ∧ t.value = q := by
  obtain ⟨e, hReads, hDefined, rfl⟩ := exists_tree h
  rw [hReads.kinds] at hUnshifted
  have hTerm := Expression.eq_term_of_unshifted hUnshifted
  rw [hTerm, Expression.lexemes, links_nil, List.append_nil] at hReads
  refine ⟨e.first, hReads, hDefined.1, ?_⟩
  rw [hTerm]
  rfl

theorem result_product {a b : String} {x y : Rat} (ha : (ofLine a).result = .ok x)
    (hb : (ofLine b).result = .ok y) (hLeft : Unshifted (Feed.kinds a))
    (hRight : Unshifted (Feed.kinds b)) : (ofLine (a ++ "*" ++ b)).result = .ok (x * y) := by
  obtain ⟨t, hFront, hDefined, rfl⟩ := exists_term ha hLeft
  obtain ⟨t', hBack, hDefined', rfl⟩ := exists_term hb hRight
  have hStar : ('*', Lexeme.star) ∈ operators := by decide
  have hReads := hFront.between hStar hBack
  rw [← Term.lexemes_mul] at hReads
  rw [← Term.value_mul]
  exact hReads.result_of_term (hDefined.mul hDefined')

theorem exists_factor {line : String} {q : Rat} (h : (ofLine line).result = .ok q)
    (hKinds : Feed.kinds line = [.number, .eof] ∨ Feed.kinds line = [.minus, .number, .eof]) :
    ∃ f : Factor, ReadsAs 0 line.toList f.lexemes ∧ f.value = q := by
  obtain ⟨e, hReads, -, rfl⟩ := exists_tree h
  rw [hReads.kinds] at hKinds
  obtain ⟨f, hFactor⟩ := Factor.exists_of_kinds hKinds
  have hTree : e = ⟨⟨f, []⟩, []⟩ := by
    refine Expression.lexemes_injective ?_
    rw [← hFactor, Expression.lexemes, links_nil, List.append_nil, Term.lexemes, links_nil, List.append_nil]
  exact ⟨f, hFactor ▸ hReads, by rw [hTree]; rfl⟩

theorem result_quotient {a b : String} {x y : Rat} (ha : (ofLine a).result = .ok x)
    (hb : (ofLine b).result = .ok y) (hLeft : Unshifted (Feed.kinds a))
    (hRight : Feed.kinds b = [.number, .eof] ∨ Feed.kinds b = [.minus, .number, .eof]) (hNonzero : y ≠ 0) :
    (ofLine (a ++ "/" ++ b)).result = .ok (x / y) := by
  obtain ⟨t, hFront, hDefined, rfl⟩ := exists_term ha hLeft
  obtain ⟨f, hBack, rfl⟩ := exists_factor hb hRight
  have hSlash : ('/', Scaling.per.lexeme) ∈ operators := by decide
  have hReads := hFront.between hSlash hBack
  rw [← Term.lexemes_extend] at hReads
  have hValue : (t.extend .per f).value = t.value / f.value := t.value_extend .per f
  rw [← hValue]
  exact hReads.result_of_term (Term.defined_extend_iff.mpr ⟨hDefined, fun _ => hNonzero⟩)

/-- Whatever is divided by a zero, the fault is at the slash. -/
theorem result_quotient_zero {a b : String} {x : Rat} (ha : (ofLine a).result = .ok x)
    (hb : (ofLine b).result = .ok 0)
    (hRight : Feed.kinds b = [.number, .eof] ∨ Feed.kinds b = [.minus, .number, .eof]) :
    (ofLine (a ++ "/" ++ b)).result = .error (.divisionByZero a.length) := by
  obtain ⟨ts, hFront, hPath⟩ := exists_result_eq_ok_iff.mp ⟨x, ha⟩
  obtain ⟨f, ⟨us, hBack, hLexemes⟩, hZero⟩ := exists_factor hb hRight
  have hSlash : ('/', Lexeme.slash) ∈ operators := by decide
  have hReads := hFront.between hSlash hBack
  rw [Item.map_relocate_tokens, tokens_append_cons, ← List.map_append] at hReads
  have hGoes : Goes .afterFactor ⟨.slash, a.length, "/"⟩ (.needFactor (some a.length)) none :=
    goes_iff.mpr rfl
  have hLater := (Token.map_lexeme_relocate (· + (a.length + 1 : Nat)) us).trans hLexemes
  have hDivisor := path_of_zero hLater hZero a.length
  exact (result_eq_error_iff hReads).mpr (((hPath.concat hGoes).append hDivisor).fails _)

theorem result_difference {a b : String} {x y : Rat} (ha : (ofLine a).result = .ok x)
    (hb : (ofLine b).result = .ok y) (hRight : Unshifted (Feed.kinds b)) :
    (ofLine (a ++ "-" ++ b)).result = .ok (x - y) := by
  obtain ⟨e, hFront, hDefined, rfl⟩ := exists_tree ha
  obtain ⟨t, hBack, hDefined', rfl⟩ := exists_term hb hRight
  have hMinus : ('-', Shift.minus.lexeme) ∈ operators := by decide
  have hReads := hFront.between hMinus hBack
  rw [← Expression.lexemes_extend] at hReads
  have hValue : (e.extend .minus t).value = e.value - t.value := e.value_extend .minus t
  rw [← hValue]
  exact hReads.result (Expression.defined_extend_iff.mpr ⟨hDefined, hDefined'⟩)

/-- A minus in front of a line that begins with a number is the sign of its first term alone. Behind
another line that is the same as to take the first term away. -/
theorem exists_result_negation {b : String} {y : Rat} (hb : (ofLine b).result = .ok y)
    (hNumber : (Feed.kinds b).head? = some .number) : ∃ w, (ofLine ("-" ++ b)).result = .ok w ∧
      (Unshifted (Feed.kinds b) → w = -y) ∧
      ∀ a x, (ofLine a).result = .ok x → (ofLine (a ++ "-" ++ b)).result = .ok (x + w) := by
  obtain ⟨e, hReads, hDefined, rfl⟩ := exists_tree hb
  rw [hReads.kinds] at hNumber ⊢
  refine ⟨e.negate.value, ?_, fun hUnshifted => ?_, fun a x ha => ?_⟩
  · have hNegated := hReads.minus
    rw [← Expression.lexemes_negate hNumber] at hNegated
    exact hNegated.result hDefined
  · rw [Expression.eq_term_of_unshifted hUnshifted]
    exact e.first.value_negate
  · obtain ⟨e', hFront, hDefined', rfl⟩ := exists_tree ha
    have hMinus : ('-', Shift.minus.lexeme) ∈ operators := by decide
    have hWhole := hFront.between hMinus hReads
    rw [← Expression.lexemes_join] at hWhole
    rw [← Expression.value_join_minus]
    exact hWhole.result (Expression.defined_join_iff.mpr ⟨hDefined', hDefined⟩)

/-- Lines without shifts are multiplied by a star between them, and a single factor divides them, unless
it is zero. Such a line is taken away by a minus from any other. A minus in front of a line that begins
with a number is a sign, which is the same as to add it behind a plus, and changes the sign of the value
if there are no shifts. A star binds more than a plus. -/
theorem results_of_composition {a b : String} {x y : Rat} (ha : (ofLine a).result = .ok x)
    (hb : (ofLine b).result = .ok y) :
    (Unshifted (Feed.kinds a) → Unshifted (Feed.kinds b) →
      (ofLine (a ++ "*" ++ b)).result = .ok (x * y) ∧
      (Feed.kinds b = [.number, .eof] ∨ Feed.kinds b = [.minus, .number, .eof] →
        (ofLine (a ++ "/" ++ b)).result =
          if y = 0 then .error (.divisionByZero a.length) else .ok (x / y))) ∧
    (Unshifted (Feed.kinds b) → (ofLine (a ++ "-" ++ b)).result = .ok (x - y)) ∧
    ((Feed.kinds b).head? = some .number → ∃ w, (ofLine ("-" ++ b)).result = .ok w ∧
      (ofLine (a ++ "-" ++ b)).result = .ok (x + w) ∧
      (ofLine (a ++ "+-" ++ b)).result = .ok (x + w)) ∧
    (Unshifted (Feed.kinds a) → (Feed.kinds a).head? = some .number →
      (ofLine ("-" ++ a)).result = .ok (-x)) ∧
    ∀ c z, (ofLine c).result = .ok z → Unshifted (Feed.kinds b) → Unshifted (Feed.kinds c) →
      (ofLine (a ++ "+" ++ b ++ "*" ++ c)).result = .ok (x + y * z) := by
  refine ⟨fun hLeft hRight => ⟨result_product ha hb hLeft hRight, fun hFactor => ?_⟩,
    result_difference ha hb, fun hNumber => ?_, fun hUnshifted hNumber => ?_, fun c z hc hLeft hRight => ?_⟩
  · split
    · next hZero => exact result_quotient_zero ha (hZero ▸ hb) hFactor
    · next hNonzero => exact result_quotient ha hb hLeft hFactor hNonzero
  · obtain ⟨w, hNegation, -, hDifference⟩ := exists_result_negation hb hNumber
    have hSign : "+-" = "+" ++ "-" := by decide
    have hLine : a ++ "+-" ++ b = a ++ "+" ++ ("-" ++ b) := by
      rw [hSign]
      simp only [String.append_assoc]
    exact ⟨w, hNegation, hDifference a x ha, hLine ▸ result_sum ha hNegation⟩
  · obtain ⟨w, hNegation, hValue, -⟩ := exists_result_negation ha hNumber
    rw [← hValue hUnshifted]
    exact hNegation
  · have hSum := result_sum ha (result_product hb hc hLeft hRight)
    rwa [← String.append_assoc, ← String.append_assoc] at hSum

/-- Behind a slash the sign belongs to the divisor. -/
theorem results_of_composition_with_sign :
    (ofLine "8").result = .ok 8 ∧ (ofLine "-4").result = .ok (-4) ∧ Unshifted (Feed.kinds "8") ∧
      Feed.kinds "-4" = [.minus, .number, .eof] ∧
      (ofLine ("8" ++ "*" ++ "-4")).result = .ok (8 * -4) ∧
      (ofLine ("8" ++ "/" ++ "-4")).result = .ok (8 / -4) ∧
      (ofLine ("8" ++ "-" ++ "-4")).result = .ok (8 - -4) := by
  have hRun : IsRun ['8'] [] := ⟨nofun, List.forall_mem_singleton.mpr rfl, nofun⟩
  have hRun' : IsRun ['4'] [] := ⟨nofun, List.forall_mem_singleton.mpr rfl, nofun⟩
  have hEight : ReadsAs 0 "8".toList (Expression.lexemes ⟨⟨.plain 8, []⟩, []⟩) :=
    ⟨[⟨.number 8, 0, "8"⟩], .number hRun (.nothing 1), rfl⟩
  have hFour : ReadsAs 0 "4".toList [.number 4] := ⟨[⟨.number 4, 0, "4"⟩], .number hRun' (.nothing 1), rfl⟩
  have hSigned : ReadsAs 0 "-4".toList (Expression.lexemes ⟨⟨.negated 4, []⟩, []⟩) := hFour.minus
  have ha : (ofLine "8").result = .ok 8 := hEight.result ⟨nofun, nofun⟩
  have hb : (ofLine "-4").result = .ok (-4) := hSigned.result ⟨nofun, nofun⟩
  have hLeft : Unshifted (Feed.kinds "8") := hEight.kinds ▸ ⟨by decide, by decide⟩
  have hRight : Unshifted (Feed.kinds "-4") := hSigned.kinds ▸ ⟨by decide, by decide⟩
  obtain ⟨hProduct, hDifference, -⟩ := results_of_composition ha hb
  obtain ⟨hTimes, hQuotient⟩ := hProduct hLeft hRight
  exact ⟨ha, hb, hLeft, hSigned.kinds, hTimes, hQuotient (.inr hSigned.kinds), hDifference hRight⟩

end Reckoning

end Reckoner
