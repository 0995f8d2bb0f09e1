import Reckoner.Proofs.Lookahead

/-!
# What a line is worth

A reckoning finds the values that the grammar derives and no others: what it goes past is a factor,
a term or an expression, and it goes past each of these that is followed by a token which does not
belong to it.
-/

set_option autoImplicit false

namespace Reckoner

open Grammar Reading

/-- Items that begin with tokens of some lexemes. -/
def Spelled (ls : List Lexeme) (items others : List Item) : Prop :=
  ∃ ts : List Token, ts.map Token.lexeme = ls ∧ items = ts.map .ok ++ others

theorem spelled_nil_iff {items others : List Item} : Spelled [] items others ↔ items = others := by
  constructor
  · rintro ⟨ts, hNil, rfl⟩
    rw [List.map_eq_nil_iff.mp hNil]
    rfl
  · rintro rfl
    exact ⟨[], rfl, rfl⟩

theorem spelled_cons_iff {l : Lexeme} {ls : List Lexeme} {items others : List Item} :
    Spelled (l :: ls) items others ↔
      ∃ t rest, items = .ok t :: rest ∧ t.lexeme = l ∧ Spelled ls rest others := by
  constructor
  · rintro ⟨ts, hLexemes, rfl⟩
    obtain ⟨t, ts, rfl, hLexeme, hRest⟩ := List.map_eq_cons_iff.mp hLexemes
    exact ⟨t, _, rfl, hLexeme, ts, hRest, rfl⟩
  · rintro ⟨t, rest, rfl, rfl, ts, rfl, rfl⟩
    exact ⟨t :: ts, rfl, rfl⟩

theorem spelled_append_iff {ls ms : List Lexeme} {items others : List Item} :
    Spelled (ls ++ ms) items others ↔ ∃ middle, Spelled ls items middle ∧ Spelled ms middle others := by
  constructor
  · rintro ⟨ts, hLexemes, rfl⟩
    obtain ⟨us, vs, rfl, hLeft, hRight⟩ := List.map_eq_append_iff.mp hLexemes
    exact ⟨vs.map .ok ++ others, ⟨us, hLeft, by rw [List.map_append, List.append_assoc]⟩, vs, hRight, rfl⟩
  · rintro ⟨middle, ⟨us, rfl, rfl⟩, vs, rfl, rfl⟩
    exact ⟨us ++ vs, List.map_append, by rw [List.map_append, List.append_assoc]⟩

theorem Spelled.exists_token {ls : List Lexeme} {items others : List Item} {u : Token}
    (h : Spelled ls items (.ok u :: others)) : ∃ v rest, items = .ok v :: rest := by
  cases ls with
  | nil => exact ⟨u, others, spelled_nil_iff.mp h⟩
  | cons l ls =>
    obtain ⟨t, rest, hItems, _, _⟩ := spelled_cons_iff.mp h
    exact ⟨t, rest, hItems⟩

namespace Reckoning

/-! ## What is passed is derived -/

theorem ahead_of_after {operation : Reckoning → Outcome Reckoning Rat} {state next : Reckoning}
    {q : Rat} (h : state.after operation = ⟨.ok q, next⟩)
    (hLookahead : state.lookahead.lexeme ≠ .eof) : ∃ middle,
      state.ahead = .ok state.lookahead :: middle.ahead ∧ operation middle = ⟨.ok q, next⟩ := by
  obtain ⟨_, middle, hShift, hOperation⟩ := Outcome.andThen_eq_ok_iff.mp h
  exact ⟨middle, ahead_of_shift hShift hLookahead, hOperation⟩

theorem number_sound {state next : Reckoning} {q : Rat} (h : state.number = ⟨.ok q, next⟩) :
    ∃ n : Nat, state.lookahead.lexeme = .number n ∧ q = n ∧
      state.ahead = .ok state.lookahead :: next.ahead := by
  unfold number at h
  split at h
  · next n hNumber =>
    obtain ⟨_, hShift, rfl⟩ := Outcome.map_eq_ok_iff.mp h
    exact ⟨n, hNumber, rfl, ahead_of_shift hShift (by rw [hNumber]; nofun)⟩
  · cases h

theorem factor_sound {state next : Reckoning} {q : Rat} (h : state.factor = ⟨.ok q, next⟩) :
    ∃ f : Factor, Spelled f.lexemes state.ahead next.ahead ∧ f.value = q := by
  unfold factor at h
  split at h
  · next hMinus =>
    obtain ⟨r, hAfter, rfl⟩ := Outcome.map_eq_ok_iff.mp h
    obtain ⟨middle, hAhead, hNumber⟩ := ahead_of_after hAfter (by rw [hMinus]; nofun)
    obtain ⟨n, hLexeme, rfl, hMiddle⟩ := number_sound hNumber
    refine ⟨.negated n, ⟨[state.lookahead, middle.lookahead], ?_, ?_⟩, rfl⟩
    · rw [List.map_cons, hMinus, List.map_singleton, hLexeme]
      rfl
    · rw [hAhead, hMiddle]
      rfl
  · obtain ⟨n, hLexeme, rfl, hAhead⟩ := number_sound h
    exact ⟨.plain n, ⟨[state.lookahead], by rw [List.map_singleton, hLexeme]; rfl, hAhead⟩, rfl⟩

theorem factor_link_sound {o : Scaling} {state next : Reckoning} {q : Rat}
    (hLexeme : state.lookahead.lexeme = o.lexeme) (h : state.after factor = ⟨.ok q, next⟩) :
    ∃ f : Factor, Spelled (o.lexeme :: f.lexemes) state.ahead next.ahead ∧ f.value = q := by
  obtain ⟨middle, hAhead, hFactor⟩ := ahead_of_after h (hLexeme ▸ o.lexeme_ne_eof)
  obtain ⟨f, hSpelled, hValue⟩ := factor_sound hFactor
  exact ⟨f, spelled_cons_iff.mpr ⟨_, _, hAhead, hLexeme, hSpelled⟩, hValue⟩

theorem product_sound {result q : Rat} {state next : Reckoning}
    (h : state.product result = ⟨.ok q, next⟩) : ∃ rest : List (Scaling × Factor),
      Spelled (links Scaling.lexeme Factor.lexemes rest) state.ahead next.ahead ∧
      (∀ f, (.per, f) ∈ rest → f.value ≠ 0) ∧
      rest.foldl (fun q link => link.1.apply q link.2.value) result = q ∧
      ∀ o : Scaling, next.lookahead.lexeme ≠ o.lexeme := by
  induction result, state using product_induction with
  | scaling o result state hLexeme ih =>
    rw [product_of_scaling hLexeme] at h
    obtain ⟨r, middle, hAfter, hProduct⟩ := Outcome.andThen_eq_ok_iff.mp h
    obtain ⟨f, hFirst, rfl⟩ := factor_link_sound hLexeme hAfter
    split at hProduct
    · cases hProduct
    · next hNonzero =>
      obtain ⟨rest, hRest, hDefined, hValue, hNext⟩ := ih _ middle hAfter hProduct
      refine ⟨(o, f) :: rest, spelled_append_iff.mpr ⟨_, hFirst, hRest⟩, ?_, hValue, hNext⟩
      intro g hg
      rcases List.mem_cons.mp hg with hg | hg
      · cases hg
        exact fun hZero => hNonzero ⟨rfl, hZero⟩
      · exact hDefined g hg
  | done result state hDone =>
    rw [product_of_ne_scaling hDone] at h
    cases h
    exact ⟨[], spelled_nil_iff.mpr rfl, nofun, rfl, hDone⟩

theorem term_sound {state next : Reckoning} {q : Rat} (h : state.term = ⟨.ok q, next⟩) :
    ∃ t : Term, Spelled t.lexemes state.ahead next.ahead ∧ t.Defined ∧ t.value = q ∧
      ∀ o : Scaling, next.lookahead.lexeme ≠ o.lexeme := by
  obtain ⟨r, middle, hFactor, hProduct⟩ := Outcome.andThen_eq_ok_iff.mp h
  obtain ⟨f, hFirst, rfl⟩ := factor_sound hFactor
  obtain ⟨rest, hRest, hDefined, hValue, hNext⟩ := product_sound hProduct
  exact ⟨⟨f, rest⟩, spelled_append_iff.mpr ⟨_, hFirst, hRest⟩, hDefined, hValue, hNext⟩

theorem term_link_sound {o : Shift} {state next : Reckoning} {q : Rat}
    (hLexeme : state.lookahead.lexeme = o.lexeme) (h : state.after term = ⟨.ok q, next⟩) :
    ∃ t : Term, Spelled (o.lexeme :: t.lexemes) state.ahead next.ahead ∧ t.Defined ∧ t.value = q ∧
      ∀ p : Scaling, next.lookahead.lexeme ≠ p.lexeme := by
  obtain ⟨middle, hAhead, hTerm⟩ := ahead_of_after h (hLexeme ▸ o.lexeme_ne_eof)
  obtain ⟨t, hSpelled, hTree⟩ := term_sound hTerm
  exact ⟨t, spelled_cons_iff.mpr ⟨_, _, hAhead, hLexeme, hSpelled⟩, hTree⟩

theorem sum_sound {result q : Rat} {state next : Reckoning} (h : state.sum result = ⟨.ok q, next⟩)
    (hStart : ∀ o : Scaling, state.lookahead.lexeme ≠ o.lexeme) : ∃ rest : List (Shift × Term),
      Spelled (links Shift.lexeme Term.lexemes rest) state.ahead next.ahead ∧
      (∀ link ∈ rest, link.2.Defined) ∧
      rest.foldl (fun q link => link.1.apply q link.2.value) result = q ∧
      (∀ o : Scaling, next.lookahead.lexeme ≠ o.lexeme) ∧
      ∀ o : Shift, next.lookahead.lexeme ≠ o.lexeme := by
  induction result, state using sum_induction with
  | shift o result state hLexeme ih =>
    rw [sum_of_shift hLexeme] at h
    obtain ⟨r, middle, hAfter, hSum⟩ := Outcome.andThen_eq_ok_iff.mp h
    obtain ⟨t, hFirst, hTerm, rfl, hMiddle⟩ := term_link_sound hLexeme hAfter
    obtain ⟨rest, hRest, hDefined, hValue, hNext⟩ := ih _ middle hAfter hSum hMiddle
    exact ⟨(o, t) :: rest, spelled_append_iff.mpr ⟨_, hFirst, hRest⟩,
      List.forall_mem_cons.mpr ⟨hTerm, hDefined⟩, hValue, hNext⟩
  | done result state hDone =>
    rw [sum_of_ne_shift hDone] at h
    cases h
    exact ⟨[], spelled_nil_iff.mpr rfl, nofun, rfl, hStart, hDone⟩

theorem expression_sound {state next : Reckoning} {q : Rat} (h : state.expression = ⟨.ok q, next⟩) :
    ∃ e : Expression, Spelled e.lexemes state.ahead next.ahead ∧ e.Defined ∧ e.value = q ∧
      (∀ o : Scaling, next.lookahead.lexeme ≠ o.lexeme) ∧
      ∀ o : Shift, next.lookahead.lexeme ≠ o.lexeme := by
  obtain ⟨r, middle, hTerm, hSum⟩ := Outcome.andThen_eq_ok_iff.mp h
  obtain ⟨t, hFirst, hDefined, rfl, hMiddle⟩ := term_sound hTerm
  obtain ⟨rest, hRest, hLinks, hValue, hNext⟩ := sum_sound hSum hMiddle
  exact ⟨⟨t, rest⟩, spelled_append_iff.mpr ⟨_, hFirst, hRest⟩, ⟨hDefined, hLinks⟩, hValue, hNext⟩

/-! ## What is derived is passed -/

theorem after_of_ahead (operation : Reckoning → Outcome Reckoning Rat) {state : Reckoning}
    {t u : Token} {others : List Item} (h : state.ahead = .ok t :: .ok u :: others) :
    ∃ middle, middle.ahead = .ok u :: others ∧ state.after operation = operation middle := by
  obtain rfl := lookahead_of_ahead h
  obtain ⟨middle, hShift, hAhead⟩ := shift_of_ahead h
  exact ⟨middle, hAhead, by rw [after, hShift, Outcome.ok_andThen]⟩

theorem number_complete {state : Reckoning} {t u : Token} {n : Nat} {others : List Item}
    (h : state.ahead = .ok t :: .ok u :: others) (hNumber : t.lexeme = .number n) :
    ∃ next, state.number = ⟨.ok n, next⟩ ∧ next.ahead = .ok u :: others := by
  obtain rfl := lookahead_of_ahead h
  obtain ⟨next, hShift, hAhead⟩ := shift_of_ahead h
  refine ⟨next, ?_, hAhead⟩
  rw [number, hNumber]
  simp only [hShift, Outcome.map_ok]

theorem factor_complete {f : Factor} {state : Reckoning} {u : Token} {others : List Item}
    (h : Spelled f.lexemes state.ahead (.ok u :: others)) :
    ∃ next, state.factor = ⟨.ok f.value, next⟩ ∧ next.ahead = .ok u :: others := by
  cases f with
  | plain n =>
    obtain ⟨t, rest, hAhead, hLexeme, hRest⟩ := spelled_cons_iff.mp h
    rw [spelled_nil_iff.mp hRest] at hAhead
    obtain ⟨next, hNumber, hNext⟩ := number_complete hAhead hLexeme
    refine ⟨next, ?_, hNext⟩
    rw [factor, lookahead_of_ahead hAhead, hLexeme]
    exact hNumber
  | negated n =>
    obtain ⟨t, rest, hAhead, hLexeme, hRest⟩ := spelled_cons_iff.mp h
    obtain ⟨v, rest, rfl, hNumber, hRest⟩ := spelled_cons_iff.mp hRest
    rw [spelled_nil_iff.mp hRest] at hAhead
    obtain ⟨middle, hMiddle, hAfter⟩ := after_of_ahead number hAhead
    obtain ⟨next, hNumber, hNext⟩ := number_complete hMiddle hNumber
    refine ⟨next, ?_, hNext⟩
    rw [factor, lookahead_of_ahead hAhead, hLexeme]
    simp only [hAfter, hNumber, Outcome.map_ok]
    rfl

theorem factor_link_complete {o : Scaling} {f : Factor} {state : Reckoning} {u : Token}
    {others : List Item} (h : Spelled (o.lexeme :: f.lexemes) state.ahead (.ok u :: others)) :
    state.lookahead.lexeme = o.lexeme ∧
      ∃ next, state.after factor = ⟨.ok f.value, next⟩ ∧ next.ahead = .ok u :: others := by
  obtain ⟨t, rest, hAhead, hLexeme, hFactor⟩ := spelled_cons_iff.mp h
  obtain ⟨v, rest, rfl⟩ := hFactor.exists_token
  obtain ⟨middle, hMiddle, hAfter⟩ := after_of_ahead factor hAhead
  rw [← hMiddle] at hFactor
  obtain ⟨next, hValue, hNext⟩ := factor_complete hFactor
  exact ⟨(lookahead_of_ahead hAhead).symm ▸ hLexeme, next, hAfter.trans hValue, hNext⟩

theorem product_complete {rest : List (Scaling × Factor)} (result : Rat) {state : Reckoning}
    {u : Token} {others : List Item}
    (h : Spelled (links Scaling.lexeme Factor.lexemes rest) state.ahead (.ok u :: others))
    (hDefined : ∀ f, (.per, f) ∈ rest → f.value ≠ 0) (hNext : ∀ o : Scaling, u.lexeme ≠ o.lexeme) :
    ∃ next, state.product result =
        ⟨.ok (rest.foldl (fun q link => link.1.apply q link.2.value) result), next⟩ ∧
      next.ahead = .ok u :: others := by
  induction rest generalizing result state with
  | nil =>
    have hAhead := spelled_nil_iff.mp h
    have hLookahead := lookahead_of_ahead hAhead
    exact ⟨state, product_of_ne_scaling (hLookahead ▸ hNext), hAhead⟩
  | cons link rest ih =>
    obtain ⟨o, f⟩ := link
    obtain ⟨middle, hFirst, hRest⟩ := spelled_append_iff.mp h
    obtain ⟨v, rest', rfl⟩ := hRest.exists_token
    obtain ⟨hLexeme, start, hAfter, hStart⟩ := factor_link_complete hFirst
    rw [← hStart] at hRest
    have hRestDefined : ∀ g, (.per, g) ∈ rest → g.value ≠ 0 := fun g hg =>
      hDefined g (List.mem_cons_of_mem _ hg)
    obtain ⟨next, hProduct, hOthers⟩ := ih (o.apply result f.value) hRest hRestDefined
    have hNonzero : ¬ (o = .per ∧ f.value = 0) := by
      rintro ⟨rfl, hZero⟩
      exact hDefined f List.mem_cons_self hZero
    refine ⟨next, ?_, hOthers⟩
    rw [product_of_scaling hLexeme, hAfter, Outcome.ok_andThen, if_neg hNonzero]
    exact hProduct

theorem term_complete {t : Term} {state : Reckoning} {u : Token} {others : List Item}
    (h : Spelled t.lexemes state.ahead (.ok u :: others)) (hDefined : t.Defined)
    (hNext : ∀ o : Scaling, u.lexeme ≠ o.lexeme) :
    ∃ next, state.term = ⟨.ok t.value, next⟩ ∧ next.ahead = .ok u :: others := by
  obtain ⟨middle, hFirst, hRest⟩ := spelled_append_iff.mp h
  obtain ⟨v, rest, rfl⟩ := hRest.exists_token
  obtain ⟨start, hFactor, hStart⟩ := factor_complete hFirst
  rw [← hStart] at hRest
  obtain ⟨next, hProduct, hOthers⟩ := product_complete t.first.value hRest hDefined hNext
  refine ⟨next, ?_, hOthers⟩
  rw [term, hFactor, Outcome.ok_andThen]
  exact hProduct

theorem term_link_complete {o : Shift} {t : Term} {state : Reckoning} {u : Token}
    {others : List Item} (h : Spelled (o.lexeme :: t.lexemes) state.ahead (.ok u :: others))
    (hDefined : t.Defined) (hNext : ∀ o : Scaling, u.lexeme ≠ o.lexeme) :
    state.lookahead.lexeme = o.lexeme ∧
      ∃ next, state.after term = ⟨.ok t.value, next⟩ ∧ next.ahead = .ok u :: others := by
  obtain ⟨first, rest, hAhead, hLexeme, hTerm⟩ := spelled_cons_iff.mp h
  obtain ⟨v, rest, rfl⟩ := hTerm.exists_token
  obtain ⟨middle, hMiddle, hAfter⟩ := after_of_ahead term hAhead
  rw [← hMiddle] at hTerm
  obtain ⟨next, hValue, hOthers⟩ := term_complete hTerm hDefined hNext
  exact ⟨(lookahead_of_ahead hAhead).symm ▸ hLexeme, next, hAfter.trans hValue, hOthers⟩

/-- What follows a term inside an expression is no factor. -/
theorem exists_token_of_links {rest : List (Shift × Term)} {items : List Item} {u : Token}
    {others : List Item} (h : Spelled (links Shift.lexeme Term.lexemes rest) items (.ok u :: others))
    (hNext : ∀ o : Scaling, u.lexeme ≠ o.lexeme) :
    ∃ v rest, items = .ok v :: rest ∧ ∀ o : Scaling, v.lexeme ≠ o.lexeme := by
  cases rest with
  | nil => exact ⟨u, others, spelled_nil_iff.mp h, hNext⟩
  | cons link rest =>
    obtain ⟨v, rest, hItems, hLexeme, _⟩ := spelled_cons_iff.mp h
    exact ⟨v, rest, hItems, fun o => hLexeme ▸ o.lexeme_ne link.1⟩

theorem sum_complete {rest : List (Shift × Term)} (result : Rat) {state : Reckoning} {u : Token}
    {others : List Item}
    (h : Spelled (links Shift.lexeme Term.lexemes rest) state.ahead (.ok u :: others))
    (hDefined : ∀ link ∈ rest, link.2.Defined) (hScaling : ∀ o : Scaling, u.lexeme ≠ o.lexeme)
    (hShift : ∀ o : Shift, u.lexeme ≠ o.lexeme) :
    ∃ next, state.sum result =
        ⟨.ok (rest.foldl (fun q link => link.1.apply q link.2.value) result), next⟩ ∧
      next.ahead = .ok u :: others := by
  induction rest generalizing result state with
  | nil =>
    have hAhead := spelled_nil_iff.mp h
    have hLookahead := lookahead_of_ahead hAhead
    exact ⟨state, sum_of_ne_shift (hLookahead ▸ hShift), hAhead⟩
  | cons link rest ih =>
    obtain ⟨o, t⟩ := link
    obtain ⟨hTerm, hTerms⟩ := List.forall_mem_cons.mp hDefined
    obtain ⟨middle, hFirst, hRest⟩ := spelled_append_iff.mp h
    obtain ⟨v, rest', rfl, hMiddle⟩ := exists_token_of_links hRest hScaling
    obtain ⟨hLexeme, start, hAfter, hStart⟩ := term_link_complete hFirst hTerm hMiddle
    rw [← hStart] at hRest
    obtain ⟨next, hSum, hOthers⟩ := ih (o.apply result t.value) hRest hTerms
    refine ⟨next, ?_, hOthers⟩
    rw [sum_of_shift hLexeme, hAfter, Outcome.ok_andThen]
    exact hSum

theorem expression_complete {e : Expression} {state : Reckoning} {u : Token} {others : List Item}
    (h : Spelled e.lexemes state.ahead (.ok u :: others)) (hDefined : e.Defined)
    (hScaling : ∀ o : Scaling, u.lexeme ≠ o.lexeme) (hShift : ∀ o : Shift, u.lexeme ≠ o.lexeme) :
    ∃ next, state.expression = ⟨.ok e.value, next⟩ ∧ next.ahead = .ok u :: others := by
  obtain ⟨middle, hFirst, hRest⟩ := spelled_append_iff.mp h
  obtain ⟨v, rest, rfl, hMiddle⟩ := exists_token_of_links hRest hScaling
  obtain ⟨start, hTerm, hStart⟩ := term_complete hFirst hDefined.1 hMiddle
  rw [← hStart] at hRest
  obtain ⟨next, hSum, hOthers⟩ := sum_complete e.first.value hRest hDefined.2 hScaling hShift
  refine ⟨next, ?_, hOthers⟩
  rw [expression, hTerm, Outcome.ok_andThen]
  exact hSum

/-! ## Whole lines -/

theorem evaluate_sound {state left : Reckoning} {q : Rat} (h : state.evaluate = ⟨.ok q, left⟩) :
    ∃ (e : Expression) (u : Token) (others : List Item),
      Spelled e.lexemes state.ahead (.ok u :: others) ∧ u.lexeme = .eof ∧ e.Defined ∧ e.value = q := by
  obtain ⟨r, next, hExpression, hEnd⟩ := Outcome.andThen_eq_ok_iff.mp h
  obtain ⟨e, hSpelled, hDefined, hValue, _⟩ := expression_sound hExpression
  obtain ⟨_, hExpect, rfl⟩ := Outcome.map_eq_ok_iff.mp hEnd
  exact ⟨e, next.lookahead, _, hSpelled, eof_of_expect hExpect, hDefined, hValue⟩

theorem evaluate_complete {e : Expression} {state : Reckoning} {u : Token}
    (h : Spelled e.lexemes state.ahead [.ok u]) (hEof : u.lexeme = .eof) (hDefined : e.Defined) :
    ∃ left, state.evaluate = ⟨.ok e.value, left⟩ := by
  have hScaling (o : Scaling) : u.lexeme ≠ o.lexeme := by rw [hEof]; cases o <;> nofun
  have hShift (o : Shift) : u.lexeme ≠ o.lexeme := by rw [hEof]; cases o <;> nofun
  obtain ⟨next, hExpression, hNext⟩ := expression_complete h hDefined hScaling hShift
  obtain ⟨left, hExpect⟩ := expect_eof_of_ahead hNext hEof
  refine ⟨left, ?_⟩
  rw [evaluate, hExpression, Outcome.ok_andThen, hExpect, Outcome.map_ok]

theorem result_ofLine_of_pull {line : String} {t : Token} {feed : Feed}
    (h : (Feed.ofLine line).pull = ⟨.ok t, feed⟩) :
    (ofLine line).result = (evaluate ⟨feed, t⟩).result := by
  rw [ofLine, h, Outcome.ok_andThen]
  rfl

theorem result_ofLine_of_pull_error {line : String} {fault : Fault} {feed : Feed}
    (h : (Feed.ofLine line).pull = ⟨.error fault, feed⟩) : (ofLine line).result = .error fault := by
  rw [ofLine, h, Outcome.error_andThen]

theorem ofLine_sound {line : String} {q : Rat} (h : (ofLine line).result = .ok q) :
    ∃ (ts : List Token) (e : Expression), Reads 0 line.toList (ts.map .ok) ∧
      e.lexemes = ts.map Token.lexeme ∧ e.Defined ∧ e.value = q := by
  obtain ⟨items, hReads⟩ := exists_reads 0 line.toList
  have hItems := Cursor.reads_before_iff.mp hReads
  rcases hPull : (Feed.ofLine line).pull with ⟨fault | t, feed⟩
  · rw [result_ofLine_of_pull_error hPull] at h
    cases h
  · have hAhead : (Cursor.before line.toList).ahead = ahead ⟨feed, t⟩ := ahead_of_pull hPull
    rw [result_ofLine_of_pull hPull] at h
    rcases hEvaluate : evaluate ⟨feed, t⟩ with ⟨result, left⟩
    rw [hEvaluate] at h
    subst h
    obtain ⟨e, u, others, ⟨ts, hLexemes, hTokens⟩, hEof, hDefined, hValue⟩ := evaluate_sound hEvaluate
    rw [← hAhead, hItems] at hTokens
    have hTs : items = ts.map .ok := hReads.eq_of_append hTokens (decide_eq_true hEof)
    exact ⟨ts, e, hTs ▸ hReads, hLexemes.symm, hDefined, hValue⟩

theorem ofLine_complete {line : String} {ts : List Token} {e : Expression}
    (hReads : Reads 0 line.toList (ts.map .ok)) (hLexemes : e.lexemes = ts.map Token.lexeme)
    (hDefined : e.Defined) : (ofLine line).result = .ok e.value := by
  have hItems := Cursor.reads_before_iff.mp hReads
  have hSpelled : Spelled e.lexemes (Cursor.before line.toList).ahead [.ok (.ending line.length)] :=
    ⟨ts, hLexemes.symm, hItems⟩
  rcases hPull : (Feed.ofLine line).pull with ⟨fault | t, feed⟩
  · obtain ⟨v, rest, hFirst⟩ := hSpelled.exists_token
    cases (ahead_of_pull_error hPull).symm.trans hFirst
  · have hAhead : (Cursor.before line.toList).ahead = ahead ⟨feed, t⟩ := ahead_of_pull hPull
    rw [hAhead] at hSpelled
    obtain ⟨left, hEvaluate⟩ := evaluate_complete hSpelled rfl hDefined
    rw [result_ofLine_of_pull hPull, hEvaluate]

theorem exists_tree {line : String} {q : Rat} (h : (ofLine line).result = .ok q) :
    ∃ e : Expression, ReadsAs 0 line.toList e.lexemes ∧ e.Defined ∧ e.value = q := by
  obtain ⟨ts, e, hReads, hLexemes, hTree⟩ := ofLine_sound h
  exact ⟨e, ⟨ts, hReads, hLexemes.symm⟩, hTree⟩

end Reckoning

theorem Reading.ReadsAs.result {line : String} {e : Expression} (h : ReadsAs 0 line.toList e.lexemes)
    (hDefined : e.Defined) : (Reckoning.ofLine line).result = .ok e.value := by
  obtain ⟨ts, hReads, hLexemes⟩ := h
  exact Reckoning.ofLine_complete hReads hLexemes.symm hDefined

/-- A line is worth what the grammar derives its tokens to be, provided that it reads as tokens
alone. What is derived is the value of a tree, and there is one tree at most. -/
theorem value_of_line (line : String) :
    (∀ q, (Reckoning.ofLine line).result = .ok q ↔
      ∃ ts : List Token, Reads 0 line.toList (ts.map .ok) ∧ Derives (ts.map Token.lexeme) q) ∧
    (∀ ls q, Derives ls q ↔ ∃ e : Expression, e.lexemes = ls ∧ e.Defined ∧ e.value = q) ∧
    (∀ e e' : Expression, e.lexemes = e'.lexemes → e = e') ∧
    (∀ ls q r, Derives ls q → Derives ls r → q = r) := by
  refine ⟨?_, fun _ _ => derives_iff, fun _ _ h => Expression.lexemes_injective h, ?_⟩
  · intro q
    constructor
    · intro h
      obtain ⟨ts, e, hReads, hLexemes, hDefined, rfl⟩ := Reckoning.ofLine_sound h
      exact ⟨ts, hReads, derives_iff.mpr ⟨e, hLexemes, hDefined, rfl⟩⟩
    · rintro ⟨ts, hReads, hDerives⟩
      obtain ⟨e, hLexemes, hDefined, rfl⟩ := hDerives.exists_expression
      exact Reckoning.ofLine_complete hReads hLexemes hDefined
  · intro ls q r hq hr
    obtain ⟨e, rfl, _, rfl⟩ := hq.exists_expression
    obtain ⟨e', hLexemes, _, rfl⟩ := hr.exists_expression
    rw [Expression.lexemes_injective hLexemes]

end Reckoner
