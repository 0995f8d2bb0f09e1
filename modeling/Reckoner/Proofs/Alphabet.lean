import Reckoner.Console
import Reckoner.Proofs.Traces

/-!
# The characters of expressions

All tokens of a line can be had just if the line keeps to an alphabet, and else its first character
beyond the alphabet is the fault. A reckoning, which takes no token before it needs it, finds this
fault too unless another is met before it.
-/

set_option autoImplicit false

namespace Reckoner

open Automaton

namespace Reading

def decimalDigits : List Char := ['0', '1', '2', '3', '4', '5', '6', '7', '8', '9']

def alphabet : List Char := ' ' :: '+' :: '-' :: '*' :: '/' :: decimalDigits

theorem mem_decimalDigits_iff {c : Char} : c ∈ decimalDigits ↔ c.isDigit = true := by
  constructor
  · have hAll : decimalDigits.all Char.isDigit = true := by decide
    exact List.all_eq_true.mp hAll c
  · intro h
    obtain ⟨hLow, hHigh⟩ := Char.isDigit_iff_toNat.mp h
    have hAll : ∀ n < 58, 48 ≤ n → Char.ofNat n ∈ decimalDigits := by decide
    have hMem := hAll c.toNat (Nat.lt_succ_of_le hHigh) hLow
    rwa [Char.ofNat_toNat] at hMem

theorem mem_alphabet_of_mem_operators {c : Char} {lexeme : Lexeme} (h : (c, lexeme) ∈ operators) :
    c ∈ alphabet := by
  have hAll : ∀ pair ∈ operators, pair.1 ∈ alphabet := by decide
  exact hAll _ h

theorem mem_alphabet_of_isDigit {c : Char} (h : c.isDigit = true) : c ∈ alphabet := by
  have hDigits : decimalDigits ⊆ alphabet := by decide
  exact hDigits (mem_decimalDigits_iff.mpr h)

theorem not_mem_alphabet {c : Char} (hBlank : c ≠ ' ') (hDigit : c.isDigit = false)
    (hOperator : ∀ lexeme, (c, lexeme) ∉ operators) : c ∉ alphabet := by
  intro h
  simp only [alphabet, List.mem_cons] at h
  rcases h with rfl | rfl | rfl | rfl | rfl | h
  · exact hBlank rfl
  · exact hOperator .plus (by decide)
  · exact hOperator .minus (by decide)
  · exact hOperator .star (by decide)
  · exact hOperator .slash (by decide)
  · rw [mem_decimalDigits_iff.mp h] at hDigit
    cases hDigit

/-! ## The first character beyond the alphabet -/

theorem Reads.forall_mem_alphabet {place : Nat} {s : List Char} {ts : List Token}
    (h : Reads place s (ts.map .ok)) : ∀ c ∈ s, c ∈ alphabet := by
  generalize hItems : ts.map Except.ok = items at h
  induction h generalizing ts with
  | nothing => exact fun _ hc => nomatch hc
  | blank _ ih => exact List.forall_mem_cons.mpr ⟨List.mem_cons_self, ih hItems⟩
  | operator hOperator _ ih =>
    obtain ⟨_, _, _, _, hRest⟩ := List.map_eq_cons_iff.mp hItems
    exact List.forall_mem_cons.mpr ⟨mem_alphabet_of_mem_operators hOperator, ih hRest⟩
  | number hRun _ ih =>
    obtain ⟨_, _, _, _, hRest⟩ := List.map_eq_cons_iff.mp hItems
    exact List.forall_mem_append.mpr
      ⟨fun d hd => mem_alphabet_of_isDigit (hRun.isDigit d hd), ih hRest⟩
  | symbol =>
    obtain ⟨_, _, _, hFirst, _⟩ := List.map_eq_cons_iff.mp hItems
    cases hFirst

/-- A text with its first character beyond the alphabet. -/
structure Leaves (s front : List Char) (c : Char) : Prop where
  isPrefix : ∃ back, s = front ++ c :: back
  inside : ∀ d ∈ front, d ∈ alphabet
  outside : c ∉ alphabet

theorem Leaves.unique {s front front' : List Char} {c c' : Char} (h : Leaves s front c)
    (h' : Leaves s front' c') : front = front' ∧ c = c' := by
  obtain ⟨⟨back, rfl⟩, hInside, hOutside⟩ := h
  obtain ⟨⟨back', hLine⟩, hInside', hOutside'⟩ := h'
  have hTake : front = front' := by
    have hEq := congrArg (List.takeWhile (· ∈ alphabet)) hLine
    rwa [List.takeWhile_append_of_pos (by simpa using hInside),
      List.takeWhile_cons_of_neg (by simpa using hOutside), List.append_nil,
      List.takeWhile_append_of_pos (by simpa using hInside'),
      List.takeWhile_cons_of_neg (by simpa using hOutside'), List.append_nil] at hEq
  subst hTake
  exact ⟨rfl, (List.cons.inj (List.append_cancel_left hLine)).1⟩

theorem Reads.exists_leaves {s : List Char} {ts : List Token} {fault : Fault} {others : List Item}
    (h : Reads 0 s (ts.map .ok ++ .error fault :: others)) : ∃ front c,
      Leaves s front c ∧ fault = .unrecognizedSymbol c.toString front.length ∧
        ∀ t ∈ ts, t.location < front.length := by
  obtain ⟨front, back, rfl, hFront, hBack, hPlace, -⟩ := h.exists_cut
  obtain ⟨c, back, rfl, rfl, hBlank, hDigit, hOperator⟩ := hBack.exists_symbol hPlace
  refine ⟨front, c, ⟨⟨back, rfl⟩, hFront.forall_mem_alphabet,
    not_mem_alphabet hBlank hDigit hOperator⟩, by rw [Nat.zero_add], ?_⟩
  intro t ht
  have hLess := hFront.place_lt (List.mem_map_of_mem (f := Except.ok) ht)
  rwa [Nat.zero_add] at hLess

theorem error_notMem_tokens (ts : List Token) (fault : Fault) :
    .error fault ∉ ts.map (Except.ok : Token → Item) := by simp

/-- Some items are all tokens, or they are tokens up to a first fault. -/
theorem exists_tokens (items : List Item) : (∃ ts : List Token, items = ts.map .ok) ∨
    ∃ (ts : List Token) (fault : Fault) (others : List Item),
      items = ts.map .ok ++ .error fault :: others := by
  induction items with
  | nil => exact .inl ⟨[], rfl⟩
  | cons item items ih =>
    cases item with
    | error fault => exact .inr ⟨[], fault, items, rfl⟩
    | ok t =>
      rcases ih with ⟨ts, rfl⟩ | ⟨ts, fault, others, rfl⟩
      · exact .inl ⟨t :: ts, rfl⟩
      · exact .inr ⟨t :: ts, fault, others, rfl⟩

/-- What begins with tokens alone ends before the first fault. -/
theorem exists_of_tokens_append {ts us : List Token} {fault : Fault} {others rest : List Item}
    (h : ts.map .ok ++ .error fault :: others = us.map .ok ++ rest) :
    ∃ vs, ts = us ++ vs ∧ rest = vs.map .ok ++ .error fault :: others := by
  induction us generalizing ts with
  | nil => exact ⟨ts, rfl, h.symm⟩
  | cons u us ih =>
    cases ts with
    | nil => cases h
    | cons t ts =>
      obtain ⟨hFirst, hRest⟩ := List.cons.inj h
      cases hFirst
      obtain ⟨vs, rfl, rfl⟩ := ih hRest
      exact ⟨vs, rfl, rfl⟩

end Reading

open Reading

/-! ## All tokens at once -/

namespace Feed

theorem exists_result_tokens_eq_ok_iff {line : String} :
    (∃ ts, (tokens line).result = .ok ts) ↔ ∀ c ∈ line.toList, c ∈ alphabet := by
  constructor
  · rintro ⟨ts, h⟩
    obtain ⟨us, hReads, -⟩ := result_tokens_eq_ok_iff.mp h
    exact hReads.forall_mem_alphabet
  · intro h
    obtain ⟨items, hReads⟩ := exists_reads 0 line.toList
    rcases exists_tokens items with ⟨ts, rfl⟩ | ⟨ts, fault, others, rfl⟩
    · exact ⟨_, result_tokens_eq_ok_iff.mpr ⟨ts, hReads, rfl⟩⟩
    · obtain ⟨front, c, ⟨⟨back, hLine⟩, -, hOutside⟩, -⟩ := hReads.exists_leaves
      refine absurd (h c ?_) hOutside
      rw [hLine]
      exact List.mem_append_right front List.mem_cons_self

theorem result_tokens_eq_error_iff {line : String} {fault : Fault} :
    (tokens line).result = .error fault ↔ ∃ front c, Leaves line.toList front c ∧
      fault = .unrecognizedSymbol c.toString front.length := by
  constructor
  · intro h
    obtain ⟨ts, others, hReads, -⟩ := pulled_of_tokens_error h
    obtain ⟨front, c, hLeaves, hFault, -⟩ := hReads.exists_leaves
    exact ⟨front, c, hLeaves, hFault⟩
  · rintro ⟨front, c, hLeaves, rfl⟩
    cases hResult : (tokens line).result with
    | ok ts =>
      obtain ⟨back, hLine⟩ := hLeaves.isPrefix
      have hMem : c ∈ line.toList := hLine ▸ List.mem_append_right front List.mem_cons_self
      exact absurd (exists_result_tokens_eq_ok_iff.mp ⟨ts, hResult⟩ c hMem) hLeaves.outside
    | error other =>
      obtain ⟨ts, others, hReads, -⟩ := pulled_of_tokens_error hResult
      obtain ⟨front', c', hLeaves', rfl, -⟩ := hReads.exists_leaves
      obtain ⟨rfl, rfl⟩ := hLeaves.unique hLeaves'
      rfl

end Feed

/-! ## One token after the other -/

theorem DividesByZero.exists_mem {place : Int} {ts : List Token} (h : DividesByZero place ts) :
    ∃ slash ∈ ts, slash.location = place := by
  obtain ⟨_, _⟩ := h
  exact ⟨_, List.mem_append_right _ List.mem_cons_self, rfl⟩

namespace Reckoning

theorem result_ofLine_ne_unrecognizedSymbol {line : String} {ts : List Token}
    (hReads : Reads 0 line.toList (ts.map .ok)) (symbol : String) (position : Int) :
    (ofLine line).result ≠ .error (.unrecognizedSymbol symbol position) := by
  intro h
  have hFails := (result_eq_error_iff hReads).mp h
  have hTokens := error_notMem_tokens ts
  generalize ts.map Except.ok = items at hFails hTokens
  cases hFails with
  | symbol => exact hTokens _ (List.mem_append_right _ List.mem_cons_self)
  | symbolBehind =>
    exact hTokens _ (List.mem_append_right _ (List.mem_cons_of_mem _ List.mem_cons_self))

/-- A line with a first fault fails with that fault, or with one that points at a token before. -/
theorem exists_fault_of_first_fault {line : String} {ts : List Token} {fault : Fault}
    {others : List Item} (hReads : Reads 0 line.toList (ts.map .ok ++ .error fault :: others)) :
    ∃ found, (ofLine line).result = .error found ∧ (found = fault ∨
      (∃ t ∈ ts, ∃ expected, found = .unexpectedToken t.kind expected t.location) ∨
      ∃ slash ∈ ts, found = .divisionByZero slash.location) := by
  cases hResult : (ofLine line).result with
  | ok q =>
    obtain ⟨us, hTokens, -⟩ := exists_result_eq_ok_iff.mp ⟨q, hResult⟩
    refine absurd ?_ (error_notMem_tokens us fault)
    rw [hTokens.unique hReads]
    exact List.mem_append_right _ List.mem_cons_self
  | error found =>
    refine ⟨found, rfl, ?_⟩
    have hFails := (result_eq_error_iff hReads).mp hResult
    generalize hItems : ts.map Except.ok ++ .error fault :: others = items at hFails
    cases hFails with
    | symbol =>
      obtain ⟨vs, -, hRest⟩ := exists_of_tokens_append hItems
      cases vs with
      | nil =>
        cases hRest
        exact .inl rfl
      | cons => cases hRest
    | symbolBehind =>
      obtain ⟨vs, -, hRest⟩ := exists_of_tokens_append hItems
      rcases vs with _ | ⟨v, _ | _⟩
      · cases hRest
      · cases hRest
        exact .inl rfl
      · cases hRest
    | @token _ t =>
      obtain ⟨vs, rfl, hRest⟩ := exists_of_tokens_append hItems
      cases vs with
      | nil => cases hRest
      | cons =>
        cases hRest
        exact .inr (.inl ⟨t, List.mem_append_right _ List.mem_cons_self, _, rfl⟩)
    | ending us =>
      refine absurd ?_ (error_notMem_tokens us fault)
      rw [← hItems]
      exact List.mem_append_right _ List.mem_cons_self
    | division _ hPath hGoes =>
      obtain ⟨vs, rfl, hRest⟩ := exists_of_tokens_append hItems
      cases vs with
      | nil => cases hRest
      | cons v vs =>
        cases hRest
        obtain ⟨slash, hSlash, rfl⟩ := (hPath.dividesByZero hGoes).exists_mem
        refine .inr (.inr ⟨slash, ?_, rfl⟩)
        rw [List.append_cons]
        exact List.mem_append_left vs hSlash

end Reckoning

/-! ## Both ways -/

/-- All tokens of a line can be had just if its characters are in the alphabet, and the first one
that is not is the fault. If they can be had, the line has no unrecognized symbol for a reckoning
either. If not, it has no value: its fault is that symbol, or it points in front of it. -/
theorem lexing_of_line (line : String) :
    ((∃ ts, (Feed.tokens line).result = .ok ts) ↔ ∀ c ∈ line.toList, c ∈ alphabet) ∧
    (∀ fault, (Feed.tokens line).result = .error fault ↔ ∃ front c, Leaves line.toList front c ∧
      fault = .unrecognizedSymbol c.toString front.length) ∧
    (Console.answer true line).1 =
      (Feed.tokens line).result.map (fun ts => " ".intercalate (ts.map Token.label)) ∧
    ((∃ ts, (Feed.tokens line).result = .ok ts) → ∀ symbol position,
      (Reckoning.ofLine line).result ≠ .error (.unrecognizedSymbol symbol position)) ∧
    ∀ symbol position, (Feed.tokens line).result = .error (.unrecognizedSymbol symbol position) →
      (Reckoning.ofLine line).result = .error (.unrecognizedSymbol symbol position) ∨
      (∃ actual expected place, actual ≠ .eof ∧ place < position ∧
        (Reckoning.ofLine line).result = .error (.unexpectedToken actual expected place)) ∨
      ∃ place, place < position ∧
        (Reckoning.ofLine line).result = .error (.divisionByZero place) := by
  refine ⟨Feed.exists_result_tokens_eq_ok_iff, fun _ => Feed.result_tokens_eq_error_iff,
    Console.answer_true line, ?_, ?_⟩
  · rintro ⟨ts, h⟩
    obtain ⟨us, hReads, -⟩ := Feed.result_tokens_eq_ok_iff.mp h
    exact Reckoning.result_ofLine_ne_unrecognizedSymbol hReads
  · intro symbol position h
    obtain ⟨ts, others, hReads, -⟩ := Feed.pulled_of_tokens_error h
    obtain ⟨front, c, -, hFault, hPlaces⟩ := hReads.exists_leaves
    cases hFault
    obtain ⟨found, hFound, rfl | ⟨t, ht, expected, rfl⟩ | ⟨slash, hSlash, rfl⟩⟩ :=
      Reckoning.exists_fault_of_first_fault hReads
    · exact .inl hFound
    · have hEnding := hReads.isEnding_eq_false
        (List.mem_append_left _ (List.mem_map_of_mem (f := Except.ok) ht))
      have hKind : t.kind ≠ .eof := fun hEof =>
        of_decide_eq_false hEnding (Lexeme.kind_eq_eof_iff.mp hEof)
      exact .inr (.inl ⟨_, expected, _, hKind, hPlaces t ht, hFound⟩)
    · exact .inr (.inr ⟨_, hPlaces slash hSlash, hFound⟩)

end Reckoner
