import Reckoner.Proofs.Sessions
import Reckoner.Proofs.Valuation

/-!
# Nonterminals from any state

A reckoning may be asked for a factor, a term or an expression in any state, be its lookahead stale
or left behind by a fault. What it finds is told by its stream: the lookahead, and then whatever the
calls on its cursor bring. A beginning of the stream is complete if it is derived from the nonterminal
and followed by a token that the nonterminal does not go on with. There is one such beginning at most,
and its value is found if nothing in it is divided by zero.
-/

set_option autoImplicit false

namespace Reckoner

open Grammar

/-! ## The stream of a reckoning -/

namespace Reckoning

/-- The lookahead and the items of all later calls. -/
def stream (state : Reckoning) : Nat → Item
  | 0 => .ok state.lookahead
  | n + 1 => state.feed.cursor.call n

theorem stream_eq_getD (state : Reckoning) (n : Nat) : state.stream n =
    state.ahead[n]?.getD (.ok (.ending state.feed.cursor.line.length)) := by
  cases n with
  | zero => rfl
  | succ n =>
    rw [stream, Cursor.call_eq_getD, ahead, List.getElem?_cons_succ]
    split
    · next hEnd =>
      have hAhead : state.feed.cursor.ahead = [.ok (.ending state.feed.cursor.line.length)] := by
        rw [Cursor.ahead_of_nil hEnd.2, Cursor.length_line, hEnd.2]
        rfl
      rw [hAhead]
      cases n <;> rfl
    · rfl

/-- What is seen after some tokens is the stream from there on. -/
theorem stream_of_ahead {state next : Reckoning} {ts : List Token}
    (h : state.ahead = ts.map .ok ++ next.ahead)
    (hLine : next.feed.cursor.line = state.feed.cursor.line) (n : Nat) :
    state.stream (ts.length + n) = next.stream n := by
  rw [stream_eq_getD, stream_eq_getD, h, hLine, List.getElem?_append_right (by simp), List.length_map,
    Nat.add_sub_cancel_left]

theorem exists_ahead_eq_concat (state : Reckoning) : ∃ (items : List Item) (last : Item),
    state.ahead = items ++ [last] ∧ last.isEnding = true := by
  rw [ahead]
  split
  · next hEnd => exact ⟨[], _, rfl, decide_eq_true hEnd.1⟩
  · obtain ⟨items, -, hAhead⟩ := state.feed.cursor.exists_reads_ahead
    rw [hAhead]
    exact ⟨_ :: items, _, rfl, rfl⟩

theorem stream_of_map_range {state : Reckoning} {ts : List Token}
    (h : (List.range ts.length).map state.stream = ts.map .ok) (i : Nat) (hi : i < ts.length) :
    state.stream i = .ok ts[i] := by
  have hItem := congrArg (·[i]?) h
  simpa [hi] using hItem

/-- Before the end the stream is what the reckoning sees. -/
theorem ahead_of_stream {state : Reckoning} {ts : List Token} {u : Token}
    (h : (List.range ts.length).map state.stream = ts.map .ok) (hNext : state.stream ts.length = .ok u)
    (hEof : ∀ t ∈ ts, t.lexeme ≠ .eof) : ∃ others, state.ahead = ts.map .ok ++ .ok u :: others := by
  obtain ⟨items, last, hAhead, hEnding⟩ := state.exists_ahead_eq_concat
  have hLength : ts.length ≤ items.length := by
    by_contra hShort
    have hItem := stream_of_map_range h items.length (Nat.not_le.mp hShort)
    rw [stream_eq_getD, hAhead, List.getElem?_concat_length, Option.getD_some] at hItem
    subst hItem
    exact hEof _ (List.getElem_mem _) (of_decide_eq_true hEnding)
  have hLess : ts.length < state.ahead.length := by
    rw [hAhead, List.length_append, List.length_singleton]
    omega
  have hStream : ∀ i (hi : i < state.ahead.length), state.stream i = state.ahead[i] := by
    intro i hi
    rw [stream_eq_getD, List.getElem?_eq_getElem hi, Option.getD_some]
  have hTake : state.ahead.take ts.length = ts.map .ok := by
    refine List.ext_getElem (by simp; omega) ?_
    intro i hi hi'
    rw [List.getElem_take, List.getElem_map, ← hStream, stream_of_map_range h]
  refine ⟨state.ahead.drop (ts.length + 1), ?_⟩
  rw [← hTake, ← hNext, hStream _ hLess, ← List.drop_eq_getElem_cons hLess, List.take_append_drop]

end Reckoning

/-! ## Complete beginnings -/

inductive Nonterminal where
  | factor | term | expression
  deriving DecidableEq, Repr

namespace Nonterminal

/-- The derivation trees of a nonterminal. -/
def Tree : Nonterminal → Type
  | factor => Factor
  | term => Term
  | expression => Expression

def lexemes : (n : Nonterminal) → n.Tree → List Lexeme
  | factor => Factor.lexemes
  | term => Term.lexemes
  | expression => Expression.lexemes

/-- Operators of one level group to the left. -/
def value : (n : Nonterminal) → n.Tree → Rat
  | factor => Factor.value
  | term => Term.value
  | expression => Expression.value

/-- Nothing is divided by zero. -/
def Defined : (n : Nonterminal) → n.Tree → Prop
  | factor => fun _ => True
  | term => Term.Defined
  | expression => Expression.Defined

/-- The kinds of tokens that can stand behind. -/
def StopsBefore : Nonterminal → Kind → Prop
  | factor, _ => True
  | term, kind => kind ≠ .star ∧ kind ≠ .slash
  | expression, kind => kind = .number ∨ kind = .eof

def operation : Nonterminal → Reckoning → Outcome Reckoning Rat
  | factor => Reckoning.factor
  | term => Reckoning.term
  | expression => Reckoning.expression

def toStep : Nonterminal → Step
  | factor => .factor
  | term => .term
  | expression => .expression

/-- A beginning of the stream that is a tree, with the token behind it. -/
structure Completes (n : Nonterminal) (state : Reckoning) (tree : n.Tree) (ts : List Token)
    (u : Token) : Prop where
  stream_eq : (List.range ts.length).map state.stream = ts.map .ok
  lexemes_eq : ts.map Token.lexeme = n.lexemes tree
  stream_next : state.stream ts.length = .ok u
  stops : n.StopsBefore u.kind

theorem step_toStep (n : Nonterminal) (session : Session) :
    session.step n.toStep = session.reckon n.operation .value := by
  cases n <;> rfl

theorem stopsBefore_term_iff {l : Lexeme} :
    term.StopsBefore l.kind ↔ ∀ o : Scaling, l ≠ o.lexeme := by
  constructor
  · rintro ⟨hStar, hSlash⟩ (_ | _) rfl
    · exact hStar rfl
    · exact hSlash rfl
  · intro h
    cases l with
    | star => exact absurd rfl (h .times)
    | slash => exact absurd rfl (h .per)
    | number | plus | minus | eof => exact ⟨nofun, nofun⟩

theorem stopsBefore_expression_iff {l : Lexeme} : expression.StopsBefore l.kind ↔
    (∀ o : Scaling, l ≠ o.lexeme) ∧ ∀ o : Shift, l ≠ o.lexeme := by
  constructor
  · intro h
    refine ⟨?_, ?_⟩ <;> rintro (_ | _) rfl <;> exact h.elim nofun nofun
  · rintro ⟨hScaling, hShift⟩
    cases l with
    | number => exact .inl rfl
    | eof => exact .inr rfl
    | plus => exact absurd rfl (hShift .plus)
    | minus => exact absurd rfl (hShift .minus)
    | star => exact absurd rfl (hScaling .times)
    | slash => exact absurd rfl (hScaling .per)

/-! ### One at most -/

theorem lexemes_append_inj (n : Nonterminal) {tree tree' : n.Tree} {us vs : List Lexeme}
    (hu : ∀ l ∈ us.head?, n.StopsBefore l.kind) (hv : ∀ l ∈ vs.head?, n.StopsBefore l.kind)
    (h : n.lexemes tree ++ us = n.lexemes tree' ++ vs) : tree = tree' ∧ us = vs := by
  cases n with
  | factor => exact Factor.lexemes_append_inj h
  | term =>
    refine Term.lexemes_append_inj ?_ ?_ h
    · exact fun o ho => stopsBefore_term_iff.mp (hu _ ho) o rfl
    · exact fun o ho => stopsBefore_term_iff.mp (hv _ ho) o rfl
  | expression =>
    refine Expression.lexemes_append_inj ?_ ?_ ?_ ?_ h
    · exact fun o ho => (stopsBefore_expression_iff.mp (hu _ ho)).1 o rfl
    · exact fun o ho => (stopsBefore_expression_iff.mp (hv _ ho)).1 o rfl
    · exact fun o ho => (stopsBefore_expression_iff.mp (hu _ ho)).2 o rfl
    · exact fun o ho => (stopsBefore_expression_iff.mp (hv _ ho)).2 o rfl

variable {n : Nonterminal} {state : Reckoning} {tree tree' : n.Tree} {ts us : List Token} {u w : Token}

theorem Completes.stream_concat (h : n.Completes state tree ts u) :
    (List.range (ts.length + 1)).map state.stream = (ts ++ [u]).map .ok := by
  rw [List.range_succ, List.map_append, List.map_singleton, h.stream_eq, h.stream_next,
    List.map_append, List.map_singleton]

theorem Completes.stopsBefore_head (h : n.Completes state tree ts u) (ls : List Lexeme) :
    ∀ l ∈ (u.lexeme :: ls).head?, n.StopsBefore l.kind := by
  rintro l ⟨rfl⟩
  exact h.stops

/-- The shorter of two complete beginnings is the longer one, since the token behind it stops both. -/
theorem Completes.eq_of_length_le (h : n.Completes state tree ts u) (h' : n.Completes state tree' us w)
    (hLength : ts.length ≤ us.length) : tree = tree' ∧ ts = us ∧ u = w := by
  have hPrefix : ts ++ [u] = (us ++ [w]).take (ts.length + 1) := by
    apply List.map_injective_iff.mpr (fun _ _ => Except.ok.inj)
    rw [List.map_take, ← h'.stream_concat, ← h.stream_concat, ← List.map_take, List.take_range,
      Nat.min_eq_left (Nat.succ_le_succ hLength)]
  have hSplit := List.take_append_drop (ts.length + 1) (us ++ [w])
  rw [← hPrefix, List.append_assoc] at hSplit
  have hLexemes := congrArg (List.map Token.lexeme) hSplit
  rw [List.map_append, List.map_append, List.map_append, h.lexemes_eq, h'.lexemes_eq] at hLexemes
  obtain ⟨hTree, hRest⟩ :=
    n.lexemes_append_inj (h.stopsBefore_head _) (h'.stopsBefore_head _) hLexemes
  have hDrop : (us ++ [w]).drop (ts.length + 1) = [] :=
    List.map_eq_nil_iff.mp (List.cons.inj hRest).2
  rw [hDrop, List.append_nil] at hSplit
  obtain ⟨hTokens, hNext⟩ := List.append_inj' hSplit rfl
  exact ⟨hTree, hTokens, (List.cons.inj hNext).1⟩

theorem Completes.unique (h : n.Completes state tree ts u) (h' : n.Completes state tree' us w) :
    tree = tree' ∧ ts = us ∧ u = w := by
  rcases Nat.le_total ts.length us.length with hLength | hLength
  · exact h.eq_of_length_le h' hLength
  · obtain ⟨rfl, rfl, rfl⟩ := h'.eq_of_length_le h hLength
    exact ⟨rfl, rfl, rfl⟩

/-! ### What is found -/

theorem eof_notMem_links {ω α : Type} {mark : ω → Lexeme} {spell : α → List Lexeme}
    (hMark : ∀ o, mark o ≠ .eof) (hSpell : ∀ a, .eof ∉ spell a) (rest : List (ω × α)) :
    .eof ∉ links mark spell rest := by
  rw [links, List.mem_flatMap]
  rintro ⟨link, -, hMem⟩
  rcases List.mem_cons.mp hMem with hEof | hMem
  · exact hMark link.1 hEof.symm
  · exact hSpell link.2 hMem

theorem eof_notMem_factor (f : Factor) : .eof ∉ f.lexemes := by
  cases f <;> simp [Factor.lexemes]

theorem eof_notMem_term (t : Term) : .eof ∉ t.lexemes :=
  List.not_mem_append (eof_notMem_factor t.first)
    (eof_notMem_links Scaling.lexeme_ne_eof eof_notMem_factor t.rest)

theorem eof_notMem_lexemes (n : Nonterminal) (tree : n.Tree) : .eof ∉ n.lexemes tree := by
  cases n with
  | factor => exact eof_notMem_factor tree
  | term => exact eof_notMem_term tree
  | expression =>
    exact List.not_mem_append (eof_notMem_term tree.first)
      (eof_notMem_links Shift.lexeme_ne_eof eof_notMem_term tree.rest)

theorem operation_sound {next : Reckoning} {q : Rat} (h : n.operation state = ⟨.ok q, next⟩) :
    ∃ tree : n.Tree, Spelled (n.lexemes tree) state.ahead next.ahead ∧ n.Defined tree ∧
      n.value tree = q ∧ n.StopsBefore next.lookahead.kind := by
  cases n with
  | factor =>
    obtain ⟨f, hSpelled, hValue⟩ := Reckoning.factor_sound h
    exact ⟨f, hSpelled, trivial, hValue, trivial⟩
  | term =>
    obtain ⟨t, hSpelled, hDefined, hValue, hStops⟩ := Reckoning.term_sound h
    exact ⟨t, hSpelled, hDefined, hValue, stopsBefore_term_iff.mpr hStops⟩
  | expression =>
    obtain ⟨e, hSpelled, hDefined, hValue, hStops⟩ := Reckoning.expression_sound h
    exact ⟨e, hSpelled, hDefined, hValue, stopsBefore_expression_iff.mpr hStops⟩

theorem operation_complete {others : List Item}
    (h : Spelled (n.lexemes tree) state.ahead (.ok u :: others)) (hDefined : n.Defined tree)
    (hStops : n.StopsBefore u.kind) : ∃ next, n.operation state = ⟨.ok (n.value tree), next⟩ ∧
      next.ahead = .ok u :: others := by
  cases n with
  | factor => exact Reckoning.factor_complete h
  | term => exact Reckoning.term_complete h hDefined (stopsBefore_term_iff.mp hStops)
  | expression =>
    obtain ⟨hScaling, hShift⟩ := stopsBefore_expression_iff.mp hStops
    exact Reckoning.expression_complete h hDefined hScaling hShift

theorem line_operation {next : Reckoning} {q : Rat} (h : n.operation state = ⟨.ok q, next⟩) :
    next.feed.cursor.line = state.feed.cursor.line := by
  have hAsks : Reckoning.AsksForFactor n.operation := by
    cases n with
    | factor => exact Reckoning.asksForFactor_factor
    | term => exact Reckoning.asksForFactor_term
    | expression => exact Reckoning.asksForFactor_expression
  have hReaches := hAsks.reaches state
  rw [h] at hReaches
  exact hReaches.leads.line_eq

/-- A value comes of a complete beginning, and the stream goes on behind the token that stopped it. -/
theorem exists_completes {next : Reckoning} {q : Rat} (h : n.operation state = ⟨.ok q, next⟩) :
    ∃ (tree : n.Tree) (ts : List Token), n.Completes state tree ts next.lookahead ∧
      n.Defined tree ∧ n.value tree = q ∧ ∀ k, state.stream (ts.length + k) = next.stream k := by
  obtain ⟨tree, ⟨ts, hLexemes, hAhead⟩, hDefined, hValue, hStops⟩ := operation_sound h
  have hStream := Reckoning.stream_of_ahead hAhead (line_operation h)
  refine ⟨tree, ts, ⟨?_, hLexemes, hStream 0, hStops⟩, hDefined, hValue, hStream⟩
  refine List.ext_getElem (by simp) ?_
  intro i hi hi'
  have hLess : i < ts.length := by simpa using hi
  rw [List.getElem_map, List.getElem_range, Reckoning.stream_eq_getD, hAhead,
    List.getElem?_append_left hi', List.getElem?_eq_getElem hi', Option.getD_some]

theorem Completes.exists_operation (h : n.Completes state tree ts u) (hDefined : n.Defined tree) :
    ∃ next, n.operation state = ⟨.ok (n.value tree), next⟩ := by
  have hEof : ∀ t ∈ ts, t.lexeme ≠ .eof := by
    intro t ht hEof
    apply n.eof_notMem_lexemes tree
    rw [← h.lexemes_eq, ← hEof]
    exact List.mem_map_of_mem ht
  obtain ⟨others, hAhead⟩ := Reckoning.ahead_of_stream h.stream_eq h.stream_next hEof
  obtain ⟨next, hNext, -⟩ := operation_complete ⟨ts, h.lexemes_eq, hAhead⟩ hDefined h.stops
  exact ⟨next, hNext⟩

end Nonterminal

namespace Session

/-- In every session with a reckoning there is one complete beginning of its stream at most for each
nonterminal. The nonterminal has a value just if there is one in which nothing is divided by zero, and
that is the value of its tree. Then the lookahead is the token behind the beginning, and the calls
bring what follows it. -/
theorem value_of_nonterminal (line : String) (steps : List Step) (n : Nonterminal) {t : Token}
    (hLookahead : ((ofLine line).after steps).lookahead = some t) :
    let session := (ofLine line).after steps
    let state : Reckoning := ⟨session.feed, t⟩
    let result := session.step n.toStep
    (∀ tree tree' ts us u w, n.Completes state tree ts u → n.Completes state tree' us w →
      tree = tree' ∧ ts = us ∧ u = w) ∧
    (∀ q, result.1 = .value q ↔
      ∃ tree ts u, n.Completes state tree ts u ∧ n.Defined tree ∧ n.value tree = q) ∧
    ∀ q, result.1 = .value q → ∀ tree ts u, n.Completes state tree ts u →
      result.2.lookahead = some u ∧
      ∀ k, result.2.feed.cursor.call k = state.stream (ts.length + 1 + k) := by
  intro session state result
  have hResult : result = session.reckon n.operation .value := n.step_toStep session
  rw [hResult]
  refine ⟨fun _ _ _ _ _ _ h h' => h.unique h', fun q => ⟨?_, ?_⟩, ?_⟩
  · intro hValue
    rcases hOperation : n.operation state with ⟨fault | r, next⟩
    · rw [reckon_of_error hLookahead hOperation] at hValue
      cases hValue
    · rw [reckon_of_ok hLookahead hOperation] at hValue
      cases hValue
      obtain ⟨tree, ts, hCompletes, hDefined, hTree, -⟩ := Nonterminal.exists_completes hOperation
      exact ⟨tree, ts, _, hCompletes, hDefined, hTree⟩
  · rintro ⟨tree, ts, u, hCompletes, hDefined, rfl⟩
    obtain ⟨next, hOperation⟩ := hCompletes.exists_operation hDefined
    rw [reckon_of_ok hLookahead hOperation]
  · intro q hValue tree ts u hCompletes
    rcases hOperation : n.operation state with ⟨fault | r, next⟩
    · rw [reckon_of_error hLookahead hOperation] at hValue
      cases hValue
    · obtain ⟨tree', us, hFound, -, -, hStream⟩ := Nonterminal.exists_completes hOperation
      obtain ⟨-, rfl, rfl⟩ := hCompletes.unique hFound
      rw [reckon_of_ok hLookahead hOperation]
      refine ⟨rfl, fun k => ?_⟩
      rw [Nat.add_assoc, hStream, Nat.add_comm]
      rfl

/-- Here a fault has left the number that was matched as the lookahead, so it is matched again. -/
theorem value_of_nonterminal_after_symbol :
    let session := (ofLine "7 ? 2*3").after [.newReckoning, .expect .number]
    session.lookahead = some ⟨.number 7, 0, "7"⟩ ∧
    (session.step .expression).1 = .value 7 ∧
    (session.step .expression).2.lookahead = some ⟨.number 2, 4, "2"⟩ := by
  intro session
  have hLookahead : session.lookahead = some ⟨.number 7, 0, "7"⟩ := by decide
  obtain ⟨-, hValue, hLater⟩ := value_of_nonterminal "7 ? 2*3" [.newReckoning, .expect .number]
    .expression hLookahead
  have hCompletes : Nonterminal.expression.Completes ⟨session.feed, ⟨.number 7, 0, "7"⟩⟩
      ⟨⟨.plain 7, []⟩, []⟩ [⟨.number 7, 0, "7"⟩] ⟨.number 2, 4, "2"⟩ := ⟨rfl, rfl, rfl, .inl rfl⟩
  have hSeven : (session.step .expression).1 = .value 7 :=
    (hValue 7).mpr ⟨_, _, _, hCompletes, ⟨nofun, nofun⟩, rfl⟩
  exact ⟨hLookahead, hSeven, (hLater 7 hSeven _ _ _ hCompletes).1⟩

end Session

end Reckoner
