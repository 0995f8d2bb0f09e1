import Reckoner.Proofs.Automaton

/-!
# Paths of the automaton

A path goes through tokens that are all matched, and keeps the places of the divisions by zero that
it meets. Where there is none the run goes on from the end of the path, and otherwise the first of
them is its fault. So a line has a value just if a path without divisions by zero leads through it,
and it fails just if such a path is broken off by the next item or two.
-/

set_option autoImplicit false

namespace Reckoner

open Reading

/-- Tokens that end with a division by zero, the place of which is that of the slash. -/
inductive DividesByZero : Int → List Token → Prop
  | intro {before divisor : List Token} {slash : Token} (hSlash : slash.lexeme = .slash)
      (hZero : divisor.map Token.lexeme = [.number 0] ∨
        divisor.map Token.lexeme = [.minus, .number 0]) :
      DividesByZero slash.location (before ++ slash :: divisor)

namespace Automaton

/-- The tokens that are matched in a state, with the next state and a division by zero. -/
inductive Goes : State → Token → State → Option Int → Prop
  | sign {slash? : Option Int} {t : Token} (hLexeme : t.lexeme = .minus) :
      Goes (.needFactor slash?) t (.needNumber slash?) none
  | number {state : State} {slash? : Option Int} {t : Token} {n : Nat}
      (hState : state = .needFactor slash? ∨ state = .needNumber slash?)
      (hLexeme : t.lexeme = .number n) : Goes state t .afterFactor (if n = 0 then slash? else none)
  | operator {t : Token} (hNumber : t.kind ≠ .number) (hEof : t.lexeme ≠ .eof) :
      Goes .afterFactor t (.needFactor (if t.lexeme = .slash then some t.location else none)) none

theorem goes_iff {state next : State} {t : Token} {zeroBehind? : Option Int} :
    Goes state t next zeroBehind? ↔ state.move t = .go next zeroBehind? := by
  constructor
  · rintro (hLexeme | ⟨rfl | rfl, hLexeme⟩ | ⟨hNumber, hEof⟩)
    · simp only [State.move, hLexeme]
    · simp only [State.move, hLexeme]
    · simp only [State.move, hLexeme]
    · cases hLexeme : t.lexeme with
      | number n => exact absurd (congrArg Lexeme.kind hLexeme) hNumber
      | eof => exact absurd hLexeme hEof
      | slash => simp only [State.move, hLexeme, if_true]
      | plus | minus | star => simp only [State.move, hLexeme, reduceCtorEq, if_false]
  · intro h
    cases state with
    | needFactor slash? =>
      cases hLexeme : t.lexeme <;> simp only [State.move, hLexeme] at h <;> cases h
      · exact .number (.inl rfl) hLexeme
      · exact .sign hLexeme
    | needNumber slash? =>
      cases hLexeme : t.lexeme <;> simp only [State.move, hLexeme] at h <;> cases h
      exact .number (.inr rfl) hLexeme
    | afterFactor =>
      have hOperator : t.kind ≠ .number ∧ t.lexeme ≠ .eof := by
        cases hLexeme : t.lexeme <;> simp_all [State.move, Token.kind, Lexeme.kind]
      have hGoes := Goes.operator hOperator.1 hOperator.2
      cases hLexeme : t.lexeme <;> simp only [State.move, hLexeme] at h <;> cases h <;>
        simpa [hLexeme] using hGoes

/-- A token is refused for its kind. -/
def State.Refuses (expected : Kind) : State → Kind → Prop
  | needFactor _, kind => expected = .number ∧ kind ≠ .number ∧ kind ≠ .minus
  | needNumber _, kind => expected = .number ∧ kind ≠ .number
  | afterFactor, kind => expected = .eof ∧ kind = .number

theorem refuses_iff {state : State} {t : Token} {expected : Kind} :
    state.Refuses expected t.kind ↔ state.move t = .refuse expected := by
  cases state <;> cases hLexeme : t.lexeme <;>
    simp [State.Refuses, State.move, Token.kind, Lexeme.kind, hLexeme, eq_comm]

theorem accepts_iff {state : State} {t : Token} :
    state.move t = .accept ↔ state = .afterFactor ∧ t.lexeme = .eof := by
  cases state <;> cases hLexeme : t.lexeme <;> simp [State.move, hLexeme]

/-- The tokens on the way from a state to another, with the places of the divisions by zero. -/
inductive Path : State → List Token → List Int → State → Prop
  | nil (state : State) : Path state [] [] state
  | cons {state next last : State} {t : Token} {ts : List Token} {zeroBehind? : Option Int}
      {places : List Int} (hGoes : Goes state t next zeroBehind?) (hRest : Path next ts places last) :
      Path state (t :: ts) (zeroBehind?.toList ++ places) last

/-- How the items of a line that ends at a place fail from a state on. -/
inductive Fails (state : State) (place : Int) : List Item → Fault → Prop
  | symbol (ts : List Token) {last : State} {symbol : String} {position : Int} {others : List Item}
      (hPath : Path state ts [] last) :
      Fails state place (ts.map .ok ++ .error (.unrecognizedSymbol symbol position) :: others)
        (.unrecognizedSymbol symbol position)
  /-- Behind a divisor that is zero the next item comes first. -/
  | symbolBehind (ts : List Token) {t : Token} {last next : State} {slash : Int} {symbol : String}
      {position : Int} {others : List Item} (hPath : Path state ts [] last)
      (hGoes : Goes last t next (some slash)) :
      Fails state place (ts.map .ok ++ .ok t :: .error (.unrecognizedSymbol symbol position) :: others)
        (.unrecognizedSymbol symbol position)
  | token (ts : List Token) {t : Token} {last : State} {expected : Kind} {others : List Item}
      (hPath : Path state ts [] last) (hRefuses : last.Refuses expected t.kind) :
      Fails state place (ts.map .ok ++ .ok t :: others) (.unexpectedToken t.kind expected t.location)
  | ending (ts : List Token) {last : State} {expected : Kind} (hPath : Path state ts [] last)
      (hRefuses : last.Refuses expected .eof) :
      Fails state place (ts.map .ok) (.unexpectedToken .eof expected place)
  | division (ts : List Token) {t : Token} {last next : State} {slash : Int} {others : List Item}
      (hPath : Path state ts [] last) (hGoes : Goes last t next (some slash))
      (hOthers : ∀ fault, others.head? ≠ some (.error fault)) :
      Fails state place (ts.map .ok ++ .ok t :: others) (.divisionByZero slash)

/-! ## Runs along paths -/

theorem run_of_goes {state next : State} {t : Token} (h : Goes state t next none) (items : List Item) :
    run state (.ok t :: items) = run next items := by
  rw [run, goes_iff.mp h]
  rcases items with _ | ⟨_ | _, _⟩ <;> rfl

theorem run_of_goes_zero {state next : State} {t : Token} {place : Int}
    (h : Goes state t next (some place)) {items : List Item}
    (hItems : ∀ fault, items.head? ≠ some (.error fault)) :
    run state (.ok t :: items) = some (.divisionByZero place) := by
  rw [run, goes_iff.mp h]
  rcases items with _ | ⟨fault | _, _⟩
  · rfl
  · exact absurd rfl (hItems fault)
  · rfl

theorem run_of_path {state last : State} {ts : List Token} (h : Path state ts [] last)
    (items : List Item) : run state (ts.map .ok ++ items) = run last items := by
  generalize hPlaces : [] = places at h
  induction h with
  | nil => rfl
  | @cons _ _ _ _ _ zeroBehind? _ hGoes _ ih =>
    obtain ⟨hNone, rfl⟩ := List.append_eq_nil_iff.mp hPlaces.symm
    obtain rfl : zeroBehind? = none := Option.toList_eq_nil_iff.mp hNone
    rw [List.map_cons, List.cons_append, run_of_goes hGoes, ih rfl]

/-! ## Where runs end -/

theorem run_of_fails {state : State} {place : Int} {items : List Item} {fault : Fault}
    (h : Fails state place items fault) :
    run state (items ++ [.ok (.ending place)]) = some fault := by
  cases h with
  | symbol _ hPath =>
    rw [List.append_assoc, run_of_path hPath]
    rfl
  | symbolBehind _ hPath hGoes =>
    rw [List.append_assoc, run_of_path hPath, List.cons_append, run, goes_iff.mp hGoes]
    rfl
  | token _ hPath hRefuses =>
    rw [List.append_assoc, run_of_path hPath, List.cons_append, run, refuses_iff.mp hRefuses]
  | ending _ hPath hRefuses =>
    have hMove := (refuses_iff (t := .ending place)).mp hRefuses
    rw [run_of_path hPath, run, hMove]
    rfl
  | @division _ _ _ _ _ others hPath hGoes hOthers =>
    rw [List.append_assoc, run_of_path hPath]
    refine run_of_goes_zero hGoes fun fault hFault => ?_
    cases others with
    | nil => cases hFault
    | cons => exact hOthers fault hFault

theorem Fails.cons {state next : State} {t : Token} {place : Int} {items : List Item} {fault : Fault}
    (hGoes : Goes state t next none) (h : Fails next place items fault) :
    Fails state place (.ok t :: items) fault := by
  cases h with
  | symbol ts hPath => exact .symbol (t :: ts) (.cons hGoes hPath)
  | symbolBehind ts hPath hLast => exact .symbolBehind (t :: ts) (.cons hGoes hPath) hLast
  | token ts hPath hRefuses => exact .token (t :: ts) (.cons hGoes hPath) hRefuses
  | ending ts hPath hRefuses => exact .ending (t :: ts) (.cons hGoes hPath) hRefuses
  | division ts hPath hLast hOthers => exact .division (t :: ts) (.cons hGoes hPath) hLast hOthers

/-- The first division by zero on a path is a fault. -/
theorem Path.fails {state last : State} {ts : List Token} {slash : Int} {slashes : List Int}
    (h : Path state ts (slash :: slashes) last) (place : Int) :
    Fails state place (ts.map .ok) (.divisionByZero slash) := by
  generalize hPlaces : slash :: slashes = places at h
  induction h with
  | nil => cases hPlaces
  | @cons _ _ _ t ts zeroBehind? _ hGoes _ ih =>
    cases zeroBehind? with
    | none => exact (ih hPlaces).cons hGoes
    | some zero =>
      cases hPlaces
      refine .division [] (.nil _) hGoes fun fault hFault => ?_
      cases ts <;> cases hFault

theorem fails_of_goes_zero {state next : State} {t : Token} {slash place : Int} {items : List Item}
    {fault : Fault} (hGoes : Goes state t next (some slash))
    (hSymbol : ∀ other, .error other ∈ items → ∃ symbol position,
      other = .unrecognizedSymbol symbol position)
    (h : run state (.ok t :: (items ++ [.ok (.ending place)])) = some fault) :
    Fails state place (.ok t :: items) fault := by
  rw [run, goes_iff.mp hGoes] at h
  rcases items with _ | ⟨other | u, items⟩
  · cases h
    exact .division [] (.nil state) hGoes (by simp)
  · obtain ⟨symbol, position, rfl⟩ := hSymbol other List.mem_cons_self
    cases h
    exact .symbolBehind [] (.nil state) hGoes
  · cases h
    exact .division [] (.nil state) hGoes (by simp)

theorem fails_of_run {state : State} {items : List Item} {place : Int} {fault : Fault}
    (hSymbol : ∀ other, .error other ∈ items → ∃ symbol position,
      other = .unrecognizedSymbol symbol position)
    (h : run state (items ++ [.ok (.ending place)]) = some fault) : Fails state place items fault := by
  induction items generalizing state with
  | nil =>
    cases hMove : state.move (.ending place) with
    | accept =>
      rw [List.nil_append, run, hMove] at h
      cases h
    | refuse expected =>
      rw [List.nil_append, run, hMove] at h
      cases h
      exact .ending [] (.nil state) (refuses_iff.mpr hMove)
    | go next zeroBehind? => cases goes_iff.mpr hMove <;> contradiction
  | cons item items ih =>
    have hRest := fun other hMem => hSymbol other (List.mem_cons_of_mem item hMem)
    rw [List.cons_append] at h
    cases item with
    | error other =>
      obtain ⟨symbol, position, rfl⟩ := hSymbol other List.mem_cons_self
      cases h
      exact .symbol [] (.nil state)
    | ok t =>
      cases hMove : state.move t with
      | accept =>
        rw [run, hMove] at h
        cases h
      | refuse expected =>
        rw [run, hMove] at h
        cases h
        exact .token [] (.nil state) (refuses_iff.mpr hMove)
      | go next zeroBehind? =>
        have hGoes := goes_iff.mpr hMove
        cases zeroBehind? with
        | none =>
          rw [run_of_goes hGoes] at h
          exact (ih hRest h).cons hGoes
        | some slash => exact fails_of_goes_zero hGoes hRest h

theorem exists_path_of_run_none {state : State} {items : List Item} {place : Int}
    (hItems : ∀ item ∈ items, item.isEnding = false)
    (h : run state (items ++ [.ok (.ending place)]) = none) :
    ∃ ts, items = ts.map .ok ∧ Path state ts [] .afterFactor := by
  induction items generalizing state with
  | nil =>
    refine ⟨[], rfl, ?_⟩
    cases state with
    | needFactor | needNumber => cases h
    | afterFactor => exact .nil .afterFactor
  | cons item items ih =>
    obtain ⟨hItem, hRest⟩ := List.forall_mem_cons.mp hItems
    rw [List.cons_append] at h
    cases item with
    | error fault => cases h
    | ok t =>
      cases hMove : state.move t with
      | accept =>
        rw [Item.isEnding, (accepts_iff.mp hMove).2] at hItem
        cases hItem
      | refuse expected =>
        rw [run, hMove] at h
        cases h
      | go next zeroBehind? =>
        have hGoes := goes_iff.mpr hMove
        cases zeroBehind? with
        | none =>
          rw [run_of_goes hGoes] at h
          obtain ⟨ts, rfl, hPath⟩ := ih hRest h
          exact ⟨t :: ts, rfl, .cons hGoes hPath⟩
        | some place =>
          rw [run, hMove] at h
          rcases items with _ | ⟨_ | _, _⟩ <;> cases h

/-! ## Divisions by zero on paths -/

theorem Path.exists_of_append {state last : State} {us vs : List Token} {places : List Int}
    (h : Path state (us ++ vs) places last) : ∃ middle front back,
      Path state us front middle ∧ Path middle vs back last ∧ places = front ++ back := by
  induction us generalizing state places with
  | nil => exact ⟨state, [], places, .nil state, h, rfl⟩
  | cons t us ih =>
    cases h with
    | cons hGoes hRest =>
      obtain ⟨middle, front, back, hFront, hBack, rfl⟩ := ih hRest
      exact ⟨middle, _, back, .cons hGoes hFront, hBack, (List.append_assoc _ _ _).symm⟩

theorem Path.exists_of_concat {state last : State} {ts : List Token} {t : Token} {places : List Int}
    (h : Path state (ts ++ [t]) places last) : ∃ middle front zeroBehind?,
      Path state ts front middle ∧ Goes middle t last zeroBehind? := by
  obtain ⟨middle, front, _, hFront, hBack, -⟩ := h.exists_of_append
  cases hBack with
  | cons hGoes hRest =>
    cases hRest
    exact ⟨middle, front, _, hFront, hGoes⟩

theorem Path.concat {state middle last : State} {ts : List Token} {t : Token} {places : List Int}
    {zeroBehind? : Option Int} (h : Path state ts places middle)
    (hGoes : Goes middle t last zeroBehind?) :
    Path state (ts ++ [t]) (places ++ zeroBehind?.toList) last := by
  induction h with
  | nil => simpa using Path.cons hGoes (.nil last)
  | cons hFirst _ ih =>
    rw [List.append_assoc]
    exact .cons hFirst (ih hGoes)

theorem Path.append {state middle last : State} {us vs : List Token} {front back : List Int}
    (h : Path state us front middle) (hBack : Path middle vs back last) :
    Path state (us ++ vs) (front ++ back) last := by
  induction h with
  | nil => exact hBack
  | cons hGoes _ ih =>
    rw [List.append_assoc]
    exact .cons hGoes (ih hBack)

theorem Path.kind_ne_number {state last : State} {ts : List Token} {places : List Int}
    (h : Path state ts places last) (hLast : last ≠ .afterFactor) {t : Token}
    (ht : ts.getLast? = some t) : t.kind ≠ .number := by
  obtain ⟨us, rfl⟩ := List.getLast?_eq_some_iff.mp ht
  obtain ⟨middle, _, _, -, hGoes⟩ := h.exists_of_concat
  cases hGoes with
  | sign hLexeme =>
    rw [Token.kind, hLexeme]
    decide
  | number => exact absurd rfl hLast
  | operator hNumber => exact hNumber

theorem Goes.eq_slash {state : State} {t : Token} {place : Int} {zeroBehind? : Option Int}
    (h : Goes state t (.needFactor (some place)) zeroBehind?) :
    t.lexeme = .slash ∧ t.location = place := by
  generalize hNext : State.needFactor (some place) = next at h
  cases h with
  | sign | number => cases hNext
  | operator =>
    split at hNext
    · next hLexeme =>
      cases hNext
      exact ⟨hLexeme, rfl⟩
    · cases hNext

theorem Goes.eq_minus {state : State} {t : Token} {slash? zeroBehind? : Option Int}
    (h : Goes state t (.needNumber slash?) zeroBehind?) :
    t.lexeme = .minus ∧ state = .needFactor slash? := by
  cases h with
  | sign hLexeme => exact ⟨hLexeme, rfl⟩

theorem Goes.eq_zero {state next : State} {t : Token} {place : Int}
    (h : Goes state t next (some place)) : t.lexeme = .number 0 ∧
      (state = .needFactor (some place) ∨ state = .needNumber (some place)) := by
  generalize hPlace : some place = zeroBehind? at h
  cases h with
  | sign | operator => cases hPlace
  | number hState hLexeme =>
    split at hPlace
    · next hZero =>
      subst hZero hPlace
      exact ⟨hLexeme, hState⟩
    · cases hPlace

theorem Path.exists_slash {ts : List Token} {places : List Int} {place : Int}
    (h : Path (.needFactor none) ts places (.needFactor (some place))) : ∃ before slash,
      ts = before ++ [slash] ∧ slash.lexeme = .slash ∧ slash.location = place := by
  rcases List.eq_nil_or_concat' ts with rfl | ⟨before, slash, rfl⟩
  · cases h
  · obtain ⟨_, _, _, -, hGoes⟩ := h.exists_of_concat
    exact ⟨before, slash, rfl, hGoes.eq_slash⟩

/-- What completes a division by zero stands behind the slash and perhaps a minus. -/
theorem Path.dividesByZero {ts : List Token} {places : List Int} {last next : State} {t : Token}
    {place : Int} (h : Path (.needFactor none) ts places last) (hGoes : Goes last t next (some place)) :
    DividesByZero place (ts ++ [t]) := by
  obtain ⟨hZero, rfl | rfl⟩ := hGoes.eq_zero
  · obtain ⟨before, slash, rfl, hSlash, rfl⟩ := h.exists_slash
    rw [List.append_assoc]
    exact .intro hSlash (.inl (congrArg (· :: []) hZero))
  · rcases List.eq_nil_or_concat' ts with rfl | ⟨before, minus, rfl⟩
    · cases h
    · obtain ⟨_, _, _, hPath, hSign⟩ := h.exists_of_concat
      obtain ⟨hMinus, rfl⟩ := hSign.eq_minus
      obtain ⟨before, slash, rfl, hSlash, rfl⟩ := hPath.exists_slash
      have hDivisor : [minus, t].map Token.lexeme = [.minus, .number 0] := by
        rw [List.map_cons, List.map_singleton, hMinus, hZero]
      rw [List.append_assoc, List.append_assoc]
      exact .intro hSlash (.inr hDivisor)

theorem Goes.of_slash {state next : State} {t : Token} {zeroBehind? : Option Int}
    (h : Goes state t next zeroBehind?) (hSlash : t.lexeme = .slash) :
    next = .needFactor (some t.location) := by
  cases h with
  | sign hLexeme | number _ hLexeme => cases hSlash.symm.trans hLexeme
  | operator => rw [if_pos hSlash]

theorem Goes.of_minus {slash? zeroBehind? : Option Int} {next : State} {t : Token}
    (h : Goes (.needFactor slash?) t next zeroBehind?) (hMinus : t.lexeme = .minus) :
    next = .needNumber slash? := by
  cases h with
  | sign => rfl
  | number _ hLexeme => cases hMinus.symm.trans hLexeme

theorem Goes.of_zero {state next : State} {slash? zeroBehind? : Option Int} {t : Token}
    (hState : state = .needFactor slash? ∨ state = .needNumber slash?)
    (h : Goes state t next zeroBehind?) (hZero : t.lexeme = .number 0) : zeroBehind? = slash? := by
  cases h with
  | sign hLexeme => cases hZero.symm.trans hLexeme
  | number hOther hLexeme =>
    cases hZero.symm.trans hLexeme
    rcases hState with rfl | rfl <;> rcases hOther with hOther | hOther <;> cases hOther <;> rfl
  | operator => rcases hState with hState | hState <;> cases hState

theorem Path.mem_places {state last : State} {us vs : List Token} {places : List Int} {place : Int}
    (h : Path state (us ++ vs) places last) (hZero : DividesByZero place us) : place ∈ places := by
  obtain ⟨middle, front, back, hFront, -, rfl⟩ := h.exists_of_append
  apply List.mem_append_left
  obtain ⟨hSlash, hDivisor⟩ := hZero
  obtain ⟨_, _, back, -, hBack, rfl⟩ := hFront.exists_of_append
  apply List.mem_append_right
  cases hBack with
  | cons hGoes hRest =>
    obtain rfl := hGoes.of_slash hSlash
    apply List.mem_append_right
    rcases hDivisor with hDivisor | hDivisor
    · obtain ⟨zero, rfl, hLexeme⟩ := List.map_eq_singleton_iff.mp hDivisor
      cases hRest with
      | cons hGoes hRest =>
        obtain rfl := Goes.of_zero (.inl rfl) hGoes hLexeme
        exact List.mem_append_left _ List.mem_cons_self
    · obtain ⟨minus, tail, rfl, hMinus, hTail⟩ := List.map_eq_cons_iff.mp hDivisor
      obtain ⟨zero, rfl, hLexeme⟩ := List.map_eq_singleton_iff.mp hTail
      cases hRest with
      | cons hGoes hRest =>
        obtain rfl := hGoes.of_minus hMinus
        cases hRest with
        | cons hGoes hRest =>
          obtain rfl := Goes.of_zero (.inr rfl) hGoes hLexeme
          exact List.mem_append_right _ (List.mem_append_left _ List.mem_cons_self)

/-! ## Lines -/

theorem result_eq_error_iff_run {line : String} {items : List Item} {fault : Fault}
    (hReads : Reads 0 line.toList items) : (Reckoning.ofLine line).result = .error fault ↔
      run (.needFactor none) (items ++ [.ok (.ending line.length)]) = some fault := by
  rw [← run_untilFault, ← Outcome.verdict_none_eq_some_iff, ← run_ofLine hReads, verdict]

theorem result_eq_error_iff {line : String} {items : List Item} {fault : Fault}
    (hReads : Reads 0 line.toList items) : (Reckoning.ofLine line).result = .error fault ↔
      Fails (.needFactor none) line.length items fault := by
  rw [result_eq_error_iff_run hReads]
  exact ⟨fails_of_run fun _ hMem => hReads.eq_unrecognizedSymbol_of_mem hMem, run_of_fails⟩

theorem exists_result_eq_ok_iff {line : String} : (∃ q, (Reckoning.ofLine line).result = .ok q) ↔
    ∃ ts, Reads 0 line.toList (ts.map .ok) ∧ Path (.needFactor none) ts [] .afterFactor := by
  have hRun : ∀ {items}, Reads 0 line.toList items →
      ((∃ q, (Reckoning.ofLine line).result = .ok q) ↔
        run (.needFactor none) (items ++ [.ok (.ending line.length)]) = none) := by
    intro items hReads
    rw [← run_untilFault, ← Outcome.verdict_none_eq_none_iff, ← run_ofLine hReads, verdict]
  constructor
  · intro h
    obtain ⟨items, hReads⟩ := exists_reads 0 line.toList
    obtain ⟨ts, rfl, hPath⟩ := exists_path_of_run_none
      (fun _ hItem => hReads.isEnding_eq_false hItem) ((hRun hReads).mp h)
    exact ⟨ts, hReads, hPath⟩
  · rintro ⟨ts, hReads, hPath⟩
    rw [hRun hReads, run_of_path hPath]
    rfl

theorem exists_fails {line : String} {fault : Fault}
    (h : (Reckoning.ofLine line).result = .error fault) : ∃ items,
      Reads 0 line.toList items ∧ Fails (.needFactor none) line.length items fault := by
  obtain ⟨items, hReads⟩ := exists_reads 0 line.toList
  exact ⟨items, hReads, (result_eq_error_iff hReads).mp h⟩

end Automaton

end Reckoner
