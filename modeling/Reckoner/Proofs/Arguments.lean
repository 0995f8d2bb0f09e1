import Reckoner.Proofs.Decimals
import Reckoner.Proofs.Endings

/-!
# Tokens from arguments

A token is built from just those arguments that describe one: a kind, and a value that the kind takes.
All others are refused, the kind before the value, with a fault that quotes what is refused, or if that
cannot be written with the cause of that. Every token that the readers of a line show comes of arguments
of the former sort: its kind, its value, and the stretch of the line that it takes up.
-/

set_option autoImplicit false

namespace Reckoner

/-- The values that a kind takes: for a number an integer that is not negative, otherwise nothing. -/
def Kind.Takes (k : Kind) (value : Datum) : Prop :=
  k = .number ∧ (∃ v : Int, 0 ≤ v ∧ value = .int v) ∨ k ≠ .number ∧ value = .nothing

/-- One is the code of numbers. -/
theorem Kind.takes_iff {k : Kind} {value : Datum} : k.Takes value ↔
    k.code = 1 ∧ (∃ v : Int, 0 ≤ v ∧ value = .int v) ∨ k.code ≠ 1 ∧ value = .nothing := by
  have hCode : k.code = 1 ↔ k = .number := Kind.code_injective.eq_iff' rfl
  rw [Takes, Ne, Ne, hCode]

namespace Lexeme

variable {k : Kind} {value : Datum}

theorem exists_of_takes (h : k.Takes value) (allowance : Allowance) : ∃ l : Lexeme,
    l.kind = k ∧ (l.value?.elim .nothing fun n => .int n) = value ∧ build k value allowance = .ok l := by
  rcases h with ⟨rfl, v, hv, rfl⟩ | ⟨hKind, rfl⟩
  · obtain ⟨n, rfl⟩ := Int.eq_ofNat_of_zero_le hv
    exact ⟨.number n, rfl, rfl, rfl⟩
  · cases k with
    | number => exact absurd rfl hKind
    | plus | minus | star | slash | eof => exact ⟨_, rfl, rfl, rfl⟩

theorem build_of_not_takes (h : ¬ k.Takes value) (allowance : Allowance) :
    build k value allowance = .error (.ofValue k value allowance) := by
  cases k with
  | number =>
    cases value with
    | int v =>
      cases v with
      | ofNat n => exact absurd (.inl ⟨rfl, n, Int.natCast_nonneg n, rfl⟩) h
      | negSucc n => rfl
    | nothing | truth | decimal | text | kind | list => rfl
  | plus | minus | star | slash | eof =>
    cases value with
    | nothing => exact absurd (.inr ⟨by decide, rfl⟩) h
    | int | truth | decimal | text | kind | list => rfl

end Lexeme

namespace Token

variable {kind value : Datum} {location : Int} {text : String} {allowance : Allowance}

theorem build_of_kind {k : Kind} (h : kind.Equals k.code) : build kind value location text allowance =
    (Lexeme.build k value allowance).map fun lexeme => ⟨lexeme, location, text⟩ := by
  rw [build, Datum.kind?_eq_some_iff.mpr h]

theorem build_of_no_kind (h : ∀ k : Kind, ¬ kind.Equals k.code) :
    build kind value location text allowance = .error (.ofKind kind none allowance) := by
  have hNone : kind.kind? = none :=
    Option.eq_none_iff_forall_ne_some.mpr fun k hk => h k (Datum.kind?_eq_some_iff.mp hk)
  rw [build, hNone]

theorem build_of_not_takes {k : Kind} (h : kind.Equals k.code) (hTakes : ¬ k.Takes value) :
    build kind value location text allowance = .error (.ofValue k value allowance) := by
  rw [build_of_kind h, Lexeme.build_of_not_takes hTakes]
  rfl

/-- Arguments have no kind, or a kind that does not take the value, or they are those of a token. -/
theorem build_cases (kind value : Datum) (location : Int) (text : String) (allowance : Allowance) :
    (∀ k : Kind, ¬ kind.Equals k.code) ∧
      build kind value location text allowance = .error (.ofKind kind none allowance) ∨
    (∃ k : Kind, kind.Equals k.code ∧ ¬ k.Takes value ∧
      build kind value location text allowance = .error (.ofValue k value allowance)) ∨
    ∃ t : Token, kind.Equals t.kind.code ∧ t.kind.Takes value ∧ t.datum = value ∧
      t.location = location ∧ t.text = text ∧ build kind value location text allowance = .ok t := by
  by_cases hKind : ∃ k : Kind, kind.Equals k.code
  · obtain ⟨k, hKind⟩ := hKind
    by_cases hTakes : k.Takes value
    · obtain ⟨l, rfl, hValue, hBuild⟩ := Lexeme.exists_of_takes hTakes allowance
      refine .inr (.inr ⟨⟨l, location, text⟩, hKind, hTakes, hValue, rfl, rfl, ?_⟩)
      rw [build_of_kind hKind, hBuild]
      rfl
    · exact .inr (.inl ⟨k, hKind, hTakes, build_of_not_takes hKind hTakes⟩)
  · exact .inl ⟨not_exists.mp hKind, build_of_no_kind (not_exists.mp hKind)⟩

theorem build_eq_ok_iff {t : Token} : build kind value location text allowance = .ok t ↔
    kind.Equals t.kind.code ∧ t.datum = value ∧ t.location = location ∧ t.text = text := by
  constructor
  · intro h
    rcases build_cases kind value location text allowance with ⟨-, hBuild⟩ | ⟨k, -, -, hBuild⟩ |
        ⟨u, hKind, -, hValue, hPlace, hText, hBuild⟩
    · cases h.symm.trans hBuild
    · cases h.symm.trans hBuild
    · obtain rfl : t = u := Except.ok.inj (h.symm.trans hBuild)
      exact ⟨hKind, hValue, hPlace, hText⟩
  · rintro ⟨hKind, rfl, rfl, rfl⟩
    have hSelf : (Datum.kind t.kind).Equals t.kind.code := rfl
    rw [build_of_kind hKind, ← build_of_kind hSelf, build_eq_self]

theorem exists_build_iff : (∃ t, build kind value location text allowance = .ok t) ↔
    ∃ k : Kind, kind.Equals k.code ∧ k.Takes value := by
  constructor
  · rintro ⟨t, h⟩
    rcases build_cases kind value location text allowance with ⟨-, hBuild⟩ | ⟨k, -, -, hBuild⟩ |
        ⟨u, hKind, hTakes, -, -, -, -⟩
    · cases h.symm.trans hBuild
    · cases h.symm.trans hBuild
    · exact ⟨u.kind, hKind, hTakes⟩
  · rintro ⟨k, hKind, hTakes⟩
    obtain ⟨l, -, -, hBuild⟩ := Lexeme.exists_of_takes hTakes allowance
    rw [build_of_kind hKind, hBuild]
    exact ⟨_, rfl⟩

/-- Every token has a value that its kind takes. -/
theorem takes_datum (t : Token) : t.kind.Takes t.datum := by
  obtain ⟨k, hKind, hTakes⟩ := exists_build_iff.mp ⟨t, t.build_eq_self .unlimited⟩
  obtain rfl : t.kind = k := Kind.code_injective (Nat.cast_injective hKind)
  exact hTakes

/-- A token is what comes of building it from the stretch of the line that it takes up. -/
def StandsIn (line : String) (t : Token) : Prop :=
  ofSpan (.kind t.kind) t.location (t.location + t.text.length) line t.datum = .ok t

theorem standsIn_of_slice {line : String} {t : Token}
    (h : Text.slice t.location (t.location + t.text.length) line.toList = t.text.toList) :
    t.StandsIn line := by
  rw [StandsIn, ofSpan, h, String.ofList_toList, build_eq_self]

/-- An end takes up no characters, wherever it stands. -/
theorem standsIn_ending (line : String) (place : Int) : (ending place).StandsIn line := by
  apply standsIn_of_slice
  simp [ending, Text.slice]

theorem standsIn_of_append {line : String} {before middle after : List Char}
    (hLine : before ++ middle ++ after = line.toList) {t : Token} (hPlace : t.location = before.length)
    (hText : t.text.toList = middle) : t.StandsIn line := by
  subst hText
  apply standsIn_of_slice
  rw [← hLine, hPlace, ← String.length_toList]
  exact Reading.slice_append before t.text.toList after

end Token

/-! ## Readers -/

namespace Cursor

variable {cur : Cursor} {line : String} {t : Token}

theorem standsIn_readNumber {allowance : Allowance} (hLine : cur.line = line.toList)
    (h : (cur.readNumber allowance).result = .ok t) : t.StandsIn line := by
  cases cur with
  | before | past => cases h
  | on passed c rest =>
    have hBuild : Token.build (.kind .number)
        (.int (numeralValue (digitValue c) (rest.takeWhile Char.isDigit))) passed.length
        (String.ofList (c :: rest.takeWhile Char.isDigit)) allowance = .ok t := h
    obtain ⟨-, -, hPlace, hText⟩ := Token.build_eq_ok_iff.mp hBuild
    have hSplit : passed.reverse ++ (c :: rest.takeWhile Char.isDigit) ++ rest.dropWhile Char.isDigit =
        line.toList := by
      rw [← hLine]
      simp [List.takeWhile_append_dropWhile]
    refine Token.standsIn_of_append hSplit ?_ ?_
    · rw [hPlace, List.length_reverse]
    · rw [hText, String.toList_ofList]

theorem standsIn_scan (hLine : cur.line = line.toList) (h : cur.scan.result = .ok t) :
    t.StandsIn line := by
  cases cur with
  | before | past =>
    cases h
    exact Token.standsIn_ending line _
  | on passed c rest =>
    have hSplit : passed.reverse ++ [c] ++ rest = line.toList := by
      rw [← hLine]
      simp
    cases hClass : CharClass.ofChar c with
    | plus | minus | star | slash =>
      rw [scan, hClass] at h
      cases h
      exact Token.standsIn_of_append hSplit (by simp) (by simp)
    | digit =>
      rw [scan, hClass] at h
      exact standsIn_readNumber hLine h
    | blank | ending | unrecognized =>
      rw [scan, hClass] at h
      cases h

theorem standsIn_nextToken (hLine : cur.line = line.toList) (h : cur.nextToken.result = .ok t) :
    t.StandsIn line := by
  apply standsIn_scan ?_ h
  rw [line_skipBlanks, line_advance, hLine]

end Cursor

theorem Feed.standsIn_pulls {feed : Feed} {line : String} {t : Token}
    (hLine : feed.cursor.line = line.toList) {n : Nat} (h : .ok t ∈ (feed.pulls n).pulled) :
    .ok t ∈ feed.pulled ∨ t.StandsIn line := by
  induction n generalizing feed with
  | zero => exact .inl h
  | succ n ih =>
    have hNext : feed.pull.left.cursor.line = line.toList := by
      rw [cursor_left_pull, Cursor.line_nextToken, hLine]
    rcases ih hNext h with hPulled | hStands
    · rcases List.mem_cons.mp hPulled with hItem | hPulled
      · exact .inr (Cursor.standsIn_nextToken hLine hItem.symm)
      · exact .inl hPulled
    · exact .inr hStands

theorem Feed.standsIn_tokens {line : String} {ts : List Token} (h : (tokens line).result = .ok ts)
    {t : Token} (ht : t ∈ ts) : t.StandsIn line := by
  obtain ⟨us, hReads, rfl⟩ := result_tokens_eq_ok_iff.mp h
  rcases List.mem_append.mp ht with hMem | hMem
  · exact Token.standsIn_of_slice (hReads.tiles.slice_eq (List.mem_map_of_mem hMem))
  · rw [List.mem_singleton.mp hMem]
    exact Token.standsIn_ending line _

theorem Reckoning.lookahead_mem_shift (state : Reckoning)
    (h : .ok state.lookahead ∈ state.feed.pulled) :
    .ok state.shift.left.lookahead ∈ state.shift.left.feed.pulled := by
  rcases hShift : state.shift with ⟨fault | u, next⟩
  · obtain ⟨hLookahead, hPull⟩ := lookahead_of_shift_error hShift
    have hPulled := Feed.pulled_left_pull state.feed
    rw [hPull] at hPulled
    rw [hLookahead, hPulled]
    exact List.mem_cons_of_mem _ h
  · have hPulled := Feed.pulled_left_pull state.feed
    rw [pull_of_shift hShift] at hPulled
    rw [hPulled]
    exact List.mem_cons_self

/-! ## Sessions -/

/-- The tokens that an answer shows. -/
def Answer.shown : Answer → List Token
  | .token t => [t]
  | .tokens ts => ts
  | _ => []

namespace Session

theorem eq_ok_of_mem_shown {item : Item} {t : Token} (h : t ∈ (answerItem item).shown) :
    item = .ok t := by
  cases item with
  | ok u => rw [List.mem_singleton.mp h]
  | error fault => cases h

theorem shown_reckon {α : Type} (operation : Reckoning → Outcome Reckoning α) {answer : α → Answer}
    (h : ∀ a, (answer a).shown = []) (session : Session) :
    (session.reckon operation answer).1.shown = [] := by
  rw [reckon]
  cases session.lookahead with
  | none => rfl
  | some t =>
    dsimp only
    rcases operation ⟨session.feed, t⟩ with ⟨fault | a, left⟩
    · rfl
    · exact h a

/-- What a reader shows it has pulled. -/
theorem mem_pulled_of_mem_shown {session : Session} {s : Step} (hReader : s.worksOnCursor = false)
    {t : Token} (h : t ∈ (session.step s).1.shown) : .ok t ∈ (session.step s).2.feed.pulled := by
  obtain ⟨items, hPulled, hTakes⟩ := session.takes_step s
  suffices hItems : .ok t ∈ items by
    rw [← List.mem_reverse, hPulled]
    exact List.mem_append_right _ hItems
  cases s with
  | advance | skipBlanks | scan | readNumber => cases hReader
  | peek | newIterator => cases h
  | nextToken =>
    obtain ⟨item, rfl, hAnswer⟩ := hTakes
    rw [hAnswer] at h
    exact List.mem_singleton.mpr (eq_ok_of_mem_shown h).symm
  | next age =>
    rw [Takes] at hTakes
    split at hTakes
    · obtain ⟨item, rfl, hAnswer, -⟩ := hTakes
      rw [hAnswer] at h
      split at h
      · cases h
      · exact List.mem_singleton.mpr (eq_ok_of_mem_shown h).symm
    · rw [hTakes.2] at h
      cases h
  | list =>
    obtain ⟨ts, last, rfl, -, ⟨-, hAnswer⟩ | ⟨fault, -, hAnswer⟩⟩ := hTakes
    · rw [hAnswer] at h
      exact List.mem_append_left _ (List.mem_map_of_mem h)
    · rw [hAnswer] at h
      cases h
  | newReckoning =>
    obtain ⟨item, rfl, hAnswer, -⟩ := hTakes
    rw [hAnswer] at h
    cases item <;> cases h
  | expect | factor | term | expression | evaluate =>
    rw [step, shown_reckon _ (fun _ => rfl)] at h
    cases h

/-- Everything that was pulled stands in the line, and the lookahead was pulled. -/
structure Sound (line : String) (session : Session) : Prop where
  line_eq : session.feed.cursor.line = line.toList
  pulled : ∀ t, .ok t ∈ session.feed.pulled → t.StandsIn line
  lookahead : ∀ t ∈ session.lookahead, .ok t ∈ session.feed.pulled

variable {line : String} {session : Session}

theorem mem_pulled_step {item : Item} (h : item ∈ session.feed.pulled) (s : Step) :
    item ∈ (session.step s).2.feed.pulled := by
  obtain ⟨items, hPulled, -⟩ := session.takes_step s
  rw [← List.mem_reverse, hPulled]
  exact List.mem_append_left _ (List.mem_reverse.mpr h)

theorem Sound.pulled_step (h : Sound line session) (s : Step) {t : Token}
    (ht : .ok t ∈ (session.step s).2.feed.pulled) : t.StandsIn line := by
  cases hReader : s.worksOnCursor with
  | false =>
    obtain ⟨n, -, hFeed⟩ := session.reaches_step hReader
    rw [hFeed] at ht
    exact (Feed.standsIn_pulls h.line_eq ht).elim (h.pulled t) id
  | true =>
    cases s with
    | advance | skipBlanks | scan | readNumber => exact h.pulled t ht
    | _ => cases hReader

theorem Sound.lookahead_step (h : Sound line session) (s : Step) {t : Token}
    (ht : t ∈ (session.step s).2.lookahead) : .ok t ∈ (session.step s).2.feed.pulled := by
  cases hReckons : s.reckons with
  | true =>
    cases hLookahead : session.lookahead with
    | none =>
      rw [step_of_none hReckons hLookahead, hLookahead] at ht
      cases ht
    | some u =>
      obtain ⟨v, hNext, hPulled⟩ := kept_step Reckoning.lookahead_mem_shift hReckons hLookahead
        (h.lookahead u hLookahead)
      rw [hNext] at ht
      exact Option.some.inj ht ▸ hPulled
  | false =>
    by_cases hNew : s = .newReckoning
    · subst hNew
      obtain ⟨items, hPulled, item, rfl, -, hItem⟩ := session.takes_step .newReckoning
      rw [hItem] at ht
      cases item with
      | ok u =>
        obtain rfl : u = t := Option.some.inj ht
        rw [← List.mem_reverse, hPulled]
        exact List.mem_append_right _ List.mem_cons_self
      | error fault => cases ht
    · rw [Session.lookahead_step hReckons hNew] at ht
      exact mem_pulled_step (h.lookahead t ht) s

theorem Sound.step (h : Sound line session) (s : Step) : Sound line (session.step s).2 where
  line_eq := (session.leads_step s).line_eq.trans h.line_eq
  pulled _ ht := h.pulled_step s ht
  lookahead _ ht := h.lookahead_step s ht

theorem sound_after (line : String) (steps : List Step) : Sound line ((ofLine line).after steps) :=
  after_induction ⟨rfl, (fun _ h => nomatch h), (fun _ h => nomatch h)⟩ fun s _ _ h => h.step s

theorem Sound.standsIn_shown (h : Sound line session) {s : Step} {allowance : Allowance} {t : Token}
    (ht : t ∈ (session.step s allowance).1.shown) : t.StandsIn line := by
  by_cases hNumber : s = .readNumber
  · subst hNumber
    exact Cursor.standsIn_readNumber h.line_eq (eq_ok_of_mem_shown ht)
  · rw [step_of_ne_readNumber hNumber] at ht
    cases hReader : s.worksOnCursor with
    | false => exact h.pulled_step s (mem_pulled_of_mem_shown hReader ht)
    | true =>
      cases s with
      | advance | skipBlanks => cases ht
      | scan => exact Cursor.standsIn_scan h.line_eq (eq_ok_of_mem_shown ht)
      | readNumber => exact absurd rfl hNumber
      | _ => cases hReader

theorem isSome_of_matched {kind : Kind} {value? : Option Nat}
    (h : (session.step (.expect kind)).1 = .matched value?) :
    value?.isSome = true ↔ kind = .number := by
  obtain ⟨items, -, hTakes⟩ := session.takes_step (.expect kind)
  rw [h, Takes] at hTakes
  split at hTakes
  · cases hTakes.2
  · next t _ =>
    split at hTakes
    · next hKind =>
      obtain ⟨item, -, hAnswer⟩ := hTakes
      cases item with
      | ok u =>
        cases hAnswer
        rw [← hKind]
        exact t.lexeme.isSome_value?_iff
      | error fault => cases hAnswer
    · cases hTakes.2

end Session

/-- Arguments build a token just if the kind equals one of the codes from one to six as a number and the
value is an integer that is not negative, for the code one, or nothing, for the others. The token has the
kind of that code and is otherwise as given, and its own fields build it again. All other arguments are
refused, for the kind as given if it is none, or else for the value. The fault quotes a kind that is none,
and a value that numbers do not take; if that cannot be written, for the digits of an integer in it or for
its depth, the cause of that is met instead. Without limits everything can be written. Whatever a session
on a line shows, pulls or holds as its lookahead, and every token of the whole line, would be built from
its own stretch of the line; it has a value just if it is a number. -/
theorem tokens_of_arguments_and_steps (allowance : Allowance) :
    (∀ (kind value : Datum) (location : Int) (text : String),
      let built := Token.build kind value location text allowance
      ((∃ t, built = .ok t) ↔ ∃ n : Nat, 1 ≤ n ∧ n ≤ 6 ∧ kind.Equals n ∧
        (n = 1 ∧ (∃ v : Int, 0 ≤ v ∧ value = .int v) ∨ n ≠ 1 ∧ value = .nothing)) ∧
      (∀ t, built = .ok t → kind.Equals t.kind.code ∧ t.datum = value ∧ t.location = location ∧
        t.text = text ∧ Token.build (.kind t.kind) t.datum t.location t.text allowance = .ok t) ∧
      ((∀ k : Kind, ¬ kind.Equals k.code) →
        kind.Writable allowance ∧
          built = .error (.invalidKind kind ("unknown token type " ++ kind.written)) ∨
        ∃ cause, kind.Hinders allowance cause ∧ built = .error (.unwritable cause)) ∧
      ∀ k : Kind, kind.Equals k.code → ¬ k.Takes value →
        (k = .number → value.Writable allowance) ∧
          built = .error (.invalidKind (.kind k) (Fault.valueNote k value)) ∨
        k = .number ∧ ∃ cause, value.Hinders allowance cause ∧ built = .error (.unwritable cause)) ∧
    (∀ d : Datum, d.Writable .unlimited) ∧
    ∀ (line : String) (steps : List Step),
      let session := (Session.ofLine line).after steps
      (∀ s t, t ∈ (session.step s allowance).1.shown ∨ t ∈ session.lookahead ∨
          .ok t ∈ session.feed.pulled ∨ (∃ ts, (Feed.tokens line).result = .ok ts ∧ t ∈ ts) →
        (t.value?.isSome = true ↔ t.kind = .number) ∧ t.kind.Takes t.datum ∧ t.StandsIn line) ∧
      ∀ kind value?, (session.step (.expect kind)).1 = .matched value? →
        (value?.isSome = true ↔ kind = .number) := by
  refine ⟨?_, Datum.writable_unlimited, ?_⟩
  · intro kind value location text built
    refine ⟨?_, ?_, ?_, ?_⟩
    · rw [Token.exists_build_iff]
      constructor
      · rintro ⟨k, hKind, hTakes⟩
        obtain ⟨hLow, hHigh⟩ := Kind.exists_code_iff.mp ⟨k, rfl⟩
        exact ⟨k.code, hLow, hHigh, hKind, Kind.takes_iff.mp hTakes⟩
      · rintro ⟨n, hLow, hHigh, hKind, hTakes⟩
        obtain ⟨k, rfl⟩ := Kind.exists_code_iff.mpr ⟨hLow, hHigh⟩
        exact ⟨k, hKind, Kind.takes_iff.mpr hTakes⟩
    · intro t h
      obtain ⟨hKind, hValue, hPlace, hText⟩ := Token.build_eq_ok_iff.mp h
      exact ⟨hKind, hValue, hPlace, hText, t.build_eq_self allowance⟩
    · intro hKind
      have hBuilt : built = .error (.ofKind kind none allowance) := Token.build_of_no_kind hKind
      rw [hBuilt]
      rcases Fault.ofKind_cases kind allowance with ⟨hWritable, hFault⟩ | ⟨cause, hHinders, hFault⟩
      · exact .inl ⟨hWritable, congrArg Except.error hFault⟩
      · exact .inr ⟨cause, hHinders, congrArg Except.error hFault⟩
    · intro k hKind hTakes
      have hBuilt : built = .error (.ofValue k value allowance) := Token.build_of_not_takes hKind hTakes
      rw [hBuilt]
      rcases Fault.ofValue_cases k value allowance with
        ⟨hWritable, hFault⟩ | ⟨hNumber, cause, hHinders, hFault⟩
      · exact .inl ⟨hWritable, congrArg Except.error hFault⟩
      · exact .inr ⟨hNumber, cause, hHinders, congrArg Except.error hFault⟩
  · intro line steps session
    have hSound : Session.Sound line session := Session.sound_after line steps
    refine ⟨?_, fun kind value? => Session.isSome_of_matched⟩
    intro s t ht
    refine ⟨t.lexeme.isSome_value?_iff, t.takes_datum, ?_⟩
    rcases ht with hShown | hLookahead | hPulled | ⟨ts, hTokens, ht⟩
    · exact hSound.standsIn_shown hShown
    · exact hSound.pulled t (hSound.lookahead t hLookahead)
    · exact hSound.pulled t hPulled
    · exact Feed.standsIn_tokens hTokens ht

/-- A list of nothing, inside so many lists of one item. -/
def Datum.nested : Nat → Datum
  | 0 => .list []
  | n + 1 => .list [nested n]

theorem Datum.depth_nested (n : Nat) : (nested n).depth = n := by
  induction n with
  | zero => rfl
  | succ n ih =>
    have hDepth : (nested (n + 1)).depth = max ((nested n).depth + 1) 0 := rfl
    rw [hDepth, ih, Nat.max_zero]

theorem Datum.not_has_nested (n : Nat) (m : Int) : ¬ (nested n).Has m := by
  induction n with
  | zero =>
    rintro (_ | ⟨hItem, -⟩)
    exact absurd hItem List.not_mem_nil
  | succ n ih =>
    rintro (_ | ⟨hItem, h⟩)
    rw [List.mem_singleton.mp hItem] at h
    exact ih h

theorem Token.build_of_hinders {kind : Datum} {allowance : Allowance} {cause : Unwritable}
    (hKind : ∀ k : Kind, ¬ kind.Equals k.code) (h : kind.Hinders allowance cause)
    (hOnly : ∀ other, kind.Hinders allowance other → other = cause) (value : Datum) (location : Int)
    (text : String) : build kind value location text allowance = .error (.unwritable cause) := by
  rw [build_of_no_kind hKind]
  rcases Fault.ofKind_cases kind allowance with ⟨hWritable, -⟩ | ⟨other, hOther, hFault⟩
  · exact absurd h (hWritable cause)
  · rw [hFault, hOnly other hOther]

/-- An integer of too many digits is met in an argument that goes no deeper than is allowed. -/
theorem Token.build_of_has {kind : Datum} {allowance : Allowance} {limit : Nat} {n : Int}
    (hKind : ∀ k : Kind, ¬ kind.Equals k.code) (hHas : kind.Has n)
    (hLimit : allowance.digits? = some limit) (hLess : limit < Allowance.digitCount n)
    (hCalls : ∀ calls, allowance.calls? = some calls → kind.depth ≤ calls) (value : Datum)
    (location : Int) (text : String) :
    build kind value location text allowance = .error (.unwritable (.digits limit)) := by
  apply build_of_hinders hKind (.digits hLimit hHas hLess)
  intro _ hOther
  exact hOther.eq_digits hLimit hCalls

/-- No code is a power of ten. -/
theorem Datum.not_equals_pow {n : Nat} (h : 0 < n) (k : Kind) : ¬ (int (10 ^ n)).Equals k.code := by
  intro hEquals
  have hCode : (10 ^ n : Int) = k.code := Kind.ofCode?_eq_some_iff.mp (kind?_eq_some_iff.mpr hEquals)
  have hSmall : k.code ≤ 6 := (Kind.exists_code_iff.mp ⟨k, rfl⟩).2
  have hLarge : 10 ^ 1 ≤ 10 ^ n := Nat.pow_le_pow_right (by decide) h
  have hNat : 10 ^ n = k.code := by exact_mod_cast hCode
  omega

/-- A fresh runtime quotes neither an integer of so many digits nor a list inside so many lists. -/
theorem arguments_not_quoted :
    Token.build (.int (10 ^ 4300)) .nothing 0 "" .customary = .error (.unwritable (.digits 4300)) ∧
    Token.build (.list [.int (10 ^ 4300)]) .nothing 0 "" .customary =
      .error (.unwritable (.digits 4300)) ∧
    Token.build (.kind .number) (.int (-1 * 10 ^ 4300)) 0 "" .customary =
      .error (.unwritable (.digits 4300)) ∧
    Token.build (.nested 1001) .nothing 0 "" .customary = .error (.unwritable .depth) ∧
    ¬ ∃ argument note,
      Token.build (.int (10 ^ 4300)) .nothing 0 "" .customary = .error (.invalidKind argument note) := by
  have hLess (m : Int) (hm : m ≠ 0) : 4300 < Allowance.digitCount (m * 10 ^ 4300) :=
    Allowance.lt_digitCount_mul_pow (by decide) hm
  have hPower := hLess 1 (by decide)
  rw [Int.one_mul] at hPower
  have hInt : Token.build (.int (10 ^ 4300)) .nothing 0 "" .customary =
      .error (.unwritable (.digits 4300)) := by
    apply Token.build_of_has (Datum.not_equals_pow (by decide)) (.int _) rfl hPower
    exact fun _ _ => Nat.zero_le _
  refine ⟨hInt, ?_, ?_, ?_, ?_⟩
  · have hHas : (Datum.list [.int (10 ^ 4300)]).Has (10 ^ 4300) := .item List.mem_cons_self (.int _)
    have hKind (k : Kind) : ¬ (Datum.list [.int (10 ^ 4300)]).Equals k.code := fun h => h
    apply Token.build_of_has hKind hHas rfl hPower
    intro calls hCalls
    cases hCalls
    decide
  · have hNeg : (-1 : Int) * 10 ^ 4300 < 0 :=
      Int.mul_neg_of_neg_of_pos (by decide) (Int.pow_pos (by decide))
    rw [Token.build_number_of_neg hNeg]
    rcases Fault.ofValue_int_cases (-1 * 10 ^ 4300) .customary with ⟨hFits, -⟩ | ⟨limit, hLimit, -, hFault⟩
    · exact absurd (hFits 4300 rfl) (Nat.not_le.mpr (hLess (-1) (by decide)))
    · cases hLimit
      rw [hFault]
  · have hDepth : 1000 < (Datum.nested 1001).depth := by
      rw [Datum.depth_nested]
      decide
    have hKind (k : Kind) : ¬ (Datum.nested 1001).Equals k.code := fun h => h
    apply Token.build_of_hinders hKind (.depth rfl hDepth)
    exact fun _ hOther => hOther.eq_depth (Datum.not_has_nested 1001)
  · rintro ⟨argument, note, h⟩
    cases hInt.symm.trans h

/-- What is true equals the code of numbers, but it is no value of a number. -/
example : Token.build (.truth true) (.truth true) =
    .error (.invalidKind (.kind .number) "invalid number value True") := by rfl

end Reckoner
