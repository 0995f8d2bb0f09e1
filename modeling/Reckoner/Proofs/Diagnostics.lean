import Reckoner.Proofs.Divisors
import Reckoner.Proofs.Toolkit
import Reckoner.Proofs.Transcript

/-!
# Diagnostics

A line that is refused is shown without its control sequences, and below it, as it stands, the message
behind a caret. Messages quote what does not print, so that no line break and no ESC is left in them.
The caret stands below the character that the fault names, or one past the line if the line has ended
too early.
-/

set_option autoImplicit false

namespace Reckoner

open Reading

/-! ## Messages -/

namespace Text

theorem exists_digit_of_mem_toDigits {b n : Nat} (hb : 1 < b) {c : Char} (hc : c ∈ Nat.toDigits b n) :
    ∃ d < b, c = d.digitChar := by
  induction n using Nat.strongRecOn with
  | ind n ih =>
    rw [Nat.toDigits_eq_if hb] at hc
    split at hc
    · next hLess => exact ⟨n, hLess, List.mem_singleton.mp hc⟩
    · next hLess =>
      rcases List.mem_append.mp hc with hc | hc
      · exact ih (n / b) (Nat.div_lt_self (by omega) hb) hc
      · exact ⟨n % b, Nat.mod_lt n (by omega), List.mem_singleton.mp hc⟩

/-- A text of characters that print. -/
def Prints (s : List Char) : Prop := ∀ c ∈ s, isUnprintable c = false

instance (s : List Char) : Decidable (Prints s) :=
  List.decidableBAll (isUnprintable · = false) s

theorem prints_append {s t : List Char} (hs : Prints s) (ht : Prints t) : Prints (s ++ t) :=
  List.forall_mem_append.mpr ⟨hs, ht⟩

theorem prints_hexDigits (width n : Nat) : Prints (hexDigits width n) := by
  have hDigit : ∀ d < 16, isUnprintable (Nat.digitChar d) = false := by decide
  refine prints_append ?_ ?_
  · intro c hc
    rw [List.eq_of_mem_replicate hc]
    rfl
  · intro c hc
    obtain ⟨d, hLess, rfl⟩ := exists_digit_of_mem_toDigits (by decide) hc
    exact hDigit d hLess

theorem prints_escapeCode (n : Nat) : Prints (escapeCode n) := by
  have hMark (c : Char) (hc : isUnprintable c = false) (width : Nat) :
      Prints ('\\' :: c :: hexDigits width n) :=
    List.forall_mem_cons.mpr ⟨rfl, List.forall_mem_cons.mpr ⟨hc, prints_hexDigits width n⟩⟩
  rw [escapeCode]
  split
  · exact hMark 'x' rfl 2
  · split
    · exact hMark 'u' rfl 4
    · exact hMark 'U' rfl 8

theorem prints_escape {mark : Char} (hMark : isUnprintable mark = false) (c : Char) :
    Prints (escape mark c) := by
  have hPair {d : Char} (hd : isUnprintable d = false) : Prints ['\\', d] :=
    List.forall_mem_cons.mpr ⟨rfl, List.forall_mem_singleton.mpr hd⟩
  unfold escape
  split
  · next hQuoted => exact hPair (hQuoted.elim (fun h => h ▸ hMark) fun h => h ▸ rfl)
  · split
    · exact hPair rfl
    · split
      · exact hPair rfl
      · split
        · exact hPair rfl
        · split
          · exact prints_escapeCode c.toNat
          · next hPrints => exact List.forall_mem_singleton.mpr (Bool.eq_false_iff.mpr hPrints)

theorem prints_quote (s : String) : Prints (quote s).toList := by
  have hMark : isUnprintable (quoteMark s.toList) = false := by
    rw [quoteMark]
    split <;> rfl
  rw [toList_quote, quoteChars]
  refine prints_append (List.forall_mem_cons.mpr ⟨hMark, ?_⟩) (List.forall_mem_singleton.mpr hMark)
  intro c hc
  obtain ⟨d, -, hd⟩ := List.mem_flatMap.mp hc
  exact prints_escape hMark d c hd

end Text

theorem Kind.prints_name (k : Kind) : Text.Prints k.name.toList := by
  cases k <;> decide

/-- The messages for lines print, whatever the line holds. -/
theorem Fault.OfLine.prints_message {fault : Fault} (h : fault.OfLine) :
    Text.Prints fault.message.toList := by
  cases h with
  | unrecognizedSymbol symbol position =>
    have hText : (Fault.unrecognizedSymbol symbol position).message.toList =
        "unrecognized symbol ".toList ++ (Text.quote symbol).toList := by
      simp [Fault.message, String.join_cons, String.toList_append]
    rw [hText]
    exact Text.prints_append (by decide) (Text.prints_quote symbol)
  | unexpectedToken actual expected position =>
    have hText : (Fault.unexpectedToken actual expected position).message.toList =
        "expected ".toList ++ (expected.name.toList ++ (", got ".toList ++ actual.name.toList)) := by
      simp [Fault.message, String.join_cons, String.toList_append]
    rw [hText]
    exact Text.prints_append (by decide) (Text.prints_append expected.prints_name
      (Text.prints_append (by decide) actual.prints_name))
  | divisionByZero position => exact (by decide : Text.Prints "division by zero".toList)

/-! ## Places -/

theorem Reading.Reads.covered_ne_nil {place : Nat} {s : List Char} {items : List Item}
    (h : Reads place s items) {item : Item} (hItem : item ∈ items) : item.covered ≠ [] := by
  have hCharacter (c : Char) : c.toString.toList ≠ [] := by
    rw [Char.toString, String.toList_singleton]
    exact List.cons_ne_nil c []
  induction h with
  | nothing => cases hItem
  | blank _ ih => exact ih hItem
  | operator _ _ ih | symbol _ _ _ _ ih =>
    rcases List.mem_cons.mp hItem with rfl | hItem
    · exact hCharacter _
    · exact ih hItem
  | number hRun _ ih =>
    rcases List.mem_cons.mp hItem with rfl | hItem
    · rw [Item.covered, String.toList_ofList]
      exact hRun.nonempty
    · exact ih hItem

theorem getElem?_length_append (front : List Char) (c : Char) (back : List Char) :
    (front ++ c :: back)[front.length]? = some c := by
  rw [List.getElem?_append_right (Nat.le_refl _), Nat.sub_self]
  rfl

/-- At its place a line has the first character that an item covers. -/
theorem Reading.Reads.exists_head_of_mem {s : List Char} {items : List Item} (h : Reads 0 s items)
    {item : Item} (hItem : item ∈ items) : ∃ (place : Nat) (c : Char),
      item.place = place ∧ item.covered.head? = some c ∧ s[place]? = some c := by
  obtain ⟨front, back, rfl, hPlace⟩ := h.tiles.split hItem
  obtain ⟨c, more, hCovered⟩ := List.exists_cons_of_ne_nil (h.covered_ne_nil hItem)
  refine ⟨front.length, c, by simpa using hPlace, by rw [hCovered]; rfl, ?_⟩
  rw [hCovered, List.append_assoc]
  exact getElem?_length_append front c (more ++ back)

/-- At a place of its line stands what a fault names. -/
inductive Fault.PointsAt (s : List Char) (place : Nat) : Fault → Prop
  | unrecognizedSymbol {c : Char} (hChar : s[place]? = some c) :
      PointsAt s place (.unrecognizedSymbol c.toString place)
  | unexpectedToken {t : Token} {items : List Item} {c : Char} (expected : Kind)
      (hReads : Reads 0 s items) (hToken : .ok t ∈ items) (hEof : t.kind ≠ .eof)
      (hLocation : t.location = place) (hHead : t.text.toList.head? = some c)
      (hChar : s[place]? = some c) : PointsAt s place (.unexpectedToken t.kind expected place)
  | unexpectedEnd (expected : Kind) (hPlace : place = s.length) :
      PointsAt s place (.unexpectedToken .eof expected place)
  | divisionByZero (hChar : s[place]? = some '/') : PointsAt s place (.divisionByZero place)

namespace Fault.PointsAt

variable {s : List Char} {place : Nat} {fault : Fault}

theorem location_eq (h : PointsAt s place fault) : fault.location? = some (place : Int) := by
  cases h <;> rfl

theorem le_length (h : PointsAt s place fault) : place ≤ s.length := by
  have hLess {c : Char} (hChar : s[place]? = some c) : place ≤ s.length :=
    Nat.le_of_lt (List.getElem?_eq_some_iff.mp hChar).1
  cases h with
  | unrecognizedSymbol hChar | unexpectedToken _ _ _ _ _ _ hChar | divisionByZero hChar => exact hLess hChar
  | unexpectedEnd _ hPlace => exact Nat.le_of_eq hPlace

theorem ofLine (h : PointsAt s place fault) : fault.OfLine := by
  cases h with
  | unrecognizedSymbol => exact .unrecognizedSymbol _ _
  | unexpectedToken | unexpectedEnd => exact .unexpectedToken _ _ _
  | divisionByZero => exact .divisionByZero _

end Fault.PointsAt

theorem Reading.Leaves.pointsAt {s front : List Char} {c : Char} (h : Leaves s front c) :
    Fault.PointsAt s front.length (.unrecognizedSymbol c.toString front.length) := by
  obtain ⟨back, rfl⟩ := h.isPrefix
  exact .unrecognizedSymbol (getElem?_length_append front c back)

theorem Reading.Reads.pointsAt_of_refused {s : List Char} {items : List Item} (h : Reads 0 s items)
    {t : Token} (hToken : .ok t ∈ items) (expected : Kind) :
    ∃ place, Fault.PointsAt s place (.unexpectedToken t.kind expected t.location) := by
  obtain ⟨place, c, hLocation, hHead, hChar⟩ := h.exists_head_of_mem hToken
  have hLocation : t.location = place := hLocation
  have hEof : t.kind ≠ .eof := fun hEof =>
    of_decide_eq_false (h.isEnding_eq_false hToken) (Lexeme.kind_eq_eof_iff.mp hEof)
  rw [hLocation]
  exact ⟨place, .unexpectedToken expected h hToken hEof hLocation hHead hChar⟩

theorem Reading.ZeroDivisor.exists_pointsAt {place : Int} {s after : List Char}
    (h : ZeroDivisor place s after) : ∃ n, Fault.PointsAt s n (.divisionByZero place) := by
  obtain @⟨before, gap, zeros, _, -, -, -⟩ := h
  exact ⟨before.length, .divisionByZero (getElem?_length_append before '/' _)⟩

theorem Feed.exists_pointsAt {line : String} {fault : Fault} (h : (tokens line).result = .error fault) :
    ∃ place, fault.PointsAt line.toList place := by
  obtain ⟨front, c, hLeaves, rfl⟩ := result_tokens_eq_error_iff.mp h
  exact ⟨front.length, hLeaves.pointsAt⟩

theorem Reckoning.exists_pointsAt {line : String} {fault : Fault}
    (h : (ofLine line).result = .error fault) : ∃ place, fault.PointsAt line.toList place := by
  obtain ⟨items, hReads, hFails⟩ := Automaton.exists_fails h
  cases hFails with
  | symbol ts =>
    obtain ⟨front, c, hLeaves, hFault, -⟩ := hReads.exists_leaves
    exact ⟨front.length, hFault ▸ hLeaves.pointsAt⟩
  | symbolBehind ts =>
    rw [tokens_append_cons] at hReads
    obtain ⟨front, c, hLeaves, hFault, -⟩ := hReads.exists_leaves
    exact ⟨front.length, hFault ▸ hLeaves.pointsAt⟩
  | token ts => exact hReads.pointsAt_of_refused (List.mem_append_right _ List.mem_cons_self) _
  | ending ts => exact ⟨line.length, .unexpectedEnd _ String.length_toList.symm⟩
  | division =>
    obtain ⟨after, hZero⟩ := exists_zeroDivisor_of_result h
    exact hZero.exists_pointsAt

/-! ## What is shown of a fault -/

namespace Text

theorem Prints.newline_notMem {s : List Char} (h : Prints s) : '\n' ∉ s := by
  intro hMem
  exact absurd (h '\n' hMem) (by decide)

theorem Prints.escape_notMem {s : List Char} (h : Prints s) : '\x1b' ∉ s := by
  intro hMem
  exact absurd (h '\x1b' hMem) (by decide)

end Text

/-- What stands below a line that is refused. -/
def caretLine (place : Nat) (message : String) : List Char :=
  List.replicate place ' ' ++ '^' :: ' ' :: (message.toList ++ ['\n'])

theorem Fault.toList_describe {fault : Fault} {place : Nat} (h : fault.location? = some (place : Int))
    (line : String) :
    (fault.describe line).toList = line.toList ++ '\n' :: caretLine place fault.message := by
  rw [Fault.describe, h]
  simp [caretMessage, caretLine, String.join_cons, String.toList_append]

theorem escape_notMem_caretLine (place : Nat) {message : String} (h : '\x1b' ∉ message.toList) :
    '\x1b' ∉ caretLine place message := by
  simp [caretLine, h]

theorem count_newline_caretLine (place : Nat) {message : String} (h : '\n' ∉ message.toList) :
    (caretLine place message).count '\n' = 1 := by
  simp [caretLine, List.count_eq_zero_of_not_mem h, List.count_replicate]

namespace Console

theorem strips_describe {place : Nat} {fault : Fault} (hPlace : fault.location? = some (place : Int))
    (hMessage : '\x1b' ∉ fault.message.toList) {line : String} {stripped : List Char}
    (hLine : Text.Strips line.toList stripped) : Text.Strips (fault.describe line).toList
      (stripped ++ '\n' :: caretLine place fault.message) := by
  rw [Fault.toList_describe hPlace]
  -- No sequence begins in the line and ends behind it.
  exact hLine.append_newline (Text.strips_of_escape_notMem (escape_notMem_caretLine place hMessage))

theorem toList_stderr_of_fault {showTokens : Bool} {line : String} {fault : Fault} {place : Nat}
    (h : (answer showTokens line).1 = .error fault) (hPlace : fault.location? = some (place : Int))
    (hMessage : '\x1b' ∉ fault.message.toList) (prompt? environment : Option String) (input : String) :
    (run { expression? := some line, prompt? := prompt?, showTokens := showTokens }
        environment input).stderr.toList =
      Text.withoutSequences line.toList ++ '\n' :: caretLine place fault.message := by
  have hShown : shownAnswer showTokens line = report line fault := by rw [shownAnswer, h]
  have hPlain : Write.plain (red (fault.describe line)) = Write.plain (fault.describe line) :=
    Toolkit.lawful_console.plain_red _
  rw [run_expression, hShown, Run.stderr, List.map_singleton, String.join_cons, String.join_nil,
    String.append_empty, report, Write.onErr, hPlain, Write.plain, String.toList_ofList]
  exact (strips_describe hPlace hMessage (Text.strips_withoutSequences _)).eq_withoutSequences.symm

theorem exists_pointsAt_of_answer {showTokens : Bool} {line : String} {fault : Fault}
    (h : (answer showTokens line).1 = .error fault) : ∃ place, fault.PointsAt line.toList place := by
  cases showTokens with
  | true => exact Feed.exists_pointsAt (answer_true_eq_error_iff.mp h)
  | false => exact Reckoning.exists_pointsAt (answer_false_eq_error_iff.mp h)

/-- Of a line that is refused all is shown that is in no control sequence, and below it the message
behind a caret, with nothing left of the colour. The caret stands below what the fault names. -/
theorem stderr_of_fault {showTokens : Bool} {line : String} {fault : Fault}
    (hLine : '\n' ∉ line.toList) (h : (answer showTokens line).1 = .error fault) :
    ∃ (place : Nat) (stripped shown : List Char),
      fault.location? = some (place : Int) ∧ place ≤ line.length ∧ fault.PointsAt line.toList place ∧
      (∀ others, Text.Strips line.toList others ↔ others = stripped) ∧
      '\n' ∉ fault.message.toList ∧ '\x1b' ∉ fault.message.toList ∧
      shown = stripped ++ '\n' :: (List.replicate place ' ' ++
        '^' :: ' ' :: (fault.message.toList ++ ['\n'])) ∧
      shown.count '\n' = 2 ∧
      ∀ (prompt? environment : Option String) (input : String),
        (run { expression? := some line, prompt? := prompt?, showTokens := showTokens }
          environment input).stderr.toList = shown := by
  obtain ⟨place, hPoints⟩ := exists_pointsAt_of_answer h
  have hPlace := hPoints.location_eq
  have hPrints := hPoints.ofLine.prints_message
  refine ⟨place, Text.withoutSequences line.toList, _, hPlace, ?_, hPoints, fun _ => Text.strips_iff,
    hPrints.newline_notMem, hPrints.escape_notMem, rfl, ?_, ?_⟩
  · rw [← String.length_toList]
    exact hPoints.le_length
  · have hStripped : '\n' ∉ Text.withoutSequences line.toList := fun hMem =>
      hLine ((Text.strips_withoutSequences line.toList).sublist.subset hMem)
    have hCaret := count_newline_caretLine place hPrints.newline_notMem
    rw [caretLine] at hCaret
    rw [List.count_append, List.count_eq_zero_of_not_mem hStripped, List.count_cons_self, hCaret]
  · exact toList_stderr_of_fault h hPlace hPrints.escape_notMem

/-- What has begun like a control sequence and is none stays, also beside the codes of the colour. -/
theorem stderr_of_fault_in_sequences : '\n' ∉ "\x1b[1m7\x1b[".toList ∧
    (answer false "\x1b[1m7\x1b[").1 = .error (.unrecognizedSymbol "\x1b" 0) ∧
    (single false "\x1b[1m7\x1b[").stderr.toList =
      "7\x1b[\n^ unrecognized symbol '\\x1b'\n".toList := by
  have hLine : '\n' ∉ "\x1b[1m7\x1b[".toList := by decide
  have hFault : (answer false "\x1b[1m7\x1b[").1 = .error (.unrecognizedSymbol "\x1b" 0) :=
    answer_false_eq_error_iff.mpr rfl
  refine ⟨hLine, hFault, ?_⟩
  obtain ⟨place, stripped, shown, hPlace, -, -, hStripped, -, -, rfl, -, hShown⟩ :=
    stderr_of_fault hLine hFault
  obtain rfl : 0 = place := Int.ofNat_inj.mp (Option.some.inj hPlace)
  have hBold : Text.IsSequence ['\x1b', '[', '1', 'm'] := @Text.isSequence_style ['1'] (by simp)
  have hLeft : Text.withoutSequences "\x1b[1m7\x1b[".toList = ['7', '\x1b', '['] := by
    have hRest := Text.withoutSequences_append hBold ['7', '\x1b', '[']
    rw [Text.withoutSequences_cons rfl, Text.withoutSequences_cons rfl, Text.withoutSequences_cons rfl,
      Text.withoutSequences_nil] at hRest
    exact hRest
  obtain rfl := (hStripped _).mp (Text.strips_iff.mpr hLeft.symm)
  exact hShown none none ""

end Console

end Reckoner
