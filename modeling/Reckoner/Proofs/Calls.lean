import Mathlib.Tactic.Ring
import Reckoner.Proofs.Reading

/-!
# Calls for the next token

What the calls on a cursor bring is what its line reads as, from the cursor on: the items in order,
whether or not some of them are faults, and then the end for ever.
-/

set_option autoImplicit false

namespace Reckoner

open Reading

namespace Item

def isEnding : Item → Bool
  | .ok t => t.lexeme = .eof
  | .error _ => false

end Item

namespace Cursor

/-- What the calls bring, by their number from 0 on; a call goes on from where a fault left off. -/
def call (cur : Cursor) : Nat → Item
  | 0 => cur.nextToken.result
  | n + 1 => cur.nextToken.left.call n

theorem nextToken_of_nil {cur : Cursor} (h : cur.unread = []) :
    cur.nextToken = ⟨.ok (.ending cur.consumed.length), .past cur.consumed⟩ := by
  rw [nextToken_eq_scan, h]
  rfl

theorem nextToken_of_blank {cur : Cursor} {rest : List Char} (h : cur.unread = ' ' :: rest) :
    cur.nextToken = (on cur.consumed ' ' rest).nextToken := by
  rw [nextToken_eq_scan, nextToken_eq_scan, h]
  rfl

theorem nextToken_of_ne_blank {cur : Cursor} {c : Char} {rest : List Char}
    (h : cur.unread = c :: rest) (hBlank : c ≠ ' ') :
    cur.nextToken = (on cur.consumed c rest).scan := by
  rw [nextToken_eq_scan, h, landPastBlanks, if_neg hBlank]

theorem nextToken_of_operator {cur : Cursor} {c : Char} {lexeme : Lexeme} {rest : List Char}
    (h : cur.unread = c :: rest) (hOperator : (c, lexeme) ∈ operators) :
    cur.nextToken =
      ⟨.ok ⟨lexeme, cur.consumed.length, c.toString⟩, on cur.consumed c rest⟩ := by
  rw [nextToken_of_ne_blank h (ne_blank_of_mem_operators hOperator)]
  simp only [operators, List.mem_cons, Prod.mk.injEq, List.not_mem_nil, or_false] at hOperator
  rcases hOperator with ⟨rfl, rfl⟩ | ⟨rfl, rfl⟩ | ⟨rfl, rfl⟩ | ⟨rfl, rfl⟩ <;> rfl

theorem ofChar_eq_unrecognized {c : Char} (hBlank : c ≠ ' ') (hDigit : c.isDigit = false)
    (hOperator : ∀ lexeme, (c, lexeme) ∉ operators) : CharClass.ofChar c = .unrecognized := by
  have hPlus : c ≠ '+' := fun h => hOperator .plus (by simp [operators, h])
  have hMinus : c ≠ '-' := fun h => hOperator .minus (by simp [operators, h])
  have hStar : c ≠ '*' := fun h => hOperator .star (by simp [operators, h])
  have hSlash : c ≠ '/' := fun h => hOperator .slash (by simp [operators, h])
  simp [CharClass.ofChar, hPlus, hMinus, hStar, hSlash, hBlank, hDigit]

theorem nextToken_of_symbol {cur : Cursor} {c : Char} {rest : List Char}
    (h : cur.unread = c :: rest) (hBlank : c ≠ ' ') (hDigit : c.isDigit = false)
    (hOperator : ∀ lexeme, (c, lexeme) ∉ operators) :
    cur.nextToken =
      ⟨.error (.unrecognizedSymbol c.toString cur.consumed.length), on cur.consumed c rest⟩ := by
  rw [nextToken_of_ne_blank h hBlank, scan, ofChar_eq_unrecognized hBlank hDigit hOperator]

theorem ofChar_of_isDigit {c : Char} (hDigit : c.isDigit = true) : CharClass.ofChar c = .digit := by
  have hNe : ∀ d : Char, d.isDigit = false → c ≠ d := by
    rintro d hd rfl
    rw [hDigit] at hd
    cases hd
  simp [CharClass.ofChar, hNe '+' rfl, hNe '-' rfl, hNe '*' rfl, hNe '/' rfl, hNe ' ' rfl, hDigit]

theorem consumed_overDigits (passed : List Char) (c : Char) (rest : List Char) :
    (overDigits passed c rest).consumed = (c :: rest.takeWhile Char.isDigit).reverse ++ passed := by
  induction rest generalizing passed c with
  | nil => simp [overDigits, consumed]
  | cons d rest ih =>
    by_cases hd : d.isDigit = true
    · rw [overDigits, if_pos hd, ih, List.takeWhile_cons_of_pos hd]
      simp
    · rw [overDigits, if_neg hd, List.takeWhile_cons_of_neg hd]
      simp [consumed]

theorem unread_overDigits (passed : List Char) (c : Char) (rest : List Char) :
    (overDigits passed c rest).unread = rest.dropWhile Char.isDigit := by
  induction rest generalizing passed c with
  | nil => rfl
  | cons d rest ih =>
    by_cases hd : d.isDigit = true
    · rw [overDigits, if_pos hd, ih, List.dropWhile_cons_of_pos hd]
    · rw [overDigits, if_neg hd, List.dropWhile_cons_of_neg hd]
      rfl

theorem toNat_zero_le_of_isDigit {d : Char} (h : d.isDigit = true) : '0'.toNat ≤ d.toNat := by
  simp only [Char.isDigit, Bool.and_eq_true, decide_eq_true_eq] at h
  exact h.1

/-- A leading place weighs ten to the number of digits behind it, whatever its value. -/
theorem numeralValue_eq (first : Int) {digits : List Char} (h : ∀ d ∈ digits, d.isDigit = true) :
    numeralValue first digits = first * 10 ^ digits.length + Nat.ofDigitChars 10 digits 0 := by
  induction digits generalizing first with
  | nil => simp [numeralValue]
  | cons d digits ih =>
    obtain ⟨hd, hDigits⟩ := List.forall_mem_cons.mp h
    have hLe := toNat_zero_le_of_isDigit hd
    have hValue : digitValue d = (d.toNat - '0'.toNat : Nat) := by
      rw [digitValue]
      omega
    have hSplit : Nat.ofDigitChars 10 (d :: digits) 0 =
        10 ^ digits.length * (d.toNat - '0'.toNat) + Nat.ofDigitChars 10 digits 0 := by
      rw [Nat.ofDigitChars_cons, Nat.mul_zero, Nat.zero_add]
      exact Nat.ofDigitChars_eq_ofDigitChars_zero
    calc
      numeralValue first (d :: digits) = numeralValue (first * 10 + digitValue d) digits := rfl
      _ = (first * 10 + digitValue d) * 10 ^ digits.length + Nat.ofDigitChars 10 digits 0 :=
        ih _ hDigits
      _ = first * 10 ^ (d :: digits).length + Nat.ofDigitChars 10 (d :: digits) 0 := by
        rw [hSplit, hValue, List.length_cons]
        push_cast
        ring

theorem nextToken_of_run {cur : Cursor} {digits rest : List Char} (h : cur.unread = digits ++ rest)
    (hRun : IsRun digits rest) : ∃ left : Cursor,
      cur.nextToken = ⟨.ok ⟨.number (Nat.ofDigitChars 10 digits 0), cur.consumed.length,
        String.ofList digits⟩, left⟩ ∧
      left.consumed = digits.reverse ++ cur.consumed ∧ left.unread = rest := by
  obtain ⟨c, digits, rfl⟩ := List.exists_cons_of_ne_nil hRun.nonempty
  rw [List.cons_append] at h
  have hDigit := hRun.isDigit c List.mem_cons_self
  have hBlank : c ≠ ' ' := by
    rintro rfl
    exact absurd hDigit (by decide)
  have hValue : numeralValue (digitValue c) digits = (Nat.ofDigitChars 10 (c :: digits) 0 : Nat) := by
    simpa [numeralValue] using numeralValue_eq 0 hRun.isDigit
  refine ⟨overDigits cur.consumed c (digits ++ rest), ?_, ?_, ?_⟩
  · rw [nextToken_of_ne_blank h hBlank, scan, ofChar_of_isDigit hDigit]
    simp only [readNumber]
    rw [hRun.takeWhile_append, hValue, Token.build_number]
  · rw [consumed_overDigits, hRun.takeWhile_append]
  · rw [unread_overDigits, hRun.dropWhile_append]

theorem length_unread_lt_of_isEnding_eq_false {cur : Cursor}
    (h : Item.isEnding cur.nextToken.result = false) :
    cur.nextToken.left.unread.length < cur.unread.length := by
  rcases cur.length_unread_nextToken with hLess | ⟨t, hItem, hEof, _⟩
  · exact hLess
  · rw [hItem] at h
    simp [Item.isEnding, hEof] at h

/-- What the calls bring, up to the end. -/
def ahead (cur : Cursor) : List Item :=
  if h : Item.isEnding cur.nextToken.result = false then
    have := length_unread_lt_of_isEnding_eq_false h
    cur.nextToken.result :: cur.nextToken.left.ahead
  else [cur.nextToken.result]
termination_by cur.unread.length

theorem ahead_eq_ite (cur : Cursor) :
    cur.ahead = cur.nextToken.result ::
      if Item.isEnding cur.nextToken.result = true then [] else cur.nextToken.left.ahead := by
  rw [ahead]
  split
  · next hItem => rw [hItem, if_neg Bool.false_ne_true]
  · next hItem => rw [if_pos (Bool.eq_true_of_not_eq_false hItem)]

theorem ahead_of_nextToken {cur left : Cursor} {item : Item} (h : cur.nextToken = ⟨item, left⟩)
    (hItem : Item.isEnding item = false) : cur.ahead = item :: left.ahead := by
  rw [ahead_eq_ite, h, hItem, if_neg Bool.false_ne_true]

theorem ahead_of_nil {cur : Cursor} (h : cur.unread = []) :
    cur.ahead = [.ok (.ending cur.consumed.length)] := by
  rw [ahead_eq_ite, nextToken_of_nil h]
  rfl

theorem ahead_of_blank {cur : Cursor} {rest : List Char} (h : cur.unread = ' ' :: rest) :
    cur.ahead = (on cur.consumed ' ' rest).ahead := by
  rw [ahead_eq_ite, nextToken_of_blank h, ← ahead_eq_ite]

end Cursor

namespace Reading

theorem isEnding_of_mem_operators {c : Char} {lexeme : Lexeme} (h : (c, lexeme) ∈ operators)
    (place : Int) (text : String) : Item.isEnding (.ok ⟨lexeme, place, text⟩) = false := by
  cases lexeme <;> simp [operators, Item.isEnding] at h ⊢

theorem Reads.isEnding_eq_false {place : Nat} {s : List Char} {items : List Item}
    (h : Reads place s items) {item : Item} (hItem : item ∈ items) : item.isEnding = false := by
  induction h with
  | nothing => cases hItem
  | blank _ ih => exact ih hItem
  | operator hOperator _ ih =>
    rcases List.mem_cons.mp hItem with rfl | hItem
    · exact isEnding_of_mem_operators hOperator _ _
    · exact ih hItem
  | number _ _ ih | symbol _ _ _ _ ih =>
    rcases List.mem_cons.mp hItem with rfl | hItem
    · rfl
    · exact ih hItem

/-- The end is found behind the items and nowhere else. -/
theorem Reads.eq_of_append {place : Nat} {s : List Char} {items others more : List Item}
    {first last : Item} (h : Reads place s items)
    (hAppend : items ++ [last] = others ++ first :: more) (hFirst : first.isEnding = true) :
    items = others := by
  rcases List.append_eq_append_iff.mp hAppend with ⟨between, hOthers, hLast⟩ | ⟨between, hItems, hMore⟩
  · have hLength := congrArg List.length hLast
    rw [List.length_append, List.length_singleton, List.length_cons] at hLength
    have hNil : between = [] := List.length_eq_zero_iff.mp (by omega)
    rw [hOthers, hNil, List.append_nil]
  · cases between with
    | nil => rw [hItems, List.append_nil]
    | cons item between =>
      obtain ⟨rfl, _⟩ := List.cons.inj hMore
      have hNot := h.isEnding_eq_false (hItems ▸ List.mem_append_right others List.mem_cons_self)
      rw [hFirst] at hNot
      cases hNot

theorem Reads.ahead_eq {place : Nat} {s : List Char} {items : List Item} (h : Reads place s items)
    {cur : Cursor} (hPlace : cur.consumed.length = place) (hUnread : cur.unread = s) :
    cur.ahead = items ++ [.ok (.ending (place + s.length : Nat))] := by
  induction h generalizing cur with
  | nothing =>
    rw [Cursor.ahead_of_nil hUnread, hPlace]
    rfl
  | @blank place rest items _ ih =>
    have hNext : (Cursor.on cur.consumed ' ' rest).consumed.length = place + 1 :=
      congrArg Nat.succ hPlace
    rw [Cursor.ahead_of_blank hUnread, ih hNext rfl, List.length_cons, Nat.succ_add_eq_add_succ]
  | @operator place c lexeme rest items hOperator _ ih =>
    have hNext : (Cursor.on cur.consumed c rest).consumed.length = place + 1 :=
      congrArg Nat.succ hPlace
    rw [Cursor.ahead_of_nextToken (Cursor.nextToken_of_operator hUnread hOperator)
      (isEnding_of_mem_operators hOperator _ _), ih hNext rfl, hPlace, List.length_cons,
      Nat.succ_add_eq_add_succ, List.cons_append]
  | @number place digits rest items hRun _ ih =>
    obtain ⟨left, hNext, hConsumed, hRest⟩ := Cursor.nextToken_of_run hUnread hRun
    have hLeft : left.consumed.length = place + digits.length := by
      rw [hConsumed, List.length_append, List.length_reverse, hPlace, Nat.add_comm]
    rw [Cursor.ahead_of_nextToken hNext rfl, ih hLeft hRest, hPlace, List.length_append,
      Nat.add_assoc, List.cons_append]
  | @symbol place c rest items hBlank hDigit hOperator _ ih =>
    have hNext : (Cursor.on cur.consumed c rest).consumed.length = place + 1 :=
      congrArg Nat.succ hPlace
    rw [Cursor.ahead_of_nextToken (Cursor.nextToken_of_symbol hUnread hBlank hDigit hOperator) rfl,
      ih hNext rfl, hPlace, List.length_cons, Nat.succ_add_eq_add_succ, List.cons_append]

theorem Reads.unique {place : Nat} {s : List Char} {items others : List Item}
    (h : Reads place s items) (hOthers : Reads place s others) : items = others := by
  obtain ⟨cur, hPlace, hUnread⟩ : ∃ cur : Cursor, cur.consumed.length = place ∧ cur.unread = s := by
    cases place with
    | zero => exact ⟨.before s, rfl, rfl⟩
    | succ n => exact ⟨.on (List.replicate n ' ') ' ' s, by simp [Cursor.consumed], rfl⟩
  have hAhead := (h.ahead_eq hPlace hUnread).symm.trans (hOthers.ahead_eq hPlace hUnread)
  exact List.append_cancel_right hAhead

theorem Reads.unread_of_nil {place : Nat} {s : List Char} (h : Reads place s []) {cur : Cursor}
    (hUnread : cur.unread = s) : cur.nextToken.left.unread = [] := by
  generalize hItems : [] = items at h
  induction h generalizing cur with
  | nothing =>
    rw [Cursor.nextToken_of_nil hUnread]
    rfl
  | blank _ ih =>
    rw [Cursor.nextToken_of_blank hUnread]
    exact ih rfl hItems
  | operator | number | symbol => cases hItems

end Reading

namespace Cursor

theorem length_line (cur : Cursor) : cur.line.length = cur.consumed.length + cur.unread.length := by
  rw [line, List.length_append, List.length_reverse]

theorem exists_reads_ahead (cur : Cursor) : ∃ items,
    Reads cur.consumed.length cur.unread items ∧
      cur.ahead = items ++ [.ok (.ending cur.line.length)] := by
  obtain ⟨items, hItems⟩ := exists_reads cur.consumed.length cur.unread
  refine ⟨items, hItems, ?_⟩
  rw [hItems.ahead_eq rfl rfl, length_line]

theorem reads_iff (cur : Cursor) {items : List Item} :
    Reads cur.consumed.length cur.unread items ↔
      cur.ahead = items ++ [.ok (.ending cur.line.length)] := by
  constructor
  · intro h
    rw [h.ahead_eq rfl rfl, length_line]
  · intro h
    obtain ⟨others, hOthers, hAhead⟩ := cur.exists_reads_ahead
    have hItems : others = items := List.append_cancel_right (hAhead.symm.trans h)
    exact hItems ▸ hOthers

theorem reads_before_iff {line : String} {items : List Item} : Reads 0 line.toList items ↔
    (before line.toList).ahead = items ++ [.ok (.ending line.length)] := by
  rw [← String.length_toList]
  exact (before line.toList).reads_iff

theorem reads_nil_of_isEnding {cur : Cursor} (h : Item.isEnding cur.nextToken.result = true) :
    Reads cur.consumed.length cur.unread [] := by
  obtain ⟨items, hItems, hAhead⟩ := cur.exists_reads_ahead
  rw [ahead_eq_ite, if_pos h] at hAhead
  have hLength := congrArg List.length hAhead
  rw [List.length_append, List.length_singleton, List.length_singleton] at hLength
  have hNil : items = [] := List.length_eq_zero_iff.mp (by omega)
  exact hNil ▸ hItems

theorem unread_of_isEnding {cur : Cursor} (h : Item.isEnding cur.nextToken.result = true) :
    cur.nextToken.left.unread = [] := (reads_nil_of_isEnding h).unread_of_nil rfl

theorem ahead_of_isEnding {cur : Cursor} (h : Item.isEnding cur.nextToken.result = true) :
    cur.ahead = [.ok (.ending cur.line.length)] := by
  rw [(reads_nil_of_isEnding h).ahead_eq rfl rfl, ← length_line]
  rfl

/-- After the end there is nothing but the end. -/
theorem call_eq_getD (cur : Cursor) (n : Nat) :
    cur.call n = cur.ahead[n]?.getD (.ok (.ending cur.line.length)) := by
  induction n generalizing cur with
  | zero =>
    rw [ahead_eq_ite]
    rfl
  | succ n ih =>
    rw [call, ih, line_nextToken, ahead_eq_ite cur, List.getElem?_cons_succ]
    split
    · next hEnding =>
      have hUnread := unread_of_isEnding hEnding
      have hLength := cur.nextToken.left.length_line
      rw [hUnread, line_nextToken, List.length_nil, Nat.add_zero] at hLength
      rw [ahead_of_nil hUnread, ← hLength]
      cases n <;> rfl
    · rfl

theorem call_of_reads (cur : Cursor) {items : List Item}
    (h : Reads cur.consumed.length cur.unread items) (n : Nat) :
    cur.call n = items[n]?.getD (.ok (.ending cur.line.length)) := by
  rw [call_eq_getD, cur.reads_iff.mp h]
  rcases Nat.lt_or_ge n items.length with hLess | hGe
  · rw [List.getElem?_append_left hLess]
  · rw [List.getElem?_append_right hGe, List.getElem?_eq_none hGe]
    cases n - items.length <;> rfl

end Cursor

namespace Feed

theorem nextToken_of_pull {feed next : Feed} {item : Item} (h : feed.pull = ⟨item, next⟩) :
    feed.cursor.nextToken = ⟨item, next.cursor⟩ := congrArg (Outcome.onLeft cursor) h

theorem line_of_pull {feed next : Feed} {item : Item} (h : feed.pull = ⟨item, next⟩) :
    next.cursor.line = feed.cursor.line := by
  have hLine := feed.cursor.line_nextToken
  rwa [nextToken_of_pull h] at hLine

theorem ahead_of_drain {feed left : Feed} {ts : List Token} (h : feed.drain = ⟨.ok ts, left⟩) :
    feed.cursor.ahead = ts.map .ok ++ [.ok (.ending feed.cursor.line.length)] ∧
      left.cursor.unread = [] ∧ left.cursor.line = feed.cursor.line := by
  fun_induction drain feed generalizing ts with
  | case1 => cases h
  | case2 feed t next hPull hEof =>
    cases h
    have hEnding : Item.isEnding feed.cursor.nextToken.result = true := by
      rw [nextToken_of_pull hPull]
      exact decide_eq_true hEof
    have hUnread := Cursor.unread_of_isEnding hEnding
    rw [nextToken_of_pull hPull] at hUnread
    exact ⟨Cursor.ahead_of_isEnding hEnding, hUnread, line_of_pull hPull⟩
  | case3 feed t next hPull hEof _ ih =>
    obtain ⟨us, hDrain, rfl⟩ := Outcome.map_eq_ok_iff.mp h
    obtain ⟨hAhead, hUnread, hLine⟩ := ih hDrain
    rw [line_of_pull hPull] at hAhead hLine
    refine ⟨?_, hUnread, hLine⟩
    rw [Cursor.ahead_of_nextToken (nextToken_of_pull hPull) (decide_eq_false hEof), hAhead]
    rfl

theorem ahead_of_drain_error {feed left : Feed} {fault : Fault}
    (h : feed.drain = ⟨.error fault, left⟩) : ∃ (ts : List Token) (others : List Item),
      feed.cursor.ahead = ts.map .ok ++ .error fault :: others := by
  fun_induction drain feed with
  | case1 feed fault next hPull =>
    cases h
    exact ⟨[], left.cursor.ahead, Cursor.ahead_of_nextToken (nextToken_of_pull hPull) rfl⟩
  | case2 => cases h
  | case3 feed t next hPull hEof _ ih =>
    obtain ⟨ts, others, hAhead⟩ := ih (Outcome.map_eq_error_iff.mp h)
    refine ⟨t :: ts, others, ?_⟩
    rw [Cursor.ahead_of_nextToken (nextToken_of_pull hPull) (decide_eq_false hEof), hAhead]
    rfl

theorem result_pull_of_nil {feed : Feed} (h : feed.cursor.unread = []) :
    feed.pull.result = .ok (.ending feed.cursor.line.length) := by
  rw [result_pull, Cursor.nextToken_of_nil h, Cursor.length_line, h]
  rfl

theorem result_tokens_of_drain {line : String} {ts : List Token} {left : Feed}
    (h : (ofLine line).drain = ⟨.ok ts, left⟩) :
    (tokens line).result = .ok (ts ++ [.ending line.length]) := by
  obtain ⟨_, hUnread, hLine⟩ := ahead_of_drain h
  have hLength : left.cursor.line.length = line.length := by
    rw [hLine, ← String.length_toList]
    rfl
  have hPull := result_pull_of_nil hUnread
  rw [tokens, h, Outcome.ok_andThen]
  simp only [Outcome.map, hPull, hLength, Except.map]

theorem result_tokens_eq_ok_iff {line : String} {ts : List Token} :
    (tokens line).result = .ok ts ↔
      ∃ us : List Token, Reads 0 line.toList (us.map .ok) ∧ ts = us ++ [.ending line.length] := by
  rcases hDrain : (ofLine line).drain with ⟨fault | us, left⟩
  · obtain ⟨us, others, hAhead⟩ := ahead_of_drain_error hDrain
    constructor
    · intro h
      rw [tokens, hDrain] at h
      cases h
    · rintro ⟨vs, hReads, rfl⟩
      have hMem : Except.error fault ∈ (ofLine line).cursor.ahead := by
        rw [hAhead]
        exact List.mem_append_right _ List.mem_cons_self
      rw [ofLine, Cursor.reads_before_iff.mp hReads] at hMem
      simp at hMem
  · have hReads : Reads 0 line.toList (us.map .ok) := Cursor.reads_before_iff.mpr (ahead_of_drain hDrain).1
    rw [result_tokens_of_drain hDrain]
    constructor
    · intro h
      cases h
      exact ⟨us, hReads, rfl⟩
    · rintro ⟨vs, hOthers, rfl⟩
      have hTokens : us = vs :=
        List.map_injective_iff.mpr (fun _ _ => Except.ok.inj) (hReads.unique hOthers)
      rw [hTokens]

end Feed

/-- Calls on a fresh cursor bring the one list of items that the line reads as, and then the end at
the length of the line for ever. The items tile the line, numbers stand apart, and the list of all
tokens is the items with one end behind them, if no item is a fault. -/
theorem calls_of_line (line : String) : ∃ items : List Item,
    (∀ others, Reads 0 line.toList others ↔ others = items) ∧
    (∀ n, (Cursor.before line.toList).call n = items[n]?.getD (.ok (.ending line.length))) ∧
    (∀ item ∈ items, 0 ≤ item.place ∧
      Text.slice item.place item.stop line.toList = item.covered) ∧
    items.Pairwise (fun a b => a.stop ≤ b.place) ∧
    (∀ (i : Nat) (hi : i < line.toList.length), line.toList[i] = ' ' ↔
      ∀ item ∈ items, ¬ (item.place ≤ i ∧ (i : Int) < item.stop)) ∧
    items.IsChain (Apart line.toList) ∧
    (∀ ts, (Feed.tokens line).result = .ok ts ↔
      ∃ us : List Token, items = us.map .ok ∧ (∀ t ∈ us, t.lexeme ≠ .eof) ∧
        ts = us ++ [.ending line.length]) := by
  obtain ⟨items, hReads⟩ := exists_reads 0 line.toList
  have hUnique : ∀ others, Reads 0 line.toList others ↔ others = items := by
    intro others
    constructor
    · exact fun hOthers => hOthers.unique hReads
    · rintro rfl
      exact hReads
  refine ⟨items, hUnique, ?_, ?_, hReads.tiles.pairwise, ?_, hReads.isChain_apart [] rfl, ?_⟩
  · intro n
    have hLength : (Cursor.before line.toList).line.length = line.length := String.length_toList
    rw [← hLength]
    exact (Cursor.before line.toList).call_of_reads hReads n
  · intro item hItem
    exact ⟨hReads.tiles.le_place hItem, hReads.tiles.slice_eq hItem⟩
  · intro i hi
    simpa using hReads.tiles.getElem_eq_blank_iff i hi
  · intro ts
    rw [Feed.result_tokens_eq_ok_iff]
    constructor
    · rintro ⟨us, hTokens, rfl⟩
      refine ⟨us, ((hUnique _).mp hTokens).symm, ?_, rfl⟩
      intro t ht
      exact of_decide_eq_false (hTokens.isEnding_eq_false (List.mem_map_of_mem ht))
    · rintro ⟨us, rfl, -, rfl⟩
      exact ⟨us, hReads, rfl⟩

end Reckoner
