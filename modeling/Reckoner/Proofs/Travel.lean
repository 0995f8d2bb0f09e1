import Mathlib.Logic.Function.Iterate
import Reckoner.Proofs.Calls

/-!
# Where a cursor goes

A cursor moves by advancing and in no other way. So what advancing keeps is kept by every reading:
the line, and the agreement of the place with the character that is kept for it. The place never
falls, and it is in front of the line only as long as nothing has advanced the cursor.
-/

set_option autoImplicit false

namespace Reckoner

/-- The character at an index of a text. An index below zero counts from the end. -/
def Text.subscript? (s : List Char) (i : Int) : Option Char :=
  if 0 ≤ i then s[i.toNat]?
  else if 0 ≤ i + s.length then s[(i + s.length).toNat]?
  else none

/-- A place in a line and the character that is kept for it. -/
structure Mark where
  position : Int
  char? : Option Char
  deriving DecidableEq, Repr

namespace Mark

/-- Goes on by one index, or behind the end of the line. -/
def advance (line : List Char) (mark : Mark) : Mark :=
  if mark.position + 1 < line.length then
    ⟨mark.position + 1, Text.subscript? line (mark.position + 1)⟩
  else ⟨line.length, none⟩

/-- Some character is kept between the ends of the line, and it is the one at the place. -/
structure Rests (line : List Char) (mark : Mark) : Prop where
  neg_one_le : -1 ≤ mark.position
  le_length : mark.position ≤ line.length
  none_iff : mark.char? = none ↔ mark.position = -1 ∨ mark.position = line.length
  char_eq : mark.position ≠ -1 → mark.char? = Text.subscript? line mark.position

end Mark

namespace Cursor

def mark (cur : Cursor) : Mark := ⟨cur.position, cur.char?⟩

theorem subscript?_line (passed rest : List Char) :
    Text.subscript? (passed.reverse ++ rest) passed.length = rest.head? := by
  rw [Text.subscript?, if_pos (Int.natCast_nonneg _), Int.toNat_natCast,
    List.getElem?_append_right (Nat.le_of_eq (List.length_reverse)), List.length_reverse, Nat.sub_self,
    List.head?_eq_getElem?]

theorem rests (cur : Cursor) : cur.mark.Rests cur.line := by
  cases cur with
  | before text =>
    refine ⟨Int.le_refl _, ?_, ?_, ?_⟩
    · simp only [mark, position]
      omega
    · simp [mark, position, char?]
    · exact fun h => absurd rfl h
  | on passed c rest =>
    refine ⟨?_, ?_, ?_, ?_⟩
    · simp only [mark, position]
      omega
    · simp only [mark, position, line_on, List.length_append, List.length_reverse, List.length_cons]
      omega
    · refine iff_of_false (Option.some_ne_none c) ?_
      simp only [mark, position, line_on, List.length_append, List.length_reverse, List.length_cons]
      omega
    · intro _
      rw [line_on]
      exact (subscript?_line passed (c :: rest)).symm
  | past passed =>
    refine ⟨?_, ?_, ?_, ?_⟩
    · simp only [mark, position]
      omega
    · simp only [mark, position, line_past, List.length_reverse, Int.le_refl]
    · simp only [mark, position, char?, line_past, List.length_reverse, or_true]
    · intro _
      have h := subscript?_line passed []
      rw [List.append_nil] at h
      rw [line_past]
      exact h.symm

/-! ## One step forward -/

theorem position_succ_of_unread_cons {cur : Cursor} {c : Char} {rest : List Char}
    (h : cur.unread = c :: rest) : cur.position + 1 = cur.consumed.length := by
  cases cur with
  | before | on => rfl
  | past => cases h

theorem not_lt_of_unread_nil {cur : Cursor} (h : cur.unread = []) :
    ¬ cur.position + 1 < cur.line.length := by
  cases cur with
  | before => simp_all [position, unread]
  | on => simp_all [position, unread]
  | past => simp [position]

theorem place_of_unread_cons {cur : Cursor} {c : Char} {rest : List Char}
    (h : cur.unread = c :: rest) : cur.position + 1 < cur.line.length ∧
      Text.subscript? cur.line (cur.position + 1) = some c := by
  rw [position_succ_of_unread_cons h, length_line, line, h, List.length_cons, subscript?_line]
  exact ⟨by omega, rfl⟩

theorem mark_advance (cur : Cursor) : cur.advance.mark = cur.mark.advance cur.line := by
  cases hUnread : cur.unread with
  | nil =>
    have hLine : cur.line.length = cur.consumed.length := by
      rw [length_line, hUnread, List.length_nil, Nat.add_zero]
    rw [advance, hUnread, Mark.advance, mark, mark, if_neg (not_lt_of_unread_nil hUnread), hLine]
    rfl
  | cons c rest =>
    obtain ⟨hLess, hChar⟩ := place_of_unread_cons hUnread
    rw [advance, hUnread, Mark.advance, mark, mark, if_pos hLess, hChar,
      position_succ_of_unread_cons hUnread]
    rfl

/-- Up to the end of the line there is a character at the next index, the one that is looked ahead to
and that advancing lands on. -/
theorem exists_char_of_position_lt {cur : Cursor} (h : cur.position + 1 < cur.line.length) :
    ∃ c, Text.subscript? cur.line (cur.position + 1) = some c ∧ cur.peek? = some c ∧
      cur.advance.char? = some c := by
  cases hUnread : cur.unread with
  | nil => exact absurd h (not_lt_of_unread_nil hUnread)
  | cons c rest =>
    refine ⟨c, (place_of_unread_cons hUnread).2, ?_, ?_⟩
    · rw [peek?, hUnread, List.head?_cons]
    · rw [advance, hUnread]
      rfl

theorem position_advance (cur : Cursor) :
    cur.advance.position = min (cur.position + 1) cur.line.length := by
  have h := congrArg Mark.position cur.mark_advance
  rw [Mark.advance] at h
  split at h
  · next hLess => exact h.trans (Int.min_eq_left (Int.le_of_lt hLess)).symm
  · next hEnd => exact h.trans (Int.min_eq_right (Int.not_lt.mp hEnd)).symm

theorem position_advance_nonneg (cur : Cursor) : 0 ≤ cur.advance.position := by
  have hStart : -1 ≤ cur.position := cur.rests.neg_one_le
  rw [position_advance]
  omega

theorem position_nonneg_of_char? {cur : Cursor} {c : Char} (h : cur.char? = some c) :
    0 ≤ cur.position := by
  cases cur with
  | on passed => exact Int.natCast_nonneg passed.length
  | before | past => cases h

/-! ## Any number of steps -/

/-- Advancing some number of times leads from the one cursor to the other. -/
def Leads (cur next : Cursor) : Prop := ∃ n, advance^[n] cur = next

theorem Leads.refl (cur : Cursor) : cur.Leads cur := ⟨0, rfl⟩

theorem leads_advance (cur : Cursor) : cur.Leads cur.advance := ⟨1, rfl⟩

theorem Leads.trans {cur middle next : Cursor} (h : cur.Leads middle) (hNext : middle.Leads next) :
    cur.Leads next := by
  obtain ⟨m, rfl⟩ := h
  obtain ⟨n, rfl⟩ := hNext
  exact ⟨n + m, Function.iterate_add_apply _ _ _ _⟩

theorem line_iterate_advance (cur : Cursor) (n : Nat) : (advance^[n] cur).line = cur.line := by
  induction n with
  | zero => rfl
  | succ n ih => rw [Function.iterate_succ_apply', line_advance, ih]

theorem mark_iterate_advance (cur : Cursor) (n : Nat) :
    (advance^[n] cur).mark = (Mark.advance cur.line)^[n] cur.mark := by
  induction n with
  | zero => rfl
  | succ n ih =>
    rw [Function.iterate_succ_apply', Function.iterate_succ_apply', mark_advance, ih, line_iterate_advance]

theorem Leads.line_eq {cur next : Cursor} (h : cur.Leads next) : next.line = cur.line := by
  obtain ⟨n, rfl⟩ := h
  exact cur.line_iterate_advance n

theorem position_le_advance (cur : Cursor) : cur.position ≤ cur.advance.position := by
  have hLe : cur.position ≤ cur.line.length := cur.rests.le_length
  rw [position_advance]
  omega

theorem Leads.position_le {cur next : Cursor} (h : cur.Leads next) : cur.position ≤ next.position := by
  obtain ⟨n, rfl⟩ := h
  induction n with
  | zero => exact Int.le_refl _
  | succ n ih =>
    rw [Function.iterate_succ_apply']
    exact Int.le_trans ih (position_le_advance _)

/-! ## Readings -/

/-- Blanks are skipped by advancing as long as there is one under the cursor. -/
theorem skipBlanks_eq_ite (cur : Cursor) :
    cur.skipBlanks = if cur.char? = some ' ' then cur.advance.skipBlanks else cur := by
  cases cur with
  | on passed c rest =>
    rw [skipBlanks, landPastBlanks, advance, skipBlanks_land]
    exact if_congr (Option.some_inj).symm rfl rfl
  | before | past => rfl

theorem leads_skipBlanks (cur : Cursor) : cur.Leads cur.skipBlanks := by
  induction hLength : cur.unread.length generalizing cur with
  | zero =>
    rw [skipBlanks_eq_ite]
    split
    · have hPast : cur.advance = past cur.consumed := by
        rw [advance, List.length_eq_zero_iff.mp hLength]
        rfl
      rw [hPast]
      exact ⟨1, hPast⟩
    · exact Leads.refl cur
  | succ n ih =>
    rw [skipBlanks_eq_ite]
    split
    · refine cur.leads_advance.trans (ih cur.advance ?_)
      obtain ⟨c, rest, hUnread⟩ := List.exists_cons_of_length_eq_add_one hLength
      rw [hUnread] at hLength
      rw [advance, hUnread]
      exact Nat.succ.inj hLength
    · exact Leads.refl cur

theorem leads_overDigits (passed : List Char) (c : Char) (rest : List Char) :
    (on passed c rest).Leads (overDigits passed c rest) := by
  induction rest generalizing passed c with
  | nil => exact Leads.refl _
  | cons d rest ih =>
    rw [overDigits]
    split
    · exact (on passed c (d :: rest)).leads_advance.trans (ih (c :: passed) d)
    · exact Leads.refl _

theorem leads_readNumber (cur : Cursor) : cur.Leads cur.readNumber.left := by
  cases cur with
  | on passed c rest => exact leads_overDigits passed c rest
  | before | past => exact Leads.refl _

theorem leads_scan (cur : Cursor) : cur.Leads cur.scan.left := by
  rcases cur.scan_stays_or_reads with h | h
  · rw [h]
    exact Leads.refl cur
  · rw [h]
    exact cur.leads_readNumber

theorem leads_nextToken_of_advance (cur : Cursor) : cur.advance.Leads cur.nextToken.left :=
  cur.advance.leads_skipBlanks.trans cur.advance.skipBlanks.leads_scan

theorem leads_nextToken (cur : Cursor) : cur.Leads cur.nextToken.left :=
  cur.leads_advance.trans cur.leads_nextToken_of_advance

theorem left_readNumber_of_eq_false {cur : Cursor}
    (h : (cur.char?.isSome && cur.peek?.any Char.isDigit) = false) : cur.readNumber.left = cur := by
  cases cur with
  | before | past => rfl
  | on passed c rest =>
    cases rest with
    | nil => rfl
    | cons d rest =>
      have hDigit : ¬ d.isDigit = true := Bool.eq_false_iff.mp h
      simp only [readNumber, overDigits, if_neg hDigit]

theorem isDigit_of_ofChar {c : Char} (h : CharClass.ofChar c = .digit) : c.isDigit = true := by
  unfold CharClass.ofChar at h
  repeat' split at h
  all_goals first | assumption | cases h

theorem left_scan_of_ofChar_ne {cur : Cursor} (h : ∀ c, cur.char? = some c → CharClass.ofChar c ≠ .digit) :
    cur.scan.left = cur := by
  cases cur with
  | before | past => rfl
  | on passed c rest =>
    simp only [scan]
    split <;> first | rfl | exact absurd ‹_› (h c rfl)

theorem left_scan_of_eq_false {cur : Cursor}
    (h : (cur.char?.any Char.isDigit && cur.peek?.any Char.isDigit) = false) : cur.scan.left = cur := by
  rcases Bool.and_eq_false_iff.mp h with hChar | hPeek
  · apply left_scan_of_ofChar_ne
    intro c hSome hClass
    rw [hSome, Option.any_some, isDigit_of_ofChar hClass] at hChar
    cases hChar
  · rcases cur.scan_stays_or_reads with hScan | hScan
    · exact hScan
    · rw [hScan, left_readNumber_of_eq_false (Bool.and_eq_false_iff.mpr (.inr hPeek))]

/-- A call for the next token gets on, unless the cursor is behind the line already. -/
theorem position_nextToken (cur : Cursor) : 0 ≤ cur.nextToken.left.position ∧
    (cur.nextToken.left.position = cur.line.length ∨
      cur.position < cur.nextToken.left.position) := by
  have hFrom := cur.leads_nextToken_of_advance.position_le
  have hStart : -1 ≤ cur.position := cur.rests.neg_one_le
  have hEnd : cur.nextToken.left.position ≤ cur.nextToken.left.line.length :=
    cur.nextToken.left.rests.le_length
  rw [line_nextToken] at hEnd
  rw [position_advance] at hFrom
  omega

/-! ## Blanks -/

theorem skipBlanks_of_ne {cur : Cursor} (h : cur.char? ≠ some ' ') : cur.skipBlanks = cur := by
  rw [skipBlanks_eq_ite, if_neg h]

theorem char?_landPastBlanks_ne (passed rest : List Char) :
    (landPastBlanks passed rest).char? ≠ some ' ' := by
  induction rest generalizing passed with
  | nil => exact (Option.some_ne_none _).symm
  | cons c rest ih =>
    rw [landPastBlanks]
    split
    · exact ih (c :: passed)
    · next h => exact fun hSome => h (Option.some.inj hSome)

theorem char?_overDigits_ne {c : Char} (hBlank : c ≠ ' ') (passed rest : List Char) :
    (overDigits passed c rest).char? ≠ some ' ' := by
  induction rest generalizing passed c with
  | nil => exact fun h => hBlank (Option.some.inj h)
  | cons d rest ih =>
    rw [overDigits]
    split
    · next hDigit =>
      refine ih ?_ (c :: passed)
      rintro rfl
      exact absurd hDigit (by decide)
    · exact fun h => hBlank (Option.some.inj h)

/-- No call for the next token leaves the cursor on a blank. -/
theorem char?_nextToken_ne (cur : Cursor) : cur.nextToken.left.char? ≠ some ' ' := by
  rw [nextToken_eq_scan]
  have hLand := char?_landPastBlanks_ne cur.consumed cur.unread
  rcases (landPastBlanks cur.consumed cur.unread).scan_stays_or_reads with h | h
  · rw [h]
    exact hLand
  · rw [h]
    cases hCursor : landPastBlanks cur.consumed cur.unread with
    | on passed c rest =>
      rw [hCursor] at hLand
      exact char?_overDigits_ne (fun hBlank => hLand (congrArg some hBlank)) passed rest
    | before | past => exact (Option.some_ne_none _).symm

end Cursor

end Reckoner
