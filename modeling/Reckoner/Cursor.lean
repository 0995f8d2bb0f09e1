import Reckoner.CharClass
import Reckoner.Outcome
import Reckoner.Token.Construction

/-!
# A cursor on a line

A cursor stands in front of a line, on one of its characters, or behind its end. Each scanner
leaves it on the last character that it consumed, so reading a token begins with a step. The line
is what the cursor has consumed, which is kept nearest first, and what is still unread.
-/

set_option autoImplicit false

namespace Reckoner

inductive Cursor where
  | before (line : List Char)
  | on (passed : List Char) (char : Char) (rest : List Char)
  | past (passed : List Char)
  deriving DecidableEq, Repr

namespace Cursor

def char? : Cursor → Option Char
  | on _ c _ => some c
  | _ => none

/-- The characters up to the cursor, the one that it stands on included. -/
def consumed : Cursor → List Char
  | before _ => []
  | on passed c _ => c :: passed
  | past passed => passed

def unread : Cursor → List Char
  | before line => line
  | on _ _ rest => rest
  | past _ => []

def line (cur : Cursor) : List Char := cur.consumed.reverse ++ cur.unread

/-- The index of the character under the cursor, -1 in front of the line, its length behind it. -/
def position : Cursor → Int
  | before _ => -1
  | on passed _ _ => passed.length
  | past passed => passed.length

def peek? (cur : Cursor) : Option Char := cur.unread.head?

def land (passed : List Char) : List Char → Cursor
  | [] => past passed
  | c :: rest => on passed c rest

def advance (cur : Cursor) : Cursor := land cur.consumed cur.unread

/-- Lands on the first character that is not a blank. -/
def landPastBlanks (passed : List Char) : List Char → Cursor
  | [] => past passed
  | c :: rest => if c = ' ' then landPastBlanks (c :: passed) rest else on passed c rest

def skipBlanks : Cursor → Cursor
  | on passed c rest => landPastBlanks passed (c :: rest)
  | cur => cur

/-- Stays on a character, or moves to the last of the digits that follow it. -/
def overDigits (passed : List Char) (c : Char) : List Char → Cursor
  | [] => on passed c []
  | d :: rest => if d.isDigit then overDigits (c :: passed) d rest else on passed c (d :: rest)

/-- The distance of a character above `0`, which is the value of a digit. -/
def digitValue (c : Char) : Int := (c.toNat : Int) - '0'.toNat

/-- The value in base ten of a leading place of any value and the digits after it. -/
def numeralValue (first : Int) (digits : List Char) : Int :=
  digits.foldl (fun value d => value * 10 + digitValue d) first

/-- Reads the character under the cursor, whatever it is, and the digits after it as a numeral. -/
def readNumber (cur : Cursor) (allowance : Allowance := .unlimited) : Outcome Cursor Token :=
  match cur with
  | on passed c rest =>
    let digits := rest.takeWhile Char.isDigit
    let value := numeralValue (digitValue c) digits
    ⟨Token.build (.kind .number) (.int value) passed.length (String.ofList (c :: digits)) allowance,
      overDigits passed c rest⟩
  | cur => ⟨.error .noCharacter, cur⟩

/-- The token that begins under the cursor; off the line that is the end. -/
def scan : Cursor → Outcome Cursor Token
  | on passed c rest =>
    match CharClass.ofChar c with
    | .plus => ⟨.ok ⟨.plus, passed.length, c.toString⟩, on passed c rest⟩
    | .minus => ⟨.ok ⟨.minus, passed.length, c.toString⟩, on passed c rest⟩
    | .star => ⟨.ok ⟨.star, passed.length, c.toString⟩, on passed c rest⟩
    | .slash => ⟨.ok ⟨.slash, passed.length, c.toString⟩, on passed c rest⟩
    | .digit => readNumber (on passed c rest)
    | _ => ⟨.error (.unrecognizedSymbol c.toString passed.length), on passed c rest⟩
  | cur => ⟨.ok ⟨.eof, cur.position, ""⟩, cur⟩

def nextToken (cur : Cursor) : Outcome Cursor Token := cur.advance.skipBlanks.scan

@[simp] theorem line_before (text : List Char) : (before text).line = text := rfl

@[simp] theorem line_on (passed : List Char) (c : Char) (rest : List Char) :
    (on passed c rest).line = passed.reverse ++ c :: rest := by
  simp [line, consumed, unread]

@[simp] theorem line_past (passed : List Char) : (past passed).line = passed.reverse := by
  simp [line, consumed, unread]

theorem line_land (passed rest : List Char) : (land passed rest).line = passed.reverse ++ rest := by
  cases rest <;> simp [land]

theorem line_landPastBlanks (passed rest : List Char) :
    (landPastBlanks passed rest).line = passed.reverse ++ rest := by
  induction rest generalizing passed with
  | nil => simp [landPastBlanks]
  | cons c rest ih =>
    unfold landPastBlanks
    split
    · simp [ih]
    · simp

theorem line_overDigits (passed : List Char) (c : Char) (rest : List Char) :
    (overDigits passed c rest).line = passed.reverse ++ c :: rest := by
  induction rest generalizing passed c with
  | nil => simp [overDigits]
  | cons d rest ih =>
    unfold overDigits
    split
    · simp [ih]
    · simp

@[simp] theorem line_advance (cur : Cursor) : cur.advance.line = cur.line := line_land _ _

@[simp] theorem line_skipBlanks (cur : Cursor) : cur.skipBlanks.line = cur.line := by
  cases cur with
  | on passed c rest => simp [skipBlanks, line_landPastBlanks]
  | _ => rfl

@[simp] theorem line_readNumber (cur : Cursor) : cur.readNumber.left.line = cur.line := by
  cases cur with
  | on passed c rest => simp [readNumber, line_overDigits]
  | _ => rfl

theorem scan_stays_or_reads (cur : Cursor) : cur.scan.left = cur ∨ cur.scan = cur.readNumber := by
  cases cur with
  | on passed c rest =>
    simp only [scan]
    split <;> first | exact .inl rfl | exact .inr rfl
  | _ => exact .inl rfl

@[simp] theorem line_scan (cur : Cursor) : cur.scan.left.line = cur.line := by
  rcases cur.scan_stays_or_reads with h | h <;> simp [h]

@[simp] theorem line_nextToken (cur : Cursor) : cur.nextToken.left.line = cur.line := by
  simp [nextToken]

theorem skipBlanks_land (passed rest : List Char) :
    (land passed rest).skipBlanks = landPastBlanks passed rest := by
  cases rest <;> rfl

theorem nextToken_eq_scan (cur : Cursor) :
    cur.nextToken = (landPastBlanks cur.consumed cur.unread).scan := by
  rw [nextToken, advance, skipBlanks_land]

theorem length_unread_landPastBlanks (passed rest : List Char) :
    (landPastBlanks passed rest).unread.length < rest.length ∨
      ∃ passed', landPastBlanks passed rest = past passed' := by
  induction rest generalizing passed with
  | nil => exact .inr ⟨passed, rfl⟩
  | cons c rest ih =>
    unfold landPastBlanks
    split
    · exact (ih (c :: passed)).imp_left (Nat.lt_succ_of_lt ·)
    · exact .inl (Nat.lt_succ_self _)

theorem length_unread_overDigits_le (passed : List Char) (c : Char) (rest : List Char) :
    (overDigits passed c rest).unread.length ≤ rest.length := by
  induction rest generalizing passed c with
  | nil => simp [overDigits, unread]
  | cons d rest ih =>
    unfold overDigits
    split
    · exact Nat.le_succ_of_le (ih (c :: passed) d)
    · simp [unread]

theorem length_unread_scan_le (cur : Cursor) :
    cur.scan.left.unread.length ≤ cur.unread.length := by
  rcases cur.scan_stays_or_reads with h | h
  · exact Nat.le_of_eq (congrArg (fun left => left.unread.length) h)
  · rw [h]
    cases cur with
    | on passed c rest => exact length_unread_overDigits_le passed c rest
    | _ => exact Nat.le_refl _

/-- Every token but the end, and every unrecognized symbol, uses up a character. -/
theorem length_unread_nextToken (cur : Cursor) :
    cur.nextToken.left.unread.length < cur.unread.length ∨
      ∃ t, cur.nextToken.result = .ok t ∧ t.lexeme = .eof ∧ cur.nextToken.left.unread = [] := by
  rw [nextToken_eq_scan]
  rcases length_unread_landPastBlanks cur.consumed cur.unread with hLess | ⟨passed, hPast⟩
  · exact .inl (Nat.lt_of_le_of_lt (length_unread_scan_le _) hLess)
  · rw [hPast]
    exact .inr ⟨_, rfl, rfl, rfl⟩

end Cursor

end Reckoner
