import Reckoner.Cursor

/-!
# Feeding tokens from a line

A feed is a cursor with the record of everything pulled through it. All readers of a line share one
feed, and each pull brings the next item: a token, the end as often as it is asked for, or the
fault that stands in place of a token.
-/

set_option autoImplicit false

namespace Reckoner

abbrev Item := Except Fault Token

/-- The items pulled so far are kept latest first. -/
structure Feed where
  cursor : Cursor
  pulled : List Item := []

namespace Feed

def ofLine (line : String) : Feed := ⟨.before line.toList, []⟩

def pull (feed : Feed) : Outcome Feed Token :=
  match feed.cursor.nextToken with
  | ⟨item, cursor⟩ => ⟨item, cursor, item :: feed.pulled⟩

/-- The number of characters that no pull has reached; loops end because it falls. -/
def remaining (feed : Feed) : Nat := feed.cursor.unread.length

@[simp] theorem result_pull (feed : Feed) : feed.pull.result = feed.cursor.nextToken.result := rfl

@[simp] theorem cursor_left_pull (feed : Feed) :
    feed.pull.left.cursor = feed.cursor.nextToken.left := rfl

@[simp] theorem pulled_left_pull (feed : Feed) :
    feed.pull.left.pulled = feed.pull.result :: feed.pulled := rfl

theorem remaining_pull_le (feed : Feed) : feed.pull.left.remaining ≤ feed.remaining := by
  rcases feed.cursor.length_unread_nextToken with h | ⟨t, _, _, h⟩
  · exact Nat.le_of_lt h
  · simp [remaining, h]

theorem remaining_lt_of_pull {feed next : Feed} {t : Token} (h : feed.pull = ⟨.ok t, next⟩)
    (ht : t.lexeme ≠ .eof) : next.remaining < feed.remaining := by
  have hItem : feed.cursor.nextToken.result = .ok t := congrArg Outcome.result h
  have hNext : feed.pull.left = next := congrArg Outcome.left h
  rcases feed.cursor.length_unread_nextToken with hLess | ⟨t', hOk, hEof, _⟩
  · rw [← hNext]
    exact hLess
  · rw [hItem] at hOk
    cases hOk
    exact absurd hEof ht

/-- Pulls up to the end, which is taken and not kept, or to the first fault. -/
def drain (feed : Feed) : Outcome Feed (List Token) :=
  match h : feed.pull with
  | ⟨.error fault, next⟩ => ⟨.error fault, next⟩
  | ⟨.ok t, next⟩ =>
    if ht : t.lexeme = .eof then ⟨.ok [], next⟩
    else
      have := remaining_lt_of_pull h ht
      next.drain.map (t :: ·)
termination_by feed.remaining

/-- All tokens of a line and then the end, which is pulled once more for it. -/
def tokens (line : String) : Outcome Feed (List Token) :=
  (ofLine line).drain.andThen fun ts feed => feed.pull.map fun t => ts ++ [t]

end Feed

end Reckoner
