/-!
# Terminal control sequences

A control sequence is ESC and an opening square bracket, any number of parameter characters, any
number of intermediate characters, and one final character. Text that is not for a terminal is
written without them. The three classes are disjoint, so a sequence can be read in only one way.
-/

set_option autoImplicit false

namespace Reckoner.Text

def isParameter (c : Char) : Bool := '0' ≤ c && c ≤ '?'

def isIntermediate (c : Char) : Bool := ' ' ≤ c && c ≤ '/'

def isFinal (c : Char) : Bool := '@' ≤ c && c ≤ '~'

/-- What follows the control sequence that a text begins with, if it begins with one. -/
def afterSequence? : List Char → Option (List Char)
  | '\x1b' :: '[' :: body =>
    match (body.dropWhile isParameter).dropWhile isIntermediate with
    | c :: rest => if isFinal c then some rest else none
    | [] => none
  | _ => none

theorem length_dropWhile_le (p : Char → Bool) (s : List Char) :
    (s.dropWhile p).length ≤ s.length :=
  (List.dropWhile_suffix p).length_le

theorem length_lt_of_afterSequence? {s rest : List Char} (h : afterSequence? s = some rest) :
    rest.length < s.length := by
  unfold afterSequence? at h
  split at h
  · next body =>
    split at h
    · next c tail hTail =>
      split at h
      · cases h
        have hParameters := length_dropWhile_le isParameter body
        have hIntermediates := length_dropWhile_le isIntermediate (body.dropWhile isParameter)
        rw [hTail] at hIntermediates
        simp only [List.length_cons] at hIntermediates ⊢
        omega
      · cases h
    · cases h
  · cases h

/-- Removes every control sequence, from the left; what then stands together is not read again. -/
def withoutSequences (s : List Char) : List Char :=
  match h : afterSequence? s with
  | some rest =>
    have := length_lt_of_afterSequence? h
    withoutSequences rest
  | none =>
    match s with
    | [] => []
    | c :: rest => c :: withoutSequences rest
termination_by s.length

@[simp] theorem withoutSequences_nil : withoutSequences [] = [] := by
  rw [withoutSequences]
  rfl

theorem withoutSequences_cons {c : Char} {rest : List Char} (h : afterSequence? (c :: rest) = none) :
    withoutSequences (c :: rest) = c :: withoutSequences rest := by
  rw [withoutSequences]
  split
  · next hSome =>
    rw [h] at hSome
    cases hSome
  · rfl

end Reckoner.Text
