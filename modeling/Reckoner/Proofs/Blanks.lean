import Reckoner.Proofs.Concatenations

/-!
# Blanks put into a line

Blanks can be put in at any place of a line that does not part two digits. The items in front of the
place stay and those behind it move on by the number of the blanks, and nothing else changes: neither
the tokens nor the value nor what the line is refused for.
-/

set_option autoImplicit false

namespace Reckoner

open Reading

/-- A line with some blanks put in at a place. -/
def spaced (line : String) (i k : Nat) : String :=
  String.ofList (line.toList.take i ++ List.replicate k ' ' ++ line.toList.drop i)

/-- Where a place of a line has gone when blanks have been put in. -/
def makeRoom (i k : Nat) (place : Int) : Int := if place < i then place else place + k

/-- An ASCII digit stands at a place of a line. -/
def DigitAt (line : String) (place : Int) : Prop :=
  ∃ n : Nat, place = n ∧ ∃ c ∈ line.toList[n]?, c.isDigit = true

namespace Reading

theorem parted_of_not_digitAt {line : String} {i : Nat} (hi : i ≤ line.length)
    (h : ¬ (DigitAt line ((i : Int) - 1) ∧ DigitAt line i)) :
    Parted (line.toList.take i) (line.toList.drop i) := by
  intro c hc d hd hDigit
  rw [← Bool.not_eq_true]
  intro hBehind
  rw [List.head?_drop] at hd
  cases i with
  | zero => cases hc
  | succ i =>
    rw [← String.length_toList] at hi
    rw [List.getLast?_take, if_neg (Nat.succ_ne_zero i), Nat.add_sub_cancel,
      List.getElem?_eq_getElem hi, Option.some_or, ← List.getElem?_eq_getElem hi] at hc
    exact h ⟨⟨i, by omega, c, hc, hDigit⟩, ⟨i + 1, rfl, d, hd, hBehind⟩⟩

theorem parted_replicate {front back : List Char} (h : Parted front back) (k : Nat) :
    Parted front (List.replicate k ' ' ++ back) := by
  cases k with
  | zero => simpa using h
  | succ k =>
    rintro _ _ _ ⟨rfl⟩ _
    rfl

theorem map_relocate_makeRoom_of_lt {items : List Item} {i : Nat} (h : ∀ item ∈ items, item.place < i)
    (k : Nat) : items.map (Item.relocate (makeRoom i k)) = items := by
  have hSame : ∀ item ∈ items, item.relocate (makeRoom i k) = id item := fun item hItem =>
    Item.relocate_of_place_eq (if_pos (h item hItem))
  rw [List.map_congr_left hSame, List.map_id]

theorem map_relocate_makeRoom_of_le {items : List Item} {i : Nat} (h : ∀ item ∈ items, i ≤ item.place)
    (k : Nat) : items.map (Item.relocate (makeRoom i k)) = items.map (Item.relocate (· + k)) :=
  List.map_congr_left fun item hItem =>
    Item.relocate_congr (if_neg (Int.not_lt.mpr (h item hItem)))

theorem Reads.spaced {line : String} {items : List Item} {i : Nat} (h : Reads 0 line.toList items)
    (hi : i ≤ line.length) (hParted : Parted (line.toList.take i) (line.toList.drop i)) (k : Nat) :
    Reads 0 (spaced line i k).toList (items.map (Item.relocate (makeRoom i k))) := by
  rw [← List.take_append_drop i line.toList] at h
  obtain ⟨us, vs, rfl, hFront, hBack⟩ := h.exists_of_append hParted
  have hLength : 0 + (line.toList.take i).length = i := by
    rw [Nat.zero_add]
    exact List.length_take_of_le (String.length_toList ▸ hi)
  have hBefore : ∀ item ∈ us, item.place < i := fun item hItem => by
    have hLess := hFront.place_lt hItem
    rwa [hLength] at hLess
  have hBehind : ∀ item ∈ vs, (i : Int) ≤ item.place := fun item hItem => by
    have hLe := hBack.tiles.le_place hItem
    rwa [hLength] at hLe
  have hBlanks : ∀ c ∈ List.replicate k ' ', c = ' ' := fun c hc => List.eq_of_mem_replicate hc
  have hApart : Parted (List.replicate k ' ') (line.toList.drop i) :=
    parted_of_forall_mem (fun c hc => hBlanks c hc ▸ rfl) _
  have hLater := hBack.relocate k
  have hPlace : 0 + (line.toList.take i).length + k =
      0 + (line.toList.take i).length + (List.replicate k ' ').length := by
    rw [List.length_replicate]
  rw [hPlace] at hLater
  -- In front of the cut nothing moves, and all that is behind moves on with the blanks.
  rw [List.map_append, map_relocate_makeRoom_of_lt hBefore, map_relocate_makeRoom_of_le hBehind,
    Reckoner.spaced, String.toList_ofList, List.append_assoc]
  exact hFront.append ((reads_blanks hBlanks _).append hLater hApart) (parted_replicate hParted k)

end Reading

theorem length_spaced {line : String} {i : Nat} (hi : i ≤ line.length) (k : Nat) :
    makeRoom i k line.length = (spaced line i k).length := by
  rw [← String.length_toList] at hi
  rw [makeRoom, if_neg (by rw [← String.length_toList]; omega), spaced, String.length_ofList,
    ← String.length_toList]
  simp only [List.length_append, List.length_take, List.length_replicate, List.length_drop]
  omega

theorem Feed.result_tokens_of_relocate {f : Int → Int} {line line' : String} {items : List Item}
    (hReads : Reads 0 line.toList items) (hOthers : Reads 0 line'.toList (items.map (Item.relocate f)))
    (hLength : f line.length = line'.length) : (tokens line').result =
      ((tokens line).result.map (List.map (Token.relocate f))).mapError (Fault.relocate f) := by
  rw [result_tokens_of_reads hReads, result_tokens_of_reads hOthers, ← Item.gather_relocate,
    Item.map_relocate_concat_ending f hLength]

/-- If blanks are put in where no two digits are parted, a line keeps its value or its fault and all of
its tokens, but what stood at the place of the blanks or behind it stands as much further on as there
are blanks. -/
theorem outcome_of_spacing (line : String) {i : Nat} (hi : i ≤ line.length)
    (hDigits : ¬ (DigitAt line ((i : Int) - 1) ∧ DigitAt line i)) (k : Nat) :
    (Reckoning.ofLine (spaced line i k)).result =
      (Reckoning.ofLine line).result.mapError (Fault.relocate (makeRoom i k)) ∧
    (Feed.tokens (spaced line i k)).result =
      ((Feed.tokens line).result.map (List.map (Token.relocate (makeRoom i k)))).mapError
        (Fault.relocate (makeRoom i k)) := by
  obtain ⟨items, hReads⟩ := exists_reads 0 line.toList
  have hSpaced := hReads.spaced hi (parted_of_not_digitAt hi hDigits) k
  have hLength := length_spaced hi k
  exact ⟨Reckoning.result_of_corresponds hReads hSpaced (Item.forall₂_corresponds_relocate _ items) hLength,
    Feed.result_tokens_of_relocate hReads hSpaced hLength⟩

/-- The refused character moves on with the blanks behind the digit. -/
theorem outcome_of_spacing_before_symbol :
    1 ≤ "7?".length ∧ ¬ (DigitAt "7?" (((1 : Nat) : Int) - 1) ∧ DigitAt "7?" (1 : Nat)) ∧
      spaced "7?" 1 2 = "7  ?" ∧
      (Reckoning.ofLine (spaced "7?" 1 2)).result = .error (.unrecognizedSymbol "?" 3) := by
  have hLength : 1 ≤ "7?".length := by decide
  have hDigits : ¬ (DigitAt "7?" (((1 : Nat) : Int) - 1) ∧ DigitAt "7?" (1 : Nat)) := by
    rintro ⟨-, n, hPlace, c, hc, hDigit⟩
    obtain rfl : 1 = n := Int.ofNat_inj.mp hPlace
    cases hc
    cases hDigit
  exact ⟨hLength, hDigits, rfl, (outcome_of_spacing "7?" hLength hDigits 2).1⟩

end Reckoner
