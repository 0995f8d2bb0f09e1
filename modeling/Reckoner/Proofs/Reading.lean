import Mathlib.Data.List.Chain
import Mathlib.Data.List.TakeWhile
import Reckoner.Feed

/-!
# Reading a line

The items of a line, said of its characters alone. Blanks stand for nothing, an operator is a token
of its own, a run of digits that no digit follows is one number, and each other character is an
unrecognized symbol that stops nobody from reading on. The items tile the line: they stand in order
where their characters stand, and between them are blanks.
-/

set_option autoImplicit false

namespace Reckoner

/-- The end of a line, as a token. -/
def Token.ending (place : Int) : Token := ⟨.eof, place, ""⟩

namespace Item

def place : Item → Int
  | .ok t => t.location
  | .error fault => fault.location?.getD 0

/-- The characters of the line that an item takes up. -/
def covered : Item → List Char
  | .ok t => t.text.toList
  | .error (.unrecognizedSymbol symbol _) => symbol.toList
  | .error _ => []

def stop (item : Item) : Int := place item + (covered item).length

end Item

namespace Reading

def operators : List (Char × Lexeme) := [('+', .plus), ('-', .minus), ('*', .star), ('/', .slash)]

/-- Some digits, with a rest that does not go on with a digit. -/
structure IsRun (digits rest : List Char) : Prop where
  nonempty : digits ≠ []
  isDigit : ∀ d ∈ digits, d.isDigit = true
  maximal : ∀ d ∈ rest.head?, d.isDigit = false

/-- What a text that begins at a place of its line is read as. -/
inductive Reads : Nat → List Char → List Item → Prop
  | nothing (place : Nat) : Reads place [] []
  | blank {place : Nat} {rest : List Char} {items : List Item} (hRest : Reads (place + 1) rest items) :
      Reads place (' ' :: rest) items
  | operator {place : Nat} {c : Char} {lexeme : Lexeme} {rest : List Char} {items : List Item}
      (hOperator : (c, lexeme) ∈ operators) (hRest : Reads (place + 1) rest items) :
      Reads place (c :: rest) (.ok ⟨lexeme, place, c.toString⟩ :: items)
  | number {place : Nat} {digits rest : List Char} {items : List Item} (hRun : IsRun digits rest)
      (hRest : Reads (place + digits.length) rest items) :
      Reads place (digits ++ rest)
        (.ok ⟨.number (Nat.ofDigitChars 10 digits 0), place, String.ofList digits⟩ :: items)
  | symbol {place : Nat} {c : Char} {rest : List Char} {items : List Item} (hBlank : c ≠ ' ')
      (hDigit : c.isDigit = false) (hOperator : ∀ lexeme, (c, lexeme) ∉ operators)
      (hRest : Reads (place + 1) rest items) :
      Reads place (c :: rest) (.error (.unrecognizedSymbol c.toString place) :: items)

theorem isRun_takeWhile {c : Char} (hDigit : c.isDigit = true) (rest : List Char) :
    IsRun (c :: rest.takeWhile Char.isDigit) (rest.dropWhile Char.isDigit) where
  nonempty := List.cons_ne_nil _ _
  isDigit d hd := by
    rcases List.mem_cons.mp hd with rfl | hd
    · exact hDigit
    · exact List.mem_takeWhile_imp hd
  maximal d hd := by
    have h := List.head?_dropWhile_not Char.isDigit rest
    rw [hd] at h
    simpa using h

theorem IsRun.takeWhile_append {c : Char} {digits rest : List Char} (h : IsRun (c :: digits) rest) :
    (digits ++ rest).takeWhile Char.isDigit = digits := by
  have hRest : rest.takeWhile Char.isDigit = [] := by
    cases rest with
    | nil => rfl
    | cons d rest => rw [List.takeWhile_cons, h.maximal d rfl, if_neg Bool.false_ne_true]
  rw [List.takeWhile_append_of_pos fun d hd => h.isDigit d (List.mem_cons_of_mem c hd), hRest,
    List.append_nil]

theorem IsRun.dropWhile_append {c : Char} {digits rest : List Char} (h : IsRun (c :: digits) rest) :
    (digits ++ rest).dropWhile Char.isDigit = rest := by
  have hSplit : (digits ++ rest).takeWhile Char.isDigit ++ (digits ++ rest).dropWhile Char.isDigit =
      digits ++ rest := List.takeWhile_append_dropWhile
  rw [h.takeWhile_append] at hSplit
  exact List.append_cancel_left hSplit

theorem exists_reads (place : Nat) (s : List Char) : ∃ items, Reads place s items := by
  induction hLength : s.length using Nat.strongRecOn generalizing place s with
  | ind n ih =>
    subst hLength
    cases s with
    | nil => exact ⟨[], .nothing place⟩
    | cons c rest =>
      obtain ⟨items, hItems⟩ := ih rest.length (Nat.lt_succ_self _) (place + 1) rest rfl
      by_cases hBlank : c = ' '
      · subst hBlank
        exact ⟨items, .blank hItems⟩
      by_cases hDigit : c.isDigit = true
      · have hRun := isRun_takeWhile hDigit rest
        have hLess : (rest.dropWhile Char.isDigit).length < (c :: rest).length :=
          Nat.lt_succ_of_le (List.length_dropWhile_le _ _)
        obtain ⟨others, hOthers⟩ := ih _ hLess
          (place + (c :: rest.takeWhile Char.isDigit).length) (rest.dropWhile Char.isDigit) rfl
        have hNumber := Reads.number hRun hOthers
        rw [List.cons_append, List.takeWhile_append_dropWhile] at hNumber
        exact ⟨_, hNumber⟩
      by_cases hOperator : ∃ lexeme, (c, lexeme) ∈ operators
      · obtain ⟨lexeme, hOperator⟩ := hOperator
        exact ⟨_, .operator hOperator hItems⟩
      · exact ⟨_, .symbol hBlank (Bool.eq_false_iff.mpr hDigit) (not_exists.mp hOperator) hItems⟩

theorem Reads.eq_unrecognizedSymbol_of_mem {place : Nat} {s : List Char} {items : List Item}
    {fault : Fault} (h : Reads place s items) (hMem : .error fault ∈ items) :
    ∃ symbol position, fault = .unrecognizedSymbol symbol position := by
  induction h with
  | nothing => cases hMem
  | blank _ ih => exact ih hMem
  | operator _ _ ih | number _ _ ih =>
    rcases List.mem_cons.mp hMem with hItem | hMem
    · cases hItem
    · exact ih hMem
  | symbol _ _ _ _ ih =>
    rcases List.mem_cons.mp hMem with hItem | hMem
    · cases hItem
      exact ⟨_, _, rfl⟩
    · exact ih hMem

/-- Items in order on a text that begins at a place, each over its characters, with blanks between. -/
inductive Tiles : Nat → List Char → List Item → Prop
  | nothing (place : Nat) : Tiles place [] []
  | blank {place : Nat} {rest : List Char} {items : List Item} (hRest : Tiles (place + 1) rest items) :
      Tiles place (' ' :: rest) items
  | item {place : Nat} {item : Item} {text rest : List Char} {items : List Item}
      (hPlace : item.place = place) (hText : item.covered = text) (hBlank : ' ' ∉ text)
      (hRest : Tiles (place + text.length) rest items) : Tiles place (text ++ rest) (item :: items)

theorem not_mem_of_isDigit {digits : List Char} (h : ∀ d ∈ digits, d.isDigit = true) :
    ' ' ∉ digits := by
  intro hBlank
  exact absurd (h ' ' hBlank) (by decide)

theorem ne_blank_of_mem_operators {c : Char} {lexeme : Lexeme} (h : (c, lexeme) ∈ operators) :
    c ≠ ' ' := by
  rintro rfl
  simp [operators] at h

theorem Reads.tiles {place : Nat} {s : List Char} {items : List Item} (h : Reads place s items) :
    Tiles place s items := by
  induction h with
  | nothing place => exact .nothing place
  | blank _ ih => exact .blank ih
  | @operator place c lexeme rest items hOperator _ ih =>
    have hText : Item.covered (.ok ⟨lexeme, place, c.toString⟩) = [c] := String.toList_singleton c
    have hBlank : ' ' ∉ [c] := by simpa using (ne_blank_of_mem_operators hOperator).symm
    exact .item rfl hText hBlank ih
  | number hRun _ ih => exact .item rfl String.toList_ofList (not_mem_of_isDigit hRun.isDigit) ih
  | @symbol place c rest items hBlank _ _ _ ih =>
    have hText : Item.covered (.error (.unrecognizedSymbol c.toString place)) = [c] :=
      String.toList_singleton c
    have hBlank : ' ' ∉ [c] := by simpa using hBlank.symm
    exact .item rfl hText hBlank ih

theorem Tiles.split {place : Nat} {s : List Char} {items : List Item} (h : Tiles place s items)
    {item : Item} (hItem : item ∈ items) : ∃ before after,
      s = before ++ item.covered ++ after ∧ item.place = place + before.length := by
  induction h with
  | nothing => cases hItem
  | blank _ ih =>
    obtain ⟨before, after, rfl, hPlace⟩ := ih hItem
    exact ⟨' ' :: before, after, rfl, by rw [hPlace, List.length_cons]; omega⟩
  | @item place first text rest items hFirst hText _ _ ih =>
    rcases List.mem_cons.mp hItem with rfl | hItem
    · exact ⟨[], rest, by rw [hText, List.nil_append], by simpa using hFirst⟩
    · obtain ⟨before, after, rfl, hPlace⟩ := ih hItem
      refine ⟨text ++ before, after, by simp, ?_⟩
      rw [hPlace, List.length_append]
      omega

theorem Tiles.le_place {place : Nat} {s : List Char} {items : List Item} (h : Tiles place s items)
    {item : Item} (hItem : item ∈ items) : (place : Int) ≤ item.place := by
  obtain ⟨before, _, _, hPlace⟩ := h.split hItem
  omega

theorem Tiles.pairwise {place : Nat} {s : List Char} {items : List Item} (h : Tiles place s items) :
    items.Pairwise fun a b => a.stop ≤ b.place := by
  induction h with
  | nothing => exact List.Pairwise.nil
  | blank _ ih => exact ih
  | item hPlace hText _ hRest ih =>
    refine List.pairwise_cons.mpr ⟨?_, ih⟩
    intro other hOther
    have hOther := hRest.le_place hOther
    rw [Item.stop, hPlace, hText]
    omega

/-- Just the blanks are left uncovered. -/
theorem Tiles.getElem_eq_blank_iff {place : Nat} {s : List Char} {items : List Item}
    (h : Tiles place s items) (i : Nat) (hi : i < s.length) :
    s[i] = ' ' ↔ ∀ item ∈ items, ¬ (item.place ≤ place + i ∧ (place + i : Int) < item.stop) := by
  induction h generalizing i with
  | nothing => simp at hi
  | @blank place rest items hRest ih =>
    cases i with
    | zero =>
      refine iff_of_true rfl ?_
      intro item hItem
      have hPlace := hRest.le_place hItem
      omega
    | succ i =>
      have hShift : ((place + 1 : Nat) + i : Int) = place + (i + 1 : Nat) := by omega
      rw [List.getElem_cons_succ, ih i (Nat.lt_of_succ_lt_succ hi), hShift]
  | @item place first text rest items hPlace hText hBlank hRest ih =>
    rw [List.forall_mem_cons, Item.stop, hPlace, hText]
    by_cases hFirst : i < text.length
    · rw [List.getElem_append_left hFirst]
      have hNe : text[i] ≠ ' ' := fun h => hBlank (h ▸ List.getElem_mem hFirst)
      refine iff_of_false hNe ?_
      rintro ⟨hNot, -⟩
      omega
    · have hLength : i < text.length + rest.length := by simpa using hi
      have hShift : ((place + text.length : Nat) + (i - text.length : Nat) : Int) = place + i := by
        omega
      have hNot : ¬ ((place : Int) ≤ place + i ∧ (place + i : Int) < place + text.length) := by omega
      rw [List.getElem_append_right (by omega), ih (i - text.length) (by omega), hShift]
      exact (and_iff_right hNot).symm

theorem slice_append (before middle after : List Char) :
    Text.slice before.length (before.length + middle.length) (before ++ middle ++ after) = middle := by
  have hStop : Text.offset (before ++ middle ++ after).length (before.length + middle.length) =
      (before ++ middle).length := by
    simp only [Text.offset, List.length_append]
    omega
  have hStart : Text.offset (before ++ middle ++ after).length before.length = before.length := by
    simp only [Text.offset, List.length_append]
    omega
  rw [Text.slice, hStop, hStart, List.take_left, List.drop_left]

theorem Tiles.slice_eq {s : List Char} {items : List Item} (h : Tiles 0 s items) {item : Item}
    (hItem : item ∈ items) : Text.slice item.place item.stop s = item.covered := by
  obtain ⟨before, after, rfl, hPlace⟩ := h.split hItem
  have hPlace : item.place = before.length := by simpa using hPlace
  rw [Item.stop, hPlace]
  exact slice_append before item.covered after

/-- Two items that, if they are numbers, are kept apart by a blank behind the first. -/
def Apart (s : List Char) (a b : Item) : Prop :=
  ∀ t u : Token, a = .ok t → b = .ok u → t.kind = .number → u.kind = .number →
    a.stop < b.place ∧ s[a.stop.toNat]? = some ' '

theorem kind_ne_number_of_mem_operators {c : Char} {lexeme : Lexeme}
    (h : (c, lexeme) ∈ operators) : lexeme.kind ≠ .number := by
  intro hKind
  cases lexeme <;> simp [operators, Lexeme.kind] at h hKind

theorem Reads.blank_of_number {place : Nat} {s : List Char} {u : Token} {others : List Item}
    (h : Reads place s (.ok u :: others)) (hHead : ∀ d ∈ s.head?, d.isDigit = false)
    (hKind : u.kind = .number) : s.head? = some ' ' ∧ (place : Int) < u.location := by
  generalize hItems : Except.ok u :: others = items at h
  cases h with
  | nothing => cases hItems
  | blank hRest =>
    have hLe : ((place + 1 : Nat) : Int) ≤ Item.place (.ok u) :=
      hRest.tiles.le_place (hItems ▸ List.mem_cons_self)
    refine ⟨rfl, ?_⟩
    change ((place + 1 : Nat) : Int) ≤ u.location at hLe
    omega
  | operator hOperator =>
    cases hItems
    exact absurd hKind (kind_ne_number_of_mem_operators hOperator)
  | @number _ digits rest _ hRun =>
    obtain ⟨d, digits, rfl⟩ := List.exists_cons_of_ne_nil hRun.nonempty
    have hDigit := hRun.isDigit d List.mem_cons_self
    rw [hHead d rfl] at hDigit
    cases hDigit
  | symbol => cases hItems

theorem Reads.isChain_apart {place : Nat} {s : List Char} {items : List Item}
    (h : Reads place s items) (before : List Char) (hBefore : before.length = place) :
    items.IsChain (Apart (before ++ s)) := by
  induction h generalizing before with
  | nothing => exact List.IsChain.nil
  | @blank place rest items _ ih =>
    have h := ih (before ++ [' ']) (by rw [List.length_append, hBefore, List.length_singleton])
    rwa [List.append_assoc] at h
  | @operator place c lexeme rest items hOperator _ ih =>
    have h := ih (before ++ [c]) (by rw [List.length_append, hBefore, List.length_singleton])
    rw [List.append_assoc] at h
    refine List.isChain_cons.mpr ⟨?_, h⟩
    intro other _ t u hFirst _ hNumber
    cases hFirst
    exact absurd hNumber (kind_ne_number_of_mem_operators hOperator)
  | @number place digits rest items hRun hRest ih =>
    have h := ih (before ++ digits) (by rw [List.length_append, hBefore])
    rw [List.append_assoc] at h
    refine List.isChain_cons.mpr ⟨?_, h⟩
    intro other hOther t u hFirst hSecond _ hNumber
    obtain ⟨others, rfl⟩ := List.head?_eq_some_iff.mp hOther
    subst hSecond
    obtain ⟨hBlank, hLess⟩ := hRest.blank_of_number hRun.maximal hNumber
    have hStop : Item.stop (.ok ⟨.number (Nat.ofDigitChars 10 digits 0), place,
        String.ofList digits⟩) = (before ++ digits).length := by
      simp [Item.stop, Item.place, Item.covered, hBefore]
    rw [hStop]
    constructor
    · rw [List.length_append, hBefore]
      exact hLess
    · rw [Int.toNat_natCast, ← List.append_assoc, List.getElem?_append_right (Nat.le_refl _),
        Nat.sub_self, ← List.head?_eq_getElem?, hBlank]
  | @symbol place c rest items _ _ _ _ ih =>
    have h := ih (before ++ [c]) (by rw [List.length_append, hBefore, List.length_singleton])
    rw [List.append_assoc] at h
    refine List.isChain_cons.mpr ⟨?_, h⟩
    intro other _ t u hFirst
    cases hFirst

/-! ## Lexemes of a text -/

/-- The tokens of a text have some lexemes, wherever the text stands. -/
def ReadsAs (place : Nat) (s : List Char) (ls : List Lexeme) : Prop :=
  ∃ ts : List Token, Reads place s (ts.map .ok) ∧ ts.map Token.lexeme = ls

theorem readsAs_nil (place : Nat) : ReadsAs place [] [] := ⟨[], .nothing place, rfl⟩

theorem readsAs_operator {place : Nat} {c : Char} {l : Lexeme} {rest : List Char} {ls : List Lexeme}
    (hOperator : (c, l) ∈ operators) (h : ReadsAs (place + 1) rest ls) :
    ReadsAs place (c :: rest) (l :: ls) := by
  obtain ⟨ts, hReads, rfl⟩ := h
  exact ⟨⟨l, place, c.toString⟩ :: ts, .operator hOperator hReads, rfl⟩

end Reading

end Reckoner
