import Reckoner.Proofs.Calls

/-!
# Cutting a line

A text that is cut in two reads as its parts do, one after the other, unless a run of digits goes on
across the cut. A line can be cut wherever an item begins, so what stands in front of an item reads
as the items in front of it. Of what stands behind, more text can change the first item only if that
is a number, and a number it remains.
-/

set_option autoImplicit false

namespace Reckoner

/-- What can be said of an item without its value and its text. -/
def Item.outline (item : Item) : Except Fault (Kind × Int) :=
  item.map fun t => (t.kind, t.location)

theorem Item.eq_error_of_outline {item : Item} {fault : Fault} (h : item.outline = .error fault) :
    item = .error fault := by
  cases item with
  | error other =>
    cases h
    rfl
  | ok => cases h

theorem Item.exists_token_of_outline {item : Item} {t : Token}
    (h : item.outline = Item.outline (.ok t)) :
    ∃ u, item = .ok u ∧ u.kind = t.kind ∧ u.location = t.location := by
  cases item with
  | error => cases h
  | ok u =>
    obtain ⟨hKind, hLocation⟩ := Prod.mk.inj (Except.ok.inj h)
    exact ⟨u, rfl, hKind, hLocation⟩

namespace Reading

/-- No run of digits goes on from the one text to the other. -/
def Parted (front back : List Char) : Prop :=
  ∀ c ∈ front.getLast?, ∀ d ∈ back.head?, c.isDigit = true → d.isDigit = false

theorem parted_append_iff {s front back : List Char} :
    Parted (s ++ front) back ↔ (front = [] → Parted s back) ∧ Parted front back := by
  cases front with
  | nil =>
    rw [List.append_nil]
    exact ⟨fun h => ⟨fun _ => h, fun _ hc => nomatch hc⟩, fun h => h.1 rfl⟩
  | cons c front =>
    rw [Parted, List.getLast?_append_of_ne_nil s (List.cons_ne_nil c front)]
    exact ⟨fun h => ⟨nofun, h⟩, fun h => h.2⟩

theorem parted_of_forall_mem {front : List Char} (h : ∀ c ∈ front, c.isDigit = false)
    (back : List Char) : Parted front back := by
  intro c hLast _ _ hDigit
  rw [h c (List.mem_of_getLast? hLast)] at hDigit
  cases hDigit

theorem IsRun.parted {digits rest : List Char} (h : IsRun digits rest) : Parted digits rest :=
  fun _ _ d hd _ => h.maximal d hd

theorem IsRun.append {digits rest back : List Char} (h : IsRun digits rest)
    (hParted : Parted (digits ++ rest) back) : IsRun digits (rest ++ back) where
  nonempty := h.nonempty
  isDigit := h.isDigit
  maximal := by
    cases rest with
    | nil =>
      rw [List.append_nil] at hParted
      obtain ⟨c, hLast⟩ := Option.isSome_iff_exists.mp (List.getLast?_isSome.mpr h.nonempty)
      intro d hd
      exact hParted c hLast d hd (h.isDigit c (List.mem_of_getLast? hLast))
    | cons d rest => exact h.maximal

theorem isDigit_of_mem_operators {c : Char} {lexeme : Lexeme} (h : (c, lexeme) ∈ operators) :
    c.isDigit = false := by
  simp only [operators, List.mem_cons, Prod.mk.injEq, List.not_mem_nil, or_false] at h
  rcases h with ⟨rfl, -⟩ | ⟨rfl, -⟩ | ⟨rfl, -⟩ | ⟨rfl, -⟩ <;> rfl

/-! ## Joining -/

theorem Reads.append {place : Nat} {front back : List Char} {items others : List Item}
    (h : Reads place front items) (hBack : Reads (place + front.length) back others)
    (hParted : Parted front back) : Reads place (front ++ back) (items ++ others) := by
  induction h with
  | nothing => exact hBack
  | @blank place rest items _ ih =>
    rw [List.length_cons, Nat.add_comm rest.length, ← Nat.add_assoc] at hBack
    exact .blank (ih hBack (parted_append_iff (s := [' ']).mp hParted).2)
  | @operator place c lexeme rest items hOperator _ ih =>
    rw [List.length_cons, Nat.add_comm rest.length, ← Nat.add_assoc] at hBack
    exact .operator hOperator (ih hBack (parted_append_iff (s := [c]).mp hParted).2)
  | @number place digits rest items hRun _ ih =>
    rw [List.length_append, ← Nat.add_assoc] at hBack
    rw [List.append_assoc]
    exact .number (hRun.append hParted) (ih hBack (parted_append_iff.mp hParted).2)
  | @symbol place c rest items hBlank hDigit hOperator _ ih =>
    rw [List.length_cons, Nat.add_comm rest.length, ← Nat.add_assoc] at hBack
    exact .symbol hBlank hDigit hOperator (ih hBack (parted_append_iff (s := [c]).mp hParted).2)

theorem Reads.exists_of_append {place : Nat} {front back : List Char} {items : List Item}
    (h : Reads place (front ++ back) items) (hParted : Parted front back) :
    ∃ us vs, items = us ++ vs ∧ Reads place front us ∧ Reads (place + front.length) back vs := by
  obtain ⟨us, hFront⟩ := exists_reads place front
  obtain ⟨vs, hBack⟩ := exists_reads (place + front.length) back
  exact ⟨us, vs, h.unique (hFront.append hBack hParted), hFront, hBack⟩

theorem tokens_append_cons (ts : List Token) (t : Token) (others : List Item) :
    ts.map .ok ++ .ok t :: others = (ts ++ [t]).map .ok ++ others := by simp

/-! ## Cutting where an item begins -/

/-- Two texts of which the second begins with an item of the whole, at its place. -/
structure Cut (place : Nat) (s : List Char) (items : List Item) (item : Item) (others : List Item)
    (front back : List Char) : Prop where
  line_eq : s = front ++ back
  reads_front : Reads place front items
  reads_back : Reads (place + front.length) back (item :: others)
  place_eq : item.place = (place + front.length : Nat)
  parted : Parted front back

theorem Reads.cut_first {place : Nat} {s : List Char} {item : Item} {others : List Item}
    (h : Reads place s (item :: others)) (hPlace : item.place = place) :
    Cut place s [] item others [] s :=
  ⟨rfl, .nothing place, h, hPlace, fun _ hc => nomatch hc⟩

theorem Cut.cons {place : Nat} {c : Char} {s : List Char} {items : List Item} {item : Item}
    {others : List Item} {front back : List Char} (h : Cut (place + 1) s items item others front back)
    (first : List Item) (hDigit : c.isDigit = false)
    (hFirst : Reads (place + 1) front items → Reads place (c :: front) (first ++ items)) :
    Cut place (c :: s) (first ++ items) item others (c :: front) back where
  line_eq := congrArg (List.cons c) h.line_eq
  reads_front := hFirst h.reads_front
  reads_back := by
    rw [List.length_cons, Nat.add_comm front.length, ← Nat.add_assoc]
    exact h.reads_back
  place_eq := by
    rw [h.place_eq, List.length_cons]
    omega
  parted := parted_append_iff (s := [c]).mpr ⟨fun _ => parted_of_forall_mem (by simpa using hDigit) back, h.parted⟩

theorem Reads.exists_cut {place : Nat} {s : List Char} {items others : List Item} {item : Item}
    (h : Reads place s (items ++ item :: others)) :
    ∃ front back, Cut place s items item others front back := by
  generalize hItems : items ++ item :: others = all at h
  induction h generalizing items with
  | nothing => exact absurd hItems (List.append_ne_nil_of_right_ne_nil _ (List.cons_ne_nil _ _))
  | blank _ ih =>
    obtain ⟨front, back, hCut⟩ := ih hItems
    exact ⟨' ' :: front, back, hCut.cons [] rfl .blank⟩
  | operator hOperator hRest ih =>
    rcases List.append_eq_cons_iff.mp hItems with ⟨rfl, hFirst⟩ | ⟨items, rfl, hLater⟩
    · obtain ⟨rfl, rfl⟩ := List.cons.inj hFirst
      exact ⟨[], _, (Reads.operator hOperator hRest).cut_first rfl⟩
    · obtain ⟨front, back, hCut⟩ := ih hLater.symm
      exact ⟨_ :: front, back,
        hCut.cons [_] (isDigit_of_mem_operators hOperator) (.operator hOperator)⟩
  | symbol hBlank hDigit hOperator hRest ih =>
    rcases List.append_eq_cons_iff.mp hItems with ⟨rfl, hFirst⟩ | ⟨items, rfl, hLater⟩
    · obtain ⟨rfl, rfl⟩ := List.cons.inj hFirst
      exact ⟨[], _, (Reads.symbol hBlank hDigit hOperator hRest).cut_first rfl⟩
    · obtain ⟨front, back, hCut⟩ := ih hLater.symm
      exact ⟨_ :: front, back,
        hCut.cons [_] hDigit (.symbol hBlank hDigit hOperator)⟩
  | @number place digits rest _ hRun hRest ih =>
    rcases List.append_eq_cons_iff.mp hItems with ⟨rfl, hFirst⟩ | ⟨items, rfl, hLater⟩
    · obtain ⟨rfl, rfl⟩ := List.cons.inj hFirst
      exact ⟨[], _, (Reads.number hRun hRest).cut_first rfl⟩
    · obtain ⟨front, back, hLine, hFront, hBack, hPlace, hParted⟩ := ih hLater.symm
      subst hLine
      -- The run was maximal in the whole text, so it is in what stands in front of the cut.
      refine ⟨digits ++ front, back, ?_, .number ?_ hFront, ?_, ?_, ?_⟩
      · rw [List.append_assoc]
      · refine ⟨hRun.nonempty, hRun.isDigit, ?_⟩
        intro d hd
        exact hRun.maximal d (by rw [List.head?_append, hd]; rfl)
      · rwa [List.length_append, ← Nat.add_assoc]
      · rw [hPlace, List.length_append, Nat.add_assoc]
      · refine parted_append_iff.mpr ⟨?_, hParted⟩
        rintro rfl
        exact hRun.parted

theorem Reads.place_lt {place : Nat} {s : List Char} {items : List Item} (h : Reads place s items)
    {item : Item} (hItem : item ∈ items) : item.place < (place + s.length : Nat) := by
  obtain ⟨us, vs, rfl⟩ := List.append_of_mem hItem
  obtain ⟨front, back, rfl, -, hBack, hPlace, -⟩ := h.exists_cut
  have hNonempty : back ≠ [] := by
    rintro rfl
    cases hBack.unique (.nothing _)
  have hPositive := List.length_pos_iff.mpr hNonempty
  rw [hPlace, List.length_append]
  omega

/-! ## Items that begin a text -/

theorem Reads.place_ne_of_blank {place : Nat} {s : List Char} {item : Item} {others : List Item}
    (h : Reads (place + 1) s (item :: others)) : item.place ≠ place := by
  have hLe := h.tiles.le_place (List.mem_cons_self (a := item) (l := others))
  omega

theorem Reads.exists_digits {place n : Nat} {s : List Char} {t : Token} {others : List Item}
    (h : Reads place s (.ok t :: others)) (hPlace : t.location = place)
    (hNumber : t.lexeme = .number n) : ∃ digits rest, s = digits ++ rest ∧ IsRun digits rest ∧
      Nat.ofDigitChars 10 digits 0 = n ∧ Reads (place + digits.length) rest others := by
  cases h with
  | blank hRest => exact absurd hPlace hRest.place_ne_of_blank
  | operator hOperator =>
    exact absurd (congrArg Lexeme.kind hNumber) (kind_ne_number_of_mem_operators hOperator)
  | number hRun hRest =>
    cases hNumber
    exact ⟨_, _, rfl, hRun, rfl, hRest⟩

theorem Reads.exists_operator {place : Nat} {s : List Char} {t : Token} {others : List Item}
    (h : Reads place s (.ok t :: others)) (hPlace : t.location = place)
    (hKind : t.kind ≠ .number) : ∃ c rest, s = c :: rest ∧ (c, t.lexeme) ∈ operators ∧
      Reads (place + 1) rest others := by
  cases h with
  | blank hRest => exact absurd hPlace hRest.place_ne_of_blank
  | operator hOperator hRest => exact ⟨_, _, rfl, hOperator, hRest⟩
  | number => exact absurd rfl hKind

theorem Reads.exists_symbol {place : Nat} {s : List Char} {fault : Fault} {others : List Item}
    (h : Reads place s (.error fault :: others)) (hPlace : Item.place (.error fault) = place) :
    ∃ c rest, s = c :: rest ∧ fault = .unrecognizedSymbol c.toString place ∧ c ≠ ' ' ∧
      c.isDigit = false ∧ ∀ lexeme, (c, lexeme) ∉ operators := by
  cases h with
  | blank hRest => exact absurd hPlace hRest.place_ne_of_blank
  | symbol hBlank hDigit hOperator => exact ⟨_, _, rfl, rfl, hBlank, hDigit, hOperator⟩

/-- More text behind makes a number longer, and leaves any other item as it is. -/
theorem Reads.exists_append_first {place : Nat} {s : List Char} {item : Item} {others : List Item}
    (h : Reads place s (item :: others)) (hPlace : item.place = place) (more : List Char) :
    ∃ first later, Reads place (s ++ more) (first :: later) ∧ first.outline = item.outline := by
  cases h with
  | blank hRest => exact absurd hPlace hRest.place_ne_of_blank
  | @operator _ _ _ rest _ hOperator =>
    obtain ⟨later, hLater⟩ := exists_reads (place + 1) (rest ++ more)
    exact ⟨_, later, .operator hOperator hLater, rfl⟩
  | @symbol _ _ rest _ hBlank hDigit hOperator =>
    obtain ⟨later, hLater⟩ := exists_reads (place + 1) (rest ++ more)
    exact ⟨_, later, .symbol hBlank hDigit hOperator hLater, rfl⟩
  | @number _ digits rest _ hRun =>
    -- If the text ended with the run, it goes on with the digits that are added.
    obtain ⟨d, digits, rfl⟩ := List.exists_cons_of_ne_nil hRun.nonempty
    have hLonger := isRun_takeWhile (hRun.isDigit d List.mem_cons_self) (digits ++ rest ++ more)
    obtain ⟨later, hLater⟩ := exists_reads
      (place + (d :: (digits ++ rest ++ more).takeWhile Char.isDigit).length)
      ((digits ++ rest ++ more).dropWhile Char.isDigit)
    have hNumber := Reads.number hLonger hLater
    rw [List.cons_append, List.takeWhile_append_dropWhile] at hNumber
    exact ⟨_, later, hNumber, rfl⟩

/-- An item keeps its outline, and those in front of it stay what they are. -/
theorem Reads.exists_append {place : Nat} {s : List Char} {items others : List Item} {item : Item}
    (h : Reads place s (items ++ item :: others)) (more : List Char) : ∃ first later,
      Reads place (s ++ more) (items ++ first :: later) ∧ first.outline = item.outline := by
  obtain ⟨front, back, rfl, hFront, hBack, hPlace, hParted⟩ := h.exists_cut
  obtain ⟨first, later, hFirst, hOutline⟩ := hBack.exists_append_first hPlace more
  have hHead : (back ++ more).head? = back.head? := by
    cases back with
    | nil => cases hBack.unique (.nothing _)
    | cons => rfl
  have hParted : Parted front (back ++ more) := by
    rw [Parted, hHead]
    exact hParted
  rw [List.append_assoc]
  exact ⟨first, later, hFront.append hFirst hParted, hOutline⟩

theorem Reads.eq_blank_of_nil {place : Nat} {s : List Char} (h : Reads place s []) :
    ∀ c ∈ s, c = ' ' := by
  generalize hItems : [] = items at h
  induction h with
  | nothing => exact fun _ hc => nomatch hc
  | blank _ ih => exact List.forall_mem_cons.mpr ⟨rfl, ih hItems⟩
  | operator | number | symbol => cases hItems

theorem reads_blanks {blanks : List Char} (h : ∀ c ∈ blanks, c = ' ') (place : Nat) :
    Reads place blanks [] := by
  induction blanks generalizing place with
  | nil => exact .nothing place
  | cons c blanks ih =>
    obtain ⟨rfl, hBlanks⟩ := List.forall_mem_cons.mp h
    exact .blank (ih hBlanks (place + 1))

/-- Where the last item is no number, no run of digits goes on behind the text. -/
theorem Reads.parted {place : Nat} {s : List Char} {items : List Item} (h : Reads place s items)
    (hLast : ∀ t, items.getLast? = some (.ok t) → t.kind ≠ .number) (back : List Char) :
    Parted s back := by
  have hLater {item : Item} {items : List Item} {t : Token} (h : items.getLast? = some (.ok t)) :
      (item :: items).getLast? = some (.ok t) := by
    rw [List.getLast?_cons, h]
    rfl
  induction h with
  | nothing => exact fun _ hc => nomatch hc
  | blank _ ih =>
    exact parted_append_iff (s := [' ']).mpr
      ⟨fun _ => parted_of_forall_mem (List.forall_mem_singleton.mpr rfl) back, ih hLast⟩
  | @operator _ c _ _ _ hOperator _ ih =>
    have hDigit := isDigit_of_mem_operators hOperator
    exact parted_append_iff (s := [c]).mpr
      ⟨fun _ => parted_of_forall_mem (by simpa using hDigit) back, ih fun t h => hLast t (hLater h)⟩
  | @symbol _ c _ _ _ hDigit _ _ ih =>
    exact parted_append_iff (s := [c]).mpr
      ⟨fun _ => parted_of_forall_mem (by simpa using hDigit) back, ih fun t h => hLast t (hLater h)⟩
  | number _ hRest ih =>
    refine parted_append_iff.mpr ⟨?_, ih fun t h => hLast t (hLater h)⟩
    rintro rfl
    obtain rfl := hRest.unique (.nothing _)
    exact absurd rfl (hLast _ rfl)

end Reading

/-- What the calls on a line bring before the end is read from it. -/
theorem Cursor.exists_reads_of_ahead {line : String} {front others : List Item} {item : Item}
    (h : (before line.toList).ahead = front ++ item :: others) (hItem : item.isEnding = false) :
    ∃ later, Reading.Reads 0 line.toList (front ++ item :: later) := by
  obtain ⟨items, hReads⟩ := Reading.exists_reads 0 line.toList
  rw [reads_before_iff.mp hReads] at h
  rcases List.eq_nil_or_concat' others with rfl | ⟨later, last, rfl⟩
  · obtain ⟨-, hLast⟩ := List.append_inj' h rfl
    rw [← List.singleton_inj.mp hLast] at hItem
    cases hItem
  · rw [← List.cons_append, ← List.append_assoc] at h
    obtain ⟨rfl, -⟩ := List.append_inj' h rfl
    exact ⟨later, hReads⟩

end Reckoner
