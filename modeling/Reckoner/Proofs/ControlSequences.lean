import Mathlib.Data.List.TakeWhile
import Reckoner.Text.ControlSequence

/-!
# Taking control sequences out of a text

A text is read from the left. Where a control sequence begins it is left out, and reading goes on behind
it; any other character is kept. At one place at most one control sequence begins, so what is left is
told by the text. A line break is in no control sequence, and where there is no ESC nothing is left out.
-/

set_option autoImplicit false

namespace Reckoner.Text

/-- ESC and a bracket, parameter characters, intermediate characters and one final character. -/
inductive IsSequence : List Char → Prop
  | intro {parameters intermediates : List Char} {final : Char}
      (hParameters : ∀ c ∈ parameters, '0' ≤ c ∧ c ≤ '?')
      (hIntermediates : ∀ c ∈ intermediates, ' ' ≤ c ∧ c ≤ '/') (hFinal : '@' ≤ final ∧ final ≤ '~') :
      IsSequence ('\x1b' :: '[' :: (parameters ++ (intermediates ++ [final])))

/-- The one text is what is left of the other without its control sequences. -/
inductive Strips : List Char → List Char → Prop
  | nil : Strips [] []
  | sequence {front rest stripped : List Char} (hFront : IsSequence front) (hRest : Strips rest stripped) :
      Strips (front ++ rest) stripped
  | keep {c : Char} {rest stripped : List Char}
      (hNone : ∀ front back, c :: rest = front ++ back → ¬ IsSequence front)
      (hRest : Strips rest stripped) : Strips (c :: rest) (c :: stripped)

/-! ## One control sequence -/

theorem isParameter_iff {c : Char} : isParameter c = true ↔ '0' ≤ c ∧ c ≤ '?' := by
  simp [isParameter]

theorem isIntermediate_iff {c : Char} : isIntermediate c = true ↔ ' ' ≤ c ∧ c ≤ '/' := by
  simp [isIntermediate]

theorem isFinal_iff {c : Char} : isFinal c = true ↔ '@' ≤ c ∧ c ≤ '~' := by
  simp [isFinal]

theorem le_iff_toNat_le {c d : Char} : c ≤ d ↔ c.toNat ≤ d.toNat :=
  Char.le_def.trans UInt32.le_iff_toNat_le

theorem isParameter_of_isIntermediate {c : Char} (h : isIntermediate c = true) :
    isParameter c = false := by
  have hLe : c.toNat ≤ '/'.toNat := le_iff_toNat_le.mp (isIntermediate_iff.mp h).2
  refine Bool.eq_false_iff.mpr fun hParameter => ?_
  have hGe : '0'.toNat ≤ c.toNat := le_iff_toNat_le.mp (isParameter_iff.mp hParameter).1
  exact absurd (Nat.le_trans hGe hLe) (by decide)

theorem isParameter_of_isFinal {c : Char} (h : isFinal c = true) : isParameter c = false := by
  have hGe : '@'.toNat ≤ c.toNat := le_iff_toNat_le.mp (isFinal_iff.mp h).1
  refine Bool.eq_false_iff.mpr fun hParameter => ?_
  have hLe : c.toNat ≤ '?'.toNat := le_iff_toNat_le.mp (isParameter_iff.mp hParameter).2
  exact absurd (Nat.le_trans hGe hLe) (by decide)

theorem isIntermediate_of_isFinal {c : Char} (h : isFinal c = true) : isIntermediate c = false := by
  have hGe : '@'.toNat ≤ c.toNat := le_iff_toNat_le.mp (isFinal_iff.mp h).1
  refine Bool.eq_false_iff.mpr fun hIntermediate => ?_
  have hLe : c.toNat ≤ '/'.toNat := le_iff_toNat_le.mp (isIntermediate_iff.mp hIntermediate).2
  exact absurd (Nat.le_trans hGe hLe) (by decide)

theorem dropWhile_append_of_head {p : Char → Bool} {front rest : List Char}
    (hFront : ∀ c ∈ front, p c = true) (hRest : ∀ c ∈ rest.head?, p c = false) :
    (front ++ rest).dropWhile p = rest := by
  rw [List.dropWhile_append_of_pos hFront]
  cases rest with
  | nil => rfl
  | cons c rest =>
    have hHead := hRest c rfl
    exact List.dropWhile_cons_of_neg (Bool.eq_false_iff.mp hHead)

theorem afterSequence?_append {front : List Char} (h : IsSequence front) (rest : List Char) :
    afterSequence? (front ++ rest) = some rest := by
  obtain ⟨hParameters, hIntermediates, hFinal⟩ := h
  rename_i parameters intermediates final
  have hFinal := isFinal_iff.mpr hFinal
  have hHead : ∀ c ∈ (intermediates ++ (final :: rest)).head?, isParameter c = false := by
    intro c hc
    cases intermediates with
    | nil => exact Option.some.inj hc ▸ isParameter_of_isFinal hFinal
    | cons d intermediates =>
      have hd := isIntermediate_iff.mpr (hIntermediates d List.mem_cons_self)
      exact Option.some.inj hc ▸ isParameter_of_isIntermediate hd
  have hFirst := dropWhile_append_of_head (fun c hc => isParameter_iff.mpr (hParameters c hc)) hHead
  have hSecond : (intermediates ++ (final :: rest)).dropWhile isIntermediate = final :: rest :=
    dropWhile_append_of_head (fun c hc => isIntermediate_iff.mpr (hIntermediates c hc))
      fun c hc => Option.some.inj hc ▸ isIntermediate_of_isFinal hFinal
  simp only [List.cons_append, List.append_assoc, List.nil_append, afterSequence?, hFirst, hSecond, hFinal,
    if_true]

theorem exists_of_afterSequence? {s rest : List Char} (h : afterSequence? s = some rest) :
    ∃ front, IsSequence front ∧ s = front ++ rest := by
  unfold afterSequence? at h
  split at h
  · next body =>
    split at h
    · next final tail hTail =>
      split at h
      · next hFinal =>
        cases h
        have hBody : body = body.takeWhile isParameter ++
            ((body.dropWhile isParameter).takeWhile isIntermediate ++ final :: rest) := by
          rw [← hTail, List.takeWhile_append_dropWhile, List.takeWhile_append_dropWhile]
        have hSequence : IsSequence ('\x1b' :: '[' :: (body.takeWhile isParameter ++
            ((body.dropWhile isParameter).takeWhile isIntermediate ++ [final]))) :=
          .intro (fun c hc => isParameter_iff.mp (List.mem_takeWhile_imp hc))
            (fun c hc => isIntermediate_iff.mp (List.mem_takeWhile_imp hc)) (isFinal_iff.mp hFinal)
        refine ⟨_, hSequence, ?_⟩
        simp only [List.cons_append, List.append_assoc, List.nil_append]
        rw [← hBody]
      · cases h
    · cases h
  · cases h

theorem afterSequence?_eq_some_iff {s rest : List Char} :
    afterSequence? s = some rest ↔ ∃ front, IsSequence front ∧ s = front ++ rest := by
  constructor
  · exact exists_of_afterSequence?
  · rintro ⟨front, hFront, rfl⟩
    exact afterSequence?_append hFront rest

theorem afterSequence?_eq_none_iff {s : List Char} :
    afterSequence? s = none ↔ ∀ front back, s = front ++ back → ¬ IsSequence front := by
  rw [Option.eq_none_iff_forall_ne_some]
  constructor
  · intro h front back hSplit hFront
    exact h back (afterSequence?_eq_some_iff.mpr ⟨front, hFront, hSplit⟩)
  · intro h back hSome
    obtain ⟨front, hFront, hSplit⟩ := afterSequence?_eq_some_iff.mp hSome
    exact h front back hSplit hFront

theorem IsSequence.newline_notMem {s : List Char} (h : IsSequence s) : '\n' ∉ s := by
  obtain ⟨hParameters, hIntermediates, hFinal⟩ := h
  simp only [List.mem_cons, List.mem_append, List.not_mem_nil, or_false]
  rintro (hEscape | hBracket | hParameter | hIntermediate | rfl)
  · exact absurd hEscape (by decide)
  · exact absurd hBracket (by decide)
  · exact absurd (hParameters _ hParameter).1 (by decide)
  · exact absurd (hIntermediates _ hIntermediate).1 (by decide)
  · exact absurd hFinal.1 (by decide)

/-- Behind its beginning no other control sequence begins. -/
theorem IsSequence.escape_notMem_tail {s : List Char} (h : IsSequence s) : '\x1b' ∉ s.tail := by
  obtain ⟨hParameters, hIntermediates, hFinal⟩ := h
  simp only [List.tail_cons, List.mem_cons, List.mem_append, List.not_mem_nil, or_false]
  rintro (hBracket | hParameter | hIntermediate | rfl)
  · exact absurd hBracket (by decide)
  · exact absurd (hParameters _ hParameter).1 (by decide)
  · exact absurd (hIntermediates _ hIntermediate).1 (by decide)
  · exact absurd hFinal.1 (by decide)

/-- The codes of a style. -/
theorem isSequence_style {parameters : List Char} (h : ∀ c ∈ parameters, '0' ≤ c ∧ c ≤ '?') :
    IsSequence ('\x1b' :: '[' :: (parameters ++ ['m'])) :=
  .intro h (List.forall_mem_nil _) (by decide)

/-! ## A whole text -/

theorem withoutSequences_append {front : List Char} (h : IsSequence front) (rest : List Char) :
    withoutSequences (front ++ rest) = withoutSequences rest := by
  have hAfter := afterSequence?_append h rest
  rw [withoutSequences]
  split
  · next hSome =>
    cases hAfter.symm.trans hSome
    rfl
  · next hNone => cases hAfter.symm.trans hNone

theorem strips_withoutSequences (s : List Char) : Strips s (withoutSequences s) := by
  induction hLength : s.length using Nat.strongRecOn generalizing s with
  | ind n ih =>
    subst hLength
    cases hAfter : afterSequence? s with
    | some rest =>
      have hLess := length_lt_of_afterSequence? hAfter
      obtain ⟨front, hFront, rfl⟩ := exists_of_afterSequence? hAfter
      rw [withoutSequences_append hFront]
      exact .sequence hFront (ih _ hLess rest rfl)
    | none =>
      cases s with
      | nil =>
        rw [withoutSequences_nil]
        exact .nil
      | cons c rest =>
        rw [withoutSequences_cons hAfter]
        exact .keep (afterSequence?_eq_none_iff.mp hAfter) (ih _ (Nat.lt_succ_self _) rest rfl)

theorem Strips.eq_withoutSequences {s stripped : List Char} (h : Strips s stripped) :
    stripped = withoutSequences s := by
  induction h with
  | nil => exact withoutSequences_nil.symm
  | sequence hFront _ ih => rw [withoutSequences_append hFront, ih]
  | keep hNone _ ih => rw [withoutSequences_cons (afterSequence?_eq_none_iff.mpr hNone), ih]

theorem strips_iff {s stripped : List Char} : Strips s stripped ↔ stripped = withoutSequences s := by
  constructor
  · exact Strips.eq_withoutSequences
  · rintro rfl
    exact strips_withoutSequences s

theorem Strips.sublist {s stripped : List Char} (h : Strips s stripped) : stripped.Sublist s := by
  induction h with
  | nil => exact List.Sublist.slnil
  | sequence _ _ ih => exact ih.trans (List.sublist_append_right _ _)
  | keep _ _ ih => exact ih.cons_cons _

/-- In front of a character that goes on no control sequence, a text is stripped by itself. -/
theorem Strips.append {s stripped rest others : List Char} {c : Char}
    (hGoesOn : ∀ front, IsSequence front → c ∉ front.tail) (h : Strips s stripped)
    (hRest : Strips (c :: rest) others) : Strips (s ++ c :: rest) (stripped ++ others) := by
  induction h with
  | nil => exact hRest
  | sequence hFront _ ih =>
    rw [List.append_assoc]
    exact .sequence hFront ih
  | @keep d s stripped hNone _ ih =>
    refine .keep ?_ ih
    intro front back hSplit hFront
    -- What begins in front of the character ends in front of it.
    have hSplit : (d :: s) ++ c :: rest = front ++ back := hSplit
    rcases List.append_eq_append_iff.mp hSplit with ⟨more, rfl, hMore⟩ | ⟨more, hMore, -⟩
    · cases more with
      | nil => exact hNone (d :: s) [] (List.append_nil _).symm (by rwa [List.append_nil] at hFront)
      | cons e more =>
        obtain ⟨rfl, -⟩ := List.cons.inj hMore
        exact hGoesOn _ hFront (List.mem_append_right s List.mem_cons_self)
    · exact hNone front more hMore hFront

theorem Strips.append_newline {s stripped rest others : List Char} (h : Strips s stripped)
    (hRest : Strips rest others) : Strips (s ++ '\n' :: rest) (stripped ++ '\n' :: others) := by
  refine h.append (fun front hFront hMem => hFront.newline_notMem (List.mem_of_mem_tail hMem)) ?_
  refine .keep ?_ hRest
  rintro front back hSplit ⟨-, -, -⟩
  cases hSplit

theorem Strips.append_sequence {s stripped front : List Char} (h : Strips s stripped)
    (hFront : IsSequence front) : Strips (s ++ front) stripped := by
  have hAlone : Strips (front ++ []) [] := .sequence hFront .nil
  rw [List.append_nil] at hAlone
  obtain ⟨-, -, -⟩ := hFront
  have hAppend := h.append (fun _ => IsSequence.escape_notMem_tail) hAlone
  rwa [List.append_nil] at hAppend

theorem Strips.append_plain {plain rest stripped : List Char} (h : '\x1b' ∉ plain)
    (hRest : Strips rest stripped) : Strips (plain ++ rest) (plain ++ stripped) := by
  induction plain with
  | nil => exact hRest
  | cons c plain ih =>
    refine .keep ?_ (ih (List.not_mem_of_not_mem_cons h))
    rintro front back hSplit ⟨-, -, -⟩
    exact h (List.mem_cons.mpr (.inl (List.cons.inj hSplit).1.symm))

theorem strips_of_escape_notMem {s : List Char} (h : '\x1b' ∉ s) : Strips s s := by
  have hPlain := Strips.append_plain h .nil
  rwa [List.append_nil] at hPlain

end Reckoner.Text
