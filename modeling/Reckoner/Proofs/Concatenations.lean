import Reckoner.Proofs.Alphabet
import Reckoner.Proofs.Relocation

/-!
# Lines one behind the other

All tokens of a line are its items with the end behind them, unless one of the items is a fault. So the
tokens of two lines in a row are those of the first and then those of the second, which stand further on
by the length of the first, and the first fault is met in their place. Only where digits meet digits two
numbers become one, and the digits in front weigh ten to the number of those behind.
-/

set_option autoImplicit false

namespace Reckoner

open Reading

/-! ## Items taken all at once -/

namespace Item

/-- The tokens that some items are, or else the first fault among them. -/
def gather (items : List Item) : Except Fault (List Token) := items.mapM id

theorem gather_tokens (ts : List Token) : gather (ts.map .ok) = .ok ts := by
  have hPure := List.mapM_pure (m := Except Fault) (f := id) (l := ts)
  rw [List.map_id] at hPure
  rw [gather, List.mapM_map]
  exact hPure

theorem gather_cons (item : Item) (items : List Item) :
    gather (item :: items) = Except.bind item fun t => (gather items).map (t :: ·) := by
  rw [gather, List.mapM_cons, gather]
  cases item with
  | error fault => rfl
  | ok t => cases items.mapM id <;> rfl

theorem gather_append (us vs : List Item) :
    gather (us ++ vs) = (gather us).bind fun ts => (gather vs).map (ts ++ ·) := by
  rw [gather, List.mapM_append, gather, gather]
  cases us.mapM id with
  | error fault => rfl
  | ok ts => cases vs.mapM id <;> rfl

theorem gather_relocate (f : Int → Int) (items : List Item) : gather (items.map (relocate f)) =
    ((gather items).map (List.map (Token.relocate f))).mapError (Fault.relocate f) := by
  induction items with
  | nil => rfl
  | cons item items ih =>
    rw [List.map_cons, gather_cons, gather_cons, ih]
    cases item with
    | error fault => rfl
    | ok t => cases gather items <;> rfl

/-- The items of a line and its end, as they stand behind another line. -/
theorem map_relocate_line (a b : String) (items : List Item) :
    List.map (relocate (· + a.length)) (items ++ [.ok (.ending b.length)]) =
      items.map (relocate (· + a.length)) ++ [.ok (.ending (a ++ b).length)] := by
  refine map_relocate_concat_ending (· + (a.length : Int)) ?_ items
  rw [String.length_append]
  omega

end Item

namespace Feed

theorem result_tokens_of_reads {line : String} {items : List Item} (h : Reads 0 line.toList items) :
    (tokens line).result = Item.gather (items ++ [.ok (.ending line.length)]) := by
  rw [Item.gather_append]
  cases hResult : (tokens line).result with
  | ok ts =>
    obtain ⟨us, hTokens, rfl⟩ := result_tokens_eq_ok_iff.mp hResult
    rw [h.unique hTokens, Item.gather_tokens]
    rfl
  | error fault =>
    obtain ⟨us, others, hFault, -⟩ := pulled_of_tokens_error hResult
    rw [h.unique hFault, Item.gather_append, Item.gather_tokens]
    rfl

theorem eq_dropLast_of_tokens {line : String} {ts : List Token} (h : (tokens line).result = .ok ts) :
    ts = ts.dropLast ++ [.ending line.length] := by
  obtain ⟨us, -, rfl⟩ := result_tokens_eq_ok_iff.mp h
  rw [List.dropLast_concat]

/-- What comes first of the tokens of two lines in a row, or of their faults, is of the first line. -/
theorem result_tokens_append {a b : String} (hParted : Parted a.toList b.toList) :
    (tokens (a ++ b)).result =
      match (tokens a).result, (tokens b).result with
      | .ok ts, .ok us => .ok (ts.dropLast ++ us.map (Token.relocate (· + a.length)))
      | .ok _, .error fault => .error (fault.relocate (· + a.length))
      | .error fault, _ => .error fault := by
  obtain ⟨items, hFront⟩ := exists_reads 0 a.toList
  obtain ⟨others, hBack⟩ := exists_reads 0 b.toList
  have hLater := hBack.relocate a.length
  rw [Nat.zero_add] at hLater
  have hReads : Reads 0 (a ++ b).toList (items ++ others.map (Item.relocate (· + a.length))) := by
    rw [String.toList_append]
    refine hFront.append ?_ hParted
    rwa [Nat.zero_add, String.length_toList]
  rw [result_tokens_of_reads hReads, List.append_assoc, ← Item.map_relocate_line, Item.gather_append,
    Item.gather_relocate, ← result_tokens_of_reads hBack, result_tokens_of_reads hFront, Item.gather_append]
  cases Item.gather items with
  | error fault => rfl
  | ok ts =>
    cases (tokens b).result with
    | error fault => rfl
    | ok us =>
      have hDrop : (ts ++ [Token.ending a.length]).dropLast = ts := List.dropLast_concat
      exact congrArg (fun front => Except.ok (front ++ us.map (Token.relocate (· + a.length)))) hDrop.symm

end Feed

/-! ## Digits that meet digits -/

/-- The number that some digits at a place are. -/
def Token.numeral (digits : List Char) (place : Int) : Token :=
  ⟨.number (Nat.ofDigitChars 10 digits 0), place, String.ofList digits⟩

namespace Reading

/-- Some digits, with a text in front that does not end with a digit. -/
structure EndsRun (front digits : List Char) : Prop where
  nonempty : digits ≠ []
  isDigit : ∀ d ∈ digits, d.isDigit = true
  maximal : ∀ c ∈ front.getLast?, c.isDigit = false

theorem EndsRun.parted {front digits : List Char} (h : EndsRun front digits) (rest : List Char) :
    Parted front rest := by
  intro c hc _ _ hDigit
  rw [h.maximal c hc] at hDigit
  cases hDigit

theorem EndsRun.append {front digits digits' rest : List Char} (h : EndsRun front digits)
    (hRun : IsRun digits' rest) : IsRun (digits ++ digits') rest where
  nonempty := List.append_ne_nil_of_left_ne_nil h.nonempty digits'
  isDigit := List.forall_mem_append.mpr ⟨h.isDigit, hRun.isDigit⟩
  maximal := hRun.maximal

theorem EndsRun.reads {front digits : List Char} {items : List Item} (h : EndsRun front digits)
    (hFront : Reads 0 front items) :
    Reads 0 (front ++ digits) (items ++ [.ok (.numeral digits front.length)]) := by
  have hRun : IsRun digits [] := ⟨h.nonempty, h.isDigit, nofun⟩
  have hDigits : Reads front.length (digits ++ []) [.ok (.numeral digits front.length)] :=
    .number hRun (.nothing _)
  rw [List.append_nil] at hDigits
  refine hFront.append ?_ (h.parted digits)
  rwa [Nat.zero_add]

/-- The digits in front weigh ten to the number of those behind. -/
theorem ofDigitChars_append_zero (digits digits' : List Char) :
    Nat.ofDigitChars 10 (digits ++ digits') 0 =
      Nat.ofDigitChars 10 digits 0 * 10 ^ digits'.length + Nat.ofDigitChars 10 digits' 0 := by
  rw [Nat.ofDigitChars_append, Nat.ofDigitChars_eq_ofDigitChars_zero, Nat.mul_comm]

end Reading

namespace Feed

/-- Where digits meet digits, the last number of the one line and the first of the other are one. -/
theorem result_tokens_append_of_digits {a b : String} {front digits digits' back : List Char}
    (ha : a.toList = front ++ digits) (hb : b.toList = digits' ++ back) (hEnds : EndsRun front digits)
    (hRun : IsRun digits' back) {ts us : List Token} (hts : (tokens a).result = .ok ts)
    (hus : (tokens b).result = .ok us) : ∃ ts' us' : List Token,
      ts = ts' ++ [.numeral digits front.length, .ending a.length] ∧ us = .numeral digits' 0 :: us' ∧
      (tokens (a ++ b)).result = .ok (ts' ++
        ⟨.number (Nat.ofDigitChars 10 digits 0 * 10 ^ digits'.length + Nat.ofDigitChars 10 digits' 0),
          front.length, String.ofList (digits ++ digits')⟩ ::
        us'.map (Token.relocate (· + a.length))) := by
  obtain ⟨items, hFront⟩ := exists_reads 0 front
  obtain ⟨others, hBack⟩ := exists_reads (0 + digits'.length) back
  have hFirst := hEnds.reads hFront
  rw [← ha] at hFirst
  have hSecond := Reads.number hRun hBack
  rw [← hb] at hSecond
  have hLater := hBack.relocate a.length
  have hPlace : 0 + digits'.length + a.length = 0 + front.length + (digits ++ digits').length := by
    rw [← String.length_toList, ha, List.length_append, List.length_append]
    omega
  rw [hPlace] at hLater
  -- The digits on both sides are one run, and what is behind it is read as behind the second run alone.
  have hWhole := hFront.append (.number (hEnds.append hRun) hLater) (hEnds.parted _)
  rw [List.append_assoc, ← List.append_assoc, ← ha, ← hb, ← String.toList_append] at hWhole
  rw [result_tokens_of_reads hFirst, List.append_assoc, Item.gather_append] at hts
  rw [result_tokens_of_reads hSecond, List.cons_append, Item.gather_cons] at hus
  rw [result_tokens_of_reads hWhole, List.append_assoc, List.cons_append, ← Item.map_relocate_line,
    Item.gather_append, Item.gather_cons, Item.gather_relocate, ofDigitChars_append_zero, Nat.zero_add]
  cases hItems : Item.gather items with
  | error fault =>
    rw [hItems] at hts
    cases hts
  | ok ts' =>
    cases hOthers : Item.gather (others ++ [.ok (.ending b.length)]) with
    | error fault =>
      rw [hOthers] at hus
      cases hus
    | ok us' =>
      rw [hItems] at hts
      rw [hOthers] at hus
      cases hts
      cases hus
      exact ⟨ts', us', rfl, rfl, rfl⟩

/-- All tokens of two lines in a row are those of the first but for its end and then those of the second,
as much further on as the first line is long, and the first fault of both stands in their place. That is
so unless the first line ends with a digit and the second begins with one. Then the numbers that the
digits are on both sides are one number of all the digits. -/
theorem tokens_of_concatenation (a b : String) :
    (∀ ts, (tokens a).result = .ok ts → ts = ts.dropLast ++ [.ending a.length]) ∧
    (Parted a.toList b.toList → (tokens (a ++ b)).result =
      match (tokens a).result, (tokens b).result with
      | .ok ts, .ok us => .ok (ts.dropLast ++ us.map (Token.relocate (· + a.length)))
      | .ok _, .error fault => .error (fault.relocate (· + a.length))
      | .error fault, _ => .error fault) ∧
    ∀ front digits digits' back : List Char, a.toList = front ++ digits → b.toList = digits' ++ back →
      EndsRun front digits → IsRun digits' back → ∀ ts us, (tokens a).result = .ok ts →
        (tokens b).result = .ok us → ∃ ts' us' : List Token,
          ts = ts' ++ [.numeral digits front.length, .ending a.length] ∧
          us = .numeral digits' 0 :: us' ∧
          (tokens (a ++ b)).result = .ok (ts' ++
            ⟨.number (Nat.ofDigitChars 10 digits 0 * 10 ^ digits'.length +
                Nat.ofDigitChars 10 digits' 0), front.length, String.ofList (digits ++ digits')⟩ ::
            us'.map (Token.relocate (· + a.length))) := by
  refine ⟨fun _ => eq_dropLast_of_tokens, result_tokens_append, ?_⟩
  intro front digits digits' back ha hb hEnds hRun ts us hts hus
  exact result_tokens_append_of_digits ha hb hEnds hRun hts hus

end Feed

end Reckoner
