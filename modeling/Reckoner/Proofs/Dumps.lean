import Reckoner.Proofs.Alphabet
import Reckoner.Proofs.Relocation

/-!
# What the tokens of a line tell

The labels of all tokens of a line, one behind the other with blanks between, tell the kinds and the
values of the tokens: no label has a blank in it and no two lexemes have the same label. A reckoning
looks at nothing else, so lines with the same labels have the same value or the same fault, which points
at tokens of the same index.
-/

set_option autoImplicit false

namespace Reckoner

open Reading

/-! ## Labels -/

namespace Token

/-- A value in parentheses. -/
def suffix : Option Nat → List Char
  | none => []
  | some n => '(' :: Nat.toDigits 10 n ++ [')']

theorem toList_label (t : Token) : t.label.toList = t.kind.name.toList ++ suffix t.value? := by
  rw [label]
  cases t.value? with
  | none => exact (List.append_nil _).symm
  | some n =>
    have hDigits : (toString n).toList = Nat.toDigits 10 n := Nat.toList_repr
    simp only [String.join_cons, String.join_nil, String.append_empty, String.toList_append, hDigits]
    rfl

theorem suffix_injective : Function.Injective suffix := by
  intro v w h
  cases v with
  | none => cases w with
    | none => rfl
    | some => cases h
  | some n => cases w with
    | none => cases h
    | some m =>
      have hDigits : Nat.toDigits 10 n = Nat.toDigits 10 m :=
        List.append_cancel_right (List.cons.inj h).2
      have hValue := congrArg (Nat.ofDigitChars 10 · 0) hDigits
      simp only [Nat.ofDigitChars_ten_toDigits] at hValue
      rw [hValue]

/-- Two letters tell the kinds apart. -/
theorem eq_of_take_name {k l : Kind} (h : k.name.toList.take 2 = l.name.toList.take 2) : k = l := by
  revert h
  cases k <;> cases l <;> decide

theorem label_eq_iff {t u : Token} : t.label = u.label ↔ t.kind = u.kind ∧ t.value? = u.value? := by
  constructor
  · intro h
    have hList := congrArg String.toList h
    rw [toList_label, toList_label] at hList
    have hTwo (k : Kind) : 2 ≤ k.name.toList.length := by cases k <;> decide
    have hKind : t.kind = u.kind := by
      have hTake := congrArg (List.take 2) hList
      rw [List.take_append_of_le_length (hTwo _), List.take_append_of_le_length (hTwo _)] at hTake
      exact eq_of_take_name hTake
    rw [hKind] at hList
    exact ⟨hKind, suffix_injective (List.append_cancel_left hList)⟩
  · rintro ⟨hKind, hValue⟩
    rw [label, label, hKind, hValue]

theorem blank_notMem_label (t : Token) : ' ' ∉ t.label.toList := by
  rw [toList_label, List.mem_append, not_or]
  constructor
  · cases t.kind <;> decide
  · cases t.value? with
    | none => exact List.not_mem_nil
    | some n =>
      have hDigits : ' ' ∉ Nat.toDigits 10 n := not_mem_of_isDigit fun _ hd =>
        Nat.isDigit_of_mem_toDigits (by decide) (by decide) hd
      simp [suffix, hDigits]

end Token

theorem splitOn_labels {ts : List Token} (h : ts ≠ []) :
    (" ".intercalate (ts.map Token.label)).toList.splitOn ' ' = ts.map fun t => t.label.toList := by
  rw [String.toList_intercalate, List.map_map]
  refine List.splitOn_intercalate ' ' ?_ (by simpa using h)
  intro l hl
  obtain ⟨t, -, rfl⟩ := List.mem_map.mp hl
  exact t.blank_notMem_label

theorem labels_eq_iff {ts us : List Token} (hts : ts ≠ []) (hus : us ≠ []) :
    " ".intercalate (ts.map Token.label) = " ".intercalate (us.map Token.label) ↔
      List.Forall₂ (fun t u => t.kind = u.kind ∧ t.value? = u.value?) ts us := by
  have hMaps : ts.map Token.label = us.map Token.label ↔
      List.Forall₂ (fun t u => t.kind = u.kind ∧ t.value? = u.value?) ts us := by
    rw [← List.forall₂_eq_eq_eq, List.forall₂_map_left_iff, List.forall₂_map_right_iff]
    simp only [Token.label_eq_iff]
  rw [← hMaps]
  constructor
  · intro h
    have hSplit := congrArg (fun s => s.toList.splitOn ' ') h
    simp only [splitOn_labels hts, splitOn_labels hus] at hSplit
    refine List.map_injective_iff.mpr (fun _ _ => String.toList_injective) ?_
    rwa [List.map_map, List.map_map]
  · exact congrArg _

theorem forall₂_of_concat {α β : Type} {R : α → β → Prop} {us : List α} {vs : List β} {a : α} {b : β}
    (h : List.Forall₂ R (us ++ [a]) (vs ++ [b])) : List.Forall₂ R us vs := by
  rw [← List.forall₂_reverse_iff, List.reverse_concat, List.reverse_concat, List.forall₂_cons,
    List.forall₂_reverse_iff] at h
  exact h.2

/-! ## Places -/

namespace Reading

theorem Reads.pairwise_cons {place next : Nat} {rest : List Char} {first : Item} {items : List Item}
    (hRest : Reads next rest items) (hPlace : first.place = place) (hLess : place < next)
    (h : items.Pairwise fun a b => a.place < b.place) :
    (first :: items).Pairwise fun a b => a.place < b.place := by
  refine List.pairwise_cons.mpr ⟨fun item hItem => ?_, h⟩
  have hLe := hRest.tiles.le_place hItem
  omega

theorem Reads.pairwise_place {place : Nat} {s : List Char} {items : List Item}
    (h : Reads place s items) : items.Pairwise fun a b => a.place < b.place := by
  induction h with
  | nothing => exact .nil
  | blank _ ih => exact ih
  | operator _ hRest ih => exact hRest.pairwise_cons rfl (Nat.lt_succ_self _) ih
  | number hRun hRest ih =>
    exact hRest.pairwise_cons rfl (Nat.lt_add_of_pos_right (List.length_pos_iff.mpr hRun.nonempty)) ih
  | symbol _ _ _ hRest ih => exact hRest.pairwise_cons rfl (Nat.lt_succ_self _) ih

theorem Reads.pairwise_location {line : String} {ts : List Token}
    (h : Reads 0 line.toList (ts.map .ok)) :
    (ts ++ [Token.ending line.length]).Pairwise fun t u => t.location < u.location := by
  have hPlaces : (ts.map Except.ok : List Item).Pairwise fun a b => a.place < b.place := h.pairwise_place
  rw [List.pairwise_map] at hPlaces
  refine List.pairwise_append.mpr ⟨hPlaces, List.pairwise_singleton _ _, ?_⟩
  intro t ht u hu
  obtain rfl := List.mem_singleton.mp hu
  have hLess := h.place_lt (List.mem_map_of_mem (f := Except.ok) ht)
  rwa [Nat.zero_add, String.length_toList] at hLess

end Reading

/-- Tokens of which each stands behind the last can be moved to the places of any others. -/
theorem exists_placement {ts : List Token} (h : ts.Pairwise fun t u => t.location < u.location)
    (us : List Token) : ∃ f : Int → Int, ∀ p ∈ ts.zip us, p.2.location = f p.1.location := by
  induction ts generalizing us with
  | nil => exact ⟨id, by simp⟩
  | cons t ts ih =>
    cases us with
    | nil => exact ⟨id, by simp⟩
    | cons u us =>
      obtain ⟨hLess, hRest⟩ := List.pairwise_cons.mp h
      obtain ⟨f, hf⟩ := ih hRest us
      -- No later token stands where the first one does, so its place can be chosen on its own.
      refine ⟨Function.update f t.location u.location, List.forall_mem_cons.mpr ⟨?_, ?_⟩⟩
      · exact (Function.update_self t.location u.location f).symm
      · intro p hp
        have hNe : p.1.location ≠ t.location := (hLess p.1 (List.of_mem_zip hp).1).ne'
        rw [Function.update_of_ne hNe]
        exact hf p hp

namespace Reckoning

open Automaton

/-- The fault of a line of tokens is at one of them, or at the end. -/
theorem exists_token_of_fault {line : String} {ts : List Token} {fault : Fault}
    (hReads : Reads 0 line.toList (ts.map .ok)) (h : (ofLine line).result = .error fault) :
    ∃ t ∈ ts ++ [.ending line.length], fault.location? = some t.location := by
  have hFails := (result_eq_error_iff hReads).mp h
  have hTokens := error_notMem_tokens ts
  have hMem {t : Token} (ht : .ok t ∈ ts.map (Except.ok : Token → Item)) : t ∈ ts := by
    obtain ⟨_, hts, hOk⟩ := List.mem_map.mp ht
    cases hOk
    exact hts
  generalize ts.map Except.ok = items at hFails hTokens hMem
  cases hFails with
  | symbol => exact absurd (List.mem_append_right _ List.mem_cons_self) (hTokens _)
  | symbolBehind =>
    exact absurd (List.mem_append_right _ (List.mem_cons_of_mem _ List.mem_cons_self)) (hTokens _)
  | @token us t =>
    have ht : t ∈ ts := hMem (List.mem_append_right _ List.mem_cons_self)
    exact ⟨t, List.mem_append_left _ ht, rfl⟩
  | ending us => exact ⟨.ending line.length, List.mem_append_right _ List.mem_cons_self, rfl⟩
  | division us hPath hGoes =>
    obtain ⟨slash, hSlash, rfl⟩ := (hPath.dividesByZero hGoes).exists_mem
    rw [tokens_append_cons] at hMem
    have hts : slash ∈ ts := hMem (List.mem_append_left _ (List.mem_map_of_mem hSlash))
    exact ⟨slash, List.mem_append_left _ hts, rfl⟩

theorem outcome_of_same_lexemes {a b : String} {ts us : List Token}
    (ha : Reads 0 a.toList (ts.map .ok)) (hb : Reads 0 b.toList (us.map .ok))
    (h : List.Forall₂ (fun t u => u.lexeme = t.lexeme) ts us) :
    (∃ q, (ofLine a).result = .ok q ∧ (ofLine b).result = .ok q) ∨
      ∃ fault, ∃ p ∈ (ts ++ [Token.ending a.length]).zip (us ++ [Token.ending b.length]),
        fault.location? = some p.1.location ∧ (ofLine a).result = .error fault ∧
        (ofLine b).result = .error (fault.relocate fun _ => p.2.location) := by
  obtain ⟨f, hf⟩ := exists_placement ha.pairwise_location (us ++ [.ending b.length])
  have hZip : (ts ++ [Token.ending a.length]).zip (us ++ [Token.ending b.length]) =
      ts.zip us ++ [(.ending a.length, .ending b.length)] := List.zip_append h.length_eq
  have hItems : List.Forall₂ (Item.Corresponds f) (ts.map .ok) (us.map .ok) := by
    rw [List.forall₂_map_left_iff, List.forall₂_map_right_iff, List.forall₂_iff_zip]
    refine ⟨h.length_eq, fun {t u} hp => .token ((List.forall₂_iff_zip.mp h).2 hp) ?_⟩
    exact hf (t, u) (hZip ▸ List.mem_append_left _ hp)
  have hEnds : f a.length = b.length :=
    (hf (.ending a.length, .ending b.length) (hZip ▸ List.mem_append_right _ List.mem_cons_self)).symm
  have hResult := result_of_corresponds ha hb hItems hEnds
  cases hFirst : (ofLine a).result with
  | ok q =>
    rw [hFirst] at hResult
    exact .inl ⟨q, rfl, hResult⟩
  | error fault =>
    rw [hFirst] at hResult
    -- The fault is at a token, so of all the places that move only the one of that token matters.
    obtain ⟨t, ht, hPlace⟩ := exists_token_of_fault ha hFirst
    have hLength : (ts ++ [Token.ending a.length]).length ≤ (us ++ [Token.ending b.length]).length := by
      simp [h.length_eq]
    rw [← List.map_fst_zip hLength] at ht
    obtain ⟨p, hp, rfl⟩ := List.mem_map.mp ht
    refine .inr ⟨fault, p, hp, hPlace, rfl, hResult.trans (congrArg Except.error ?_)⟩
    refine Fault.relocate_congr fun place hFault => ?_
    rw [hPlace] at hFault
    rw [← Option.some.inj hFault, hf p hp]

end Reckoning

namespace Console

theorem answer_true_eq_ok_iff {line text : String} : (answer true line).1 = .ok text ↔
    ∃ ts, (Feed.tokens line).result = .ok ts ∧ " ".intercalate (ts.map Token.label) = text := by
  rw [answer_true]
  cases (Feed.tokens line).result with
  | error fault =>
    constructor
    · intro h
      cases h
    · rintro ⟨ts, h, -⟩
      cases h
  | ok ts =>
    constructor
    · intro h
      exact ⟨ts, rfl, Except.ok.inj h⟩
    · rintro ⟨us, h, hText⟩
      cases h
      exact congrArg Except.ok hText

/-- Two lines have the same dump just if their tokens are as many and agree in kinds and values. Then
both have the same value, or the same fault at tokens of the same index. -/
theorem outcome_of_dump {a b s s' : String} (ha : (answer true a).1 = .ok s)
    (hb : (answer true b).1 = .ok s') : ∃ ts us : List Token,
      (Feed.tokens a).result = .ok ts ∧ (Feed.tokens b).result = .ok us ∧
      (s = s' ↔ List.Forall₂ (fun t u => t.kind = u.kind ∧ t.value? = u.value?) ts us) ∧
      (s = s' → (∃ q, (Reckoning.ofLine a).result = .ok q ∧ (Reckoning.ofLine b).result = .ok q) ∨
        ∃ fault, ∃ p ∈ ts.zip us, fault.location? = some p.1.location ∧
          (Reckoning.ofLine a).result = .error fault ∧
          (Reckoning.ofLine b).result = .error (fault.relocate fun _ => p.2.location)) := by
  obtain ⟨_, hts, rfl⟩ := answer_true_eq_ok_iff.mp ha
  obtain ⟨_, hus, rfl⟩ := answer_true_eq_ok_iff.mp hb
  obtain ⟨ts, hFirst, rfl⟩ := Feed.result_tokens_eq_ok_iff.mp hts
  obtain ⟨us, hSecond, rfl⟩ := Feed.result_tokens_eq_ok_iff.mp hus
  have hLabels := labels_eq_iff (List.concat_ne_nil (.ending a.length) ts)
    (List.concat_ne_nil (.ending b.length) us)
  refine ⟨_, _, hts, hus, hLabels, fun h => ?_⟩
  have hSame := forall₂_of_concat (hLabels.mp h)
  refine Reckoning.outcome_of_same_lexemes hFirst hSecond (hSame.imp ?_)
  rintro t u ⟨hKind, hValue⟩
  exact Lexeme.eq_of_kind_of_value? hKind.symm hValue.symm

/-- Neither a blank nor a zero in front of a number is seen in a dump. -/
theorem outcome_of_dump_leading_zero :
    (answer true "7").1 = .ok "Number(7) EOF" ∧ (answer true " 07").1 = .ok "Number(7) EOF" ∧
      ∃ ts us, (Feed.tokens "7").result = .ok ts ∧ (Feed.tokens " 07").result = .ok us ∧
        List.Forall₂ (fun t u => t.kind = u.kind ∧ t.value? = u.value?) ts us := by
  have hRun : IsRun ['7'] [] := ⟨nofun, List.forall_mem_singleton.mpr rfl, nofun⟩
  have hLonger : IsRun ['0', '7'] [] :=
    ⟨nofun, List.forall_mem_cons.mpr ⟨rfl, List.forall_mem_singleton.mpr rfl⟩, nofun⟩
  have hFirst : Reads 0 "7".toList (List.map Except.ok [⟨.number 7, 0, "7"⟩]) :=
    .number hRun (.nothing 1)
  have hSecond : Reads 0 " 07".toList (List.map Except.ok [⟨.number 7, 1, "07"⟩]) :=
    .blank (.number hLonger (.nothing 3))
  have ha : (answer true "7").1 = .ok "Number(7) EOF" :=
    answer_true_eq_ok_iff.mpr ⟨_, Feed.result_tokens_eq_ok_iff.mpr ⟨_, hFirst, rfl⟩, by decide⟩
  have hb : (answer true " 07").1 = .ok "Number(7) EOF" :=
    answer_true_eq_ok_iff.mpr ⟨_, Feed.result_tokens_eq_ok_iff.mpr ⟨_, hSecond, rfl⟩, by decide⟩
  obtain ⟨ts, us, hts, hus, hSame, -⟩ := outcome_of_dump ha hb
  exact ⟨ha, hb, ts, us, hts, hus, hSame.mp rfl⟩

end Console

end Reckoner
