import Reckoner.Proofs.Cuts
import Reckoner.Proofs.Paths

/-!
# Items at other places

What a text is read as does not depend on where it stands, but for the places of the items. Nor does
a run of the automaton look at places, which it keeps for the faults, or at the texts of tokens at all.
So if all items are put at other places, or replaced by such of the same lexemes there, the fault that
they lead to is the same, at the other place, and so is the value of the line.
-/

set_option autoImplicit false

namespace Reckoner

def Token.relocate (f : Int → Int) (t : Token) : Token := { t with location := f t.location }

def Fault.relocate (f : Int → Int) : Fault → Fault
  | general note place => general note (place.map f)
  | unrecognizedSymbol symbol position => unrecognizedSymbol symbol (f position)
  | unexpectedToken actual expected position => unexpectedToken actual expected (f position)
  | divisionByZero position => divisionByZero (f position)
  | fault => fault

def Item.relocate (f : Int → Int) : Item → Item
  | .ok t => .ok (t.relocate f)
  | .error fault => .error (fault.relocate f)

theorem Fault.relocate_congr {f g : Int → Int} {fault : Fault}
    (h : ∀ place ∈ fault.location?, f place = g place) : fault.relocate f = fault.relocate g := by
  cases fault with
  | general note place => cases place <;> simp_all [relocate, location?]
  | _ => simp_all [relocate, location?]

theorem Fault.relocate_id (fault : Fault) : fault.relocate id = fault := by
  cases fault <;> simp [relocate]

theorem Item.relocate_congr {f g : Int → Int} {item : Item} (h : f item.place = g item.place) :
    item.relocate f = item.relocate g := by
  cases item with
  | ok t => exact congrArg (fun place => Except.ok { t with location := place }) h
  | error fault =>
    refine congrArg Except.error (Fault.relocate_congr fun place hPlace => ?_)
    rw [Item.place, hPlace] at h
    exact h

theorem Item.relocate_of_place_eq {f : Int → Int} {item : Item} (h : f item.place = item.place) :
    item.relocate f = item := by
  rw [Item.relocate_congr (g := id) h]
  cases item with
  | ok t => rfl
  | error fault => exact congrArg Except.error fault.relocate_id

/-- Items that differ in nothing but their texts and places, and those as a function says. -/
inductive Item.Corresponds (f : Int → Int) : Item → Item → Prop
  | token {t u : Token} (hLexeme : u.lexeme = t.lexeme) (hPlace : u.location = f t.location) :
      Corresponds f (.ok t) (.ok u)
  | fault (fault : Fault) : Corresponds f (.error fault) (.error (fault.relocate f))

theorem Item.forall₂_corresponds_relocate (f : Int → Int) (items : List Item) :
    List.Forall₂ (Corresponds f) items (items.map (relocate f)) := by
  rw [List.forall₂_map_right_iff, List.forall₂_same]
  rintro (fault | t) -
  · exact .fault fault
  · exact .token rfl rfl

theorem Item.exists_tokens_of_corresponds {f : Int → Int} {ts : List Token} {others : List Item}
    (h : List.Forall₂ (Corresponds f) (ts.map .ok) others) :
    ∃ us : List Token, others = us.map .ok ∧ us.map Token.lexeme = ts.map Token.lexeme := by
  induction ts generalizing others with
  | nil =>
    cases h
    exact ⟨[], rfl, rfl⟩
  | cons t ts ih =>
    rw [List.map_cons, List.forall₂_cons_left_iff] at h
    obtain ⟨_, rest, hFirst, hRest, rfl⟩ := h
    obtain ⟨us, rfl, hLexemes⟩ := ih hRest
    cases hFirst with
    | @token _ u hLexeme => exact ⟨u :: us, rfl, congrArg₂ List.cons hLexeme hLexemes⟩

theorem Item.map_relocate_concat_ending (f : Int → Int) {place place' : Int} (h : f place = place')
    (items : List Item) : List.map (relocate f) (items ++ [.ok (.ending place)]) =
      items.map (relocate f) ++ [.ok (.ending place')] := by
  rw [List.map_append, List.map_singleton, ← h]
  rfl

theorem Item.map_relocate_tokens (f : Int → Int) (ts : List Token) :
    (ts.map .ok).map (relocate f) = (ts.map (Token.relocate f)).map .ok := by
  rw [List.map_map, List.map_map]
  rfl

theorem Token.map_lexeme_relocate (f : Int → Int) (ts : List Token) :
    (ts.map (relocate f)).map lexeme = ts.map lexeme := by
  rw [List.map_map]
  rfl

namespace Reading

theorem Reads.relocate {place : Nat} {s : List Char} {items : List Item} (h : Reads place s items)
    (n : Nat) : Reads (place + n) s (items.map (Item.relocate (· + n))) := by
  induction h with
  | nothing place => exact .nothing (place + n)
  | blank _ ih =>
    rw [Nat.add_right_comm] at ih
    exact .blank ih
  | operator hOperator _ ih =>
    rw [Nat.add_right_comm] at ih
    exact .operator hOperator ih
  | number hRun _ ih =>
    rw [Nat.add_right_comm] at ih
    exact .number hRun ih
  | symbol hBlank hDigit hOperator _ ih =>
    rw [Nat.add_right_comm] at ih
    exact .symbol hBlank hDigit hOperator ih

/-- An operator keeps the texts on both its sides apart. -/
theorem Reads.join {front back : List Char} {us vs : List Item} {c : Char} {lexeme : Lexeme}
    (hFront : Reads 0 front us) (hOperator : (c, lexeme) ∈ operators) (hBack : Reads 0 back vs) :
    Reads 0 (front ++ c :: back) (us ++ .ok ⟨lexeme, front.length, c.toString⟩ ::
      vs.map (Item.relocate (· + (front.length + 1 : Nat)))) := by
  have hLater := hBack.relocate (front.length + 1)
  rw [Nat.zero_add] at hLater
  have hParted : Parted front (c :: back) := by
    rintro _ _ d ⟨rfl⟩ _
    exact isDigit_of_mem_operators hOperator
  refine hFront.append ?_ hParted
  rw [Nat.zero_add]
  exact .operator hOperator hLater

end Reading

namespace Automaton

def State.relocate (f : Int → Int) : State → State
  | needFactor slash? => needFactor (slash?.map f)
  | needNumber slash? => needNumber (slash?.map f)
  | afterFactor => afterFactor

def Move.relocate (f : Int → Int) : Move → Move
  | go state zeroBehind? => go (state.relocate f) (zeroBehind?.map f)
  | move => move

theorem move_of_corresponds {f : Int → Int} {t u : Token} (hLexeme : u.lexeme = t.lexeme)
    (hPlace : u.location = f t.location) (state : State) :
    (state.relocate f).move u = (state.move t).relocate f := by
  obtain ⟨lexeme, location, text⟩ := t
  obtain ⟨lexeme', location', text'⟩ := u
  obtain rfl : lexeme = lexeme' := hLexeme.symm
  obtain rfl : location' = f location := hPlace
  cases state with
  | needFactor slash? | needNumber slash? =>
    cases lexeme with
    | number n =>
      by_cases hZero : n = 0 <;>
        simp only [State.relocate, State.move, Move.relocate, hZero, if_true, if_false, Option.map_none]
    | plus | minus | star | slash | eof => rfl
  | afterFactor => cases lexeme <;> rfl

theorem run_of_corresponds {f : Int → Int} {items others : List Item}
    (h : List.Forall₂ (Item.Corresponds f) items others) (state : State) :
    run (state.relocate f) others = (run state items).map (Fault.relocate f) := by
  induction h generalizing state with
  | nil => rfl
  | @cons _ _ items others hItem hRest ih =>
    cases hItem with
    | fault => rfl
    | @token t u hLexeme hPlace =>
      have hKind : u.kind = t.kind := congrArg Lexeme.kind hLexeme
      rw [run, run, move_of_corresponds hLexeme hPlace]
      cases state.move t with
      | accept => rfl
      | refuse expected =>
        simp only [Move.relocate, Option.map_some, Fault.relocate, hKind, hPlace]
      | go next zeroBehind? =>
        -- The item behind decides whether a division by zero is met, and it is a fault in both or none.
        rcases hRest with _ | ⟨_ | _, _⟩
        · cases zeroBehind? with
          | none => exact ih next
          | some place => rfl
        · cases zeroBehind? with
          | none => exact ih next
          | some place => rfl
        · rfl

theorem run_relocate (f : Int → Int) (state : State) (items : List Item) :
    run (state.relocate f) (items.map (Item.relocate f)) = (run state items).map (Fault.relocate f) :=
  run_of_corresponds (Item.forall₂_corresponds_relocate f items) state

end Automaton

namespace Reckoning

open Automaton Reading

/-- A line has the value of any line that reads as the same lexemes. -/
theorem result_eq_ok_of_lexemes {line line' : String} {ts us : List Token} {q : Rat}
    (h : (ofLine line).result = .ok q) (hReads : Reads 0 line.toList (ts.map .ok))
    (hOthers : Reads 0 line'.toList (us.map .ok))
    (hLexemes : us.map Token.lexeme = ts.map Token.lexeme) : (ofLine line').result = .ok q := by
  obtain ⟨vs, e, hTokens, hSpelled, hDefined, rfl⟩ := ofLine_sound h
  obtain rfl : vs = ts :=
    List.map_injective_iff.mpr (fun _ _ => Except.ok.inj) (hTokens.unique hReads)
  exact ofLine_complete hOthers (hSpelled.trans hLexemes.symm) hDefined

/-- Lines whose items and ends correspond have the same value, or faults that correspond. -/
theorem result_of_corresponds {f : Int → Int} {line line' : String} {items others : List Item}
    (hReads : Reads 0 line.toList items) (hOthers : Reads 0 line'.toList others)
    (h : List.Forall₂ (Item.Corresponds f) items others) (hLength : f line.length = line'.length) :
    (ofLine line').result = (ofLine line).result.mapError (Fault.relocate f) := by
  cases hResult : (ofLine line).result with
  | ok q =>
    obtain ⟨ts, -, hTokens, -⟩ := ofLine_sound hResult
    obtain rfl := hReads.unique hTokens
    obtain ⟨us, rfl, hLexemes⟩ := Item.exists_tokens_of_corresponds h
    exact result_eq_ok_of_lexemes hResult hReads hOthers hLexemes
  | error fault =>
    have hEnds : Item.Corresponds f (.ok (.ending line.length)) (.ok (.ending line'.length)) :=
      .token rfl hLength.symm
    have hRun := run_of_corresponds (List.rel_append h (.cons hEnds .nil)) (.needFactor none)
    rw [(result_eq_error_iff_run hReads).mp hResult] at hRun
    exact (result_eq_error_iff_run hOthers).mpr hRun

end Reckoning

end Reckoner
