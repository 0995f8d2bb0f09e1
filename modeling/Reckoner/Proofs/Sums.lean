import Reckoner.Proofs.Continuations
import Reckoner.Proofs.Relocation

/-!
# Sums of lines

Two lines with a plus between them are worth the sum of what they are worth, since a plus binds least
and a sum goes on from the left. The left line comes first with its fault, and the right one is read as
it is alone, at a later place. Only a left line that ends too early sees the plus, which it refuses.
-/

set_option autoImplicit false

namespace Reckoner

open Reading

/-! ## Trees -/

namespace Grammar.Expression

/-- Two expressions with an operator between. It takes the first term of the second one alone, and the
terms behind that one go on. -/
def join (e : Expression) (o : Shift) (e' : Expression) : Expression :=
  ⟨e.first, e.rest ++ (o, e'.first) :: e'.rest⟩

theorem lexemes_join (e : Expression) (o : Shift) (e' : Expression) :
    (e.join o e').lexemes = e.lexemes ++ o.lexeme :: e'.lexemes := by
  simp [lexemes, join, links]

theorem value_join (e : Expression) (o : Shift) (e' : Expression) : (e.join o e').value =
    e'.rest.foldl (fun q link => link.1.apply q link.2.value) (o.apply e.value e'.first.value) := by
  rw [value, join, List.foldl_append, List.foldl_cons]
  rfl

theorem defined_join_iff {e e' : Expression} {o : Shift} :
    (e.join o e').Defined ↔ e.Defined ∧ e'.Defined := by
  simp only [Defined, join, List.forall_mem_append, List.forall_mem_cons, and_assoc]

theorem foldl_add (rest : List (Shift × Term)) (p q : Rat) :
    rest.foldl (fun q link => link.1.apply q link.2.value) (p + q) =
      p + rest.foldl (fun q link => link.1.apply q link.2.value) q := by
  induction rest generalizing q with
  | nil => rfl
  | cons link rest ih =>
    obtain ⟨o, t⟩ := link
    have hApply : o.apply (p + q) t.value = p + o.apply q t.value := by
      cases o with
      | plus => exact add_assoc p q t.value
      | minus => exact add_sub_assoc p q t.value
    rw [List.foldl_cons, List.foldl_cons, hApply, ih]

theorem value_join_plus (e e' : Expression) : (e.join .plus e').value = e.value + e'.value :=
  (value_join e .plus e').trans (foldl_add e'.rest e.value e'.first.value)

end Grammar.Expression

namespace Automaton

/-- What has failed stays so behind the items, unless it was for want of more. -/
theorem Fails.append {state : State} {place : Int} {items : List Item} {fault : Fault}
    (h : Fails state place items fault)
    (hEnd : ∀ expected, fault ≠ .unexpectedToken .eof expected place) (t : Token)
    (others : List Item) (place' : Int) : Fails state place' (items ++ .ok t :: others) fault := by
  cases h with
  | symbol ts hPath =>
    rw [List.append_assoc]
    exact .symbol ts hPath
  | symbolBehind ts hPath hGoes =>
    rw [List.append_assoc]
    exact .symbolBehind ts hPath hGoes
  | token ts hPath hRefuses =>
    rw [List.append_assoc]
    exact .token ts hPath hRefuses
  | ending => exact absurd rfl (hEnd _)
  | @division _ _ _ _ _ later hPath hGoes hOthers =>
    rw [List.append_assoc]
    refine .division _ hPath hGoes fun fault hFault => ?_
    cases later with
    | nil => cases hFault
    | cons => exact hOthers fault hFault

end Automaton

namespace Reading

/-- What a line is read as is what is read on both sides of an operator. -/
theorem Reads.between {a b : String} {us vs : List Item} {c : Char} {lexeme : Lexeme}
    (ha : Reads 0 a.toList us) (hOperator : (c, lexeme) ∈ operators) (hb : Reads 0 b.toList vs) :
    Reads 0 (a ++ c.toString ++ b).toList (us ++ .ok ⟨lexeme, a.length, c.toString⟩ ::
      vs.map (Item.relocate (· + (a.length + 1 : Nat)))) := by
  have h := ha.join hOperator hb
  have hText : c.toString.toList = [c] := String.toList_singleton c
  rw [String.length_toList] at h
  rwa [String.toList_append, String.toList_append, hText, List.append_assoc]

theorem ReadsAs.between {a b : String} {ls ms : List Lexeme} {c : Char} {lexeme : Lexeme}
    (ha : ReadsAs 0 a.toList ls) (hOperator : (c, lexeme) ∈ operators) (hb : ReadsAs 0 b.toList ms) :
    ReadsAs 0 (a ++ c.toString ++ b).toList (ls ++ lexeme :: ms) := by
  obtain ⟨ts, hFront, rfl⟩ := ha
  obtain ⟨us, hBack, rfl⟩ := hb
  have hReads := hFront.between hOperator hBack
  rw [Item.map_relocate_tokens, tokens_append_cons, ← List.map_append] at hReads
  refine ⟨_, hReads, ?_⟩
  rw [List.map_append, List.map_append, Token.map_lexeme_relocate, List.append_assoc]
  rfl

end Reading

namespace Reckoning

open Automaton Grammar

theorem reads_sum {a b : String} {us vs : List Item} (ha : Reads 0 a.toList us)
    (hb : Reads 0 b.toList vs) : Reads 0 (a ++ "+" ++ b).toList (us ++ .ok ⟨.plus, a.length, "+"⟩ ::
      vs.map (Item.relocate (· + (a.length + 1 : Nat)))) :=
  ha.between (c := '+') List.mem_cons_self hb

theorem result_sum {a b : String} {x y : Rat} (ha : (ofLine a).result = .ok x)
    (hb : (ofLine b).result = .ok y) : (ofLine (a ++ "+" ++ b)).result = .ok (x + y) := by
  obtain ⟨e, hFront, hDefined, rfl⟩ := exists_tree ha
  obtain ⟨e', hBack, hDefined', rfl⟩ := exists_tree hb
  have hPlus : ('+', Shift.plus.lexeme) ∈ operators := List.mem_cons_self
  have hReads := hFront.between hPlus hBack
  rw [← Expression.lexemes_join] at hReads
  rw [← Expression.value_join_plus]
  exact hReads.result (Expression.defined_join_iff.mpr ⟨hDefined, hDefined'⟩)

theorem goes_plus {t : Token} (h : t.lexeme = .plus) : Goes .afterFactor t (.needFactor none) none := by
  rw [goes_iff, State.move, h]

/-- Behind the plus the right line leads to what it leads to alone. -/
theorem result_sum_of_right {a b : String} {x : Rat} {fault : Fault} (ha : (ofLine a).result = .ok x)
    (hb : (ofLine b).result = .error fault) : (ofLine (a ++ "+" ++ b)).result =
      .error (fault.relocate (· + (a.length + 1 : Nat))) := by
  obtain ⟨ts, hFront, hPath⟩ := exists_result_eq_ok_iff.mp ⟨x, ha⟩
  obtain ⟨items, hBack⟩ := exists_reads 0 b.toList
  have hLater := run_relocate (· + (a.length + 1 : Nat)) (.needFactor none)
    (items ++ [.ok (.ending b.length)])
  have hLength : (b.length : Int) + (a.length + 1 : Nat) = (a ++ "+" ++ b).length := by
    rw [String.length_append, String.length_append]
    push_cast
    exact add_comm _ _
  rw [(result_eq_error_iff_run hBack).mp hb,
    Item.map_relocate_concat_ending (· + (a.length + 1 : Nat)) hLength] at hLater
  rw [result_eq_error_iff_run (reads_sum hFront hBack), List.append_assoc, run_of_path hPath,
    List.cons_append, run_of_goes (goes_plus rfl)]
  exact hLater

theorem result_sum_of_left {a : String} {fault : Fault} (ha : (ofLine a).result = .error fault)
    (hEnd : ∀ expected position, fault ≠ .unexpectedToken .eof expected position) (b : String) :
    (ofLine (a ++ "+" ++ b)).result = .error fault := by
  obtain ⟨items, hFront, hFails⟩ := exists_fails ha
  obtain ⟨others, hBack⟩ := exists_reads 0 b.toList
  rw [result_eq_error_iff (reads_sum hFront hBack)]
  exact hFails.append (fun expected => hEnd expected _) _ _ _

/-- A number that is missing at the end of the left line is missed in front of the plus. -/
theorem result_sum_of_ended {a : String} {expected : Kind} {position : Int}
    (ha : (ofLine a).result = .error (.unexpectedToken .eof expected position)) (b : String) :
    (ofLine (a ++ "+" ++ b)).result = .error (.unexpectedToken .plus .number a.length) := by
  obtain ⟨-, -, ts, last, slash?, hFront, hPath, hLast⟩ := exists_path_of_ended ha
  obtain ⟨others, hBack⟩ := exists_reads 0 b.toList
  have hRefuses : last.Refuses .number .plus := by
    rcases hLast with rfl | rfl
    · exact ⟨rfl, nofun, nofun⟩
    · exact ⟨rfl, nofun⟩
  exact (result_eq_error_iff (reads_sum hFront hBack)).mpr (.token ts hPath hRefuses)

/-- Whatever two lines are, the line of both with a plus between them has the sum of their values. If
only the left one has a value, the fault is that of the right one, as much further on as that stands
in the whole. If the left one ends too early, the plus is refused, and any other fault of the left one
is the fault of the whole. -/
theorem result_of_sum (a b : String) :
    (ofLine (a ++ "+" ++ b)).result =
      match (ofLine a).result, (ofLine b).result with
      | .ok x, .ok y => .ok (x + y)
      | .ok _, .error fault => .error (fault.relocate (· + (a.length + 1 : Nat)))
      | .error (.unexpectedToken .eof _ _), _ => .error (.unexpectedToken .plus .number a.length)
      | .error fault, _ => .error fault := by
  split
  · next ha hb => exact result_sum ha hb
  · next ha hb => exact result_sum_of_right ha hb
  · next ha => exact result_sum_of_ended ha b
  · next hEnd ha => exact result_sum_of_left ha hEnd b

end Reckoning

end Reckoner
