import Mathlib.Algebra.Order.Ring.Int
import Reckoner.Console
import Reckoner.Session

/-!
# What allowances bear on

An allowance decides whether a text is written, and nothing else. An argument is not written just if its
form has an integer of too many digits or goes down too many calls, and the cause is one of these. A value
or a token is not written just if a number of it has too many digits. Steps leave a session as they would
under any other allowance.
-/

set_option autoImplicit false

namespace Reckoner

namespace Allowance

variable {allowance : Allowance} {n : Int} {cause : Unwritable}

/-- No limit keeps an integer from being written. -/
def Fits (allowance : Allowance) (n : Int) : Prop :=
  ∀ limit, allowance.digits? = some limit → digitCount n ≤ limit

/-- The first number with more digits than some limit is a power of ten. -/
theorem lt_digitCount_iff {limit : Nat} (h : 0 < limit) : limit < digitCount n ↔ 10 ^ limit ≤ n.natAbs := by
  rw [← Nat.not_le, digitCount, Nat.length_toDigits_le_iff (by decide) h, Nat.not_lt]

theorem lt_digitCount_mul_pow {limit : Nat} (h : 0 < limit) {m : Int} (hm : m ≠ 0) :
    limit < digitCount (m * 10 ^ limit) := by
  rw [lt_digitCount_iff h, Int.natAbs_mul, Int.natAbs_pow]
  exact Nat.le_mul_of_pos_left _ (Int.natAbs_pos.mpr hm)

theorem digitHindrance?_eq_some_iff : allowance.digitHindrance? n = some cause ↔
    ∃ limit, allowance.digits? = some limit ∧ limit < digitCount n ∧ cause = .digits limit := by
  rw [digitHindrance?]
  cases allowance.digits? with
  | none => simp
  | some limit =>
    dsimp only
    split
    · next hLess =>
      constructor
      · intro h
        exact ⟨limit, rfl, hLess, (Option.some.inj h).symm⟩
      · rintro ⟨other, hLimit, -, rfl⟩
        rw [Option.some.inj hLimit]
    · next hLess =>
      refine iff_of_false (Option.some_ne_none cause).symm ?_
      rintro ⟨other, hLimit, hMore, -⟩
      exact hLess (Option.some.inj hLimit ▸ hMore)

theorem digitHindrance?_eq_none_iff : allowance.digitHindrance? n = none ↔ allowance.Fits n := by
  rw [Option.eq_none_iff_forall_ne_some]
  constructor
  · intro h limit hLimit
    by_contra hLess
    exact h (.digits limit) (digitHindrance?_eq_some_iff.mpr ⟨limit, hLimit, Nat.lt_of_not_le hLess, rfl⟩)
  · intro h cause hCause
    obtain ⟨limit, hLimit, hLess, -⟩ := digitHindrance?_eq_some_iff.mp hCause
    exact absurd (h limit hLimit) (Nat.not_le.mpr hLess)

theorem below?_eq_none_iff {calls : Nat} : allowance.below? calls = none ↔
    ∃ limit, allowance.calls? = some limit ∧ limit < calls := by
  rw [below?]
  cases allowance.calls? with
  | none => simp
  | some limit => simp

theorem of_below? {calls : Nat} {inner : Allowance} (h : allowance.below? calls = some inner) :
    inner.digits? = allowance.digits? ∧ ∀ depth, (∃ limit, inner.calls? = some limit ∧ limit < depth) ↔
      ∃ limit, allowance.calls? = some limit ∧ limit < depth + calls := by
  rw [below?] at h
  cases hCalls : allowance.calls? with
  | none =>
    rw [hCalls] at h
    cases h
    simp [hCalls]
  | some limit =>
    rw [hCalls] at h
    dsimp only at h
    split at h
    · cases h
      refine ⟨rfl, fun depth => ?_⟩
      simp only [Option.some.injEq, exists_eq_left']
      omega
    · cases h

/-! ## Results -/

section Curtails

variable {α β : Type}

/-- A result is the full one unless it goes beyond the limit on digits; then it is the fault of that. -/
def Curtails (allowance : Allowance) (beyond : Nat → Prop) (full result : Except Fault α) : Prop :=
  (∀ limit, allowance.digits? = some limit → ¬ beyond limit) ∧ result = full ∨
    ∃ limit, allowance.digits? = some limit ∧ beyond limit ∧
      result = .error (.unwritable (.digits limit))

variable {beyond other : Nat → Prop} {full result : Except Fault α}

theorem curtails_self (allowance : Allowance) (full : Except Fault α) :
    allowance.Curtails (fun _ => False) full full := .inl ⟨fun _ _ => id, rfl⟩

theorem Curtails.congr (h : allowance.Curtails beyond full result)
    (hIff : ∀ limit, beyond limit ↔ other limit) : allowance.Curtails other full result := by
  simpa only [Curtails, hIff] using h

/-- One result after another goes beyond a limit if either does. -/
theorem Curtails.bind {a : α} {next : α → Except Fault β} {last : Except Fault β}
    (h : allowance.Curtails beyond (.ok a) result) (hNext : allowance.Curtails other last (next a)) :
    allowance.Curtails (fun limit => beyond limit ∨ other limit) last (result.bind next) := by
  rcases h with ⟨hFits, rfl⟩ | ⟨limit, hLimit, hBeyond, rfl⟩
  · rcases hNext with ⟨hOther, hResult⟩ | ⟨limit, hLimit, hOther, hResult⟩
    · exact .inl ⟨fun limit hLimit => not_or_intro (hFits limit hLimit) (hOther limit hLimit), hResult⟩
    · exact .inr ⟨limit, hLimit, .inr hOther, hResult⟩
  · exact .inr ⟨limit, hLimit, .inl hBeyond, rfl⟩

theorem Curtails.map {a : α} (f : α → β) (h : allowance.Curtails beyond (.ok a) result) :
    allowance.Curtails beyond (.ok (f a)) (result.map f) := by
  rcases h with ⟨hFits, rfl⟩ | ⟨limit, hLimit, hBeyond, rfl⟩
  · exact .inl ⟨hFits, rfl⟩
  · exact .inr ⟨limit, hLimit, hBeyond, rfl⟩

theorem Curtails.eq_full (h : allowance.Curtails beyond full result) (hNone : allowance.digits? = none) :
    result = full := by
  rcases h with ⟨-, rfl⟩ | ⟨limit, hLimit, -, -⟩
  · rfl
  · rw [hNone] at hLimit
    cases hLimit

theorem Curtails.eq_error {limit : Nat} (h : allowance.Curtails beyond full result)
    (hLimit : allowance.digits? = some limit) (hBeyond : beyond limit) :
    result = .error (.unwritable (.digits limit)) := by
  rcases h with ⟨hFits, -⟩ | ⟨_, hSome, -, rfl⟩
  · exact absurd hBeyond (hFits limit hLimit)
  · rw [hLimit] at hSome
    cases hSome
    rfl

end Curtails

theorem curtails_write (allowance : Allowance) (n : Int) :
    allowance.Curtails (· < digitCount n) (.ok (toString n)) (allowance.write n) := by
  rw [write]
  split
  · next hNone =>
    exact .inl ⟨fun limit hLimit => Nat.not_lt.mpr (digitHindrance?_eq_none_iff.mp hNone limit hLimit), rfl⟩
  · next hSome =>
    obtain ⟨limit, hLimit, hLess, rfl⟩ := digitHindrance?_eq_some_iff.mp hSome
    exact .inr ⟨limit, hLimit, hLess, rfl⟩

end Allowance

open Allowance (digitCount)

/-! ## Arguments -/

namespace Datum

/-- The integers that the form of an argument has. -/
inductive Has : Datum → Int → Prop
  | int (n : Int) : Has (.int n) n
  | item {item : Datum} {items : List Datum} {n : Int} (hItem : item ∈ items) (h : Has item n) :
      Has (.list items) n

mutual

/-- How many calls the writing of an argument is nested below its first. -/
def depth : Datum → Nat
  | kind _ => 2
  | list items => depthOfItems items
  | _ => 0

def depthOfItems : List Datum → Nat
  | [] => 0
  | item :: items => max (item.depth + 1) (depthOfItems items)

end

/-- What stands in the way of writing an argument. -/
inductive Hinders (allowance : Allowance) (d : Datum) : Unwritable → Prop
  | digits {limit : Nat} {n : Int} (hLimit : allowance.digits? = some limit) (hHas : d.Has n)
      (hLess : limit < digitCount n) : Hinders allowance d (.digits limit)
  | depth {limit : Nat} (hLimit : allowance.calls? = some limit) (hLess : limit < d.depth) :
      Hinders allowance d .depth

/-- Nothing stands in the way. -/
def Writable (allowance : Allowance) (d : Datum) : Prop := ∀ cause, ¬ d.Hinders allowance cause

theorem writable_unlimited (d : Datum) : d.Writable .unlimited := by
  intro cause h
  cases h with
  | digits hLimit | depth hLimit => cases hLimit

variable {allowance inner : Allowance} {item : Datum} {items : List Datum} {cause : Unwritable}

theorem has_list_cons {n : Int} : (list (item :: items)).Has n ↔ item.Has n ∨ (list items).Has n := by
  constructor
  · intro h
    cases h with
    | item hItem h =>
      rcases List.mem_cons.mp hItem with rfl | hItem
      · exact .inl h
      · exact .inr (.item hItem h)
  · rintro (h | h)
    · exact .item List.mem_cons_self h
    · cases h with
      | item hItem h => exact .item (List.mem_cons_of_mem _ hItem) h

theorem lt_depth_list_cons_iff {limit : Nat} : limit < (list (item :: items)).depth ↔
    limit < item.depth + 1 ∨ limit < (list items).depth := lt_max_iff

/-- An item is written within what is allowed one call further down. -/
theorem hinders_list_cons (h : allowance.below? 1 = some inner) :
    (list (item :: items)).Hinders allowance cause ↔
      item.Hinders inner cause ∨ (list items).Hinders allowance cause := by
  obtain ⟨hDigits, hCalls⟩ := Allowance.of_below? h
  constructor
  · intro hHinders
    cases hHinders with
    | digits hLimit hHas hLess =>
      rcases has_list_cons.mp hHas with hHas | hHas
      · exact .inl (.digits (hDigits.trans hLimit) hHas hLess)
      · exact .inr (.digits hLimit hHas hLess)
    | depth hLimit hLess =>
      rcases lt_depth_list_cons_iff.mp hLess with hLess | hLess
      · obtain ⟨limit, hLimit, hLess⟩ := (hCalls item.depth).mpr ⟨_, hLimit, hLess⟩
        exact .inl (.depth hLimit hLess)
      · exact .inr (.depth hLimit hLess)
  · rintro (hHinders | hHinders)
    · cases hHinders with
      | digits hLimit hHas hLess =>
        exact .digits (hDigits.symm.trans hLimit) (has_list_cons.mpr (.inl hHas)) hLess
      | depth hLimit hLess =>
        obtain ⟨limit, hLimit, hLess⟩ := (hCalls item.depth).mp ⟨_, hLimit, hLess⟩
        exact .depth hLimit (lt_depth_list_cons_iff.mpr (.inl hLess))
    · cases hHinders with
      | digits hLimit hHas hLess => exact .digits hLimit (has_list_cons.mpr (.inr hHas)) hLess
      | depth hLimit hLess => exact .depth hLimit (lt_depth_list_cons_iff.mpr (.inr hLess))

mutual

theorem hinders_of_hindrance? (d : Datum) {allowance : Allowance} {cause : Unwritable}
    (h : d.hindrance? allowance = some cause) : d.Hinders allowance cause := by
  match d with
  | int n =>
    obtain ⟨limit, hLimit, hLess, rfl⟩ := Allowance.digitHindrance?_eq_some_iff.mp h
    exact .digits hLimit (.int n) hLess
  | kind k =>
    rw [hindrance?] at h
    split at h
    · cases h
    · next hBelow =>
      cases h
      obtain ⟨limit, hLimit, hLess⟩ :=
        Allowance.below?_eq_none_iff.mp (Option.not_isSome_iff_eq_none.mp hBelow)
      exact .depth hLimit hLess
  | list items => exact hinders_of_hindranceOfItems? items h
  | nothing | truth b | decimal form | text s => cases h

theorem hinders_of_hindranceOfItems? (items : List Datum) {allowance : Allowance} {cause : Unwritable}
    (h : hindranceOfItems? allowance items = some cause) : (list items).Hinders allowance cause := by
  match items with
  | [] => cases h
  | item :: items =>
    rw [hindranceOfItems?] at h
    split at h
    · next hBelow =>
      cases h
      obtain ⟨limit, hLimit, hLess⟩ := Allowance.below?_eq_none_iff.mp hBelow
      exact .depth hLimit (lt_depth_list_cons_iff.mpr (.inl (Nat.lt_of_lt_of_le hLess (Nat.le_add_left 1 _))))
    · next inner hBelow =>
      rw [hinders_list_cons hBelow]
      rcases Option.or_eq_some_iff.mp h with hItem | ⟨-, hItems⟩
      · exact .inl (hinders_of_hindrance? item hItem)
      · exact .inr (hinders_of_hindranceOfItems? items hItems)

end

mutual

theorem writable_of_hindrance? (d : Datum) {allowance : Allowance}
    (h : d.hindrance? allowance = none) : d.Writable allowance := by
  match d with
  | int n =>
    rintro cause (⟨hLimit, ⟨⟩, hLess⟩ | ⟨-, hLess⟩)
    · exact absurd (Allowance.digitHindrance?_eq_none_iff.mp h _ hLimit) (Nat.not_le.mpr hLess)
    · exact absurd hLess (Nat.not_lt_zero _)
  | kind k =>
    rintro cause (⟨-, ⟨⟩, -⟩ | ⟨hLimit, hLess⟩)
    have hBelow : allowance.below? 2 = none := Allowance.below?_eq_none_iff.mpr ⟨_, hLimit, hLess⟩
    rw [hindrance?, hBelow] at h
    cases h
  | list items => exact writable_of_hindranceOfItems? items h
  | nothing | truth b | decimal form | text s =>
    rintro cause (⟨-, ⟨⟩, -⟩ | ⟨-, hLess⟩)
    exact absurd hLess (Nat.not_lt_zero _)

theorem writable_of_hindranceOfItems? (items : List Datum) {allowance : Allowance}
    (h : hindranceOfItems? allowance items = none) : (list items).Writable allowance := by
  match items with
  | [] =>
    rintro cause (⟨-, hHas, -⟩ | ⟨-, hLess⟩)
    · cases hHas with
      | item hItem _ => exact absurd hItem List.not_mem_nil
    · exact absurd hLess (Nat.not_lt_zero _)
  | item :: items =>
    rw [hindranceOfItems?] at h
    split at h
    · cases h
    · next inner hBelow =>
      obtain ⟨hItem, hItems⟩ := Option.or_eq_none_iff.mp h
      intro cause hCause
      rcases (hinders_list_cons hBelow).mp hCause with hCause | hCause
      · exact writable_of_hindrance? item hItem cause hCause
      · exact writable_of_hindranceOfItems? items hItems cause hCause

end

theorem hindrance?_eq_none_iff {d : Datum} : d.hindrance? allowance = none ↔ d.Writable allowance := by
  constructor
  · exact writable_of_hindrance? d
  · intro h
    exact Option.eq_none_iff_forall_ne_some.mpr fun cause hCause =>
      h cause (hinders_of_hindrance? d hCause)

theorem Hinders.eq_depth {d : Datum} (h : d.Hinders allowance cause) (hNone : ∀ n, ¬ d.Has n) :
    cause = .depth := by
  cases h with
  | digits _ hHas _ => exact absurd hHas (hNone _)
  | depth => rfl

theorem Hinders.eq_digits {d : Datum} {limit : Nat} (h : d.Hinders allowance cause)
    (hLimit : allowance.digits? = some limit)
    (hCalls : ∀ calls, allowance.calls? = some calls → d.depth ≤ calls) : cause = .digits limit := by
  cases h with
  | digits hDigits _ _ => rw [Option.some.inj (hLimit.symm.trans hDigits)]
  | depth hDepth hLess => exact absurd (hCalls _ hDepth) (Nat.not_le.mpr hLess)

end Datum

/-! ## Faults -/

namespace Fault

theorem valueNote_ne_empty (k : Kind) (value : Datum) : valueNote k value ≠ "" := by
  unfold valueNote
  split
  · decide
  · simp
  · simp

/-- An argument that is no kind is refused with a note that quotes it, if it can be written. -/
theorem ofKind_cases (argument : Datum) (allowance : Allowance) :
    argument.Writable allowance ∧ ofKind argument none allowance =
      .invalidKind argument ("unknown token type " ++ argument.written) ∨
    ∃ cause, argument.Hinders allowance cause ∧
      ofKind argument none allowance = .unwritable cause := by
  cases hHindrance : argument.hindrance? allowance with
  | none =>
    refine .inl ⟨Datum.hindrance?_eq_none_iff.mp hHindrance, ?_⟩
    simp [ofKind, hHindrance, orUnwritable]
  | some cause =>
    refine .inr ⟨cause, Datum.hinders_of_hindrance? argument hHindrance, ?_⟩
    simp [ofKind, hHindrance, orUnwritable]

/-- Only the values of numbers are quoted. -/
theorem ofValue_cases (k : Kind) (value : Datum) (allowance : Allowance) :
    (k = .number → value.Writable allowance) ∧
      ofValue k value allowance = .invalidKind (.kind k) (valueNote k value) ∨
    k = .number ∧ ∃ cause, value.Hinders allowance cause ∧
      ofValue k value allowance = .unwritable cause := by
  rw [ofValue, ofKind_of_note (valueNote_ne_empty k value)]
  by_cases hNumber : k = .number
  · rw [if_pos hNumber]
    cases hHindrance : value.hindrance? allowance with
    | none => exact .inl ⟨fun _ => Datum.hindrance?_eq_none_iff.mp hHindrance, rfl⟩
    | some cause => exact .inr ⟨hNumber, cause, Datum.hinders_of_hindrance? value hHindrance, rfl⟩
  · rw [if_neg hNumber]
    exact .inl ⟨fun h => absurd h hNumber, rfl⟩

theorem ofValue_int_cases (v : Int) (allowance : Allowance) :
    allowance.Fits v ∧ ofValue .number (.int v) allowance =
      .invalidKind (.kind .number) ("invalid number value " ++ toString v) ∨
    ∃ limit, allowance.digits? = some limit ∧ limit < digitCount v ∧
      ofValue .number (.int v) allowance = .unwritable (.digits limit) := by
  rcases ofValue_cases .number (.int v) allowance with ⟨hWritable, hFault⟩ | ⟨-, cause, hHinders, hFault⟩
  · refine .inl ⟨fun limit hLimit => ?_, ?_⟩
    · by_contra hLess
      exact hWritable rfl _ (.digits hLimit (.int v) (Nat.lt_of_not_le hLess))
    · have hNote : valueNote .number (.int v) = String.join ["invalid number value ", toString v] := rfl
      rw [hFault, hNote]
      simp
  · cases hHinders with
    | digits hLimit hHas hLess =>
      cases hHas
      exact .inr ⟨_, hLimit, hLess, hFault⟩
    | depth _ hLess => exact absurd hLess (Nat.not_lt_zero _)

end Fault

/-! ## Values, tokens and answers -/

namespace Value

/-- A number of a value has more digits than a limit. -/
def IsBeyond (limit : Nat) (q : Rat) : Prop := limit < digitCount q.num ∨ limit < digitCount q.den

theorem curtails_format (q : Rat) (allowance : Allowance) :
    allowance.Curtails (IsBeyond · q) (.ok (written q)) (format q allowance) := by
  have hNumerator := allowance.curtails_write q.num
  rw [format, written]
  split
  · next hOne =>
    refine hNumerator.congr fun limit => ⟨.inl, ?_⟩
    rintro (h | h)
    · exact h
    · -- One has a single digit, and so has the numerator at least.
      rw [hOne] at h
      exact Nat.lt_of_lt_of_le h Nat.length_toDigits_pos
  · have hDenominator := (allowance.curtails_write q.den).map fun denominator =>
      String.join [toString q.num, "/", denominator]
    exact hNumerator.bind hDenominator

end Value

namespace Token

/-- The value of a token has more digits than a limit. -/
def IsBeyond (limit : Nat) (t : Token) : Prop := ∃ n, t.value? = some n ∧ limit < digitCount n

theorem curtails_format (t : Token) (allowance : Allowance) :
    allowance.Curtails (t.IsBeyond ·) (.ok t.label) (t.format allowance) := by
  rw [label, format]
  cases hValue : t.value? with
  | none => exact (allowance.curtails_self _).congr fun limit => by simp [IsBeyond, hValue]
  | some n =>
    have hWritten := (allowance.curtails_write n).map fun digits =>
      String.join [t.kind.name, "(", digits, ")"]
    exact hWritten.congr fun limit => by simp [IsBeyond, hValue]

theorem curtails_mapM_format (ts : List Token) (allowance : Allowance) :
    allowance.Curtails (fun limit => ∃ t ∈ ts, t.IsBeyond limit) (.ok (ts.map label))
      (ts.mapM (format · allowance)) := by
  induction ts with
  | nil => exact (allowance.curtails_self _).congr fun limit => by simp
  | cons t ts ih =>
    have hTexts : allowance.Curtails _ (.ok (t.label :: ts.map label))
        ((t.format allowance).bind fun text =>
          (ts.mapM (format · allowance)).bind fun texts => .ok (text :: texts)) :=
      (t.curtails_format allowance).bind (ih.bind (allowance.curtails_self _))
    rw [List.mapM_cons]
    exact hTexts.congr fun limit => by simp

end Token

namespace Console

/-- The answer to a line has a number with more digits than a limit. -/
inductive Exceeds (limit : Nat) (line : String) : Bool → Prop
  | value {q : Rat} (hResult : (Reckoning.ofLine line).result = .ok q) (h : Value.IsBeyond limit q) :
      Exceeds limit line false
  | token {ts : List Token} {t : Token} (hResult : (Feed.tokens line).result = .ok ts) (ht : t ∈ ts)
      (h : t.IsBeyond limit) : Exceeds limit line true

/-- An answer is the one that is given where digits have no limit, unless it exceeds the limit. -/
theorem curtails_answer (showTokens : Bool) (line : String) (allowance : Allowance) :
    allowance.Curtails (Exceeds · line showTokens) (answer showTokens line).1
      (answer showTokens line allowance).1 := by
  cases showTokens with
  | false =>
    rw [answer_false, answer, if_neg Bool.false_ne_true]
    rcases hOutcome : Reckoning.ofLine line with ⟨fault | q, feed⟩
    · refine (allowance.curtails_self _).congr fun limit => (iff_of_false ?_ id).symm
      rintro (⟨hResult, -⟩)
      rw [hOutcome] at hResult
      cases hResult
    · refine (Value.curtails_format q allowance).congr fun limit => ⟨fun h => ?_, ?_⟩
      · exact .value (congrArg Outcome.result hOutcome) h
      · rintro (⟨hResult, h⟩)
        rw [hOutcome] at hResult
        cases hResult
        exact h
  | true =>
    rw [answer_true, answer, if_pos rfl]
    dsimp only
    rcases hTokens : (Feed.tokens line).result with fault | ts
    · refine (allowance.curtails_self _).congr fun limit => (iff_of_false ?_ id).symm
      rintro (_ | ⟨hResult, -, -⟩)
      rw [hTokens] at hResult
      cases hResult
    · refine ((Token.curtails_mapM_format ts allowance).map _).congr fun limit => ⟨?_, ?_⟩
      · rintro ⟨t, ht, h⟩
        exact .token hTokens ht h
      · rintro (_ | ⟨hResult, ht, h⟩)
        rw [hTokens] at hResult
        cases hResult
        exact ⟨_, ht, h⟩

/-- The program answers as if there were no limit, whatever the runtime allows. -/
theorem answer_lift (showTokens : Bool) (line : String) (allowance : Allowance) :
    (answer showTokens line allowance.lift).1 = (answer showTokens line).1 :=
  (curtails_answer showTokens line allowance.lift).eq_full rfl

end Console

/-! ## Sessions -/

namespace Cursor

theorem left_readNumber (cur : Cursor) (allowance : Allowance) :
    (cur.readNumber allowance).left = cur.readNumber.left := by
  cases cur <;> rfl

end Cursor

namespace Session

theorem step_of_ne_readNumber {s : Step} (h : s ≠ .readNumber) (session : Session)
    (allowance : Allowance) : session.step s allowance = session.step s := by
  cases s with
  | readNumber => exact absurd rfl h
  | _ => rfl

/-- Whether a text is written or not, a step leaves the same session. -/
theorem left_step (session : Session) (s : Step) (allowance : Allowance) :
    (session.step s allowance).2 = (session.step s).2 := by
  cases s with
  | readNumber => exact congrArg session.moveTo (session.feed.cursor.left_readNumber allowance)
  | _ => rfl

theorem map_snd_run (session : Session) (steps : List Step) (allowance : Allowance) :
    (session.run steps allowance).map Prod.snd = (session.run steps).map Prod.snd := by
  induction steps generalizing session with
  | nil => rfl
  | cons s steps ih =>
    simp only [run, List.map_cons, left_step, ih]

end Session

end Reckoner
