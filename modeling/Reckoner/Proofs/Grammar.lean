import Mathlib.Algebra.Order.Field.Rat
import Mathlib.Data.List.Induction
import Reckoner.Token

/-!
# The grammar of expressions

    factor     := - number | number
    term       := factor | term * factor | term / factor
    expression := term | expression + term | expression - term

A sequence of lexemes has a value if the grammar derives it and nothing in it is divided by zero.
The same is said of trees: each derivation is the tree of a term or an expression, which holds its
first operand and then the others with their operators, and no two trees spell the same lexemes.
-/

set_option autoImplicit false

namespace Reckoner.Grammar

inductive DerivesFactor : List Lexeme → Rat → Prop
  | plain (n : Nat) : DerivesFactor [.number n] n
  | negated (n : Nat) : DerivesFactor [.minus, .number n] (-n)

inductive DerivesTerm : List Lexeme → Rat → Prop
  | factor {ls : List Lexeme} {q : Rat} (h : DerivesFactor ls q) : DerivesTerm ls q
  | times {ls ms : List Lexeme} {q r : Rat} (hTerm : DerivesTerm ls q) (hFactor : DerivesFactor ms r) :
      DerivesTerm (ls ++ .star :: ms) (q * r)
  | per {ls ms : List Lexeme} {q r : Rat} (hTerm : DerivesTerm ls q) (hFactor : DerivesFactor ms r)
      (hNonzero : r ≠ 0) : DerivesTerm (ls ++ .slash :: ms) (q / r)

inductive Derives : List Lexeme → Rat → Prop
  | term {ls : List Lexeme} {q : Rat} (h : DerivesTerm ls q) : Derives ls q
  | plus {ls ms : List Lexeme} {q r : Rat} (hSum : Derives ls q) (hTerm : DerivesTerm ms r) :
      Derives (ls ++ .plus :: ms) (q + r)
  | minus {ls ms : List Lexeme} {q r : Rat} (hSum : Derives ls q) (hTerm : DerivesTerm ms r) :
      Derives (ls ++ .minus :: ms) (q - r)

/-! ## Trees -/

inductive Factor where
  | plain (n : Nat)
  | negated (n : Nat)
  deriving DecidableEq, Repr

inductive Scaling where
  | times | per
  deriving DecidableEq, Repr

inductive Shift where
  | plus | minus
  deriving DecidableEq, Repr

structure Term where
  first : Factor
  rest : List (Scaling × Factor)
  deriving DecidableEq, Repr

structure Expression where
  first : Term
  rest : List (Shift × Term)
  deriving DecidableEq, Repr

def Scaling.lexeme : Scaling → Lexeme
  | times => .star
  | per => .slash

def Shift.lexeme : Shift → Lexeme
  | plus => .plus
  | minus => .minus

def Scaling.apply : Scaling → Rat → Rat → Rat
  | times, q, r => q * r
  | per, q, r => q / r

def Shift.apply : Shift → Rat → Rat → Rat
  | plus, q, r => q + r
  | minus, q, r => q - r

section Links

variable {ω α : Type} (mark : ω → Lexeme) (spell : α → List Lexeme)

/-- The lexemes of operands that follow a first one, each behind its operator. -/
def links (rest : List (ω × α)) : List Lexeme :=
  rest.flatMap fun link => mark link.1 :: spell link.2

@[simp] theorem links_nil : links mark spell [] = [] := rfl

theorem links_cons (link : ω × α) (rest : List (ω × α)) :
    links mark spell (link :: rest) = mark link.1 :: spell link.2 ++ links mark spell rest := rfl

theorem links_concat (rest : List (ω × α)) (link : ω × α) :
    links mark spell (rest ++ [link]) = links mark spell rest ++ mark link.1 :: spell link.2 := by
  simp [links]

end Links

namespace Factor

def lexemes : Factor → List Lexeme
  | plain n => [.number n]
  | negated n => [.minus, .number n]

def value : Factor → Rat
  | plain n => n
  | negated n => -n

end Factor

namespace Term

def lexemes (t : Term) : List Lexeme :=
  t.first.lexemes ++ links Scaling.lexeme Factor.lexemes t.rest

/-- Factors scale from the left to the right. -/
def value (t : Term) : Rat :=
  t.rest.foldl (fun q link => link.1.apply q link.2.value) t.first.value

/-- No factor divides that is zero. -/
def Defined (t : Term) : Prop := ∀ f, (.per, f) ∈ t.rest → f.value ≠ 0

def extend (t : Term) (o : Scaling) (f : Factor) : Term := ⟨t.first, t.rest ++ [(o, f)]⟩

theorem lexemes_extend (t : Term) (o : Scaling) (f : Factor) :
    (t.extend o f).lexemes = t.lexemes ++ o.lexeme :: f.lexemes := by
  simp [lexemes, extend, links_concat]

theorem value_extend (t : Term) (o : Scaling) (f : Factor) :
    (t.extend o f).value = o.apply t.value f.value := by
  simp [value, extend]

theorem defined_extend_iff {t : Term} {o : Scaling} {f : Factor} :
    (t.extend o f).Defined ↔ t.Defined ∧ (o = .per → f.value ≠ 0) := by
  constructor
  · intro h
    refine ⟨fun g hg => h g (List.mem_append_left _ hg), ?_⟩
    rintro rfl
    exact h f (List.mem_append_right _ List.mem_cons_self)
  · rintro ⟨hDefined, hLast⟩ g hg
    rcases List.mem_append.mp hg with hg | hg
    · exact hDefined g hg
    · cases List.mem_singleton.mp hg
      exact hLast rfl

end Term

namespace Expression

def lexemes (e : Expression) : List Lexeme :=
  e.first.lexemes ++ links Shift.lexeme Term.lexemes e.rest

/-- Terms are added and taken away from the left to the right. -/
def value (e : Expression) : Rat :=
  e.rest.foldl (fun q link => link.1.apply q link.2.value) e.first.value

def Defined (e : Expression) : Prop := e.first.Defined ∧ ∀ link ∈ e.rest, link.2.Defined

def extend (e : Expression) (o : Shift) (t : Term) : Expression := ⟨e.first, e.rest ++ [(o, t)]⟩

theorem lexemes_extend (e : Expression) (o : Shift) (t : Term) :
    (e.extend o t).lexemes = e.lexemes ++ o.lexeme :: t.lexemes := by
  simp [lexemes, extend, links_concat]

theorem value_extend (e : Expression) (o : Shift) (t : Term) :
    (e.extend o t).value = o.apply e.value t.value := by
  simp [value, extend]

theorem defined_extend_iff {e : Expression} {o : Shift} {t : Term} :
    (e.extend o t).Defined ↔ e.Defined ∧ t.Defined := by
  simp only [Defined, extend, List.forall_mem_append, List.forall_mem_singleton, and_assoc]

end Expression

/-! ## Derivations are trees -/

theorem derivesFactor_iff {ls : List Lexeme} {q : Rat} :
    DerivesFactor ls q ↔ ∃ f : Factor, f.lexemes = ls ∧ f.value = q := by
  constructor
  · rintro (n | n)
    · exact ⟨.plain n, rfl, rfl⟩
    · exact ⟨.negated n, rfl, rfl⟩
  · rintro ⟨n | n, rfl, rfl⟩
    · exact .plain n
    · exact .negated n

theorem derivesFactor (f : Factor) : DerivesFactor f.lexemes f.value :=
  derivesFactor_iff.mpr ⟨f, rfl, rfl⟩

theorem DerivesTerm.exists_term {ls : List Lexeme} {q : Rat} (h : DerivesTerm ls q) :
    ∃ t : Term, t.lexemes = ls ∧ t.Defined ∧ t.value = q := by
  induction h with
  | factor hFactor =>
    obtain ⟨f, rfl, rfl⟩ := derivesFactor_iff.mp hFactor
    exact ⟨⟨f, []⟩, List.append_nil _, fun g hg => absurd hg List.not_mem_nil, rfl⟩
  | times _ hFactor ih =>
    obtain ⟨t, rfl, hDefined, rfl⟩ := ih
    obtain ⟨f, rfl, rfl⟩ := derivesFactor_iff.mp hFactor
    exact ⟨t.extend .times f, t.lexemes_extend .times f,
      Term.defined_extend_iff.mpr ⟨hDefined, nofun⟩, t.value_extend .times f⟩
  | per _ hFactor hNonzero ih =>
    obtain ⟨t, rfl, hDefined, rfl⟩ := ih
    obtain ⟨f, rfl, rfl⟩ := derivesFactor_iff.mp hFactor
    exact ⟨t.extend .per f, t.lexemes_extend .per f,
      Term.defined_extend_iff.mpr ⟨hDefined, fun _ => hNonzero⟩, t.value_extend .per f⟩

theorem Term.Defined.derives {t : Term} (h : t.Defined) : DerivesTerm t.lexemes t.value := by
  obtain ⟨first, rest⟩ := t
  induction rest using List.reverseRecOn with
  | nil =>
    rw [Term.lexemes, links_nil, List.append_nil]
    exact .factor (derivesFactor first)
  | append_singleton rest link ih =>
    obtain ⟨o, f⟩ := link
    have h : (Term.extend ⟨first, rest⟩ o f).Defined := h
    obtain ⟨hRest, hLast⟩ := Term.defined_extend_iff.mp h
    change DerivesTerm (Term.extend ⟨first, rest⟩ o f).lexemes (Term.extend ⟨first, rest⟩ o f).value
    rw [Term.lexemes_extend, Term.value_extend]
    cases o with
    | times => exact .times (ih hRest) (derivesFactor f)
    | per => exact .per (ih hRest) (derivesFactor f) (hLast rfl)

theorem Derives.exists_expression {ls : List Lexeme} {q : Rat} (h : Derives ls q) :
    ∃ e : Expression, e.lexemes = ls ∧ e.Defined ∧ e.value = q := by
  induction h with
  | term hTerm =>
    obtain ⟨t, rfl, hDefined, rfl⟩ := hTerm.exists_term
    exact ⟨⟨t, []⟩, List.append_nil _, ⟨hDefined, fun _ h => absurd h List.not_mem_nil⟩, rfl⟩
  | plus _ hTerm ih =>
    obtain ⟨e, rfl, hDefined, rfl⟩ := ih
    obtain ⟨t, rfl, hLast, rfl⟩ := hTerm.exists_term
    exact ⟨e.extend .plus t, e.lexemes_extend .plus t,
      Expression.defined_extend_iff.mpr ⟨hDefined, hLast⟩, e.value_extend .plus t⟩
  | minus _ hTerm ih =>
    obtain ⟨e, rfl, hDefined, rfl⟩ := ih
    obtain ⟨t, rfl, hLast, rfl⟩ := hTerm.exists_term
    exact ⟨e.extend .minus t, e.lexemes_extend .minus t,
      Expression.defined_extend_iff.mpr ⟨hDefined, hLast⟩, e.value_extend .minus t⟩

theorem Expression.Defined.derives {e : Expression} (h : e.Defined) :
    Derives e.lexemes e.value := by
  obtain ⟨first, rest⟩ := e
  induction rest using List.reverseRecOn with
  | nil =>
    rw [Expression.lexemes, links_nil, List.append_nil]
    exact .term h.1.derives
  | append_singleton rest link ih =>
    obtain ⟨o, t⟩ := link
    have h : (Expression.extend ⟨first, rest⟩ o t).Defined := h
    obtain ⟨hRest, hLast⟩ := Expression.defined_extend_iff.mp h
    change Derives (Expression.extend ⟨first, rest⟩ o t).lexemes
      (Expression.extend ⟨first, rest⟩ o t).value
    rw [Expression.lexemes_extend, Expression.value_extend]
    cases o with
    | plus => exact .plus (ih hRest) hLast.derives
    | minus => exact .minus (ih hRest) hLast.derives

theorem derives_iff {ls : List Lexeme} {q : Rat} :
    Derives ls q ↔ ∃ e : Expression, e.lexemes = ls ∧ e.Defined ∧ e.value = q := by
  constructor
  · exact Derives.exists_expression
  · rintro ⟨e, rfl, hDefined, rfl⟩
    exact hDefined.derives

/-! ## Trees are unique -/

/-- Operands that can be told from what follows them make links that can. -/
theorem links_append_inj {ω α : Type} (mark : ω → Lexeme) (spell : α → List Lexeme)
    (Stops : List Lexeme → Prop) (hMark : Function.Injective mark)
    (hStops : ∀ o ls, Stops (mark o :: ls))
    (hSpell : ∀ a b us vs, Stops us → Stops vs → spell a ++ us = spell b ++ vs → a = b ∧ us = vs)
    {rest others : List (ω × α)} {us vs : List Lexeme} (hu : Stops us) (hv : Stops vs)
    (hu' : ∀ o, us.head? ≠ some (mark o)) (hv' : ∀ o, vs.head? ≠ some (mark o))
    (h : links mark spell rest ++ us = links mark spell others ++ vs) :
    rest = others ∧ us = vs := by
  induction rest generalizing others with
  | nil =>
    cases others with
    | nil => exact ⟨rfl, h⟩
    | cons link others => exact absurd (congrArg List.head? h) (hu' link.1)
  | cons link rest ih =>
    cases others with
    | nil => exact absurd (congrArg List.head? h).symm (hv' link.1)
    | cons other others =>
      have hTail (tail : List (ω × α)) (ls : List Lexeme) (hls : Stops ls) :
          Stops (links mark spell tail ++ ls) := by
        cases tail with
        | nil => exact hls
        | cons link tail => exact hStops link.1 _
      rw [links_cons, links_cons, List.append_assoc, List.append_assoc, List.cons_append,
        List.cons_append, List.cons.injEq] at h
      obtain ⟨hOperator, h⟩ := h
      obtain ⟨hOperand, h⟩ := hSpell _ _ _ _ (hTail rest us hu) (hTail others vs hv) h
      obtain ⟨rfl, rfl⟩ := ih h
      exact ⟨by rw [Prod.ext (hMark hOperator) hOperand], rfl⟩

theorem Factor.lexemes_append_inj {f g : Factor} {us vs : List Lexeme}
    (h : f.lexemes ++ us = g.lexemes ++ vs) : f = g ∧ us = vs := by
  cases f <;> cases g <;> simp_all [Factor.lexemes]

theorem Scaling.lexeme_injective : Function.Injective Scaling.lexeme := by
  intro o p h
  cases o <;> cases p <;> first | rfl | cases h

theorem Shift.lexeme_injective : Function.Injective Shift.lexeme := by
  intro o p h
  cases o <;> cases p <;> first | rfl | cases h

theorem Scaling.lexeme_ne (o : Scaling) (p : Shift) : p.lexeme ≠ o.lexeme := by
  cases o <;> cases p <;> decide

theorem Scaling.lexeme_ne_eof (o : Scaling) : o.lexeme ≠ .eof := by
  cases o <;> decide

theorem Shift.lexeme_ne_eof (o : Shift) : o.lexeme ≠ .eof := by
  cases o <;> decide

/-- At most one beginning of a sequence is a term that no factor can be added to. -/
theorem Term.lexemes_append_inj {t t' : Term} {us vs : List Lexeme}
    (hu : ∀ o : Scaling, us.head? ≠ some o.lexeme) (hv : ∀ o : Scaling, vs.head? ≠ some o.lexeme)
    (h : t.lexemes ++ us = t'.lexemes ++ vs) : t = t' ∧ us = vs := by
  obtain ⟨first, rest⟩ := t
  obtain ⟨first', rest'⟩ := t'
  rw [Term.lexemes, Term.lexemes, List.append_assoc, List.append_assoc] at h
  obtain ⟨rfl, hRest⟩ := Factor.lexemes_append_inj h
  obtain ⟨rfl, rfl⟩ := links_append_inj Scaling.lexeme Factor.lexemes (fun _ => True)
    Scaling.lexeme_injective (fun _ _ => trivial) (fun _ _ _ _ _ _ => Factor.lexemes_append_inj)
    trivial trivial hu hv hRest
  exact ⟨rfl, rfl⟩

/-- At most one beginning of a sequence is an expression that nothing can be added to. -/
theorem Expression.lexemes_append_inj {e e' : Expression} {us vs : List Lexeme}
    (hu : ∀ o : Scaling, us.head? ≠ some o.lexeme) (hv : ∀ o : Scaling, vs.head? ≠ some o.lexeme)
    (hu' : ∀ o : Shift, us.head? ≠ some o.lexeme) (hv' : ∀ o : Shift, vs.head? ≠ some o.lexeme)
    (h : e.lexemes ++ us = e'.lexemes ++ vs) : e = e' ∧ us = vs := by
  obtain ⟨first, rest⟩ := e
  obtain ⟨first', rest'⟩ := e'
  have hTail (tail : List (Shift × Term)) (ls : List Lexeme)
      (hls : ∀ o : Scaling, ls.head? ≠ some o.lexeme) (o : Scaling) :
      (links Shift.lexeme Term.lexemes tail ++ ls).head? ≠ some o.lexeme := by
    cases tail with
    | nil => exact hls o
    | cons link tail => exact fun h => o.lexeme_ne link.1 (Option.some.inj h)
  rw [Expression.lexemes, Expression.lexemes, List.append_assoc, List.append_assoc] at h
  obtain ⟨rfl, hRest⟩ := Term.lexemes_append_inj (hTail rest us hu) (hTail rest' vs hv) h
  obtain ⟨rfl, rfl⟩ := links_append_inj Shift.lexeme Term.lexemes
    (fun ls => ∀ o : Scaling, ls.head? ≠ some o.lexeme) Shift.lexeme_injective
    (fun p _ o h => o.lexeme_ne p (Option.some.inj h)) (fun _ _ _ _ => Term.lexemes_append_inj)
    hu hv hu' hv' hRest
  exact ⟨rfl, rfl⟩

theorem Expression.lexemes_injective : Function.Injective Expression.lexemes := by
  intro e e' h
  have hScaling (o : Scaling) : ([] : List Lexeme).head? ≠ some o.lexeme := (Option.some_ne_none _).symm
  have hShift (o : Shift) : ([] : List Lexeme).head? ≠ some o.lexeme := (Option.some_ne_none _).symm
  have h : e.lexemes ++ [] = e'.lexemes ++ [] := by rw [h]
  exact (Expression.lexemes_append_inj hScaling hScaling hShift hShift h).1

end Reckoner.Grammar
