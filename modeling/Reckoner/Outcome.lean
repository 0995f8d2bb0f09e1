import Reckoner.Fault

/-!
# Outcomes

An operation on a state answers a result and the state that it leaves, after a fault no less than
after a success.
-/

set_option autoImplicit false

namespace Reckoner

structure Outcome (σ α : Type) where
  result : Except Fault α
  left : σ

namespace Outcome

variable {σ τ α β : Type}

def map (f : α → β) (outcome : Outcome σ α) : Outcome σ β :=
  ⟨outcome.result.map f, outcome.left⟩

def onLeft (g : σ → τ) (outcome : Outcome σ α) : Outcome τ α :=
  ⟨outcome.result, g outcome.left⟩

/-- Goes on from a success; a fault is the outcome of the whole. -/
def andThen (outcome : Outcome σ α) (next : α → σ → Outcome σ β) : Outcome σ β :=
  match outcome with
  | ⟨.ok a, s⟩ => next a s
  | ⟨.error fault, s⟩ => ⟨.error fault, s⟩

@[simp] theorem map_ok (f : α → β) (a : α) (s : σ) : map f ⟨.ok a, s⟩ = ⟨.ok (f a), s⟩ := rfl

@[simp] theorem map_error (f : α → β) (fault : Fault) (s : σ) :
    map f ⟨.error fault, s⟩ = ⟨.error fault, s⟩ := rfl

@[simp] theorem left_map (f : α → β) (outcome : Outcome σ α) : (outcome.map f).left = outcome.left :=
  rfl

@[simp] theorem ok_andThen (a : α) (s : σ) (next : α → σ → Outcome σ β) :
    andThen ⟨.ok a, s⟩ next = next a s := rfl

@[simp] theorem error_andThen (fault : Fault) (s : σ) (next : α → σ → Outcome σ β) :
    andThen ⟨.error fault, s⟩ next = ⟨.error fault, s⟩ := rfl

theorem map_eq_ok_iff {f : α → β} {outcome : Outcome σ α} {b : β} {s : σ} :
    outcome.map f = ⟨.ok b, s⟩ ↔ ∃ a, outcome = ⟨.ok a, s⟩ ∧ f a = b := by
  constructor
  · intro h
    obtain ⟨result, left⟩ := outcome
    cases result with
    | ok a =>
      cases h
      exact ⟨a, rfl, rfl⟩
    | error fault => cases h
  · rintro ⟨a, rfl, rfl⟩
    rfl

theorem map_eq_error_iff {f : α → β} {outcome : Outcome σ α} {fault : Fault} {s : σ} :
    outcome.map f = ⟨.error fault, s⟩ ↔ outcome = ⟨.error fault, s⟩ := by
  constructor
  · intro h
    obtain ⟨result, left⟩ := outcome
    cases result with
    | ok a => cases h
    | error other =>
      cases h
      rfl
  · rintro rfl
    rfl

theorem andThen_eq_ok_iff {outcome : Outcome σ α} {next : α → σ → Outcome σ β} {b : β} {s : σ} :
    outcome.andThen next = ⟨.ok b, s⟩ ↔
      ∃ a middle, outcome = ⟨.ok a, middle⟩ ∧ next a middle = ⟨.ok b, s⟩ := by
  constructor
  · intro h
    obtain ⟨result, left⟩ := outcome
    cases result with
    | ok a => exact ⟨a, left, rfl, h⟩
    | error fault => cases h
  · rintro ⟨a, middle, rfl, h⟩
    exact h

end Outcome

end Reckoner
