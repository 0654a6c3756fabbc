import Mathlib

/-!
# Operations that may fail

The results of `Except` computations, read backwards: what a computation that succeeds has gone
through; and forwards: a computation that does not fail in a bad way meets a condition when its parts do.
-/

namespace Except

variable {ε : Type*} {α β : Type} {a b : α} {e : ε}

theorem ok_bind (a : α) (f : α → Except ε β) : (.ok a >>= f) = f a := rfl

theorem bind_eq_ok {x : Except ε α} {f : α → Except ε β} {b : β} :
    (x >>= f) = .ok b ↔ ∃ a, x = .ok a ∧ f a = .ok b := by
  cases x with
  | error e =>
    refine ⟨fun h ↦ ?_, fun ⟨_, h, _⟩ ↦ ?_⟩
    · cases h
    · cases h
  | ok a =>
    refine ⟨fun h ↦ ⟨a, rfl, h⟩, ?_⟩
    rintro ⟨a', h, hb⟩
    cases h
    exact hb

theorem ok_inj : (.ok a : Except ε α) = .ok b ↔ a = b := ⟨Except.ok.inj, congrArg _⟩

theorem pure_eq_ok : (pure a : Except ε α) = .ok b ↔ a = b := ok_inj

theorem error_ne_ok : (.error e : Except ε α) ≠ .ok a := fun h ↦ by cases h

theorem map_eq_ok {x : Except ε α} {f : α → β} {b : β} :
    x.map f = .ok b ↔ ∃ a, x = .ok a ∧ f a = b := by
  cases x with
  | error e =>
    refine ⟨fun h ↦ ?_, fun ⟨_, h, _⟩ ↦ ?_⟩
    · cases h
    · cases h
  | ok a =>
    refine ⟨fun h ↦ ⟨a, rfl, Except.ok.inj h⟩, ?_⟩
    rintro ⟨a', h, hb⟩
    cases h
    exact congrArg _ hb

theorem toOption_eq_some {x : Except ε α} : x.toOption = some a ↔ x = .ok a := by
  cases x with
  | error e =>
    refine ⟨fun h ↦ ?_, fun h ↦ ?_⟩
    · cases h
    · cases h
  | ok b => exact ⟨fun h ↦ congrArg _ (Option.some.inj h), fun h ↦ congrArg _ (Except.ok.inj h)⟩

/-! ## Conditions on the result -/

/-- A computation does not fail in a bad way, and what it returns meets a condition. -/
def Meets (bad : ε → Prop) (x : Except ε α) (Q : α → Prop) : Prop :=
  match x with
  | .ok a => Q a
  | .error e => ¬ bad e

section Meets

variable {bad : ε → Prop} {x : Except ε α} {Q Q' : α → Prop} {f : α → Except ε β} {R : β → Prop}

theorem meets_ite {p : Prop} [Decidable p] (hp : p) (hQ : Q a) :
    Meets bad (if p then .ok a else .error e) Q := by
  rw [if_pos hp]
  exact hQ

theorem Meets.mono (h : Meets bad x Q) (hQ : ∀ a, Q a → Q' a) : Meets bad x Q' := by
  cases x with
  | error e => exact h
  | ok a => exact hQ a h

theorem Meets.bind (h : Meets bad x Q) (hf : ∀ a, Q a → Meets bad (f a) R) :
    Meets bad (x >>= f) R := by
  cases x with
  | error e => exact h
  | ok a => exact hf a h

theorem Meets.map {g : α → β} (h : Meets bad x Q) (hg : ∀ a, Q a → R (g a)) :
    Meets bad (x.map g) R := by
  cases x with
  | error e => exact h
  | ok a => exact hg a h

theorem Meets.of_eq_ok (h : Meets bad x Q) (hx : x = .ok a) : Q a := by
  rw [hx] at h
  exact h

theorem Meets.not_bad (h : Meets bad x Q) (hx : x = .error e) : ¬ bad e := by
  rw [hx] at h
  exact h

end Meets

end Except
