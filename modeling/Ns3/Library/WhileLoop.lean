import Mathlib

/-!
# While loops

A while loop over a state, with a body that may fail, and with fuel: one unit for each test of the
condition. The rule for total correctness asks for an invariant that the body keeps and a measure that
it lowers; a loop that has more fuel than its measure then ends, in a state that meets the invariant
and fails the condition.
-/

variable {σ : Type*} {cond : σ → Bool} {body : σ → Option σ}

/-- The loop `while (cond) body`. -/
def whileLoop (cond : σ → Bool) (body : σ → Option σ) : ℕ → σ → Option σ
  | 0, _ => none
  | fuel + 1, s => if cond s then (body s).bind fun s' ↦ whileLoop cond body fuel s' else some s

theorem whileLoop_of_not {fuel : ℕ} (hf : 0 < fuel) {s : σ} (h : cond s = false) :
    whileLoop cond body fuel s = some s := by
  obtain ⟨fuel, rfl⟩ := Nat.exists_eq_succ_of_ne_zero hf.ne'
  rw [whileLoop, h]
  rfl

/-- **The rule for loops.** -/
theorem whileLoop_spec (cond : σ → Bool) (body : σ → Option σ) (I : σ → Prop) (measure : σ → ℕ)
    (hstep : ∀ s, I s → cond s = true → ∃ s', body s = some s' ∧ I s' ∧ measure s' < measure s)
    {fuel : ℕ} {s : σ} (hI : I s) (hf : measure s < fuel) :
    ∃ s', whileLoop cond body fuel s = some s' ∧ I s' ∧ cond s' = false := by
  induction fuel generalizing s with
  | zero => exact absurd hf (Nat.not_lt_zero _)
  | succ fuel ih =>
    rw [whileLoop]
    cases hc : cond s with
    | false => exact ⟨s, rfl, hI, hc⟩
    | true =>
      obtain ⟨s₁, hb, hI₁, hlt⟩ := hstep s hI hc
      obtain ⟨s', hs', hI', hc'⟩ := ih hI₁ (lt_of_lt_of_le hlt (Nat.le_of_lt_succ hf))
      refine ⟨s', ?_, hI', hc'⟩
      rw [if_pos rfl, hb]
      exact hs'
