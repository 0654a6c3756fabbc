import Mathlib.Logic.Equiv.Basic
import Mathlib.Order.Lattice

/-!
# Implicit binary heaps

The heap laws of an array whose cells `1, …, n - 1` form a binary tree, cell `j` below cell `j / 2`,
stated for the sequence `f` of keys so that they do not depend on how a program stores the array.

A sift exchanges a cell with a neighbour until the order is restored, so what matters is the order
*except around one cell*. `UpOrder` and `DownOrder` are the two forms: sifting up, everything is in
order but the cell itself, and its children are not below its parent; sifting down, everything is in
order but the cell's children. Each has a move lemma, which is one exchange, and a finish lemma.
-/

namespace BinaryHeap

variable {κ : Type*} [LinearOrder κ] {n i c : ℕ} {f : ℕ → κ}

/-- Every cell is at or after its parent. -/
def Ordered (n : ℕ) (f : ℕ → κ) : Prop := ∀ j, 2 ≤ j → j < n → f (j / 2) ≤ f j

/-- The order while cell `i` is sifted up. -/
structure UpOrder (n : ℕ) (f : ℕ → κ) (i : ℕ) : Prop where
  /-- Every cell but `i` is at or after its parent. -/
  except : ∀ j, 2 ≤ j → j < n → j ≠ i → f (j / 2) ≤ f j
  /-- The children of `i` are at or after the parent of `i`. -/
  grand : 2 ≤ i → ∀ j, j < n → j / 2 = i → f (i / 2) ≤ f j

/-- The order while cell `i` is sifted down. -/
structure DownOrder (n : ℕ) (f : ℕ → κ) (i : ℕ) : Prop where
  /-- Every cell but the children of `i` is at or after its parent. -/
  except : ∀ j, 2 ≤ j → j < n → j / 2 ≠ i → f (j / 2) ≤ f j
  /-- The children of `i` are at or after the parent of `i`. -/
  grand : 2 ≤ i → ∀ j, j < n → j / 2 = i → f (i / 2) ≤ f j

theorem Ordered.root_le (h : Ordered n f) : ∀ {j : ℕ}, 1 ≤ j → j < n → f 1 ≤ f j := by
  intro j
  induction j using Nat.strongRecOn with
  | ind j ih =>
    intro hj hn
    rcases Nat.lt_or_ge j 2 with h2 | h2
    · rw [show j = 1 by omega]
    · exact (ih (j / 2) (by omega) (by omega) (by omega)).trans (h j h2 hn)

/-! ## Sifting up -/

/-- Appending a cell leaves an ordered heap in order but for that cell. -/
theorem Ordered.upOrder_last (h : Ordered n f) : UpOrder (n + 1) f n where
  except j h2 hj hne := h j h2 (by omega)
  grand _ j hj hp := by omega

theorem UpOrder.move (h : UpOrder n f i) (h2 : 2 ≤ i) (hi : i < n) (hlt : f i < f (i / 2)) :
    UpOrder n (f ∘ Equiv.swap i (i / 2)) (i / 2) := by
  have hp : i / 2 ≠ i := by omega
  have hi' : (f ∘ Equiv.swap i (i / 2)) i = f (i / 2) := by simp
  have hp' : (f ∘ Equiv.swap i (i / 2)) (i / 2) = f i := by simp
  have ho : ∀ k, k ≠ i → k ≠ i / 2 → (f ∘ Equiv.swap i (i / 2)) k = f k := fun k h₁ h₂ ↦ by
    rw [Function.comp_apply, Equiv.swap_apply_of_ne_of_ne h₁ h₂]
  refine ⟨fun j hj2 hj hne ↦ ?_, fun hq2 j hj hjp ↦ ?_⟩
  · by_cases hji : j = i
    · rw [hji, hi', hp']
      exact hlt.le
    · rw [ho j hji hne]
      by_cases hjp : j / 2 = i
      · rw [hjp, hi']
        exact h.grand h2 j hj hjp
      · by_cases hjq : j / 2 = i / 2
        · -- the sibling of `i`
          rw [hjq, hp']
          exact hlt.le.trans (hjq ▸ h.except j hj2 hj hji)
        · rw [ho (j / 2) hjp hjq]
          exact h.except j hj2 hj hji
  · have hup : f (i / 2 / 2) ≤ f (i / 2) := h.except (i / 2) hq2 (by omega) hp
    rw [ho (i / 2 / 2) (by omega) (by omega)]
    by_cases hji : j = i
    · rw [hji, hi']
      exact hup
    · rw [ho j hji (by omega)]
      exact hup.trans (hjp ▸ h.except j (by omega) hj hji)

theorem UpOrder.finish (h : UpOrder n f i) (hstop : 2 ≤ i → f (i / 2) ≤ f i) : Ordered n f := by
  intro j hj2 hj
  by_cases hji : j = i
  · subst hji
    exact hstop hj2
  · exact h.except j hj2 hj hji

/-! ## Sifting down -/

/-- Refilling cell `i` of an ordered heap with a key that is not before the parent of `i` leaves it
in order but for the children of `i`. -/
theorem Ordered.downOrder_refill {g : ℕ → κ} {m : ℕ} (h : Ordered n f) (hm : m ≤ n)
    (hg : ∀ j, j < m → j ≠ i → g j = f j) (hi : i < m) (hx : 2 ≤ i → f (i / 2) ≤ g i) :
    DownOrder m g i := by
  refine ⟨fun j h2 hj hp ↦ ?_, fun h2 j hj hp ↦ ?_⟩
  · rw [hg (j / 2) (by omega) hp]
    by_cases hji : j = i
    · subst hji
      exact hx h2
    · rw [hg j hj hji]
      exact h j h2 (by omega)
  · rw [hg (i / 2) (by omega) (by omega), hg j hj (by omega)]
    exact (h i h2 (by omega)).trans (hp ▸ h j (by omega) (by omega))

theorem DownOrder.move (h : DownOrder n f i) (hi : 1 ≤ i) (hc : c / 2 = i) (hcn : c < n)
    (hmin : ∀ j, j < n → j / 2 = i → f c ≤ f j) (hle : f c ≤ f i) :
    DownOrder n (f ∘ Equiv.swap i c) c := by
  have hic : i ≠ c := by omega
  have hi' : (f ∘ Equiv.swap i c) i = f c := by simp
  have hc' : (f ∘ Equiv.swap i c) c = f i := by simp
  have ho : ∀ k, k ≠ i → k ≠ c → (f ∘ Equiv.swap i c) k = f k := fun k h₁ h₂ ↦ by
    rw [Function.comp_apply, Equiv.swap_apply_of_ne_of_ne h₁ h₂]
  refine ⟨fun j hj2 hj hne ↦ ?_, fun _ j hj hjp ↦ ?_⟩
  · by_cases hjp : j / 2 = i
    · rw [hjp, hi']
      by_cases hjc : j = c
      · rw [hjc, hc']
        exact hle
      · rw [ho j (by omega) hjc]
        exact hmin j hj hjp
    · by_cases hji : j = i
      · subst hji
        rw [hi', ho (j / 2) (by omega) (by omega)]
        exact h.grand hj2 c hcn hc
      · rw [ho (j / 2) hjp hne, ho j hji (by omega)]
        exact h.except j hj2 hj hjp
  · rw [hc, hi', ho j (by omega) (by omega)]
    exact hjp ▸ h.except j (by omega) hj (by omega)

theorem DownOrder.finish (h : DownOrder n f i)
    (hstop : ∀ j, j < n → j / 2 = i → f i ≤ f j) : Ordered n f := by
  intro j hj2 hj
  by_cases hjp : j / 2 = i
  · rw [hjp]
    exact hstop j hj hjp
  · exact h.except j hj2 hj hjp

end BinaryHeap
