import Mathlib.Order.Lattice

/-!
# First-in first-out links with promises

The link of a conservative simulation: every message carries a *bound*, by which its sender promises
that no later message of the link will be due before it. `g` is the bound the receiver has read
last, and the messages in flight form a list, oldest first.

`Kept` says that no message in flight breaks the promise made by the one before it: bounds do not
decrease, and a message that is due at some time is due at or after the previous bound. `promise` is
the last promise made, whether or not it has arrived. The receiver reads from the front, which leaves
the promise alone; the sender writes at the back, and what it must check is about the promise only.
-/

namespace PromiseLink

variable {τ μ : Type*} {bound : μ → τ} {due : μ → Option τ} {g : τ} {m : μ}
  {l : List μ}

/-- The last promise made on a link. -/
def promise (bound : μ → τ) (g : τ) (l : List μ) : τ := l.foldl (fun _ m ↦ bound m) g

@[simp] theorem promise_nil : promise bound g [] = g := rfl

@[simp] theorem promise_cons : promise bound g (m :: l) = promise bound (bound m) l := rfl

@[simp] theorem promise_append_singleton : promise bound g (l ++ [m]) = bound m := by
  rw [promise, List.foldl_append]
  rfl

variable [LinearOrder τ]

/-- Every message in flight keeps the promise made before it. -/
def Kept (bound : μ → τ) (due : μ → Option τ) : τ → List μ → Prop
  | _, [] => True
  | g, m :: l => g ≤ bound m ∧ (∀ t, due m = some t → g ≤ t) ∧ Kept bound due (bound m) l

/-- Writing a message that keeps the last promise. -/
theorem Kept.append_singleton (h : Kept bound due g l) (hbound : promise bound g l ≤ bound m)
    (hdue : ∀ t, due m = some t → promise bound g l ≤ t) : Kept bound due g (l ++ [m]) := by
  induction l generalizing g with
  | nil => exact ⟨hbound, hdue, trivial⟩
  | cons m' l ih => exact ⟨h.1, h.2.1, ih h.2.2 hbound hdue⟩

end PromiseLink
