import Mathlib

/-!
# Times and channels of a parallel simulation

What the two parallel simulators share. A `Time` is a signed 64-bit number of steps, here an integer
with the operations in two's complement, and a channel joins nodes of two processes.
-/

namespace Ns3

/-! ## Times -/

namespace Time

/-- The largest time, `NullMessageSimulatorImpl::GetMaximumSimulationTime`. -/
def max : ℤ := 0x7fffffffffffffff

/-- `operator +`, in two's complement. -/
def add (a b : ℤ) : ℤ := (a + b).bmod (2 ^ 64)

/-- `operator -`, in two's complement. -/
def sub (a b : ℤ) : ℤ := (a - b).bmod (2 ^ 64)

theorem max_nonneg : 0 ≤ max := by decide

theorem add_eq {a b : ℤ} (ha : 0 ≤ a) (hb : 0 ≤ b) (h : a + b ≤ max) : add a b = a + b := by
  rw [max] at h
  rw [add, Int.bmod_eq_of_le (by omega) (by omega)]

theorem sub_eq {a b : ℤ} (hb : 0 ≤ b) (hab : b ≤ a) (ha : a ≤ max) : sub a b = a - b := by
  rw [max] at ha
  rw [sub, Int.bmod_eq_of_le (by omega) (by omega)]

end Time

/-! ## Smallest and largest values -/

theorem foldl_min_le {α : Type*} (f : α → ℤ) (l : List α) (d : ℤ) :
    l.foldl (fun d a ↦ min d (f a)) d ≤ d ∧ ∀ a ∈ l, l.foldl (fun d a ↦ min d (f a)) d ≤ f a := by
  induction l generalizing d with
  | nil => exact ⟨le_rfl, fun a ha ↦ absurd ha List.not_mem_nil⟩
  | cons b l ih =>
    rw [List.foldl_cons]
    obtain ⟨h1, h2⟩ := ih (min d (f b))
    refine ⟨h1.trans (min_le_left _ _), fun a ha ↦ ?_⟩
    rcases List.mem_cons.mp ha with rfl | ha
    · exact h1.trans (min_le_right _ _)
    · exact h2 a ha

theorem le_foldl_min {α : Type*} {f : α → ℤ} {l : List α} {d b : ℤ} (hd : b ≤ d)
    (hl : ∀ a ∈ l, b ≤ f a) : b ≤ l.foldl (fun d a ↦ min d (f a)) d := by
  induction l generalizing d with
  | nil => exact hd
  | cons a l ih =>
    exact ih (le_min hd (hl a List.mem_cons_self)) fun c hc ↦ hl c (List.mem_cons_of_mem _ hc)

theorem le_foldr_min_iff {α : Type*} {f : α → ℤ} {l : List α} {d b : ℤ} :
    b ≤ l.foldr (fun a t ↦ min (f a) t) d ↔ b ≤ d ∧ ∀ a ∈ l, b ≤ f a := by
  induction l with
  | nil => simp
  | cons a l ih =>
    rw [List.foldr_cons, le_min_iff, ih]
    simp only [List.forall_mem_cons]
    tauto

theorem foldl_max_bounds {α : Type*} {f : α → ℤ} {l : List α} {m b : ℤ} (hm : 0 ≤ m) (hb : m ≤ b)
    (hl : ∀ a ∈ l, f a ≤ b) :
    0 ≤ l.foldl (fun m a ↦ max m (f a)) m ∧ l.foldl (fun m a ↦ max m (f a)) m ≤ b := by
  induction l generalizing m with
  | nil => exact ⟨hm, hb⟩
  | cons a l ih =>
    exact ih (hm.trans (le_max_left _ _)) (max_le hb (hl a List.mem_cons_self))
      fun c hc ↦ hl c (List.mem_cons_of_mem _ hc)

/-! ## Channels -/

/-- A point-to-point channel between two processes. -/
structure Channel where
  a : ℕ
  b : ℕ
  delay : ℤ
  deriving DecidableEq, Repr

/-- The process at the other end. -/
def Channel.other (c : Channel) (p : ℕ) : ℕ := if c.a = p then c.b else c.a

end Ns3
