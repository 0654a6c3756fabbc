import Mathlib

/-!
# Spans of a memory, and 32-bit offsets

A memory is a function of addresses. `span f a n` reads its `n` cells from `a` on as a list, and
`blit f a g n` writes the first `n` values of `g` there. Offsets are natural numbers; `add32` and
`sub32` are the operations of an unsigned 32-bit type on them, with the condition under which each is
the exact one.
-/

/-! ## Unsigned 32-bit offsets -/

/-- Unsigned 32-bit addition. -/
def add32 (a b : ℕ) : ℕ := (a + b) % 2 ^ 32

/-- Unsigned 32-bit subtraction. -/
def sub32 (a b : ℕ) : ℕ := (a + (2 ^ 32 - b % 2 ^ 32)) % 2 ^ 32

theorem add32_eq {a b : ℕ} (h : a + b < 2 ^ 32) : add32 a b = a + b := Nat.mod_eq_of_lt h

theorem sub32_eq {a b : ℕ} (hle : b ≤ a) (h : a < 2 ^ 32) : sub32 a b = a - b := by
  rw [sub32, Nat.mod_eq_of_lt (hle.trans_lt h)]
  omega

/-- Adding a difference is exact where the result is, also when the difference is negative. -/
theorem add32_sub32 {a b c : ℕ} (hle : c ≤ a) (h : a - c + b < 2 ^ 32) (hb : b < 2 ^ 32)
    (hc : c < 2 ^ 32) : add32 a (sub32 b c) = a - c + b := by
  rw [add32, sub32, Nat.mod_eq_of_lt hc]
  omega

theorem sub32_lt (a b : ℕ) : sub32 a b < 2 ^ 32 := Nat.mod_lt _ (Nat.two_pow_pos 32)

/-! ## Reading -/

section Span

variable {α : Type*} {f f' g : ℕ → α} {a b m n i : ℕ}

/-- The `n` cells of `f` from `a` on. -/
def span (f : ℕ → α) (a n : ℕ) : List α := (List.range n).map fun i ↦ f (a + i)

@[simp] theorem length_span : (span f a n).length = n := by simp [span]

theorem getElem_span (hi : i < (span f a n).length) : (span f a n)[i] = f (a + i) := by
  simp [span]

theorem span_congr (h : ∀ i < n, f (a + i) = g (b + i)) : span f a n = span g b n :=
  List.map_congr_left fun i hi ↦ h i (List.mem_range.mp hi)

theorem span_eq_replicate {c : α} (h : ∀ i < n, f (a + i) = c) :
    span f a n = List.replicate n c := by
  refine List.ext_getElem (by simp) fun i hi _ ↦ ?_
  rw [getElem_span, List.getElem_replicate]
  exact h i (by simpa using hi)

theorem drop_span : (span f a n).drop m = span f (a + m) (n - m) := by
  refine List.ext_getElem (by simp) fun i hi _ ↦ ?_
  rw [List.getElem_drop, getElem_span, getElem_span, add_assoc]

theorem take_span : (span f a n).take m = span f a (min m n) := by
  refine List.ext_getElem (by simp) fun i hi _ ↦ ?_
  rw [List.getElem_take, getElem_span, getElem_span]

theorem span_add : span f a (m + n) = span f a m ++ span f (a + m) n := by
  rw [span, List.range_add, List.map_append, List.map_map]
  congr 1
  exact List.map_congr_left fun i _ ↦ by rw [Function.comp_apply, add_assoc]

/-! ## Writing -/

/-- `f` with the first `n` values of `g` from `a` on. -/
def blit (f : ℕ → α) (a : ℕ) (g : ℕ → α) (n : ℕ) : ℕ → α :=
  fun i ↦ if a ≤ i ∧ i < a + n then g (i - a) else f i

theorem blit_of_mem (hle : a ≤ i) (hlt : i < a + n) : blit f a g n i = g (i - a) :=
  if_pos ⟨hle, hlt⟩

theorem blit_of_not_mem (h : i < a ∨ a + n ≤ i) : blit f a g n i = f i :=
  if_neg (by omega)

@[simp] theorem blit_zero : blit f a g 0 = f := funext fun _ ↦ blit_of_not_mem (by omega)

theorem blit_congr {g' : ℕ → α} (h : ∀ i < n, g i = g' i) : blit f a g n = blit f a g' n := by
  funext i
  by_cases hi : a ≤ i ∧ i < a + n
  · rw [blit_of_mem hi.1 hi.2, blit_of_mem hi.1 hi.2, h _ (by omega)]
  · rw [blit_of_not_mem (by omega), blit_of_not_mem (by omega)]

/-- Two writes in a row are one. -/
theorem blit_blit : blit (blit f a g m) (a + m) (fun i ↦ g (m + i)) n = blit f a g (m + n) := by
  funext i
  by_cases hlt : i < a + m
  · rw [blit_of_not_mem (.inl hlt)]
    by_cases hle : a ≤ i
    · rw [blit_of_mem hle hlt, blit_of_mem hle (by omega)]
    · rw [blit_of_not_mem (.inl (by omega)), blit_of_not_mem (.inl (by omega))]
  · by_cases hlt' : i < a + m + n
    · rw [blit_of_mem (by omega) hlt', blit_of_mem (by omega) (by omega)]
      congr 1
      omega
    · rw [blit_of_not_mem (.inr (by omega)), blit_of_not_mem (.inr (by omega)),
        blit_of_not_mem (.inr (by omega))]

/-- `l` with its elements from `i` on replaced by those of `l'`. -/
def overwrite (l : List α) (i : ℕ) (l' : List α) : List α :=
  l.take i ++ l' ++ l.drop (i + l'.length)

theorem overwrite_append_left {l l' l'' : List α} (h : l''.length = l.length) :
    overwrite (l ++ l') 0 l'' = l'' ++ l' := by
  rw [overwrite, List.take_zero, List.nil_append, Nat.zero_add, h, List.drop_left]

theorem overwrite_append_right {l l' l'' : List α} (h : l''.length = l'.length) :
    overwrite (l ++ l') l.length l'' = l ++ l'' := by
  rw [overwrite, List.take_left, h, ← List.length_append, List.drop_length, List.append_nil]

/-- A span of a memory that changes in a part of it. -/
theorem overwrite_span (hle : i + m ≤ n) (hin : ∀ j < m, g (b + i + j) = f (a + j))
    (hlow : ∀ j < i, g (b + j) = f' (b + j)) (hhigh : ∀ j < n, i + m ≤ j → g (b + j) = f' (b + j)) :
    span g b n = overwrite (span f' b n) i (span f a m) := by
  obtain ⟨k, rfl⟩ := Nat.exists_eq_add_of_le hle
  rw [overwrite, take_span, drop_span, length_span, min_eq_left (by omega), span_add, span_add,
    Nat.add_sub_cancel_left]
  refine congrArg₂ (· ++ ·) (congrArg₂ (· ++ ·) (span_congr hlow) (span_congr fun j hj ↦ ?_))
    (span_congr fun j hj ↦ ?_)
  · exact hin j hj
  · rw [add_assoc]
    exact hhigh _ (by omega) (by omega)

end Span
