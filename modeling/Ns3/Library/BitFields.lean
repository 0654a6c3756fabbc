import Mathlib

/-!
# Bit fields packed into one number

A list of fields, each with a width and a value, packed from the least significant bit on: the first
field of the list takes the lowest bits. Packing one more field puts it above the others, so a packed
list is a stack whose top is its highest field, and a quotient and a remainder by a power of two take
that field off again.
-/

/-- A value in a field of so many bits. -/
structure BitField where
  width : ℕ
  value : ℕ
  deriving DecidableEq, Repr

namespace BitField

/-- The value fits in the field. -/
def Fits (f : BitField) : Prop := f.value < 2 ^ f.width

instance : DecidablePred Fits := fun f ↦ inferInstanceAs (Decidable (f.value < 2 ^ f.width))

/-- The number of bits of a list of fields. -/
def size (fs : List BitField) : ℕ := (fs.map width).sum

/-- The number that a list of fields is packed into. -/
def pack (fs : List BitField) : ℕ := fs.foldr (fun f n ↦ f.value + 2 ^ f.width * n) 0

variable {f : BitField} {fs : List BitField}

@[simp] theorem size_nil : size [] = 0 := rfl

@[simp] theorem size_cons : size (f :: fs) = f.width + size fs := List.sum_cons

@[simp] theorem size_append {gs : List BitField} : size (fs ++ gs) = size fs + size gs := by
  rw [size, List.map_append, List.sum_append]
  rfl

theorem size_concat : size (fs ++ [f]) = size fs + f.width := by
  rw [size_append, size_cons, size_nil, add_zero]

@[simp] theorem pack_nil : pack [] = 0 := rfl

theorem pack_cons : pack (f :: fs) = f.value + 2 ^ f.width * pack fs := rfl

theorem pack_lt (h : ∀ f ∈ fs, f.Fits) : pack fs < 2 ^ size fs := by
  induction fs with
  | nil => simp
  | cons f fs ih =>
    have hf : f.value + 1 ≤ 2 ^ f.width := h f List.mem_cons_self
    have hfs : pack fs + 1 ≤ 2 ^ size fs := ih fun g hg ↦ h g (List.mem_cons_of_mem _ hg)
    have hmul := Nat.mul_le_mul_left (2 ^ f.width) hfs
    rw [Nat.mul_add, Nat.mul_one] at hmul
    rw [pack_cons, size_cons, pow_add]
    omega

/-- One more field goes above the others. -/
theorem pack_concat : pack (fs ++ [f]) = pack fs + 2 ^ size fs * f.value := by
  induction fs with
  | nil => simp [pack_cons]
  | cons g fs ih =>
    rw [List.cons_append, pack_cons, ih, pack_cons, size_cons, pow_add]
    ring

theorem pack_concat_mod (h : ∀ g ∈ fs, g.Fits) : pack (fs ++ [f]) % 2 ^ size fs = pack fs := by
  rw [pack_concat, Nat.add_mul_mod_self_left, Nat.mod_eq_of_lt (pack_lt h)]

theorem pack_concat_div (h : ∀ g ∈ fs, g.Fits) : pack (fs ++ [f]) / 2 ^ size fs = f.value := by
  rw [pack_concat, Nat.add_mul_div_left _ _ (Nat.two_pow_pos _), Nat.div_eq_of_lt (pack_lt h),
    zero_add]

end BitField
