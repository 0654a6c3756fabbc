import Mathlib

/-!
# Newton's iteration for inverse square roots in fixed point

One is represented by `W`, squared, so `r` approximates the inverse square root of `c` when `c * r ^ 2` is
near `W`. A step of Newton's iteration takes `r` to `r * (3 - c * r ^ 2 / W) / 2`, with truncating
divisions.

Newton's iteration comes down to the root from below after one step, whatever it starts from: a step never
leads above it. Below the root it goes up, so truncation does not make it stall, and while `c` increases by
one with each step it comes back within two counts of the root: `W < (c + 2) * (r + 1) ^ 2` is kept.
-/

namespace Ns3

namespace InvSqrt

variable {W r c : ℕ}

/-- One step of Newton's iteration. -/
def newton (W r c : ℕ) : ℕ := (3 * W - c * r ^ 2) / 4 * r / (W / 2)

theorem newton_mul_le (h2 : 2 ∣ W) (r c : ℕ) : 2 * W * newton W r c ≤ (3 * W - c * r ^ 2) * r := by
  have hdiv : newton W r c * (W / 2) ≤ (3 * W - c * r ^ 2) / 4 * r := Nat.div_mul_le_self _ _
  have hval : (3 * W - c * r ^ 2) / 4 * 4 ≤ 3 * W - c * r ^ 2 := Nat.div_mul_le_self _ _
  obtain ⟨k, rfl⟩ := h2
  rw [Nat.mul_div_cancel_left k (by norm_num)] at hdiv
  calc 2 * (2 * k) * newton (2 * k) r c = 4 * (newton (2 * k) r c * k) := by ring
    _ ≤ 4 * ((3 * (2 * k) - c * r ^ 2) / 4 * r) := Nat.mul_le_mul_left 4 hdiv
    _ = (3 * (2 * k) - c * r ^ 2) / 4 * 4 * r := by ring
    _ ≤ (3 * (2 * k) - c * r ^ 2) * r := Nat.mul_le_mul_right r hval

/-- **A step never leads above the root.** -/
theorem mul_newton_sq_le (h2 : 2 ∣ W) (hW : 0 < W) (h : c * r ^ 2 ≤ 3 * W) : c * newton W r c ^ 2 ≤ W := by
  have hle := newton_mul_le h2 r c
  set n := newton W r c
  zify [h] at hle ⊢
  have hW' : (0 : ℤ) < W := by exact_mod_cast hW
  have hA : (0 : ℤ) ≤ c * r ^ 2 := by positivity
  have hA' : (c * r ^ 2 : ℤ) ≤ 3 * W := by exact_mod_cast h
  -- The product is at most that at the root: `A * (3 * W - A) ^ 2 ≤ 4 * W ^ 3`.
  have hmax : (c * r ^ 2 : ℤ) * (3 * W - c * r ^ 2) ^ 2 ≤ 4 * W ^ 3 := by
    nlinarith [mul_nonneg (sq_nonneg ((c * r ^ 2 : ℤ) - W)) (by linarith : (0 : ℤ) ≤ 4 * W - c * r ^ 2)]
  have hsq : (2 * W * n : ℤ) ^ 2 ≤ ((3 * W - c * r ^ 2) * r) ^ 2 :=
    pow_le_pow_left₀ (by positivity) hle 2
  have hc : (c : ℤ) * (2 * W * n) ^ 2 ≤ 4 * W ^ 3 :=
    calc (c : ℤ) * (2 * W * n) ^ 2 ≤ c * ((3 * W - c * r ^ 2) * r) ^ 2 :=
          mul_le_mul_of_nonneg_left hsq (Int.natCast_nonneg c)
      _ = c * r ^ 2 * (3 * W - c * r ^ 2) ^ 2 := by ring
      _ ≤ 4 * W ^ 3 := hmax
  have hfinal : (4 * W ^ 2 : ℤ) * (c * n ^ 2) ≤ 4 * W ^ 2 * W := by linarith
  exact le_of_mul_le_mul_left hfinal (by positivity)

/-- **Below the root a step does not lead down.** -/
theorem le_newton (h4 : 4 ∣ W) (hW : 0 < W) (h : c * r ^ 2 ≤ W) : r ≤ newton W r c := by
  obtain ⟨k, rfl⟩ := h4
  have hhalf : 4 * k / 2 = 2 * k := by omega
  have hval : 2 * k ≤ (3 * (4 * k) - c * r ^ 2) / 4 := by omega
  rw [newton, hhalf, Nat.le_div_iff_mul_le (by omega), mul_comm r]
  exact Nat.mul_le_mul_right r hval

theorem two_le_of_lt (hr : 0 < r) (hc : c ≤ W) (h : W < c * r ^ 2) : 2 ≤ r := by
  by_contra hlt
  obtain rfl : r = 1 := by omega
  rw [one_pow, mul_one] at h
  exact absurd hc h.not_ge

theorem newton_pos (h4 : 4 ∣ W) (hW : 0 < W) (hr : 0 < r) (hc : c ≤ W) (h : c * r ^ 2 ≤ 2 * W) :
    0 < newton W r c := by
  rcases le_or_gt (c * r ^ 2) W with hle | hgt
  · exact hr.trans_le (le_newton h4 hW hle)
  have htwo := two_le_of_lt hr hc hgt
  obtain ⟨k, rfl⟩ := h4
  have hhalf : 4 * k / 2 = 2 * k := by omega
  have hval : k ≤ (3 * (4 * k) - c * r ^ 2) / 4 := by omega
  rw [newton, hhalf]
  refine Nat.div_pos ?_ (by omega)
  calc 2 * k = k * 2 := mul_comm _ _
    _ ≤ (3 * (4 * k) - c * r ^ 2) / 4 * r := Nat.mul_le_mul hval htwo

theorem lt_newton_succ_mul (h4 : 4 ∣ W) (hW : 0 < W) (r c : ℕ) :
    (3 * W - c * r ^ 2) / 4 * 4 * r < 2 * W * (newton W r c + 1) := by
  obtain ⟨k, rfl⟩ := h4
  have hhalf : 4 * k / 2 = 2 * k := by omega
  have hlt := Nat.lt_div_mul_add (a := (3 * (4 * k) - c * r ^ 2) / 4 * r) (b := 4 * k / 2) (by omega)
  rw [← newton, hhalf] at hlt
  calc (3 * (4 * k) - c * r ^ 2) / 4 * 4 * r = 4 * ((3 * (4 * k) - c * r ^ 2) / 4 * r) := by ring
    _ < 4 * (newton (4 * k) r c * (2 * k) + 2 * k) := Nat.mul_lt_mul_of_pos_left hlt (by norm_num)
    _ = 2 * (4 * k) * (newton (4 * k) r c + 1) := by ring

/-- What is left of the product when `r` is above the root for `c + 1`, but not for `c`. -/
theorem four_mul_cube_le {W R x : ℤ} (hR : 4 ≤ R) (hW : 17 ≤ W) (hR' : R = 4 ∨ 6 ≤ R) (hx : 0 ≤ x)
    (hxR : x ≤ R) (hRW : 3 * R ≤ W) : 4 * W ^ 3 ≤ (W + x + 2 * R) * (2 * W - x - 3) ^ 2 := by
  have hprod : (x + 2 * R) * (x + 3) ≤ 3 * R * (R + 3) :=
    mul_le_mul (by linarith) (by linarith) (by linarith) (by linarith)
  have hbig : 3 * R * (R + 3) ≤ W * (2 * R - 3) := by
    rcases hR' with rfl | h6
    · linarith
    · nlinarith [mul_le_mul_of_nonneg_right hRW (by linarith : (0 : ℤ) ≤ 2 * R - 3)]
  have hexpand : (W + x + 2 * R) * (2 * W - x - 3) ^ 2 = 4 * W ^ 3 +
      4 * W * (W * (2 * R - 3) - (x + 2 * R) * (x + 3)) + (W + x + 2 * R) * (x + 3) ^ 2 := by ring
  have h1 : 0 ≤ 4 * W * (W * (2 * R - 3) - (x + 2 * R) * (x + 3)) :=
    mul_nonneg (by linarith) (by linarith)
  have h2 : 0 ≤ (W + x + 2 * R) * (x + 3) ^ 2 := mul_nonneg (by linarith) (sq_nonneg _)
  linarith

/-- **The iteration keeps up with a count that increases by one with each step.** -/
theorem lt_mul_newton_succ_sq (h4 : 4 ∣ W) (hW : 17 ≤ W) (hr : 0 < r) (h3 : 3 ≤ c) (hc : c + 1 ≤ W)
    (h : c * r ^ 2 ≤ W) (hnear : W < (c + 2) * (r + 1) ^ 2) :
    W < (c + 3) * (newton W r (c + 1) + 1) ^ 2 := by
  rcases le_or_gt ((c + 1) * r ^ 2) W with hle | hgt
  · -- Below the root the step does not lead down.
    have hstep : r + 1 ≤ newton W r (c + 1) + 1 := Nat.succ_le_succ (le_newton h4 (by omega) hle)
    calc W < (c + 2) * (r + 1) ^ 2 := hnear
      _ ≤ (c + 3) * (newton W r (c + 1) + 1) ^ 2 :=
        Nat.mul_le_mul (by omega) (Nat.pow_le_pow_left hstep 2)
  have htwo := two_le_of_lt hr hc hgt
  have hthree : 3 * r ^ 2 ≤ W := (Nat.mul_le_mul_right _ h3).trans h
  have hfour : 4 ≤ r ^ 2 := Nat.pow_le_pow_left htwo 2
  have hsix : r ^ 2 = 4 ∨ 6 ≤ r ^ 2 := by
    rcases Nat.lt_or_eq_of_le htwo with h3' | rfl
    · exact Or.inr ((by norm_num : 6 ≤ 3 ^ 2).trans (Nat.pow_le_pow_left h3' 2))
    · exact Or.inl rfl
  have hlt := lt_newton_succ_mul h4 (by omega) r (c + 1)
  have hval : 3 * W - (c + 1) * r ^ 2 ≤ (3 * W - (c + 1) * r ^ 2) / 4 * 4 + 3 := by omega
  have hsplit : (c + 1) * r ^ 2 = c * r ^ 2 + r ^ 2 := by ring
  have hsub : (c + 1) * r ^ 2 ≤ 3 * W := by omega
  have hlt' : (3 * W - (c + 1) * r ^ 2 - 3) * r < 2 * W * (newton W r (c + 1) + 1) :=
    (Nat.mul_le_mul_right r (by omega)).trans_lt hlt
  set n := newton W r (c + 1)
  have hsub3 : 3 ≤ 3 * W - (c + 1) * r ^ 2 := by omega
  zify [hsub, hsub3] at hlt' hthree hfour hsix hsplit hgt h ⊢
  have hW' : (17 : ℤ) ≤ W := by exact_mod_cast hW
  have hcube := four_mul_cube_le (x := (c + 1) * r ^ 2 - W) hfour hW' hsix (by linarith) (by linarith)
    hthree
  have hsq : ((3 * W - (c + 1) * r ^ 2 - 3) * r : ℤ) ^ 2 < (2 * W * (n + 1)) ^ 2 := by
    refine pow_lt_pow_left₀ hlt' (mul_nonneg (by linarith) (Int.natCast_nonneg r)) (by norm_num)
  have hfinal : (4 * W ^ 2 : ℤ) * W < 4 * W ^ 2 * ((c + 3) * (n + 1) ^ 2) :=
    calc (4 * W ^ 2 : ℤ) * W = 4 * W ^ 3 := by ring
      _ ≤ (W + ((c + 1) * r ^ 2 - W) + 2 * r ^ 2) * (2 * W - ((c + 1) * r ^ 2 - W) - 3) ^ 2 := hcube
      _ = (c + 3) * ((3 * W - (c + 1) * r ^ 2 - 3) * r) ^ 2 := by ring
      _ < (c + 3) * (2 * W * (n + 1)) ^ 2 := mul_lt_mul_of_pos_left hsq (by positivity)
      _ = 4 * W ^ 2 * ((c + 3) * (n + 1) ^ 2) := by ring
  exact lt_of_mul_lt_mul_left hfinal (by positivity)

end InvSqrt

end Ns3
