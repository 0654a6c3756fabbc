import Mathlib

/-!
# Masks of a prefix

A contiguous mask keeps the high bits of a word and clears its `k` low bits. The words that it maps to one
network address are those from the network address to the one with all low bits set.
-/

namespace PrefixMask

variable {w k : ℕ} {a n : BitVec w}

/-- The mask that clears `k` bits. -/
def mask (w k : ℕ) : BitVec w := BitVec.allOnes w <<< k

/-- The last word of a network. -/
def last (n m : BitVec w) : BitVec w := n ||| ~~~m

theorem and_mask (a : BitVec w) (k : ℕ) : a &&& mask w k = (a >>> k) <<< k := by
  ext i hi
  rw [mask, BitVec.getElem_and, BitVec.getElem_shiftLeft, BitVec.getElem_shiftLeft]
  by_cases hik : i < k
  · simp [hik]
  · simp [hik, Nat.add_sub_of_le (Nat.le_of_not_lt hik), hi]

theorem toNat_and_mask (a : BitVec w) (k : ℕ) : (a &&& mask w k).toNat = a.toNat / 2 ^ k * 2 ^ k := by
  rw [and_mask, BitVec.toNat_shiftLeft, BitVec.toNat_ushiftRight, Nat.shiftRight_eq_div_pow,
    Nat.shiftLeft_eq]
  exact Nat.mod_eq_of_lt ((Nat.div_mul_le_self _ _).trans_lt a.isLt)

theorem toNat_not_mask (hk : k ≤ w) : (~~~mask w k).toNat = 2 ^ k - 1 := by
  have hle : 2 ^ k ≤ 2 ^ w := Nat.pow_le_pow_right Nat.two_pos hk
  have hdiv : (2 ^ w - 1) / 2 ^ k * 2 ^ k = 2 ^ w - 2 ^ k := by
    obtain ⟨d, rfl⟩ := Nat.exists_eq_add_of_le hk
    have hpos := Nat.two_pow_pos k
    have hquot : (2 ^ (k + d) - 1) / 2 ^ k = 2 ^ d - 1 := by
      rw [Nat.pow_add]
      have hd := Nat.two_pow_pos d
      refine Nat.div_eq_of_lt_le ?_ ?_
      · rw [Nat.sub_mul, Nat.one_mul, Nat.mul_comm]
        omega
      · rw [Nat.sub_add_cancel hd, Nat.mul_comm (2 ^ d)]
        exact Nat.sub_lt (Nat.mul_pos hpos hd) Nat.one_pos
    rw [hquot, Nat.sub_mul, Nat.one_mul, Nat.pow_add, Nat.mul_comm]
  have hmask : (mask w k).toNat = 2 ^ w - 2 ^ k := by
    rw [← BitVec.allOnes_and (x := mask w k), toNat_and_mask, BitVec.toNat_allOnes, hdiv]
  rw [BitVec.toNat_not, hmask]
  omega

theorem toNat_last (hk : k ≤ w) (hn : n &&& mask w k = n) :
    (last n (mask w k)).toNat = n.toNat + (2 ^ k - 1) := by
  have hmul : n.toNat = n.toNat / 2 ^ k * 2 ^ k := by
    conv_lhs => rw [← hn, toNat_and_mask]
  rw [last, BitVec.toNat_or, toNat_not_mask hk, hmul, ← Nat.shiftLeft_eq,
    ← Nat.shiftLeft_add_eq_or_of_lt (Nat.sub_lt (Nat.two_pow_pos k) Nat.one_pos)]

/-- **A network is an interval.** -/
theorem and_mask_eq_iff (hk : k ≤ w) (hn : n &&& mask w k = n) :
    a &&& mask w k = n ↔ n ≤ a ∧ a ≤ last n (mask w k) := by
  have hmul : n.toNat / 2 ^ k * 2 ^ k = n.toNat := by
    rw [← toNat_and_mask, hn]
  have hpos := Nat.two_pow_pos k
  have hmod := Nat.div_add_mod a.toNat (2 ^ k)
  have hlt := Nat.mod_lt a.toNat hpos
  rw [← BitVec.toNat_inj, toNat_and_mask, BitVec.le_def, BitVec.le_def, toNat_last hk hn]
  constructor
  · intro h
    rw [Nat.mul_comm] at hmod
    omega
  · rintro ⟨hle, hle'⟩
    have hquot : a.toNat / 2 ^ k = n.toNat / 2 ^ k := by
      refine Nat.div_eq_of_lt_le ?_ ?_
      · rw [hmul]
        exact hle
      · rw [Nat.succ_mul, hmul]
        omega
    rw [hquot, hmul]

end PrefixMask
