import Mathlib

/-!
# Sequence numbers

`SequenceNumber w` is an unsigned number of `w` bits that wraps around. It is compared, and
subtracted, as the nearer one of the positions in a stream that it may stand for: two positions less
than half of the number space apart compare as their numbers do.
-/

namespace Ns3

/-- `SequenceNumber`, on numbers of `w` bits. -/
structure SequenceNumber (w : ℕ) where
  m_value : BitVec w
  deriving DecidableEq, Repr

attribute [ext] SequenceNumber

/-- `SequenceNumber32`. -/
abbrev SequenceNumber32 := SequenceNumber 32

namespace SequenceNumber

variable {w : ℕ}

/-- The number of a position. -/
def ofNat (w n : ℕ) : SequenceNumber w := ⟨BitVec.ofNat w n⟩

def halfMaxValue (w : ℕ) : ℕ := (2 ^ w - 1) / 2

/-- `operator +` of a number. -/
def add (a : SequenceNumber w) (delta : ℕ) : SequenceNumber w := ⟨a.m_value + BitVec.ofNat w delta⟩

/-- `operator -` of a sequence number. -/
def sub (a other : SequenceNumber w) : ℤ :=
  let maxValue := BitVec.allOnes w
  if other.m_value < a.m_value then
    let diff := a.m_value - other.m_value
    if diff.toNat < halfMaxValue w then diff.toInt
    else (-(maxValue - a.m_value + 1 + other.m_value)).toInt
  else
    let diff := other.m_value - a.m_value
    if diff.toNat < halfMaxValue w then (-diff).toInt
    else (maxValue - other.m_value + 1 + a.m_value).toInt

/-- `operator >`. -/
def gt (a other : SequenceNumber w) : Bool :=
  (decide (other.m_value < a.m_value) &&
      decide ((a.m_value - other.m_value).toNat ≤ halfMaxValue w)) ||
    (decide (a.m_value < other.m_value) &&
      decide (halfMaxValue w < (other.m_value - a.m_value).toNat))

/-- `operator <=`. -/
def le (a other : SequenceNumber w) : Bool := !a.gt other

/-- `operator >=`. -/
def ge (a other : SequenceNumber w) : Bool := a.gt other || decide (a.m_value = other.m_value)

/-- `operator <`. -/
def lt (a other : SequenceNumber w) : Bool :=
  !a.gt other && decide (a.m_value ≠ other.m_value)

/-! ## Positions -/

section Positions

variable {a b : SequenceNumber w} {x y n : ℕ}

theorem toNat_sub_eq (u v : BitVec w) : (u - v).toNat =
    if v.toNat ≤ u.toNat then u.toNat - v.toNat else 2 ^ w - v.toNat + u.toNat := by
  have hu := u.isLt
  have hv := v.isLt
  rw [BitVec.toNat_sub]
  split_ifs with hle
  · rw [show 2 ^ w - v.toNat + u.toNat = 2 ^ w + (u.toNat - v.toNat) by omega, Nat.add_mod_left,
      Nat.mod_eq_of_lt (by omega)]
  · exact Nat.mod_eq_of_lt (by omega)

theorem toNat_add {n : ℕ} (hn : n < 2 ^ w) : (b.add n).m_value.toNat =
    if b.m_value.toNat + n < 2 ^ w then b.m_value.toNat + n else b.m_value.toNat + n - 2 ^ w := by
  have hb := b.m_value.isLt
  rw [add, BitVec.toNat_add, BitVec.toNat_ofNat, Nat.mod_eq_of_lt hn]
  split_ifs with h
  · exact Nat.mod_eq_of_lt h
  · rw [Nat.mod_eq_sub_mod (not_lt.mp h), Nat.mod_eq_of_lt (by omega)]

theorem gt_iff_toNat : a.gt b = true ↔
    b.m_value.toNat < a.m_value.toNat ∧ a.m_value.toNat - b.m_value.toNat ≤ halfMaxValue w ∨
      a.m_value.toNat < b.m_value.toNat ∧ halfMaxValue w < b.m_value.toNat - a.m_value.toNat := by
  rw [gt, Bool.or_eq_true, Bool.and_eq_true, Bool.and_eq_true, decide_eq_true_iff,
    decide_eq_true_iff, decide_eq_true_iff, decide_eq_true_iff, BitVec.lt_def, BitVec.lt_def,
    toNat_sub_eq, toNat_sub_eq]
  split_ifs <;> omega

theorem lt_iff_toNat : a.lt b = true ↔ a.gt b = false ∧ a.m_value.toNat ≠ b.m_value.toNat := by
  rw [lt, Bool.and_eq_true, Bool.not_eq_true', decide_eq_true_iff, ne_eq, ne_eq,
    BitVec.toNat_inj]

theorem halfMaxValue_bounds : 2 * halfMaxValue w + 1 ≤ 2 ^ w ∧ 2 ^ w ≤ 2 * halfMaxValue w + 2 := by
  have := Nat.two_pow_pos w
  rw [halfMaxValue]
  omega

/-- `a` is after `b` if the way from `b` to `a` is shorter than half of the number space. Of two
numbers at the distance of one half, the smaller one is after the other. -/
theorem gt_iff (hne : (a.m_value - b.m_value).toNat ≠ halfMaxValue w + 1) : a.gt b = true ↔
    0 < (a.m_value - b.m_value).toNat ∧ (a.m_value - b.m_value).toNat ≤ halfMaxValue w := by
  have hhalf := halfMaxValue_bounds (w := w)
  have ha := a.m_value.isLt
  have hb := b.m_value.isLt
  rw [toNat_sub_eq] at hne
  rw [gt_iff_toNat, toNat_sub_eq]
  split_ifs at hne ⊢ <;> omega

/-- Between a number and one that is `n` later, there are less than `n` numbers. -/
theorem toNat_sub_lt_of_gt_of_lt {n : ℕ} (hgt : a.gt b = true) (hlt : a.lt (b.add n) = true)
    (hn : n < 2 ^ w) :
    0 < (a.m_value - b.m_value).toNat ∧ (a.m_value - b.m_value).toNat < n := by
  have hhalf := halfMaxValue_bounds (w := w)
  have ha := a.m_value.isLt
  have hb := b.m_value.isLt
  rw [lt_iff_toNat, ← Bool.not_eq_true] at hlt
  obtain ⟨hnot, hne⟩ := hlt
  rw [gt_iff_toNat] at hgt hnot
  rw [toNat_add hn] at hnot hne
  rw [toNat_sub_eq]
  split_ifs at hnot hne ⊢ <;> omega

theorem lt_add_of_lt {m n : ℕ} (hlt : a.lt (a.add n) = true) (hm : 0 < m) (hmn : m < n)
    (hn : n < 2 ^ w) : a.lt (a.add m) = true := by
  have hhalf := halfMaxValue_bounds (w := w)
  have ha := a.m_value.isLt
  rw [lt_iff_toNat, ← Bool.not_eq_true] at hlt ⊢
  rw [gt_iff_toNat] at hlt ⊢
  rw [toNat_add hn] at hlt
  rw [toNat_add (hmn.trans hn)]
  split_ifs at hlt ⊢ <;> omega

theorem ofNat_add : (ofNat w x).add n = ofNat w (x + n) := by
  rw [add, ofNat, ofNat, BitVec.ofNat_add]

theorem two_mul_halfMaxValue_le : 2 * halfMaxValue w + 1 ≤ 2 ^ w := halfMaxValue_bounds.1

theorem toNat_sub_ofNat (hle : y ≤ x) (hlt : x < y + 2 ^ w) :
    ((ofNat w x).m_value - (ofNat w y).m_value).toNat = x - y := by
  obtain ⟨d, rfl⟩ := Nat.exists_eq_add_of_le hle
  rw [ofNat, ofNat, BitVec.ofNat_add, add_sub_cancel_left, BitVec.toNat_ofNat,
    Nat.mod_eq_of_lt (by omega), Nat.add_sub_cancel_left]

theorem gt_self (a : SequenceNumber w) : a.gt a = false := by
  rw [gt, decide_eq_false (BitVec.lt_irrefl _), Bool.false_and, Bool.false_and, Bool.or_self]

theorem gt_asymm (h : a.gt b = true) : b.gt a = false := by
  rw [gt, Bool.or_eq_true, Bool.and_eq_true, Bool.and_eq_true, decide_eq_true_iff,
    decide_eq_true_iff, decide_eq_true_iff, decide_eq_true_iff] at h
  rw [gt, Bool.or_eq_false_iff, Bool.and_eq_false_iff, Bool.and_eq_false_iff,
    decide_eq_false_iff_not, decide_eq_false_iff_not, decide_eq_false_iff_not,
    decide_eq_false_iff_not]
  rcases h with ⟨hlt, hle⟩ | ⟨hlt, hgt⟩
  · exact ⟨.inl (BitVec.lt_asymm hlt), .inr (not_lt.mpr hle)⟩
  · exact ⟨.inr (not_le.mpr hgt), .inl (BitVec.lt_asymm hlt)⟩

theorem ge_eq_false_of_gt (h : a.gt b = true) : b.ge a = false := by
  rw [ge, gt_asymm h, Bool.false_or, decide_eq_false_iff_not]
  intro heq
  obtain rfl := SequenceNumber.ext heq
  exact Bool.false_ne_true ((gt_self b).symm.trans h)

theorem gt_ofNat (hxy : x ≤ y + halfMaxValue w) (hyx : y ≤ x + halfMaxValue w) :
    (ofNat w x).gt (ofNat w y) = decide (y < x) := by
  have hpow := two_mul_halfMaxValue_le (w := w)
  have hgt : ∀ {x y : ℕ}, y < x → x ≤ y + halfMaxValue w →
      (ofNat w x).gt (ofNat w y) = true := fun hlt hle ↦ by
    have hsub := toNat_sub_ofNat (w := w) hlt.le (by omega)
    rw [gt_iff (by omega), hsub]
    omega
  rcases lt_trichotomy y x with hlt | rfl | hlt
  · rw [hgt hlt hxy, decide_eq_true hlt]
  · rw [gt_self, decide_eq_false (lt_irrefl _)]
  · rw [gt_asymm (hgt hlt hyx), decide_eq_false hlt.asymm]

theorem ofNat_inj (hxy : x ≤ y + halfMaxValue w) (hyx : y ≤ x + halfMaxValue w) :
    ofNat w x = ofNat w y ↔ x = y := by
  refine ⟨fun h ↦ ?_, congrArg _⟩
  have h1 := gt_ofNat hxy hyx
  have h2 := gt_ofNat hyx hxy
  rw [h, gt_self, eq_comm, decide_eq_false_iff_not] at h1
  rw [h, gt_self, eq_comm, decide_eq_false_iff_not] at h2
  omega

theorem le_ofNat (hxy : x ≤ y + halfMaxValue w) (hyx : y ≤ x + halfMaxValue w) :
    (ofNat w x).le (ofNat w y) = decide (x ≤ y) := by
  rw [le, gt_ofNat hxy hyx, ← decide_not, decide_eq_decide, not_lt]

theorem lt_ofNat (hxy : x ≤ y + halfMaxValue w) (hyx : y ≤ x + halfMaxValue w) :
    (ofNat w x).lt (ofNat w y) = decide (x < y) := by
  have hinj : (ofNat w x).m_value = (ofNat w y).m_value ↔ x = y :=
    (SequenceNumber.ext_iff.symm.trans (ofNat_inj hxy hyx))
  rw [lt, gt_ofNat hxy hyx, ← decide_not, ← Bool.decide_and, decide_eq_decide, ne_eq, hinj]
  omega

theorem ge_ofNat (hxy : x ≤ y + halfMaxValue w) (hyx : y ≤ x + halfMaxValue w) :
    (ofNat w x).ge (ofNat w y) = decide (y ≤ x) := by
  have hinj : (ofNat w x).m_value = (ofNat w y).m_value ↔ x = y :=
    (SequenceNumber.ext_iff.symm.trans (ofNat_inj hxy hyx))
  rw [ge, gt_ofNat hxy hyx, ← Bool.decide_or, decide_eq_decide, hinj]
  omega

/-- All branches of the difference compute it modulo the number space. -/
theorem sub_eq : a.sub b = (a.m_value - b.m_value).toInt := by
  have hway : ∀ u v : BitVec w, BitVec.allOnes w - u + 1 + v = v - u := by
    intro u v
    have hone : BitVec.allOnes w = -1 := BitVec.neg_one_eq_allOnes.symm
    rw [hone]
    ring
  rw [sub]
  dsimp only
  split_ifs
  · rfl
  · rw [hway, neg_sub]
  · rw [neg_sub]
  · rw [hway]

theorem sub_ofNat (hxy : x ≤ y + halfMaxValue w) (hyx : y ≤ x + halfMaxValue w) :
    (ofNat w x).sub (ofNat w y) = (x : ℤ) - y := by
  have hpow := two_mul_halfMaxValue_le (w := w)
  rw [sub_eq, BitVec.toInt_sub, ofNat, ofNat, BitVec.toInt_ofNat', BitVec.toInt_ofNat',
    ← Int.sub_bmod]
  exact Int.bmod_eq_of_le_mul_two (by omega) (by omega)

/-! ### Numbers at a distance from a first one -/

theorem add_eq_ofNat (a : SequenceNumber w) (n : ℕ) : a.add n = ofNat w (a.m_value.toNat + n) := by
  rw [add, ofNat, BitVec.ofNat_add, BitVec.ofNat_toNat, BitVec.setWidth_eq]

@[simp] theorem add_add (a : SequenceNumber w) (m n : ℕ) : (a.add m).add n = a.add (m + n) := by
  rw [add_eq_ofNat a m, ofNat_add, add_eq_ofNat, add_assoc]

@[simp] theorem add_zero (a : SequenceNumber w) : a.add 0 = a := by
  rw [add_eq_ofNat, Nat.add_zero, ofNat, BitVec.ofNat_toNat, BitVec.setWidth_eq]

variable (a)

theorem gt_add (hxy : x ≤ y + halfMaxValue w) (hyx : y ≤ x + halfMaxValue w) :
    (a.add x).gt (a.add y) = decide (y < x) := by
  rw [add_eq_ofNat, add_eq_ofNat, gt_ofNat (by omega) (by omega), decide_eq_decide]
  omega

theorem le_add (hxy : x ≤ y + halfMaxValue w) (hyx : y ≤ x + halfMaxValue w) :
    (a.add x).le (a.add y) = decide (x ≤ y) := by
  rw [add_eq_ofNat, add_eq_ofNat, le_ofNat (by omega) (by omega), decide_eq_decide]
  omega

theorem lt_add (hxy : x ≤ y + halfMaxValue w) (hyx : y ≤ x + halfMaxValue w) :
    (a.add x).lt (a.add y) = decide (x < y) := by
  rw [add_eq_ofNat, add_eq_ofNat, lt_ofNat (by omega) (by omega), decide_eq_decide]
  omega

theorem ge_add (hxy : x ≤ y + halfMaxValue w) (hyx : y ≤ x + halfMaxValue w) :
    (a.add x).ge (a.add y) = decide (y ≤ x) := by
  rw [add_eq_ofNat, add_eq_ofNat, ge_ofNat (by omega) (by omega), decide_eq_decide]
  omega

theorem add_inj (hxy : x ≤ y + halfMaxValue w) (hyx : y ≤ x + halfMaxValue w) :
    a.add x = a.add y ↔ x = y := by
  rw [add_eq_ofNat, add_eq_ofNat, ofNat_inj (by omega) (by omega)]
  omega

theorem sub_add (hxy : x ≤ y + halfMaxValue w) (hyx : y ≤ x + halfMaxValue w) :
    (a.add x).sub (a.add y) = (x : ℤ) - y := by
  rw [add_eq_ofNat, add_eq_ofNat, sub_ofNat (by omega) (by omega)]
  omega

theorem toNat_sub_add (hle : y ≤ x) (hlt : x < y + 2 ^ w) :
    ((a.add x).m_value - (a.add y).m_value).toNat = x - y := by
  rw [add_eq_ofNat, add_eq_ofNat, toNat_sub_ofNat (by omega) (by omega)]
  omega

theorem lt_of_gt {a b : SequenceNumber w} (h : a.gt b = true) : b.lt a = true := by
  rw [lt_iff_toNat, ← Bool.not_eq_true]
  rw [gt_iff_toNat] at h ⊢
  omega

/-- A number that the one at `n` is after is that of a position less than half of the number space, or
just that, before `n`. -/
theorem exists_eq_add_of_gt {b : SequenceNumber w} (h : (a.add n).gt b = true)
    (hn : halfMaxValue w + 1 ≤ n) : ∃ y, b = a.add y ∧ y < n ∧ n ≤ y + halfMaxValue w + 1 := by
  have hhalf := halfMaxValue_bounds (w := w)
  have hd : 0 < ((a.add n).m_value - b.m_value).toNat ∧
      ((a.add n).m_value - b.m_value).toNat ≤ halfMaxValue w + 1 := by
    have ha := (a.add n).m_value.isLt
    have hb := b.m_value.isLt
    rw [gt_iff_toNat] at h
    rw [toNat_sub_eq]
    split_ifs <;> omega
  generalize hdef : ((a.add n).m_value - b.m_value).toNat = d at hd
  refine ⟨n - d, ?_, by omega, by omega⟩
  have hsum : (a.add (n - d)).add d = a.add n := by
    rw [add_add, Nat.sub_add_cancel (by omega)]
  have hofNat : BitVec.ofNat w d = (a.add n).m_value - b.m_value := by
    rw [← hdef, BitVec.ofNat_toNat, BitVec.setWidth_eq]
  have hvalue : (a.add (n - d)).m_value + BitVec.ofNat w d = (a.add n).m_value :=
    congrArg m_value hsum
  have hback : b.m_value = (a.add n).m_value - ((a.add n).m_value - b.m_value) :=
    (sub_sub_cancel _ _).symm
  ext1
  rw [hback, ← hofNat]
  exact (eq_sub_of_add_eq hvalue).symm

end Positions

end SequenceNumber

end Ns3
