import Ns3.Network.SequenceNumber

/-!
# The order of the numbers in a window

Sequence numbers are not ordered: of two at the distance of one half, one is after the other by its
number alone. But they are compared as their difference says at any other distance, and so the numbers
of a window of one half are in the order of their positions, wherever the window wraps around.

The difference is written with unsigned numbers, which C++ computes as an `int` where that is wider,
and with the negation of a signed number, which must not be the least one.
-/

namespace Ns3

namespace SequenceNumber

variable {w : ℕ}

/-! ## The difference in C++ -/

/-- What an operation on unsigned numbers of `w` bits computes: an `int`, of 32 bits, if that holds all
of them, and then it must not overflow. -/
def promoted (w : ℕ) (x : ℤ) : Option ℤ :=
  if w < 32 then if -2 ^ 31 ≤ x ∧ x < 2 ^ 31 then some x else none else some (x % 2 ^ w)

/-- The negation of a signed number of `w` bits, as an `int` if that is wider; it must not overflow. -/
def negated (w : ℕ) (x : ℤ) : Option ℤ := if -x < 2 ^ (max w 32 - 1) then some (-x) else none

/-- A conversion to the unsigned type. -/
def toNumeric (w : ℕ) (x : ℤ) : ℤ := x % 2 ^ w

/-- A conversion to the signed type. -/
def toSigned (w : ℕ) (x : ℤ) : ℤ := x.bmod (2 ^ w)

/-- `maxValue - m + 1 + n`. -/
def wayAround (w : ℕ) (m n : ℤ) : Option ℤ :=
  (promoted w (2 ^ w - 1 - m)).bind fun x ↦ (promoted w (x + 1)).bind fun x ↦ promoted w (x + n)

/-- `operator -` of a sequence number; `none` for a signed overflow. -/
def checkedSub (a other : SequenceNumber w) : Option ℤ :=
  let m_value : ℤ := a.m_value.toNat
  let other_value : ℤ := other.m_value.toNat
  if m_value > other_value then
    (promoted w (m_value - other_value)).bind fun x ↦
      let diff := toNumeric w x
      if diff < halfMaxValue w then some (toSigned w diff)
      else (wayAround w m_value other_value).bind fun x ↦
        (negated w (toSigned w x)).map (toSigned w)
  else
    (promoted w (other_value - m_value)).bind fun x ↦
      let diff := toNumeric w x
      if diff < halfMaxValue w then (negated w (toSigned w diff)).map (toSigned w)
      else (wayAround w other_value m_value).map (toSigned w)

/-- `operator +` of a signed number. -/
def addSigned (a : SequenceNumber w) (delta : ℤ) : SequenceNumber w := ⟨a.m_value + BitVec.ofInt w delta⟩

/-! ## Windows -/

/-- The numbers at less than `n` after a first one. -/
def window (a : SequenceNumber w) (n : ℕ) : Set (SequenceNumber w) := {x | ∃ i < n, x = a.add i}

/-- What the operators of sequence numbers of `w` bits are for: `2 * d < 2 ^ w` is `d < 2 ^ (w - 1)`. -/
structure WindowOrder (w : ℕ) : Prop where
  /-- Exactly one of `<`, `==` and `>` holds. -/
  trichotomy : ∀ a b : SequenceNumber w,
    a.lt b = true ∧ a ≠ b ∧ a.gt b = false ∨ a.lt b = false ∧ a = b ∧ a.gt b = false ∨
      a.lt b = false ∧ a ≠ b ∧ a.gt b = true
  le_iff : ∀ a b : SequenceNumber w, a.le b = true ↔ a.lt b = true ∨ a = b
  ge_iff : ∀ a b : SequenceNumber w, a.ge b = true ↔ a.gt b = true ∨ a = b
  /-- The difference does not overflow, -/
  checked : ∀ a b : SequenceNumber w, 2 * (a.m_value - b.m_value).toNat ≠ 2 ^ w →
    a.checkedSub b = some (a.sub b)
  /-- it is the only one less than one half that leads back, -/
  difference : ∀ a b : SequenceNumber w, 2 * (a.m_value - b.m_value).toNat ≠ 2 ^ w →
    ∀ d : ℤ, (-2 ^ w < 2 * d ∧ 2 * d < 2 ^ w ∧ b.addSigned d = a) ↔ d = a.sub b
  /-- and its sign is the order. -/
  sign : ∀ a b : SequenceNumber w, 2 * (a.m_value - b.m_value).toNat ≠ 2 ^ w →
    (a.gt b = true ↔ 0 < a.sub b)
  /-- In a window of one half, the order is that of the positions. -/
  position : ∀ (a : SequenceNumber w) (n : ℕ), 2 * n ≤ 2 ^ w → ∀ i < n, ∀ j < n,
    ((a.add i).gt (a.add j) = true ↔ j < i) ∧ (a.add i = a.add j ↔ i = j)
  /-- It is a strict total order there. -/
  total : ∀ (a : SequenceNumber w) (n : ℕ), 2 * n ≤ 2 ^ w →
    IsStrictTotalOrder (a.window n) fun x y ↦ x.1.gt y.1 = true

/-! ## Overflows -/

section Overflows

variable {x m n : ℤ}

theorem promoted_eq (h0 : 0 ≤ x) (hx : x < 2 ^ w ∨ w < 2 ∧ x ≤ 2 ^ w) : promoted w x = some x := by
  rw [promoted]
  by_cases hw : w < 32
  · have hpow : (2 : ℤ) ^ w ≤ 2 ^ 31 := pow_le_pow_right₀ (by norm_num) (by omega)
    have hpow' : w < 2 → (2 : ℤ) ^ w ≤ 2 ^ 1 := fun h ↦ pow_le_pow_right₀ (by norm_num) (by omega)
    rw [if_pos hw, if_pos (by omega)]
  · rw [if_neg hw, Int.emod_eq_of_lt h0 (by omega)]

theorem wayAround_eq (hn : 0 ≤ n) (hnm : n ≤ m) (hm : m < 2 ^ w)
    (hlt : n < m ∨ w < 2) : wayAround w m n = some (2 ^ w - m + n) := by
  rw [wayAround, promoted_eq (by omega) (by omega), Option.bind_some, promoted_eq (by omega) (by omega),
    Option.bind_some, promoted_eq (by omega) (by omega), Option.some_inj]
  ring

theorem toSigned_eq (h0 : 0 ≤ x) (hx : x < 2 ^ w) :
    toSigned w x = if 2 * x < 2 ^ w then x else x - 2 ^ w := by
  have hpow : ((2 ^ w : ℕ) : ℤ) = 2 ^ w := by norm_cast
  rw [toSigned, Int.bmod_def, hpow, Int.emod_eq_of_lt h0 hx]
  rcases w with _ | w
  · have : x = 0 := by
      rw [pow_zero] at hx
      omega
    subst this
    rfl
  · rw [pow_succ]
    split_ifs <;> omega

theorem negated_toSigned (h0 : 0 ≤ x) (hx : x < 2 ^ w) (hhalf : 2 * x ≠ 2 ^ w) :
    negated w (toSigned w x) = some (-toSigned w x) := by
  have hpow : (2 : ℤ) ^ w ≤ 2 * 2 ^ (max w 32 - 1) := by
    rw [← pow_succ']
    exact pow_le_pow_right₀ (by norm_num) (by omega)
  rw [negated, if_pos]
  rw [toSigned_eq h0 hx]
  split_ifs <;> omega

end Overflows

/-! ## The difference -/

variable {a b : SequenceNumber w}

theorem sub_eq_toSigned : a.sub b = toSigned w ((a.m_value.toNat : ℤ) - b.m_value.toNat) := by
  rw [sub_eq, BitVec.toInt_sub, BitVec.toInt_eq_toNat_bmod, BitVec.toInt_eq_toNat_bmod, toSigned,
    ← Int.sub_bmod]

theorem halfMaxValue_eq (w : ℕ) : w = 0 ∧ halfMaxValue w = 0 ∨ 2 * halfMaxValue w + 2 = 2 ^ w := by
  rcases w with _ | w
  · exact Or.inl ⟨rfl, rfl⟩
  · right
    rw [halfMaxValue, pow_succ]
    have := Nat.two_pow_pos w
    omega

theorem toNumeric_eq {x : ℤ} (h0 : 0 ≤ x) (hx : x < 2 ^ w) : toNumeric w x = x := Int.emod_eq_of_lt h0 hx

theorem toSigned_add_pow (x : ℤ) : toSigned w (2 ^ w + x) = toSigned w x := by
  have hpow : ((2 ^ w : ℕ) : ℤ) = 2 ^ w := by norm_cast
  rw [toSigned, toSigned, ← hpow, Int.add_bmod_left]

theorem toSigned_neg_toSigned (x : ℤ) : toSigned w (-toSigned w x) = toSigned w (-x) := Int.bmod_neg_bmod

theorem checkedSub_eq (hne : 2 * (a.m_value - b.m_value).toNat ≠ 2 ^ w) :
    a.checkedSub b = some (a.sub b) := by
  have ha : (a.m_value.toNat : ℤ) < 2 ^ w := by exact_mod_cast a.m_value.isLt
  have hb : (b.m_value.toNat : ℤ) < 2 ^ w := by exact_mod_cast b.m_value.isLt
  have hdist : 2 * ((a.m_value.toNat : ℤ) - b.m_value.toNat) ≠ 2 ^ w ∧
      2 * ((b.m_value.toNat : ℤ) - a.m_value.toNat) ≠ 2 ^ w := by
    have hpow : ((2 ^ w : ℕ) : ℤ) = 2 ^ w := by norm_cast
    have hbv := b.m_value.isLt
    rw [toNat_sub_eq] at hne
    split_ifs at hne <;> omega
  have hpow : (2 : ℤ) ^ w ≠ 0 := by positivity
  have hhalf : w = 0 ∧ halfMaxValue w = 0 ∨ 2 * (halfMaxValue w : ℤ) + 2 = 2 ^ w := by
    exact_mod_cast halfMaxValue_eq w
  have ha0 : (0 : ℤ) ≤ a.m_value.toNat := Int.natCast_nonneg _
  have hb0 : (0 : ℤ) ≤ b.m_value.toNat := Int.natCast_nonneg _
  rw [sub_eq_toSigned, checkedSub]
  dsimp only
  generalize (a.m_value.toNat : ℤ) = x at *
  generalize (b.m_value.toNat : ℤ) = y at *
  by_cases hlt : x > y
  · rw [if_pos hlt, promoted_eq (by omega) (by omega), Option.bind_some, toNumeric_eq (by omega) (by omega)]
    split_ifs with hshort
    · rfl
    · rw [wayAround_eq hb0 hlt.le ha (Or.inl hlt), Option.bind_some,
        negated_toSigned (by omega) (by omega) (by omega), Option.map_some, toSigned_neg_toSigned,
        ← toSigned_add_pow, show 2 ^ w + -(2 ^ w - x + y) = x - y by ring]
  · rw [if_neg hlt, promoted_eq (by omega) (by omega), Option.bind_some, toNumeric_eq (by omega) (by omega)]
    split_ifs with hshort
    · rw [negated_toSigned (by omega) (by omega) (by omega), Option.map_some, toSigned_neg_toSigned, neg_sub]
    · have hw : x < y ∨ w < 2 := by
        by_contra hnot
        have hone : (2 : ℤ) ^ 2 ≤ 2 ^ w := pow_le_pow_right₀ (by norm_num) (by omega)
        omega
      rw [wayAround_eq ha0 (not_lt.mp hlt) hb hw, Option.map_some,
        show 2 ^ w - y + x = 2 ^ w + (x - y) by ring, toSigned_add_pow]

theorem addSigned_eq_iff (d : ℤ) : b.addSigned d = a ↔ toSigned w d = a.sub b := by
  rw [sub_eq, addSigned, SequenceNumber.ext_iff, ← eq_sub_iff_add_eq', ← BitVec.toInt_inj,
    BitVec.toInt_ofInt, toSigned]

/-- The differences less than one half are those that no conversion changes. -/
theorem toSigned_of_lt {d : ℤ} (hlo : -2 ^ w < 2 * d) (hhi : 2 * d < 2 ^ w) : toSigned w d = d := by
  have hpow : ((2 ^ w : ℕ) : ℤ) = 2 ^ w := by norm_cast
  rw [← hpow] at hlo hhi
  exact Int.bmod_eq_of_le_mul_two (by omega) (by omega)

theorem sub_bounds (hne : 2 * (a.m_value - b.m_value).toNat ≠ 2 ^ w) :
    -2 ^ w < 2 * a.sub b ∧ 2 * a.sub b < 2 ^ w ∧
      (0 < a.sub b ↔ 0 < (a.m_value - b.m_value).toNat ∧ (a.m_value - b.m_value).toNat ≤ halfMaxValue w) := by
  have hlt := (a.m_value - b.m_value).isLt
  have hhalf := halfMaxValue_eq w
  rw [sub_eq, BitVec.toInt_eq_toNat_cond]
  have hpow : ((2 ^ w : ℕ) : ℤ) = 2 ^ w := by norm_cast
  rw [← hpow]
  rcases hhalf with ⟨rfl, -⟩ | hhalf <;> split_ifs <;> omega

/-! ## The order -/

theorem trichotomy (a b : SequenceNumber w) :
    a.lt b = true ∧ a ≠ b ∧ a.gt b = false ∨ a.lt b = false ∧ a = b ∧ a.gt b = false ∨
      a.lt b = false ∧ a ≠ b ∧ a.gt b = true := by
  rw [lt]
  by_cases hab : a = b
  · subst hab
    rw [gt_self, decide_eq_false (not_not.mpr rfl)]
    exact Or.inr (Or.inl ⟨rfl, rfl, rfl⟩)
  · have hvalue : a.m_value ≠ b.m_value := fun h ↦ hab (SequenceNumber.ext h)
    rw [decide_eq_true hvalue]
    cases a.gt b with
    | false => exact Or.inl ⟨rfl, hab, rfl⟩
    | true => exact Or.inr (Or.inr ⟨rfl, hab, rfl⟩)

theorem position {n : ℕ} (hn : 2 * n ≤ 2 ^ w) (a : SequenceNumber w) {i j : ℕ} (hi : i < n) (hj : j < n) :
    ((a.add i).gt (a.add j) = true ↔ j < i) ∧ (a.add i = a.add j ↔ i = j) := by
  have hhalf := halfMaxValue_eq w
  have hpow := Nat.two_pow_pos w
  have hi' : i ≤ j + halfMaxValue w := by
    rcases hhalf with ⟨rfl, -⟩ | hhalf <;> omega
  have hj' : j ≤ i + halfMaxValue w := by
    rcases hhalf with ⟨rfl, -⟩ | hhalf <;> omega
  rw [gt_add a hi' hj', decide_eq_true_iff]
  exact ⟨Iff.rfl, add_inj a hi' hj'⟩

theorem isStrictTotalOrder_window (a : SequenceNumber w) {n : ℕ} (hn : 2 * n ≤ 2 ^ w) :
    IsStrictTotalOrder (a.window n) fun x y ↦ x.1.gt y.1 = true where
  irrefl x := by
    rw [gt_self]
    exact Bool.false_ne_true
  trans := by
    rintro ⟨_, i, hi, rfl⟩ ⟨_, j, hj, rfl⟩ ⟨_, k, hk, rfl⟩ hij hjk
    rw [(position hn a hi hj).1] at hij
    rw [(position hn a hj hk).1] at hjk
    exact (position hn a hi hk).1.mpr (hjk.trans hij)
  trichotomous := by
    rintro ⟨_, i, hi, rfl⟩ ⟨_, j, hj, rfl⟩ hij hji
    rw [(position hn a hi hj).1] at hij
    rw [(position hn a hj hi).1] at hji
    exact Subtype.ext ((position hn a hi hj).2.mpr (by omega))

/-- **Sequence numbers are a window order**, of any width. -/
theorem windowOrder (w : ℕ) : WindowOrder w where
  trichotomy := trichotomy
  le_iff a b := by
    rw [le, Bool.not_eq_true', lt]
    by_cases hab : a = b
    · rw [hab, gt_self]
      exact iff_of_true rfl (Or.inr rfl)
    · have hvalue : a.m_value ≠ b.m_value := fun h ↦ hab (SequenceNumber.ext h)
      rw [decide_eq_true hvalue, Bool.and_true, Bool.not_eq_true', or_iff_left hab]
  ge_iff a b := by
    rw [ge, Bool.or_eq_true, decide_eq_true_iff, SequenceNumber.ext_iff]
  checked _ _ hne := checkedSub_eq hne
  difference a b hne d := by
    obtain ⟨hlo, hhi, -⟩ := sub_bounds hne
    rw [addSigned_eq_iff]
    constructor
    · rintro ⟨hdlo, hdhi, hd⟩
      rw [← hd, toSigned_of_lt hdlo hdhi]
    · rintro rfl
      exact ⟨hlo, hhi, toSigned_of_lt hlo hhi⟩
  sign a b hne := by
    rw [(sub_bounds hne).2.2]
    refine gt_iff fun hd ↦ hne ?_
    have hlt := (a.m_value - b.m_value).isLt
    rcases halfMaxValue_eq w with ⟨rfl, -⟩ | hhalf <;> omega
  position a _ hn _ hi _ hj := position hn a hi hj
  total a _ hn := isStrictTotalOrder_window a hn

end SequenceNumber

end Ns3
