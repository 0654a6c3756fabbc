import Mathlib

/-!
# The mean deviation estimator of the round trip time

`RttMeanDeviation` moves its estimate towards each sample by a fraction `1 / 2 ^ n` of the difference,
and the variation towards the size of that difference. Both are computed with integers, and the shift
that divides rounds down.

## Rounding

The part of the difference that is added is rounded towards minus infinity. It is never more than the
difference in size, whatever its sign, so the new value lies between the old one and the sample
(`le_move`, `move_le`). The estimate therefore stays in the range of the samples.

## The number of samples

The first sample is told from the others by `m_nSamples`, which has 32 bits. Every `2 ^ 32` samples one
is taken for the first, and the variation jumps to half of it. Just if no such sample is too large for
what came before it, the variation stays in its range (`inRange_iff`).
-/

namespace Ns3

/-- The value of a 64-bit signed result. -/
def int64 (x : ℤ) : ℤ := x.bmod (2 ^ 64)

theorem int64_eq {x : ℤ} (hlow : -2 ^ 63 ≤ x) (hhigh : x < 2 ^ 63) : int64 x = x := by
  rw [int64, Int.bmod_eq_of_le (by omega) (by omega)]

/-- The members of an `RttMeanDeviation`; times are numbers of time steps. -/
structure RttMeanDeviation where
  m_initialEstimatedRtt : ℤ
  m_estimatedRtt : ℤ
  m_estimatedVariation : ℤ
  m_nSamples : UInt32
  m_alpha : ℚ
  m_beta : ℚ
  deriving DecidableEq

namespace RttMeanDeviation

/-- A new estimator. -/
def create (m_alpha m_beta : ℚ) (m_initialEstimatedRtt : ℤ) : RttMeanDeviation :=
  ⟨m_initialEstimatedRtt, m_initialEstimatedRtt, 0, 0, m_alpha, m_beta⟩

def tolerance : ℚ := 1 / 10 ^ 6

def checkForReciprocalPowerOfTwo (val : ℚ) : ℕ :=
  if val < tolerance then 0
  else if |1 / val - 8| < tolerance then 3
  else if |1 / val - 4| < tolerance then 2
  else if |1 / val - 32| < tolerance then 5
  else if |1 / val - 16| < tolerance then 4
  else if |1 / val - 2| < tolerance then 1
  else 0

def integerUpdate (r : RttMeanDeviation) (meas : ℤ) (rttShift variationShift : ℕ) :
    RttMeanDeviation :=
  let delta := int64 (meas - r.m_estimatedRtt)
  let srtt := int64 (int64 (r.m_estimatedRtt <<< rttShift) + delta)
  let size := if delta < 0 then int64 (-delta) else delta
  let delta := int64 (size - r.m_estimatedVariation)
  let rttvar := int64 (int64 (r.m_estimatedVariation <<< variationShift) + delta)
  { r with
    m_estimatedRtt := srtt >>> rttShift
    m_estimatedVariation := rttvar >>> variationShift }

/-- `Measurement`. The update in floating point, for other gains, is an argument. -/
def measurement (floatingPointUpdate : RttMeanDeviation → ℤ → RttMeanDeviation)
    (r : RttMeanDeviation) (m : ℤ) : RttMeanDeviation :=
  let updated :=
    if r.m_nSamples ≠ 0 then
      let rttShift := checkForReciprocalPowerOfTwo r.m_alpha
      let variationShift := checkForReciprocalPowerOfTwo r.m_beta
      if rttShift ≠ 0 ∧ variationShift ≠ 0 then r.integerUpdate m rttShift variationShift
      else floatingPointUpdate r m
    else { r with m_estimatedRtt := m, m_estimatedVariation := m.tdiv 2 }
  { updated with m_nSamples := updated.m_nSamples + 1 }

/-- The end of `TcpSocketBase::EstimateRtt`: the retransmission timeout. -/
def rto (r : RttMeanDeviation) (m_clockGranularity m_minRto : ℤ) : ℤ :=
  max (int64 (r.m_estimatedRtt + max m_clockGranularity (int64 (r.m_estimatedVariation * 4))))
    m_minRto

/-! ## What is promised -/

/-- The smallest of some samples. -/
def smallest (first : ℤ) (rest : List ℤ) : ℤ := rest.foldl min first

/-- The largest of some samples. -/
def largest (first : ℤ) (rest : List ℤ) : ℤ := rest.foldl max first

/-- The bound for the variation. -/
def bound (first : ℤ) (rest : List ℤ) : ℤ :=
  max (first / 2) (largest first rest - smallest first rest)

/-- The estimate and the variation are in the range of the samples. -/
structure InRange (m_clockGranularity m_minRto first : ℤ) (rest : List ℤ) (r : RttMeanDeviation) :
    Prop where
  smallest_le : smallest first rest ≤ r.m_estimatedRtt
  le_largest : r.m_estimatedRtt ≤ largest first rest
  variation_nonneg : 0 ≤ r.m_estimatedVariation
  variation_le : r.m_estimatedVariation ≤ bound first rest
  minRto_le : m_minRto ≤ r.rto m_clockGranularity m_minRto
  rto_nonneg : 0 ≤ r.rto m_clockGranularity m_minRto

/-- A sample that is taken for the first is not too large for the samples so far. -/
def RestartsWithin (first : ℤ) (rest : List ℤ) : Prop :=
  ∀ (l : List ℤ) (m : ℤ), l ++ [m] <+: rest → (l.length + 1) % 2 ^ 32 = 0 →
    m / 2 ≤ bound first (l ++ [m])

/-! ## Moving towards a sample -/

section Move

variable {e m k : ℤ}

theorem le_move (hk : 1 ≤ k) : min e m ≤ e + (m - e) / k := by
  rcases le_or_gt e m with hle | hlt
  · have hpos : 0 ≤ (m - e) / k := Int.ediv_nonneg (sub_nonneg.mpr hle) (by omega)
    omega
  · have hback : m - e ≤ (m - e) / k := by
      apply Int.le_ediv_of_mul_le (by omega)
      exact mul_le_of_one_le_right (by omega) hk
    omega

theorem move_le (hk : 1 ≤ k) : e + (m - e) / k ≤ max e m := by
  rcases le_or_gt e m with hle | hlt
  · have hforth : (m - e) / k ≤ m - e := Int.ediv_le_self k (sub_nonneg.mpr hle)
    omega
  · have hneg : (m - e) / k < 0 := Int.ediv_neg_of_neg_of_pos (by omega) (by omega)
    omega

theorem shift_eq {n : ℕ} (hn : n ≤ 5) (he : 0 ≤ e ∧ e < 2 ^ 56) (hm : 0 ≤ m ∧ m < 2 ^ 56) :
    int64 (int64 (e <<< n) + int64 (m - e)) >>> n = e + (m - e) / 2 ^ n := by
  have hpow : (2 : ℤ) ^ n ≤ 32 := by
    calc (2 : ℤ) ^ n ≤ 2 ^ 5 := pow_le_pow_right₀ (by decide) hn
      _ = 32 := by decide
  have hpos : (0 : ℤ) < 2 ^ n := by positivity
  have hlow : 0 ≤ e * 2 ^ n := mul_nonneg he.1 hpos.le
  have hhigh : e * 2 ^ n ≤ 2 ^ 56 * 32 := mul_le_mul he.2.le hpow hpos.le (by decide)
  have hshift : int64 (e <<< n) = e * 2 ^ n := by
    rw [Int.shiftLeft_eq]
    exact int64_eq (by omega) (by omega)
  rw [hshift, int64_eq (x := m - e) (by omega) (by omega), int64_eq (by omega) (by omega),
    Int.shiftRight_eq_div_pow, Nat.cast_pow, Nat.cast_ofNat, add_comm,
    Int.add_mul_ediv_right _ _ hpos.ne', add_comm]

end Move

/-! ## The range of the samples -/

section Samples

variable {first m b : ℤ} {rest : List ℤ}

@[simp] theorem smallest_concat : smallest first (rest ++ [m]) = min (smallest first rest) m := by
  rw [smallest, List.foldl_append]
  rfl

@[simp] theorem largest_concat : largest first (rest ++ [m]) = max (largest first rest) m := by
  rw [largest, List.foldl_append]
  rfl

theorem le_smallest (hfirst : b ≤ first) (hrest : ∀ x ∈ rest, b ≤ x) : b ≤ smallest first rest := by
  induction rest using List.reverseRecOn with
  | nil => exact hfirst
  | append_singleton rest x ih =>
    rw [smallest_concat]
    exact le_min (ih fun y hy ↦ hrest y (List.mem_append_left _ hy))
      (hrest x (List.mem_append_right _ List.mem_cons_self))

theorem largest_le (hfirst : first ≤ b) (hrest : ∀ x ∈ rest, x ≤ b) : largest first rest ≤ b := by
  induction rest using List.reverseRecOn with
  | nil => exact hfirst
  | append_singleton rest x ih =>
    rw [largest_concat]
    exact max_le (ih fun y hy ↦ hrest y (List.mem_append_left _ hy))
      (hrest x (List.mem_append_right _ List.mem_cons_self))

theorem bound_le_concat : bound first rest ≤ bound first (rest ++ [m]) := by
  rw [bound, bound, smallest_concat, largest_concat]
  exact max_le_max le_rfl (sub_le_sub (le_max_left _ _) (min_le_left _ _))

end Samples

/-! ## A run of samples -/

/-- The estimator after some samples. -/
def measured (floatingPointUpdate : RttMeanDeviation → ℤ → RttMeanDeviation)
    (r : RttMeanDeviation) (samples : List ℤ) : RttMeanDeviation :=
  samples.foldl (measurement floatingPointUpdate) r

theorem checkForReciprocalPowerOfTwo_le (val : ℚ) : checkForReciprocalPowerOfTwo val ≤ 5 := by
  rw [checkForReciprocalPowerOfTwo]
  split_ifs <;> omega

section Run

variable (floatingPointUpdate : RttMeanDeviation → ℤ → RttMeanDeviation) (m_initialEstimatedRtt : ℤ)
  {r : RttMeanDeviation} {m_alpha m_beta : ℚ} {m_clockGranularity m_minRto first m : ℤ}
  {rest : List ℤ}

/-- What holds after some samples, whether or not the variation is in its range. -/
structure Measured (m_alpha m_beta : ℚ) (first : ℤ) (rest : List ℤ) (r : RttMeanDeviation) :
    Prop where
  alpha : r.m_alpha = m_alpha
  beta : r.m_beta = m_beta
  nSamples : r.m_nSamples.toNat = (rest.length + 1) % 2 ^ 32
  smallest_le : smallest first rest ≤ r.m_estimatedRtt
  le_largest : r.m_estimatedRtt ≤ largest first rest
  variation_nonneg : 0 ≤ r.m_estimatedVariation
  variation_lt : r.m_estimatedVariation < 2 ^ 56

/-- The samples are in the range that is considered. -/
def Small (samples : List ℤ) : Prop := ∀ m ∈ samples, 0 ≤ m ∧ m < 2 ^ 56

theorem Measured.estimate_mem (h : Measured m_alpha m_beta first rest r) (hs : Small (first :: rest)) :
    0 ≤ r.m_estimatedRtt ∧ r.m_estimatedRtt < 2 ^ 56 := by
  have hlow : 0 ≤ smallest first rest := le_smallest (hs first List.mem_cons_self).1
    fun x hx ↦ (hs x (List.mem_cons_of_mem _ hx)).1
  have hhigh : largest first rest ≤ 2 ^ 56 - 1 := by
    refine largest_le ?_ fun x hx ↦ ?_
    · have := (hs first List.mem_cons_self).2
      omega
    · have := (hs x (List.mem_cons_of_mem _ hx)).2
      omega
  have := h.smallest_le
  have := h.le_largest
  omega

theorem measured_first (hm : 0 ≤ first ∧ first < 2 ^ 56) : Measured m_alpha m_beta first []
    (measurement floatingPointUpdate (create m_alpha m_beta m_initialEstimatedRtt) first) where
  alpha := rfl
  beta := rfl
  nSamples := rfl
  smallest_le := le_rfl
  le_largest := le_rfl
  variation_nonneg := Int.tdiv_nonneg hm.1 (by decide)
  variation_lt := by
    change first.tdiv 2 < _
    rw [Int.tdiv_eq_ediv_of_nonneg hm.1]
    omega

/-- **One more sample.** The variation moves towards the size of the difference, unless the sample is
taken for the first. -/
theorem Measured.concat (h : Measured m_alpha m_beta first rest r) (hs : Small (first :: rest))
    (hm : 0 ≤ m ∧ m < 2 ^ 56) (ha : checkForReciprocalPowerOfTwo m_alpha ≠ 0)
    (hb : checkForReciprocalPowerOfTwo m_beta ≠ 0) :
    Measured m_alpha m_beta first (rest ++ [m]) (measurement floatingPointUpdate r m) ∧
      ((rest.length + 1) % 2 ^ 32 = 0 →
        (measurement floatingPointUpdate r m).m_estimatedVariation = m / 2) ∧
      ((rest.length + 1) % 2 ^ 32 ≠ 0 → r.m_estimatedVariation ≤ bound first rest →
        (measurement floatingPointUpdate r m).m_estimatedVariation ≤ bound first (rest ++ [m])) := by
  have he := h.estimate_mem hs
  have hzero : r.m_nSamples = 0 ↔ (rest.length + 1) % 2 ^ 32 = 0 := by
    rw [← h.nSamples]
    exact UInt32.toNat_inj.symm
  have hcount : (r.m_nSamples + 1).toNat = ((rest ++ [m]).length + 1) % 2 ^ 32 := by
    rw [UInt32.toNat_add, h.nSamples, List.length_append, List.length_singleton]
    exact Nat.mod_add_mod _ _ _
  by_cases hr : r.m_nSamples = 0
  · -- the sample is taken for the first
    have hmeasure : measurement floatingPointUpdate r m = { r with
        m_estimatedRtt := m
        m_estimatedVariation := m / 2
        m_nSamples := r.m_nSamples + 1 } := by
      rw [measurement, if_neg (not_not.mpr hr), Int.tdiv_eq_ediv_of_nonneg hm.1]
    rw [hmeasure]
    refine ⟨⟨h.alpha, h.beta, hcount, ?_, ?_, ?_, ?_⟩, fun _ ↦ rfl, fun hne ↦ absurd (hzero.mp hr) hne⟩
    · rw [smallest_concat]
      exact min_le_right _ _
    · rw [largest_concat]
      exact le_max_right _ _
    · exact Int.ediv_nonneg hm.1 (by decide)
    · change m / 2 < _
      omega
  · set n := checkForReciprocalPowerOfTwo m_alpha with hn
    set k := checkForReciprocalPowerOfTwo m_beta with hk
    have hsize : (if int64 (m - r.m_estimatedRtt) < 0 then int64 (-int64 (m - r.m_estimatedRtt))
        else int64 (m - r.m_estimatedRtt)) = |m - r.m_estimatedRtt| := by
      rw [int64_eq (x := m - r.m_estimatedRtt) (by omega) (by omega)]
      split_ifs with hneg
      · rw [abs_of_neg hneg]
        exact int64_eq (by omega) (by omega)
      · rw [abs_of_nonneg (not_lt.mp hneg)]
    have habs : 0 ≤ |m - r.m_estimatedRtt| ∧ |m - r.m_estimatedRtt| < 2 ^ 56 :=
      ⟨abs_nonneg _, abs_lt.mpr ⟨by omega, by omega⟩⟩
    have hmeasure : measurement floatingPointUpdate r m = { r with
        m_estimatedRtt := r.m_estimatedRtt + (m - r.m_estimatedRtt) / 2 ^ n
        m_estimatedVariation := r.m_estimatedVariation +
          (|m - r.m_estimatedRtt| - r.m_estimatedVariation) / 2 ^ k
        m_nSamples := r.m_nSamples + 1 } := by
      rw [measurement, if_pos hr, h.alpha, h.beta, if_pos ⟨ha, hb⟩, integerUpdate]
      dsimp only
      rw [hsize, shift_eq (checkForReciprocalPowerOfTwo_le _) he hm,
        shift_eq (checkForReciprocalPowerOfTwo_le _) ⟨h.variation_nonneg, h.variation_lt⟩ habs,
        h.alpha, h.beta, hn, hk]
    have hpow : ∀ j : ℕ, (1 : ℤ) ≤ 2 ^ j := fun j ↦ one_le_pow₀ (by decide)
    have hrtt := And.intro (le_move (e := r.m_estimatedRtt) (m := m) (hpow n))
      (move_le (e := r.m_estimatedRtt) (m := m) (hpow n))
    have hvar := And.intro
      (le_move (e := r.m_estimatedVariation) (m := |m - r.m_estimatedRtt|) (hpow k))
      (move_le (e := r.m_estimatedVariation) (m := |m - r.m_estimatedRtt|) (hpow k))
    have hlow := h.smallest_le
    have hhigh := h.le_largest
    have hnonneg := h.variation_nonneg
    have hlt := h.variation_lt
    rw [hmeasure]
    refine ⟨⟨h.alpha, h.beta, hcount, ?_, ?_, ?_, ?_⟩, fun hz ↦ absurd (hzero.mpr hz) hr, fun _ hle ↦ ?_⟩
    · rw [smallest_concat]
      exact (min_le_min_right m hlow).trans hrtt.1
    · rw [largest_concat]
      exact hrtt.2.trans (max_le_max_right m hhigh)
    · exact (le_min hnonneg habs.1).trans hvar.1
    · exact hvar.2.trans_lt (max_lt hlt habs.2)
    · refine hvar.2.trans (max_le (hle.trans bound_le_concat) ?_)
      -- the estimate and the sample are both in the range of all samples
      rw [bound, smallest_concat, largest_concat]
      refine le_max_of_le_right (abs_le.mpr ⟨?_, ?_⟩) <;> omega

theorem measured_spec (ha : checkForReciprocalPowerOfTwo m_alpha ≠ 0)
    (hb : checkForReciprocalPowerOfTwo m_beta ≠ 0) (hs : Small (first :: rest)) :
    Measured m_alpha m_beta first rest
      (measured floatingPointUpdate (create m_alpha m_beta m_initialEstimatedRtt) (first :: rest)) := by
  induction rest using List.reverseRecOn with
  | nil =>
    exact measured_first floatingPointUpdate m_initialEstimatedRtt (hs first List.mem_cons_self)
  | append_singleton rest m ih =>
    have hsmall : Small (first :: rest) := fun x hx ↦ hs x (by
      rw [← List.cons_append]
      exact List.mem_append_left _ hx)
    have hm := hs m (by simp)
    have hstep := (ih hsmall).concat floatingPointUpdate hsmall hm ha hb
    rw [measured, ← List.cons_append, List.foldl_append]
    exact hstep.1

theorem Measured.rto_nonneg (h : Measured m_alpha m_beta first rest r) (hs : Small (first :: rest))
    (hrto : 0 ≤ m_minRto ∨ m_clockGranularity ≤ 2 ^ 63 - 2 ^ 56) :
    0 ≤ r.rto m_clockGranularity m_minRto := by
  rcases hrto with hmin | hgranularity
  · exact hmin.trans (le_max_right _ _)
  · have he := h.estimate_mem hs
    have hlow := h.variation_nonneg
    have hhigh := h.variation_lt
    rw [rto, int64_eq (x := r.m_estimatedVariation * 4) (by omega) (by omega),
      int64_eq (by omega) (by omega)]
    omega

/-- **The variation stays in its range just if every sample that is taken for the first leaves it
there.** -/
theorem forall_inRange_iff (ha : checkForReciprocalPowerOfTwo m_alpha ≠ 0)
    (hb : checkForReciprocalPowerOfTwo m_beta ≠ 0) (hs : Small (first :: rest))
    (hrto : 0 ≤ m_minRto ∨ m_clockGranularity ≤ 2 ^ 63 - 2 ^ 56) :
    (∀ l, l <+: rest → InRange m_clockGranularity m_minRto first l
      (measured floatingPointUpdate (create m_alpha m_beta m_initialEstimatedRtt) (first :: l))) ↔
    RestartsWithin first rest := by
  have hsmall : ∀ l, l <+: rest → Small (first :: l) := by
    rintro l hl x (_ | ⟨_, hx⟩)
    · exact hs first List.mem_cons_self
    · exact hs x (List.mem_cons_of_mem _ (hl.subset hx))
  have hconcat : ∀ (l : List ℤ) (m : ℤ), measured floatingPointUpdate
      (create m_alpha m_beta m_initialEstimatedRtt) (first :: (l ++ [m])) =
      measurement floatingPointUpdate (measured floatingPointUpdate
        (create m_alpha m_beta m_initialEstimatedRtt) (first :: l)) m := by
    intro l m
    rw [measured, measured, ← List.cons_append, List.foldl_append]
    rfl
  have hstep : ∀ (l : List ℤ) (m : ℤ), l ++ [m] <+: rest → _ := fun l m hl ↦
    (measured_spec floatingPointUpdate m_initialEstimatedRtt ha hb
      (hsmall l ((List.prefix_append l [m]).trans hl))).concat floatingPointUpdate
        (hsmall l ((List.prefix_append l [m]).trans hl))
        (hs m (List.mem_cons_of_mem _ (hl.subset (by simp)))) ha hb
  constructor
  · intro h l m hl hrestart
    have hle := (h (l ++ [m]) hl).variation_le
    rwa [hconcat, (hstep l m hl).2.1 hrestart] at hle
  · intro h l hl
    have hspec := measured_spec floatingPointUpdate m_initialEstimatedRtt ha hb (hsmall l hl)
    refine ⟨hspec.smallest_le, hspec.le_largest, hspec.variation_nonneg, ?_, le_max_right _ _,
      hspec.rto_nonneg (hsmall l hl) hrto⟩
    clear hspec
    induction l using List.reverseRecOn with
    | nil =>
      refine le_max_of_le_left ?_
      change first.tdiv 2 ≤ _
      rw [Int.tdiv_eq_ediv_of_nonneg (hs first List.mem_cons_self).1]
    | append_singleton l m ih =>
      rw [hconcat]
      by_cases hrestart : (l.length + 1) % 2 ^ 32 = 0
      · rw [(hstep l m hl).2.1 hrestart]
        exact h l m hl hrestart
      · exact (hstep l m hl).2.2 hrestart (ih ((List.prefix_append l [m]).trans hl))

end Run

/-- **The estimator stays in the range of its samples**, after each of them, just if no sample that is
taken for the first is too large. -/
theorem inRange_iff {m_alpha m_beta : ℚ} {first m_clockGranularity m_minRto : ℤ} {rest : List ℤ}
    (floatingPointUpdate : RttMeanDeviation → ℤ → RttMeanDeviation) (m_initialEstimatedRtt : ℤ)
    (ha : checkForReciprocalPowerOfTwo m_alpha ≠ 0) (hb : checkForReciprocalPowerOfTwo m_beta ≠ 0)
    (hs : Small (first :: rest)) (hrto : 0 ≤ m_minRto ∨ m_clockGranularity ≤ 2 ^ 63 - 2 ^ 56) :
    (∀ l, l <+: rest → InRange m_clockGranularity m_minRto first l
      (measured floatingPointUpdate (create m_alpha m_beta m_initialEstimatedRtt) (first :: l))) ↔
    RestartsWithin first rest :=
  forall_inRange_iff floatingPointUpdate m_initialEstimatedRtt ha hb hs hrto

/-- Few samples, with the default gains: none but the first is taken for the first. -/
theorem inRange_iff_three : InRange 1000000 200000000 80000000 [30000000, 90000000]
    (measured (fun r _ ↦ r) (create (1 / 8) (1 / 4) 1000000000) [80000000, 30000000, 90000000]) := by
  have hsmall : Small [80000000, 30000000, 90000000] := by
    simp only [Small, List.forall_mem_cons]
    refine ⟨by decide, by decide, by decide, ?_⟩
    rintro x ⟨⟩
  have hrestarts : RestartsWithin 80000000 [30000000, 90000000] := by
    intro l m hl hrestart
    have hlen := hl.length_le
    rw [List.length_append, List.length_singleton] at hlen
    simp only [List.length_cons, List.length_nil] at hlen
    omega
  exact (inRange_iff (fun r _ ↦ r) 1000000000 (by decide +kernel) (by decide +kernel) hsmall
    (.inl (by decide))).mpr hrestarts _ (List.prefix_refl _)

/-- **After `2 ^ 32` samples** the next one is taken for the first, and the variation is out of its
range. -/
theorem not_inRange_restart : ¬ ∀ l, l <+: List.replicate (2 ^ 32) 110 → InRange 1000000 200000000 100 l
    (measured (fun r _ ↦ r) (create (1 / 8) (1 / 4) 1000000000) (100 :: l)) := by
  generalize hn : 2 ^ 32 = n
  have hsmall : Small (100 :: List.replicate n 110) := by
    rintro x (_ | ⟨_, hx⟩)
    · decide
    · rw [List.eq_of_mem_replicate hx]
      decide
  rw [forall_inRange_iff (fun r _ ↦ r) 1000000000 (by decide +kernel) (by decide +kernel) hsmall
    (.inl (by decide))]
  intro h
  have hpos : n = n - 1 + 1 := by omega
  have hlast := h (List.replicate (n - 1) 110) 110
  rw [← List.replicate_succ', ← hpos, List.length_replicate, ← hpos, hn] at hlast
  have hle := hlast (List.prefix_refl _) (Nat.mod_self n)
  have hlow : 100 ≤ smallest 100 (List.replicate n 110) := le_smallest le_rfl fun x hx ↦ by
    rw [List.eq_of_mem_replicate hx]
    decide
  have hhigh : largest 100 (List.replicate n 110) ≤ 110 := largest_le (by decide) fun x hx ↦ by
    rw [List.eq_of_mem_replicate hx]
  rw [bound] at hle
  omega

end RttMeanDeviation

end Ns3
