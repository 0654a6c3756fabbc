import Ns3.Library.WhileLoop

/-!
# Fixed-point numbers of 64 and 64 bits

`int64x64_t` on native integers of 128 bits: a signed number whose lower 64 bits are its fraction.
Products and quotients are computed on the magnitudes, as unsigned numbers, and given their sign at
the end. Negation wraps around.

The product is put together from four products of 64-bit halves. Only its middle 128 bits are kept; a
test of the highest of the four products is meant to catch what does not fit. The quotient is found
by long division, several binary digits at a time.
-/

namespace Ns3

/-- `int64x64_t`. -/
structure Int64x64 where
  v : BitVec 128
  deriving DecidableEq, Repr

namespace Int64x64

/-! ## The code -/

def HP128_MASK_HI_BIT : BitVec 128 := 1#128 <<< 127

def HP_MASK_LO : BitVec 64 := 0xffffffffffffffff#64

/-- `HP_MASK_HI`, a number of 64 bits as well. -/
def HP_MASK_HI : BitVec 64 := ~~~HP_MASK_LO

def getHigh (a : Int64x64) : BitVec 64 := (a.v.sshiftRight 64).setWidth 64

/-- `output_sign`: whether the result is negative, and the magnitudes. -/
def outputSign (sa sb : BitVec 128) : Bool × BitVec 128 × BitVec 128 :=
  let negA := sa.slt 0
  let negB := sb.slt 0
  ((negA && !negB) || (!negA && negB), if negA then -sa else sa, if negB then -sb else sb)

/-- The message that `Umul` aborts with. -/
def multiplicationOverflow : String :=
  "High precision 128 bits multiplication error: multiplication overflow."

/-- `Umul`; an error is an abort with its message. -/
def umul (a b : BitVec 128) : Except String (BitVec 128) :=
  let aL := a &&& HP_MASK_LO.setWidth 128
  let bL := b &&& HP_MASK_LO.setWidth 128
  let aH := (a >>> 64) &&& HP_MASK_LO.setWidth 128
  let bH := (b >>> 64) &&& HP_MASK_LO.setWidth 128
  let loPart := aL * bL
  let midPart := aL * bH + aH * bL
  let hiPart := aH * bH
  if hiPart &&& HP_MASK_HI.setWidth 128 ≠ 0 then .error multiplicationOverflow
  else
    let res1 := loPart >>> 64
    let res2 := midPart &&& HP_MASK_LO.setWidth 128
    let result := res1 + res2
    let res1 := midPart >>> 64
    let res2 := hiPart &&& HP_MASK_LO.setWidth 128
    let res1 := res1 + res2
    let res1 := res1 <<< 64
    .ok (result + res1)

def mul (a o : Int64x64) : Except String Int64x64 :=
  let (negative, a, b) := outputSign a.v o.v
  (umul a b).map fun result ↦ ⟨if negative then -result else result⟩

def DIGITS : ℕ := 64

/-- The variables of `Udiv`, and the partial quotients so far, each with the number of binary digits
it is meant to fill. -/
structure Division where
  rem : BitVec 128
  den : BitVec 128
  result : BitVec 128
  digis : ℕ
  shift : ℕ
  rounds : List (BitVec 128 × ℕ)
  deriving DecidableEq, Repr

namespace Division

/-- The statements `++shift; den >>= 1;`. -/
def halveDen (s : Division) : Option Division :=
  some { s with shift := s.shift + 1, den := s.den >>> 1 }

/-- The statements `++shift; rem <<= 1;`. -/
def doubleRem (s : Division) : Option Division :=
  some { s with shift := s.shift + 1, rem := s.rem <<< 1 }

/-- The condition of the loop that skips trailing zeros in the divisor. -/
def evenDivisor (s : Division) : Bool := decide (s.shift < DIGITS ∧ s.den &&& 1 = 0)

/-- The condition of the loop that skips leading zeros in the remainder. -/
def smallRemainder (s : Division) : Bool :=
  decide (s.digis + s.shift < DIGITS ∧ s.rem &&& HP128_MASK_HI_BIT = 0)

/-- The condition of the loop that casts off denominator bits. -/
def castable (s : Division) : Bool :=
  decide (s.digis + s.shift < DIGITS ∧ (s.den &&& 1 = 0 ∨ s.rem < s.den))

/-- The condition of the main loop. -/
def unfinished (s : Division) : Bool := decide (s.digis < DIGITS ∧ s.rem ≠ 0)

/-- The division of a round, and its partial quotient. -/
def divide (s : Division) : Division :=
  let quo := s.rem / s.den
  { rem := s.rem % s.den
    den := s.den
    result := (s.result <<< s.shift) + quo
    digis := s.digis + s.shift
    shift := 0
    rounds := s.rounds ++ [(quo, s.shift)] }

/-- One round of the main loop. -/
def round (fuel : ℕ) (s : Division) : Option Division := do
  let s ← whileLoop smallRemainder doubleRem fuel s
  let s ← whileLoop castable halveDen fuel s
  some s.divide

/-- The loops of `Udiv`, on a divisor that is not zero; `none` is a failed assertion or no fuel. -/
def run (fuel : ℕ) (a b : BitVec 128) : Option Division :=
  if a % b < b then do
    let s ← whileLoop evenDivisor halveDen fuel ⟨a % b, b, a / b, 0, 0, []⟩
    whileLoop unfinished (round fuel) fuel s
  else none

/-- The end of `Udiv`. -/
def finish (s : Division) : BitVec 128 :=
  if s.digis < DIGITS then s.result <<< (DIGITS - s.digis) else s.result

end Division

/-- `Udiv`, on a divisor that is not zero. -/
def udiv (fuel : ℕ) (a b : BitVec 128) : Option (BitVec 128) :=
  (Division.run fuel a b).map Division.finish

/-- `Div`; a division by zero is undefined. -/
def div (fuel : ℕ) (a o : Int64x64) : Option Int64x64 :=
  if o.v = 0 then none
  else
    let (negative, a, b) := outputSign a.v o.v
    (udiv fuel a b).map fun result ↦ ⟨if negative then -result else result⟩

/-! ## Signs and magnitudes -/

variable {a b x : BitVec 128} {n : ℕ}

theorem toNat_magnitude (x : BitVec 128) :
    (if x.slt 0 then -x else x).toNat = x.toInt.natAbs := by
  have hlt := x.isLt
  have hslt : x.slt 0 = decide (x.toInt < 0) := by
    rw [BitVec.slt_eq_decide]
    rfl
  have hint := BitVec.toInt_eq_toNat_cond x
  rw [hslt]
  by_cases hneg : x.toInt < 0
  · rw [decide_eq_true hneg, if_pos rfl, BitVec.toNat_neg]
    split at hint
    · omega
    · rw [Nat.mod_eq_of_lt (by omega)]
      omega
  · rw [decide_eq_false hneg, if_neg (by decide)]
    split at hint
    · omega
    · omega

theorem natAbs_toInt_le (x : BitVec 128) : x.toInt.natAbs ≤ 2 ^ 127 := by
  have h1 := BitVec.le_toInt x
  have h2 := BitVec.toInt_lt (x := x)
  norm_num at h1 h2 ⊢
  omega

theorem outputSign_fst (sa sb : BitVec 128) :
    (outputSign sa sb).1 = decide (sa.toInt < 0 ∧ 0 ≤ sb.toInt ∨ 0 ≤ sa.toInt ∧ sb.toInt < 0) := by
  have hslt : ∀ x : BitVec 128, x.slt 0 = decide (x.toInt < 0) := fun x ↦ by
    rw [BitVec.slt_eq_decide]
    rfl
  rw [outputSign, hslt, hslt]
  rcases lt_or_ge sa.toInt 0 with ha | ha
  · rcases lt_or_ge sb.toInt 0 with hb | hb
    · simp only [ha, hb, ha.not_ge, hb.not_ge]
      decide
    · simp only [ha, hb, ha.not_ge, hb.not_gt]
      decide
  · rcases lt_or_ge sb.toInt 0 with hb | hb
    · simp only [ha, hb, ha.not_gt, hb.not_ge]
      decide
    · simp only [ha, hb, ha.not_gt, hb.not_gt]
      decide

theorem signed_eq (sa sb : BitVec 128) (n : ℕ) (h : sa.toInt * sb.toInt = 0 → n = 0) :
    (if (outputSign sa sb).1 then -BitVec.ofNat 128 n else BitVec.ofNat 128 n) =
      BitVec.ofInt 128 ((sa.toInt * sb.toInt).sign * n) := by
  have hpos : BitVec.ofNat 128 n = BitVec.ofInt 128 n := (BitVec.ofInt_natCast 128 n).symm
  have hneg : -BitVec.ofNat 128 n = BitVec.ofInt 128 (-n) := by rw [BitVec.ofInt_neg, hpos]
  rcases lt_trichotomy (sa.toInt * sb.toInt) 0 with hlt | hzero | hgt
  · have hdiff : sa.toInt < 0 ∧ 0 ≤ sb.toInt ∨ 0 ≤ sa.toInt ∧ sb.toInt < 0 := by
      rcases mul_neg_iff.mp hlt with ⟨h1, h2⟩ | ⟨h1, h2⟩
      · exact .inr ⟨h1.le, h2⟩
      · exact .inl ⟨h1, h2.le⟩
    rw [outputSign_fst, decide_eq_true hdiff, if_pos rfl, hneg, Int.sign_eq_neg_one_of_neg hlt,
      neg_one_mul]
  · rw [h hzero, hzero, Int.sign_zero, zero_mul]
    split
    · rfl
    · rfl
  · have hsame : ¬ (sa.toInt < 0 ∧ 0 ≤ sb.toInt ∨ 0 ≤ sa.toInt ∧ sb.toInt < 0) := by
      rcases mul_pos_iff.mp hgt with ⟨h1, h2⟩ | ⟨h1, h2⟩
      · omega
      · omega
    rw [outputSign_fst, decide_eq_false hsame, if_neg (by decide), hpos,
      Int.sign_eq_one_of_pos hgt, one_mul]

theorem toInt_ofInt_eq_iff (z : ℤ) :
    (BitVec.ofInt 128 z).toInt = z ↔ -2 ^ 127 ≤ z ∧ z < 2 ^ 127 := by
  rw [BitVec.toInt_ofInt]
  constructor
  · intro h
    have h1 := Int.le_bmod (x := z) (m := 2 ^ 128) (by norm_num)
    have h2 := Int.bmod_lt (x := z) (m := 2 ^ 128) (by norm_num)
    rw [h] at h1 h2
    norm_num at h1 h2 ⊢
    omega
  · rintro ⟨h1, h2⟩
    exact Int.bmod_eq_of_le_mul_two (by push_cast; omega) (by push_cast; omega)

/-! ## Multiplication -/

theorem toNat_and_mask (x : BitVec 128) :
    (x &&& HP_MASK_LO.setWidth 128).toNat = x.toNat % 2 ^ 64 := by
  have hmask : (HP_MASK_LO.setWidth 128).toNat = 2 ^ 64 - 1 := by decide
  rw [BitVec.toNat_and, hmask, Nat.and_two_pow_sub_one_eq_mod]

theorem HP_MASK_HI_eq : HP_MASK_HI = 0 := by decide

theorem toNat_high (x : BitVec 128) :
    ((x >>> 64) &&& HP_MASK_LO.setWidth 128).toNat = x.toNat / 2 ^ 64 := by
  have hlt := x.isLt
  rw [toNat_and_mask, BitVec.toNat_ushiftRight, Nat.shiftRight_eq_div_pow]
  exact Nat.mod_eq_of_lt (Nat.div_lt_of_lt_mul (by omega))

theorem mul_div_two_pow (A B : ℕ) : A * B / 2 ^ 64 =
    A / 2 ^ 64 * (B / 2 ^ 64) * 2 ^ 64 + (A % 2 ^ 64 * (B / 2 ^ 64) + A / 2 ^ 64 * (B % 2 ^ 64)) +
      A % 2 ^ 64 * (B % 2 ^ 64) / 2 ^ 64 := by
  have hA := Nat.div_add_mod A (2 ^ 64)
  have hB := Nat.div_add_mod B (2 ^ 64)
  generalize A / 2 ^ 64 = ah at *
  generalize A % 2 ^ 64 = al at *
  generalize B / 2 ^ 64 = bh at *
  generalize B % 2 ^ 64 = bl at *
  have hprod : A * B = al * bl + 2 ^ 64 * (ah * bh * 2 ^ 64 + (al * bh + ah * bl)) := by
    rw [← hA, ← hB]
    ring
  rw [hprod, Nat.add_mul_div_left _ _ (by norm_num)]
  ring

theorem toNat_mul_of_le {x y : BitVec 128} {m k : ℕ} (hx : x.toNat ≤ m) (hy : y.toNat ≤ k)
    (h : m * k < 2 ^ 128) : (x * y).toNat = x.toNat * y.toNat := by
  rw [BitVec.toNat_mul, Nat.mod_eq_of_lt (lt_of_le_of_lt (Nat.mul_le_mul hx hy) h)]

theorem toNat_carries {lo mid hi : BitVec 128} :
    ((lo >>> 64) + (mid &&& HP_MASK_LO.setWidth 128) +
        (((mid >>> 64) + (hi &&& HP_MASK_LO.setWidth 128)) <<< 64)).toNat =
      (hi.toNat * 2 ^ 64 + mid.toNat + lo.toNat / 2 ^ 64) % 2 ^ 128 := by
  have hlo := lo.isLt
  have hmid := mid.isLt
  rw [BitVec.toNat_add, BitVec.toNat_add, BitVec.toNat_shiftLeft, BitVec.toNat_add,
    BitVec.toNat_ushiftRight, BitVec.toNat_ushiftRight, toNat_and_mask, toNat_and_mask,
    Nat.shiftRight_eq_div_pow, Nat.shiftRight_eq_div_pow, Nat.shiftLeft_eq]
  omega

/-- **The product of the magnitudes modulo `2 ^ 128`**: the test for overflow never fails. -/
theorem umul_eq (ha : a.toNat ≤ 2 ^ 127) (hb : b.toNat ≤ 2 ^ 127) :
    umul a b = .ok (BitVec.ofNat 128 (a.toNat * b.toNat / 2 ^ 64)) := by
  have hmod : ∀ x : ℕ, x % 2 ^ 64 ≤ 2 ^ 64 - 1 := fun x ↦
    Nat.le_sub_one_of_lt (Nat.mod_lt _ (by norm_num))
  have hlow : ∀ x : BitVec 128, (x &&& HP_MASK_LO.setWidth 128).toNat ≤ 2 ^ 64 - 1 := fun x ↦ by
    rw [toNat_and_mask]
    exact hmod _
  have hhigh : ∀ x : BitVec 128, x.toNat ≤ 2 ^ 127 →
      ((x >>> 64) &&& HP_MASK_LO.setWidth 128).toNat ≤ 2 ^ 63 := fun x hx ↦ by
    rw [toNat_high]
    exact Nat.div_le_of_le_mul (by omega)
  have htest : ∀ x : BitVec 128, x &&& HP_MASK_HI.setWidth 128 = 0 := fun x ↦ by
    rw [HP_MASK_HI_eq]
    exact BitVec.and_zero
  have hmid1 := Nat.mul_le_mul (hlow a) (hhigh b hb)
  have hmid2 := Nat.mul_le_mul (hhigh a ha) (hlow b)
  rw [umul]
  dsimp only
  rw [if_neg (not_not.mpr (htest _))]
  refine congrArg Except.ok (BitVec.eq_of_toNat_eq ?_)
  rw [toNat_carries, BitVec.toNat_ofNat, mul_div_two_pow, BitVec.toNat_add,
    toNat_mul_of_le (hhigh a ha) (hhigh b hb) (by norm_num),
    toNat_mul_of_le (hlow a) (hhigh b hb) (by norm_num),
    toNat_mul_of_le (hhigh a ha) (hlow b) (by norm_num),
    toNat_mul_of_le (hlow a) (hlow b) (by norm_num),
    Nat.mod_eq_of_lt (lt_of_le_of_lt (Nat.add_le_add hmid1 hmid2) (by norm_num))]
  rw [toNat_high, toNat_high, toNat_and_mask, toNat_and_mask]

/-- The truncated product, with its sign. -/
def exactProduct (a o : Int64x64) : ℤ :=
  (a.v.toInt * o.v.toInt).sign * (a.v.toInt.natAbs * o.v.toInt.natAbs / 2 ^ 64 : ℕ)

theorem mul_eq (a o : Int64x64) : mul a o = .ok ⟨BitVec.ofInt 128 (exactProduct a o)⟩ := by
  have hzero : a.v.toInt * o.v.toInt = 0 → a.v.toInt.natAbs * o.v.toInt.natAbs / 2 ^ 64 = 0 := by
    intro h
    rw [← Int.natAbs_mul, h]
    rfl
  have humul := umul_eq (a := if a.v.slt 0 then -a.v else a.v) (b := if o.v.slt 0 then -o.v else o.v)
    (by rw [toNat_magnitude]; exact natAbs_toInt_le _)
    (by rw [toNat_magnitude]; exact natAbs_toInt_le _)
  rw [toNat_magnitude, toNat_magnitude] at humul
  show (umul _ _).map _ = _
  rw [exactProduct, ← signed_eq _ _ _ hzero]
  show (umul (if a.v.slt 0 then -a.v else a.v) (if o.v.slt 0 then -o.v else o.v)).map _ = _
  rw [humul]
  rfl

/-- **A product aborts or is exact if and only if** the truncated product fits in a signed number of
128 bits. -/
theorem mul_exact_or_aborts_iff (a o : Int64x64) :
    (mul a o = .error multiplicationOverflow ∨
        ∃ r, mul a o = .ok r ∧ r.v.toInt = exactProduct a o) ↔
      -2 ^ 127 ≤ exactProduct a o ∧ exactProduct a o < 2 ^ 127 := by
  rw [← toInt_ofInt_eq_iff, mul_eq]
  constructor
  · rintro (h | ⟨r, hr, hint⟩)
    · cases h
    · rw [← Except.ok.inj hr] at hint
      exact hint
  · intro h
    exact .inr ⟨_, rfl, h⟩

/-- The square of `2 ^ 32` is stored as zero. -/
theorem not_mul_exact_or_aborts : ¬ ∀ a o : Int64x64,
    mul a o = .error multiplicationOverflow ∨
      ∃ r, mul a o = .ok r ∧ r.v.toInt = exactProduct a o := by
  intro h
  have hmul : mul ⟨1#128 <<< 96⟩ ⟨1#128 <<< 96⟩ = .ok ⟨0⟩ := by decide +kernel
  have hexact : exactProduct ⟨1#128 <<< 96⟩ ⟨1#128 <<< 96⟩ ≠ 0 := by decide +kernel
  rcases h ⟨1#128 <<< 96⟩ ⟨1#128 <<< 96⟩ with habort | ⟨r, hr, hint⟩
  · rw [hmul] at habort
    cases habort
  · rw [hmul] at hr
    rw [← Except.ok.inj hr] at hint
    exact hexact hint.symm

/-! ## Division -/

namespace Division

variable {s t : Division} {fuel : ℕ}

theorem and_one_eq_zero_iff (x : BitVec 128) : x &&& 1 = 0 ↔ x.toNat % 2 = 0 := by
  rw [← BitVec.toNat_inj, BitVec.toNat_and]
  show x.toNat &&& 1 = 0 ↔ _
  rw [Nat.and_one_is_mod]

theorem and_mask_eq_zero_iff (x : BitVec 128) : x &&& HP128_MASK_HI_BIT = 0 ↔ x.toNat < 2 ^ 127 := by
  have hmask : HP128_MASK_HI_BIT = BitVec.twoPow 128 127 := by decide
  have hne : BitVec.twoPow 128 127 ≠ 0 := by decide
  have hmsb : x.getLsbD 127 = decide (2 ^ 127 ≤ x.toNat) := by
    have := BitVec.msb_eq_decide x
    rwa [BitVec.msb_eq_getLsbD_last] at this
  rw [hmask, BitVec.and_twoPow, hmsb]
  by_cases h : 2 ^ 127 ≤ x.toNat
  · rw [decide_eq_true h, if_pos rfl]
    exact ⟨fun h' ↦ absurd h' hne, fun h' ↦ absurd h (not_le.mpr h')⟩
  · rw [decide_eq_false h, if_neg (by decide)]
    exact ⟨fun _ ↦ not_le.mp h, fun _ ↦ rfl⟩

theorem toNat_halve_mul {x : BitVec 128} (h : x.toNat % 2 = 0) (k : ℕ) :
    (x >>> 1).toNat * 2 ^ (k + 1) = x.toNat * 2 ^ k := by
  have hhalf : x.toNat = x.toNat / 2 * 2 := by omega
  rw [BitVec.toNat_ushiftRight, Nat.shiftRight_eq_div_pow, pow_one, pow_succ]
  conv_rhs => rw [hhalf]
  ring

theorem skipDivisor_spec (hf : DIGITS < fuel) (hshift : s.shift = 0) :
    ∃ den shift, whileLoop evenDivisor halveDen fuel s =
        some { s with den := den, shift := shift } ∧
      den.toNat * 2 ^ shift = s.den.toNat ∧ shift ≤ DIGITS ∧ (shift < DIGITS → den.toNat % 2 = 1) := by
  obtain ⟨t, ht, ⟨heq, hden, hle⟩, hc⟩ := whileLoop_spec evenDivisor halveDen
    (fun t ↦ t = { s with den := t.den, shift := t.shift } ∧
      t.den.toNat * 2 ^ t.shift = s.den.toNat ∧ t.shift ≤ DIGITS)
    (fun t ↦ DIGITS - t.shift)
    (by
      rintro t ⟨heq, hden, hle⟩ hc
      obtain ⟨hlt, heven⟩ := of_decide_eq_true hc
      refine ⟨_, rfl, ⟨?_, ?_, hlt⟩, Nat.sub_succ_lt_self _ _ hlt⟩
      · rw [heq]
      · exact (toNat_halve_mul ((and_one_eq_zero_iff _).mp heven) _).trans hden)
    (s := s) ⟨rfl, by rw [hshift, pow_zero, mul_one], by rw [hshift]; exact Nat.zero_le _⟩
    (by rw [hshift]; exact hf)
  refine ⟨t.den, t.shift, heq ▸ ht, hden, hle, fun hlt ↦ ?_⟩
  have hodd := of_decide_eq_false hc
  rw [and_one_eq_zero_iff] at hodd
  omega

/-- Skipping leading zeros multiplies the remainder by a power of two, until it is large or all digits
are accounted for. -/
theorem skipRemainder_spec (hf : DIGITS < fuel) (hle : s.digis + s.shift ≤ DIGITS) :
    ∃ rem k, whileLoop smallRemainder doubleRem fuel s =
        some { s with rem := rem, shift := s.shift + k } ∧
      rem.toNat = s.rem.toNat * 2 ^ k ∧ s.digis + (s.shift + k) ≤ DIGITS ∧
      (s.digis + (s.shift + k) < DIGITS → 2 ^ 127 ≤ rem.toNat) := by
  obtain ⟨t, ht, ⟨k, heq, hrem, hle'⟩, hc⟩ := whileLoop_spec smallRemainder doubleRem
    (fun t ↦ ∃ k, t = { s with rem := t.rem, shift := s.shift + k } ∧
      t.rem.toNat = s.rem.toNat * 2 ^ k ∧ s.digis + (s.shift + k) ≤ DIGITS)
    (fun t ↦ DIGITS - (t.digis + t.shift))
    (by
      rintro t ⟨k, heq, hrem, hle'⟩ hc
      obtain ⟨hlt, hsmall⟩ := of_decide_eq_true hc
      rw [and_mask_eq_zero_iff] at hsmall
      have hdigis : t.digis = s.digis := by rw [heq]
      have hshift : t.shift = s.shift + k := by rw [heq]
      refine ⟨_, rfl, ⟨k + 1, ?_, ?_, ?_⟩, Nat.sub_succ_lt_self _ _ hlt⟩
      · rw [heq]
        rfl
      · show (t.rem <<< 1).toNat = _
        rw [BitVec.toNat_shiftLeft, Nat.shiftLeft_eq, Nat.mod_eq_of_lt (by omega), hrem, pow_succ]
        ring
      · omega)
    (s := s) ⟨0, rfl, by rw [pow_zero, mul_one], hle⟩ (lt_of_le_of_lt (Nat.sub_le _ _) hf)
  have hdigis : t.digis = s.digis := by rw [heq]
  have hshift : t.shift = s.shift + k := by rw [heq]
  refine ⟨t.rem, k, heq ▸ ht, hrem, hle', fun hlt ↦ ?_⟩
  have hlarge := of_decide_eq_false hc
  rw [and_mask_eq_zero_iff] at hlarge
  omega

/-- What holds at the head of the main loop: the divisor is what is left of it times a power of two,
and the digits of the quotient so far and the remainder make up the dividend. -/
structure Inv (a b : BitVec 128) (z : ℕ) (s : Division) : Prop where
  den : s.den.toNat * 2 ^ z = b.toNat
  shift_le : s.shift ≤ z
  value : a.toNat * 2 ^ s.digis = b.toNat * s.result.toNat + s.rem.toNat * 2 ^ (z - s.shift)
  rem_lt : s.rem.toNat < s.den.toNat * 2 ^ s.shift
  digits_le : s.digis + s.shift ≤ DIGITS
  odd : s.digis + s.shift < DIGITS → s.den.toNat % 2 = 1
  den_le : s.den.toNat ≤ 2 ^ 127
  rounds : ∀ r ∈ s.rounds, r.1.toNat < 2 ^ r.2

/-- The quotient has at most 63 digits before the point. -/
def Bounded (a b : BitVec 128) : Prop := a.toNat ≤ 2 ^ 63 * b.toNat

variable {z : ℕ}

theorem Inv.den_pos (hi : Inv a b z s) : 0 < s.den.toNat :=
  Nat.pos_of_mul_pos_right (lt_of_le_of_lt (Nat.zero_le _) hi.rem_lt)

theorem castOff_eq (hf : 0 < fuel) (hodd : s.digis + s.shift < DIGITS → s.den.toNat % 2 = 1)
    (hle : s.digis + s.shift < DIGITS → s.den.toNat ≤ s.rem.toNat) :
    whileLoop castable halveDen fuel s = some s := by
  refine whileLoop_of_not hf (decide_eq_false ?_)
  rintro ⟨hlt, heven | hsmall⟩
  · rw [and_one_eq_zero_iff, hodd hlt] at heven
    exact absurd heven one_ne_zero
  · exact absurd (BitVec.lt_def.mp hsmall) (not_lt.mpr (hle hlt))

theorem value_divide {A B Q R D d m k z : ℕ} (hB : D * 2 ^ z = B) (hm : m ≤ z)
    (hvalue : A * 2 ^ d = B * Q + R * 2 ^ (z - m)) :
    A * 2 ^ (d + (m + k)) =
      B * (Q * 2 ^ (m + k) + R * 2 ^ k / D) + R * 2 ^ k % D * 2 ^ z := by
  have hpow : 2 ^ (z - m) * 2 ^ m = 2 ^ z := by rw [← pow_add, Nat.sub_add_cancel hm]
  have hdiv := Nat.div_add_mod (R * 2 ^ k) D
  calc A * 2 ^ (d + (m + k)) = A * 2 ^ d * 2 ^ (m + k) := by rw [pow_add, mul_assoc]
    _ = B * Q * 2 ^ (m + k) + R * 2 ^ k * (2 ^ (z - m) * 2 ^ m) := by
      rw [hvalue, pow_add 2 m k]
      ring
    _ = B * Q * 2 ^ (m + k) + (D * (R * 2 ^ k / D) + R * 2 ^ k % D) * 2 ^ z := by
      rw [hpow, hdiv]
    _ = B * (Q * 2 ^ (m + k) + R * 2 ^ k / D) + R * 2 ^ k % D * 2 ^ z := by
      rw [← hB]
      ring

theorem result_le {A B Q R d : ℕ} (hB : 0 < B) (hle : A ≤ 2 ^ 63 * B) (hd : d ≤ DIGITS)
    (hvalue : A * 2 ^ d = B * Q + R) : Q ≤ 2 ^ 127 := by
  refine Nat.le_of_mul_le_mul_left ?_ hB
  calc B * Q ≤ A * 2 ^ d := hvalue ▸ Nat.le_add_right _ _
    _ ≤ 2 ^ 63 * B * 2 ^ 64 := Nat.mul_le_mul hle (Nat.pow_le_pow_right (by norm_num) hd)
    _ = B * 2 ^ 127 := by ring

/-- **One round** keeps the invariant and finds at least one digit; its partial quotient fits in the
digits it is meant to fill. -/
theorem Inv.round (hi : Inv a b z s) (hb : Bounded a b) (hf : DIGITS < fuel)
    (hlt : s.digis < DIGITS) :
    ∃ t, s.round fuel = some t ∧ Inv a b z t ∧ DIGITS - t.digis < DIGITS - s.digis := by
  obtain ⟨rem, k, hskip, hrem, hdigits, hlarge⟩ := skipRemainder_spec hf hi.digits_le
  have hden := hi.den_pos
  have hbpos : 0 < b.toNat := hi.den ▸ Nat.mul_pos hden (Nat.two_pow_pos _)
  have hcast := castOff_eq (s := { s with rem := rem, shift := s.shift + k })
    (Nat.zero_lt_of_lt hf) (fun h ↦ hi.odd (by dsimp only at h; omega)) (fun h ↦ hi.den_le.trans (hlarge h))
  refine ⟨{ s with rem := rem, shift := s.shift + k : Division }.divide, ?_, ?_, ?_⟩
  · rw [Division.round, hskip]
    show (whileLoop castable halveDen fuel _).bind _ = _
    rw [hcast]
    rfl
  · have hquo : (rem / s.den).toNat = s.rem.toNat * 2 ^ k / s.den.toNat := by
      rw [BitVec.toNat_udiv, hrem]
    have hmod : (rem % s.den).toNat = s.rem.toNat * 2 ^ k % s.den.toNat := by
      rw [BitVec.toNat_umod, hrem]
    have hvalue := value_divide (k := k) hi.den hi.shift_le hi.value
    have hresult := result_le hbpos hb hdigits hvalue
    have hshiftl : (s.result <<< (s.shift + k)).toNat = s.result.toNat * 2 ^ (s.shift + k) := by
      rw [BitVec.toNat_shiftLeft, Nat.shiftLeft_eq, Nat.mod_eq_of_lt]
      exact lt_of_le_of_lt ((Nat.le_add_right _ _).trans hresult) (by norm_num)
    have hadd : (s.result <<< (s.shift + k) + rem / s.den).toNat =
        s.result.toNat * 2 ^ (s.shift + k) + s.rem.toNat * 2 ^ k / s.den.toNat := by
      rw [BitVec.toNat_add, hshiftl, hquo, Nat.mod_eq_of_lt (lt_of_le_of_lt hresult (by norm_num))]
    refine ⟨hi.den, Nat.zero_le _, ?_, ?_, hdigits, fun h ↦ hi.odd ?_, hi.den_le, ?_⟩
    · show a.toNat * 2 ^ (s.digis + (s.shift + k)) =
        b.toNat * (s.result <<< (s.shift + k) + rem / s.den).toNat + (rem % s.den).toNat * 2 ^ z
      rw [hadd, hmod]
      exact hvalue
    · show (rem % s.den).toNat < s.den.toNat * 2 ^ 0
      rw [hmod, pow_zero, mul_one]
      exact Nat.mod_lt _ hden
    · have h' : s.digis + (s.shift + k) + 0 < DIGITS := h
      omega
    · intro r hr
      rcases List.mem_append.mp hr with hr | hr
      · exact hi.rounds r hr
      · rw [List.mem_singleton.mp hr]
        show (rem / s.den).toNat < 2 ^ (s.shift + k)
        rw [hquo, Nat.div_lt_iff_lt_mul hden]
        calc s.rem.toNat * 2 ^ k < s.den.toNat * 2 ^ s.shift * 2 ^ k :=
              Nat.mul_lt_mul_of_pos_right hi.rem_lt (Nat.two_pow_pos _)
          _ = 2 ^ (s.shift + k) * s.den.toNat := by
            rw [pow_add]
            ring
  · -- without a digit the remainder would have its highest bit set, and be less than the divisor
    show DIGITS - (s.digis + (s.shift + k)) < DIGITS - s.digis
    have hpos : 0 < s.shift + k := by
      by_contra hzero
      obtain ⟨hshift, hk⟩ : s.shift = 0 ∧ k = 0 := by omega
      have hbig := hlarge (by omega)
      have hremlt := hi.rem_lt
      have hdenle := hi.den_le
      rw [hrem, hk, pow_zero, mul_one] at hbig
      rw [hshift, pow_zero, mul_one] at hremlt
      omega
    omega

theorem Inv.start {den : BitVec 128} {shift : ℕ} (hpos : 0 < b.toNat)
    (hle : b.toNat ≤ 2 ^ 127) (hden : den.toNat * 2 ^ shift = b.toNat) (hshift : shift ≤ DIGITS)
    (hodd : shift < DIGITS → den.toNat % 2 = 1) :
    Inv a b shift ⟨a % b, den, a / b, 0, shift, []⟩ where
  den := hden
  shift_le := le_rfl
  value := by
    rw [Nat.sub_self, pow_zero, mul_one, mul_one, BitVec.toNat_udiv, BitVec.toNat_umod]
    exact (Nat.div_add_mod _ _).symm
  rem_lt := by
    rw [hden, BitVec.toNat_umod]
    exact Nat.mod_lt _ hpos
  digits_le := (Nat.zero_add shift).symm ▸ hshift
  odd := fun h ↦ hodd ((Nat.zero_add shift) ▸ h)
  den_le := (Nat.le_mul_of_pos_right _ (Nat.two_pow_pos _)).trans (hden.le.trans hle)
  rounds := fun _ hr ↦ absurd hr List.not_mem_nil

/-- **The loops end**, in a state with the invariant. -/
theorem run_spec (hb : Bounded a b) (hpos : 0 < b.toNat) (hle : b.toNat ≤ 2 ^ 127)
    (hf : DIGITS < fuel) :
    ∃ t z, run fuel a b = some t ∧ Inv a b z t ∧ ¬ (t.digis < DIGITS ∧ t.rem ≠ 0) := by
  obtain ⟨den, shift, hskip, hden, hshift, hodd⟩ :=
    skipDivisor_spec (s := ⟨a % b, b, a / b, 0, 0, []⟩) hf rfl
  obtain ⟨t, ht, hi, hc⟩ := whileLoop_spec unfinished (Division.round fuel) (Inv a b shift)
    (fun t ↦ DIGITS - t.digis)
    (fun s hi hc ↦ hi.round hb hf (of_decide_eq_true hc).1)
    (Inv.start hpos hle hden hshift hodd) (lt_of_le_of_lt (Nat.sub_le _ _) hf)
  refine ⟨t, shift, ?_, hi, of_decide_eq_false hc⟩
  have hassert : a % b < b := BitVec.lt_def.mpr (by
    rw [BitVec.toNat_umod]
    exact Nat.mod_lt _ hpos)
  rw [run, if_pos hassert, hskip]
  exact ht

theorem Inv.toNat_finish (hi : Inv a b z t) (hb : Bounded a b)
    (hend : ¬ (t.digis < DIGITS ∧ t.rem ≠ 0)) :
    t.finish.toNat = a.toNat * 2 ^ 64 / b.toNat := by
  have hpos : 0 < b.toNat := hi.den ▸ Nat.mul_pos hi.den_pos (Nat.two_pow_pos _)
  have hdigits : t.digis ≤ DIGITS := (Nat.le_add_right _ _).trans hi.digits_le
  rw [finish]
  by_cases hlt : t.digis < DIGITS
  · have hrem : t.rem = 0 := by
      by_contra hne
      exact hend ⟨hlt, hne⟩
    have hvalue : a.toNat * 2 ^ 64 = b.toNat * (t.result.toNat * 2 ^ (DIGITS - t.digis)) := by
      have h64 : (2 : ℕ) ^ 64 = 2 ^ t.digis * 2 ^ (DIGITS - t.digis) := by
        rw [← pow_add, Nat.add_sub_cancel' hdigits]
        rfl
      have hzero : (0 : BitVec 128).toNat = 0 := rfl
      have hv := hi.value
      rw [hrem, hzero, zero_mul, add_zero] at hv
      rw [h64, ← mul_assoc, hv, mul_assoc]
    have hresult := result_le (R := 0) hpos hb le_rfl hvalue
    rw [if_pos hlt, BitVec.toNat_shiftLeft, Nat.shiftLeft_eq,
      Nat.mod_eq_of_lt (lt_of_le_of_lt hresult (by norm_num)), hvalue, Nat.mul_div_cancel_left _ hpos]
  · have hdigis : t.digis = 64 := le_antisymm hdigits (not_lt.mp hlt)
    have hsmall : t.rem.toNat * 2 ^ (z - t.shift) < b.toNat := by
      calc t.rem.toNat * 2 ^ (z - t.shift)
          < t.den.toNat * 2 ^ t.shift * 2 ^ (z - t.shift) :=
            Nat.mul_lt_mul_of_pos_right hi.rem_lt (Nat.two_pow_pos _)
        _ = b.toNat := by rw [mul_assoc, ← pow_add, Nat.add_sub_cancel' hi.shift_le, hi.den]
    have hv := hi.value
    rw [hdigis] at hv
    rw [if_neg hlt, hv, Nat.mul_add_div hpos, Nat.div_eq_of_lt hsmall, add_zero]

end Division

/-- **`Udiv` is exact** when the quotient is not too large. -/
theorem udiv_spec {fuel : ℕ} (hb : Division.Bounded a b) (hpos : 0 < b.toNat)
    (hle : b.toNat ≤ 2 ^ 127) (hf : DIGITS < fuel) :
    udiv fuel a b = some (BitVec.ofNat 128 (a.toNat * 2 ^ 64 / b.toNat)) ∧
      ∃ s, Division.run fuel a b = some s ∧ ∀ r ∈ s.rounds, r.1.toNat < 2 ^ r.2 := by
  obtain ⟨t, z, hrun, hi, hend⟩ := Division.run_spec hb hpos hle hf
  refine ⟨?_, t, hrun, hi.rounds⟩
  rw [udiv, hrun, ← hi.toNat_finish hb hend, BitVec.ofNat_toNat, BitVec.setWidth_eq]
  rfl

/-- The truncated quotient, with its sign. -/
def exactQuotient (a o : Int64x64) : ℤ :=
  a.v.toInt.sign * o.v.toInt.sign * (a.v.toInt.natAbs * 2 ^ 64 / o.v.toInt.natAbs : ℕ)

theorem natAbs_le_of_quotient {x y : ℤ} (hy : y ≠ 0) (hlo : (-2 ^ 63 : ℚ) ≤ x / y)
    (hhi : (x / y : ℚ) < 2 ^ 63) :
    x.natAbs ≤ 2 ^ 63 * y.natAbs ∧ (0 < x * y → x.natAbs < 2 ^ 63 * y.natAbs) := by
  have hypos : (0 : ℚ) < |(y : ℚ)| := abs_pos.mpr (Int.cast_ne_zero.mpr hy)
  have habs : |(x : ℚ)| ≤ 2 ^ 63 * |(y : ℚ)| := by
    rw [← div_le_iff₀ hypos, ← abs_div, abs_le]
    exact ⟨hlo, hhi.le⟩
  refine ⟨?_, fun hpos ↦ ?_⟩
  · rw [← Int.cast_abs, ← Int.cast_abs, Int.abs_eq_natAbs, Int.abs_eq_natAbs] at habs
    exact_mod_cast habs
  · have hquo : (0 : ℚ) < x / y := by
      have hcast : (0 : ℚ) < x * y := by exact_mod_cast hpos
      rcases pos_and_pos_or_neg_and_neg_of_mul_pos hcast with ⟨h1, h2⟩ | ⟨h1, h2⟩
      · exact div_pos h1 h2
      · exact div_pos_of_neg_of_neg h1 h2
    have hlt : |(x : ℚ)| < 2 ^ 63 * |(y : ℚ)| := by
      rw [← div_lt_iff₀ hypos, ← abs_div, abs_of_pos hquo]
      exact hhi
    rw [← Int.cast_abs, ← Int.cast_abs, Int.abs_eq_natAbs, Int.abs_eq_natAbs] at hlt
    exact_mod_cast hlt

theorem div_eq (a o : Int64x64) {fuel : ℕ} (hf : DIGITS < fuel) (ho : o.v ≠ 0)
    (hle : a.v.toInt.natAbs ≤ 2 ^ 63 * o.v.toInt.natAbs) :
    div fuel a o = some ⟨BitVec.ofInt 128 (exactQuotient a o)⟩ ∧
      ∃ s, Division.run fuel (outputSign a.v o.v).2.1 (outputSign a.v o.v).2.2 = some s ∧
        ∀ r ∈ s.rounds, r.1.toNat < 2 ^ r.2 := by
  have hne : o.v.toInt ≠ 0 := fun h ↦ ho (BitVec.eq_of_toInt_eq h)
  have hpos : 0 < o.v.toInt.natAbs := Int.natAbs_pos.mpr hne
  have ha : (outputSign a.v o.v).2.1.toNat = a.v.toInt.natAbs := toNat_magnitude _
  have hb : (outputSign a.v o.v).2.2.toNat = o.v.toInt.natAbs := toNat_magnitude _
  have hzero : a.v.toInt * o.v.toInt = 0 →
      a.v.toInt.natAbs * 2 ^ 64 / o.v.toInt.natAbs = 0 := by
    intro h
    rw [(mul_eq_zero.mp h).resolve_right hne, Int.natAbs_zero, zero_mul, Nat.zero_div]
  obtain ⟨hudiv, hrounds⟩ := udiv_spec (a := (outputSign a.v o.v).2.1)
    (b := (outputSign a.v o.v).2.2) (by rw [Division.Bounded, ha, hb]; exact hle)
    (by rw [hb]; exact hpos) (by rw [hb]; exact natAbs_toInt_le _) hf
  refine ⟨?_, hrounds⟩
  rw [div, if_neg ho]
  show (udiv fuel (outputSign a.v o.v).2.1 (outputSign a.v o.v).2.2).map
    (fun result ↦ (⟨if (outputSign a.v o.v).1 then -result else result⟩ : Int64x64)) = _
  rw [hudiv, ha, hb, Option.map_some, signed_eq _ _ _ hzero, exactQuotient, Int.sign_mul]

/-- **Division is exact** for quotients in the range of the integer part; its partial quotients fit, and
its loops end. -/
theorem div_exact (a o : Int64x64) (ho : o.v ≠ 0)
    (hlo : (-2 ^ 63 : ℚ) ≤ (a.v.toInt : ℚ) / o.v.toInt)
    (hhi : (a.v.toInt : ℚ) / o.v.toInt < 2 ^ 63) {fuel : ℕ} (hf : DIGITS < fuel) :
    (∃ r, div fuel a o = some r ∧ r.v.toInt = exactQuotient a o) ∧
      ∃ s, Division.run fuel (outputSign a.v o.v).2.1 (outputSign a.v o.v).2.2 = some s ∧
        ∀ r ∈ s.rounds, r.1.toNat < 2 ^ r.2 := by
  have hne : o.v.toInt ≠ 0 := fun h ↦ ho (BitVec.eq_of_toInt_eq h)
  have hpos : 0 < o.v.toInt.natAbs := Int.natAbs_pos.mpr hne
  obtain ⟨hle, hlt⟩ := natAbs_le_of_quotient hne hlo hhi
  obtain ⟨hdiv, hrounds⟩ := div_eq a o hf ho hle
  refine ⟨⟨_, hdiv, (toInt_ofInt_eq_iff _).mpr ?_⟩, hrounds⟩
  have hbound : a.v.toInt.natAbs * 2 ^ 64 / o.v.toInt.natAbs ≤ 2 ^ 127 :=
    Nat.div_le_of_le_mul (by omega)
  have hstrict : 0 < a.v.toInt * o.v.toInt →
      a.v.toInt.natAbs * 2 ^ 64 / o.v.toInt.natAbs < 2 ^ 127 := by
    intro hsame
    have := hlt hsame
    rw [Nat.div_lt_iff_lt_mul hpos]
    omega
  rw [exactQuotient, ← Int.sign_mul]
  generalize a.v.toInt.natAbs * 2 ^ 64 / o.v.toInt.natAbs = n at hbound hstrict ⊢
  rcases lt_trichotomy (a.v.toInt * o.v.toInt) 0 with hneg | hzero | hsame
  · rw [Int.sign_eq_neg_one_of_neg hneg]
    omega
  · rw [hzero, Int.sign_zero, zero_mul]
    norm_num
  · have := hstrict hsame
    rw [Int.sign_eq_one_of_pos hsame]
    omega

/-- Minus 22 by 7. -/
theorem div_exact_sample : (∃ r, div 65 ⟨BitVec.ofInt 128 (-22 * 2 ^ 64)⟩ ⟨7#128 <<< 64⟩ = some r ∧
      r.v.toInt = exactQuotient ⟨BitVec.ofInt 128 (-22 * 2 ^ 64)⟩ ⟨7#128 <<< 64⟩) := by
  have ha : (BitVec.ofInt 128 (-22 * 2 ^ 64)).toInt = -22 * 2 ^ 64 := by decide +kernel
  have ho : (7#128 <<< 64).toInt = 7 * 2 ^ 64 := by decide +kernel
  refine (div_exact _ _ (by decide +kernel) ?_ ?_ (by decide)).1
  · simp only [ha, ho]
    norm_num
  · simp only [ha, ho]
    norm_num

end Int64x64

end Ns3
