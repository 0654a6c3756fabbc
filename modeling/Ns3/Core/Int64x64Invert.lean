import Ns3.Core.Int64x64

/-!
# Division by a precomputed inverse

`Invert` finds the inverse of an integer as a fraction of 128 bits, by the long division of `2 ^ 64`
and, where that is not exact, one more in the last place. `MulByInvert` multiplies by such a fraction
and leaves the lowest of the four partial products out.

Both roundings together are smaller than what separates a quotient from the next integer: the inverse
is too large by at most the divisor in units of `2 ^ -128`, and a dividend has no more than 63 bits.

Conversions of times between units divide in this way, to a unit that is larger than the resolution
and from one that is smaller, or multiply. What is converted from a unit is rounded down, since a time
keeps the high part.
-/

namespace Ns3

namespace Int64x64

/-! ## The code -/

/-- The constructor from an integer of 64 bits. -/
def ofInt64 (v : BitVec 64) : Int64x64 := ⟨v.signExtend 128 <<< 64⟩

/-- The constructor from high and low values. -/
def ofHighLow (hi lo : BitVec 64) : Int64x64 := ⟨(hi.signExtend 128 <<< 64) ||| lo.setWidth 128⟩

def umulByInvert (a b : BitVec 128) : BitVec 128 :=
  let ah := a >>> 64
  let bh := b >>> 64
  let al := a &&& HP_MASK_LO.setWidth 128
  let bl := b &&& HP_MASK_LO.setWidth 128
  let hi := ah * bh
  let mid := ah * bl + al * bh
  let mid := mid >>> 64
  hi + mid

def mulByInvert (a o : Int64x64) : Int64x64 :=
  let negResult := a.v.slt 0
  let a := if negResult then -a.v else a.v
  let result := umulByInvert a o.v
  ⟨if negResult then -result else result⟩

/-- `Invert`; `none` is a failed assertion. -/
def invert (fuel : ℕ) (v : BitVec 64) : Option Int64x64 :=
  if 1 < v then do
    let result ← udiv fuel (1#128 <<< 64) (v.setWidth 128)
    let tmp := (ofHighLow v 0).mulByInvert ⟨result⟩
    some ⟨if tmp.getHigh ≠ 1 then result + 1 else result⟩
  else none

/-- The integer part, truncated toward zero. -/
def integerPart (a : Int64x64) : ℤ := a.v.toInt.tdiv (2 ^ 64)

end Int64x64

namespace Time

/-- `Time::Information`: how to convert to and from a unit. -/
structure Information where
  toMul : Bool
  fromMul : Bool
  factor : BitVec 64
  timeTo : Int64x64
  timeFrom : Int64x64
  deriving DecidableEq, Repr

/-- `ToInteger`, of the time with the raw value `m_data`. -/
def toInteger (info : Information) (m_data : BitVec 64) : BitVec 64 :=
  if info.toMul then m_data * info.factor else m_data.sdiv info.factor

/-- `To`. -/
def toUnit (info : Information) (m_data : BitVec 64) : Except String Int64x64 :=
  let retval := Int64x64.ofInt64 m_data
  if info.toMul then retval.mul info.timeTo else .ok (retval.mulByInvert info.timeTo)

/-- `FromInteger`, the raw value of the time. -/
def fromInteger (info : Information) (value : BitVec 64) : BitVec 64 :=
  if info.fromMul then value * info.factor else value / info.factor

/-- `From`, the raw value of the time, which is the high part. -/
def fromUnit (info : Information) (value : Int64x64) : Except String (BitVec 64) :=
  let retval := if info.fromMul then value.mul info.timeFrom else .ok (value.mulByInvert info.timeFrom)
  retval.map Int64x64.getHigh

/-- The branches of `SetResolution`, by how the unit compares with the resolution. -/
def setInformation (fuel : ℕ) (factor : BitVec 64) : Ordering → Option Information
  | .eq => some ⟨true, true, factor, .ofInt64 1, .ofInt64 1⟩
  | .gt => (Int64x64.invert fuel factor).map fun timeTo ↦
      ⟨false, true, factor, timeTo, .ofInt64 factor⟩
  | .lt => (Int64x64.invert fuel factor).map fun timeFrom ↦
      ⟨true, false, factor, .ofInt64 factor, timeFrom⟩

end Time

namespace Int64x64

variable {x v : BitVec 64} {X I V : ℕ}

/-! ## The error of an inverse -/

/-- An inverse of `V` that is too large, by at most `V`. -/
structure Inverse (V I : ℕ) : Prop where
  pos : 0 < V
  le : V ≤ 2 ^ 63
  lower : 2 ^ 128 ≤ I * V
  upper : I * V ≤ 2 ^ 128 + V

theorem Inverse.mul_bounds (h : Inverse V I) (hX : X ≤ 2 ^ 63) :
    2 ^ 128 * X ≤ X * I * V ∧ X * I * V ≤ 2 ^ 128 * X + 2 ^ 63 * V := by
  rw [mul_assoc]
  constructor
  · calc 2 ^ 128 * X = X * 2 ^ 128 := Nat.mul_comm _ _
      _ ≤ X * (I * V) := Nat.mul_le_mul_left _ h.lower
  · calc X * (I * V) ≤ X * (2 ^ 128 + V) := Nat.mul_le_mul_left _ h.upper
      _ = 2 ^ 128 * X + X * V := by ring
      _ ≤ 2 ^ 128 * X + 2 ^ 63 * V := Nat.add_le_add_left (Nat.mul_le_mul_right _ hX) _

/-- **The truncated product is the quotient.** -/
theorem Inverse.div_eq (h : Inverse V I) (hX : X ≤ 2 ^ 63) : X * I / 2 ^ 64 / 2 ^ 64 = X / V := by
  obtain ⟨hlo, hhi⟩ := h.mul_bounds hX
  have hV := h.pos
  rw [Nat.div_div_eq_div_mul, ← pow_add]
  refine Nat.div_eq_of_lt_le ?_ ?_
  · -- the quotient times `2 ^ 128` is at most the product
    refine Nat.le_of_mul_le_mul_right ?_ hV
    calc X / V * 2 ^ (64 + 64) * V = 2 ^ 128 * (X / V * V) := by ring
      _ ≤ 2 ^ 128 * X := Nat.mul_le_mul_left _ (Nat.div_mul_le_self _ _)
      _ ≤ X * I * V := hlo
  · refine Nat.lt_of_mul_lt_mul_right (a := V) ?_
    have hnext : X + 1 ≤ (X / V + 1) * V := by
      have := Nat.lt_mul_div_succ X hV
      rw [Nat.mul_comm]
      exact this
    calc X * I * V ≤ 2 ^ 128 * X + 2 ^ 63 * V := hhi
      _ < 2 ^ 128 * X + 2 ^ 128 := by have := h.le; omega
      _ = 2 ^ 128 * (X + 1) := by ring
      _ ≤ 2 ^ 128 * ((X / V + 1) * V) := Nat.mul_le_mul_left _ hnext
      _ = (X / V + 1) * 2 ^ (64 + 64) * V := by ring

theorem Inverse.neg_div_eq (h : Inverse V I) (hX : X ≤ 2 ^ 63) :
    -((X * I / 2 ^ 64 : ℕ) : ℤ) / 2 ^ 64 = -(X : ℤ) / V := by
  obtain ⟨hlo, hhi⟩ := h.mul_bounds hX
  have hV := h.pos
  have hVle := h.le
  have hVpos : (0 : ℤ) < V := by exact_mod_cast hV
  have hR1 := Nat.div_mul_le_self (X * I) (2 ^ 64)
  have hR2 : X * I < (X * I / 2 ^ 64 + 1) * 2 ^ 64 := by
    rw [Nat.mul_comm (X * I / 2 ^ 64 + 1)]
    exact Nat.lt_mul_div_succ _ (Nat.two_pow_pos 64)
  generalize X * I = P at hlo hhi hR1 hR2 ⊢
  generalize P / 2 ^ 64 = R at hR1 hR2 ⊢
  have hq1 := Int.ediv_mul_le (-(R : ℤ)) (b := 2 ^ 64) (by norm_num)
  have hq2 := Int.lt_ediv_add_one_mul_self (-(R : ℤ)) (b := 2 ^ 64) (by norm_num)
  generalize -(R : ℤ) / 2 ^ 64 = q at hq1 hq2 ⊢
  zify at hlo hhi hR1 hR2 hVle
  symm
  rw [Int.ediv_eq_iff_of_pos hVpos]
  constructor
  · have hP : (P : ℤ) * V < (-q * 2 ^ 64 + 1) * 2 ^ 64 * V :=
      mul_lt_mul_of_pos_right (by linarith) hVpos
    have hexp : (-q * 2 ^ 64 + 1) * 2 ^ 64 * (V : ℤ) = -(q * V) * 2 ^ 128 + 2 ^ 64 * V := by ring
    rw [hexp] at hP
    generalize q * (V : ℤ) = w at hP ⊢
    omega
  · have hP : (-(q + 1) * 2 ^ 64 + 1) * 2 ^ 64 * (V : ℤ) ≤ P * V :=
      mul_le_mul_of_nonneg_right (by linarith) hVpos.le
    have hexp : (-(q + 1) * 2 ^ 64 + 1) * 2 ^ 64 * (V : ℤ) =
      -(q * V + V) * 2 ^ 128 + 2 ^ 64 * V := by ring
    rw [hexp] at hP
    generalize q * (V : ℤ) = w at hP ⊢
    omega

/-! ## Products with an inverse -/

variable {a b : BitVec 128}

theorem toNat_umulByInvert (ha : a.toNat = X * 2 ^ 64) (hX : X ≤ 2 ^ 63) (hb : b.toNat ≤ 2 ^ 127 + 1) :
    (umulByInvert a b).toNat = X * b.toNat / 2 ^ 64 := by
  have hhi : (a >>> 64).toNat = X := by
    rw [BitVec.toNat_ushiftRight, Nat.shiftRight_eq_div_pow, ha, Nat.mul_div_cancel _ (by norm_num)]
  have hlo : (a &&& HP_MASK_LO.setWidth 128).toNat = 0 := by
    rw [toNat_and_mask, ha, Nat.mul_mod_left]
  have hbh : (b >>> 64).toNat = b.toNat / 2 ^ 64 := by
    rw [BitVec.toNat_ushiftRight, Nat.shiftRight_eq_div_pow]
  have hbl : (b &&& HP_MASK_LO.setWidth 128).toNat = b.toNat % 2 ^ 64 := toNat_and_mask b
  have hbh' : b.toNat / 2 ^ 64 ≤ 2 ^ 63 := by omega
  have hbl' : b.toNat % 2 ^ 64 ≤ 2 ^ 64 := (Nat.mod_lt _ (by norm_num)).le
  have hprod := Nat.mul_le_mul hX hbh'
  have hprod' := Nat.mul_le_mul hX hbl'
  have hsplit : X * b.toNat / 2 ^ 64 =
      X * (b.toNat / 2 ^ 64) + X * (b.toNat % 2 ^ 64) / 2 ^ 64 := by
    have hdm := Nat.div_add_mod b.toNat (2 ^ 64)
    have hexp : X * b.toNat = X * (b.toNat % 2 ^ 64) + 2 ^ 64 * (X * (b.toNat / 2 ^ 64)) := by
      conv_lhs => rw [← hdm]
      ring
    rw [hexp, Nat.add_mul_div_left _ _ (by norm_num), Nat.add_comm]
  have hmid : ((a >>> 64) * (b &&& HP_MASK_LO.setWidth 128) +
      (a &&& HP_MASK_LO.setWidth 128) * (b >>> 64)).toNat = X * (b.toNat % 2 ^ 64) := by
    rw [BitVec.toNat_add, toNat_mul_of_le hhi.le hbl.le
      (lt_of_le_of_lt (Nat.mul_le_mul_left _ hbl') (lt_of_le_of_lt (Nat.mul_le_mul_right _ hX)
        (by norm_num))), BitVec.toNat_mul, hlo, Nat.zero_mul, Nat.zero_mod, Nat.add_zero, hhi, hbl,
      Nat.mod_eq_of_lt (lt_of_le_of_lt hprod' (by norm_num))]
  rw [umulByInvert]
  show ((a >>> 64) * (b >>> 64) + ((a >>> 64) * (b &&& HP_MASK_LO.setWidth 128) +
    (a &&& HP_MASK_LO.setWidth 128) * (b >>> 64)) >>> 64).toNat = _
  rw [BitVec.toNat_add, toNat_mul_of_le hhi.le hbh.le (lt_of_le_of_lt hprod (by norm_num)),
    hhi, hbh, BitVec.toNat_ushiftRight, hmid, hsplit, Nat.shiftRight_eq_div_pow]
  generalize X * (b.toNat / 2 ^ 64) = P at hprod ⊢
  generalize X * (b.toNat % 2 ^ 64) = Q at hprod' ⊢
  omega

theorem toInt_ofInt64 (x : BitVec 64) : (ofInt64 x).v.toInt = x.toInt * 2 ^ 64 := by
  have h1 := BitVec.le_toInt x
  have h2 := BitVec.toInt_lt (x := x)
  have htwo : (BitVec.twoPow 128 64).toInt = 2 ^ 64 := by decide
  norm_num at h1 h2
  rw [ofInt64, BitVec.shiftLeft_eq_mul_twoPow, BitVec.toInt_mul, htwo,
    BitVec.toInt_signExtend_of_le (by norm_num)]
  exact Int.bmod_eq_of_le_mul_two (by push_cast; omega) (by push_cast; omega)

theorem natAbs_toInt_le' (x : BitVec 64) : x.toInt.natAbs ≤ 2 ^ 63 := by
  have h1 := BitVec.le_toInt x
  have h2 := BitVec.toInt_lt (x := x)
  norm_num at h1 h2 ⊢
  omega

theorem Inverse.inv_le (h : Inverse V I) (hV : 2 ≤ V) : I ≤ 2 ^ 127 + 1 := by
  refine Nat.le_of_mul_le_mul_right ?_ h.pos
  have := h.upper
  calc I * V ≤ 2 ^ 128 + V := h.upper
    _ = 2 ^ 127 * 2 + V := by norm_num
    _ ≤ 2 ^ 127 * V + V := Nat.add_le_add_right (Nat.mul_le_mul_left _ hV) _
    _ = (2 ^ 127 + 1) * V := by ring

theorem toInt_mulByInvert (x : BitVec 64) {inv : Int64x64} (hI : inv.v.toNat ≤ 2 ^ 127 + 1) :
    ((ofInt64 x).mulByInvert inv).v.toInt =
      x.toInt.sign * (x.toInt.natAbs * inv.v.toNat / 2 ^ 64 : ℕ) := by
  have hX := natAbs_toInt_le' x
  have hmag : (if (ofInt64 x).v.slt 0 then -(ofInt64 x).v else (ofInt64 x).v).toNat =
      x.toInt.natAbs * 2 ^ 64 := by
    rw [toNat_magnitude, toInt_ofInt64, Int.natAbs_mul]
    rfl
  have hmul := toNat_umulByInvert (b := inv.v) hmag hX hI
  have hbound : x.toInt.natAbs * inv.v.toNat / 2 ^ 64 < 2 ^ 127 := by
    rw [Nat.div_lt_iff_lt_mul (by norm_num)]
    exact lt_of_le_of_lt (Nat.mul_le_mul hX hI) (by norm_num)
  have hslt : (ofInt64 x).v.slt 0 = decide (x.toInt < 0) := by
    rw [BitVec.slt_eq_decide, toInt_ofInt64]
    refine decide_eq_decide.mpr ?_
    show x.toInt * 2 ^ 64 < 0 ↔ _
    omega
  have hres : umulByInvert (if (ofInt64 x).v.slt 0 then -(ofInt64 x).v else (ofInt64 x).v) inv.v =
      BitVec.ofInt 128 (x.toInt.natAbs * inv.v.toNat / 2 ^ 64 : ℕ) := by
    rw [BitVec.ofInt_natCast, ← hmul, BitVec.ofNat_toNat, BitVec.setWidth_eq]
  rw [mulByInvert]
  dsimp only
  rw [hres, hslt]
  have hnone : x.toInt = 0 → x.toInt.natAbs * inv.v.toNat / 2 ^ 64 = 0 := by
    intro h
    rw [h, Int.natAbs_zero, Nat.zero_mul, Nat.zero_div]
  generalize x.toInt.natAbs * inv.v.toNat / 2 ^ 64 = R at hbound hnone ⊢
  rcases lt_trichotomy x.toInt 0 with hneg | hzero | hpos
  · rw [decide_eq_true hneg, if_pos rfl, ← BitVec.ofInt_neg, Int.sign_eq_neg_one_of_neg hneg,
      neg_one_mul, toInt_ofInt_eq_iff]
    omega
  · rw [hnone hzero, hzero]
    decide
  · rw [decide_eq_false hpos.not_gt, if_neg (by decide), Int.sign_eq_one_of_pos hpos, one_mul,
      toInt_ofInt_eq_iff]
    omega

/-! ## The inverse -/

theorem toInt_getHigh (a : Int64x64) : a.getHigh.toInt = a.v.toInt / 2 ^ 64 := by
  have h1 := BitVec.le_toInt a.v
  have h2 := BitVec.toInt_lt (x := a.v)
  norm_num at h1 h2
  have hset : ∀ y : BitVec 128, (y.setWidth 64).toInt = y.toInt.bmod (2 ^ 64) := by
    intro y
    rw [BitVec.toInt_setWidth, BitVec.toInt_eq_toNat_bmod y, Int.bmod_bmod_of_dvd (by norm_num)]
  rw [getHigh, hset, BitVec.toInt_sshiftRight, Int.shiftRight_eq_div_pow]
  exact Int.bmod_eq_of_le_mul_two (by push_cast; omega) (by push_cast; omega)

theorem ofHighLow_zero (v : BitVec 64) : ofHighLow v 0 = ofInt64 v := by
  have hzero : (0 : BitVec 64).setWidth 128 = 0#128 := rfl
  rw [ofHighLow, hzero, BitVec.or_zero, ofInt64]

/-- The test of the inverse: its product with the divisor is not one unless it is exact. -/
theorem le_of_getHigh_eq_one (inv : Int64x64)
    (hI : inv.v.toNat ≤ 2 ^ 127 + 1) (h : ((ofInt64 v).mulByInvert inv).getHigh = 1) :
    2 ^ 128 ≤ inv.v.toNat * v.toNat := by
  have hint : ((ofInt64 v).mulByInvert inv).v.toInt / 2 ^ 64 = 1 := by
    rw [← toInt_getHigh, h]
    rfl
  have hcond := BitVec.toInt_eq_toNat_cond v
  rw [toInt_mulByInvert v hI] at hint
  split at hcond
  · have hnat : v.toInt.natAbs = v.toNat := by rw [hcond, Int.natAbs_natCast]
    rw [hnat] at hint
    have hsign : v.toInt.sign = 1 ∨ v.toInt.sign = 0 := by
      rcases Nat.eq_zero_or_pos v.toNat with hz | hp
      · exact .inr (by rw [hcond, hz]; rfl)
      · exact .inl (by rw [hcond]; exact Int.sign_eq_one_of_pos (by exact_mod_cast hp))
    have hle := Nat.div_mul_le_self (v.toNat * inv.v.toNat) (2 ^ 64)
    rw [Nat.mul_comm inv.v.toNat]
    generalize v.toNat * inv.v.toNat = P at hint hle ⊢
    rcases hsign with hs | hs
    · rw [hs, one_mul] at hint
      omega
    · rw [hs, zero_mul] at hint
      omega
  · -- the divisor `2 ^ 63` is negative as a signed number, and so is the product
    have hneg : v.toInt < 0 := by omega
    rw [Int.sign_eq_neg_one_of_neg hneg, neg_one_mul] at hint
    generalize v.toInt.natAbs * inv.v.toNat / 2 ^ 64 = R at hint
    omega

/-- **`Invert` finds an inverse.** -/
theorem invert_spec (h2 : 2 ≤ v.toNat) (h63 : v.toNat ≤ 2 ^ 63) {fuel : ℕ} (hf : DIGITS < fuel) :
    ∃ inv, invert fuel v = some inv ∧ Inverse v.toNat inv.v.toNat := by
  have hpos : 0 < v.toNat := by omega
  have hone : (1#128 <<< 64).toNat = 2 ^ 64 := by decide
  have hv : (v.setWidth 128).toNat = v.toNat := by
    rw [BitVec.toNat_setWidth, Nat.mod_eq_of_lt (lt_of_le_of_lt h63 (by norm_num))]
  have hassert : 1 < v := BitVec.lt_def.mpr h2
  obtain ⟨hudiv, -⟩ := udiv_spec (a := 1#128 <<< 64) (b := v.setWidth 128)
    (by rw [Division.Bounded, hone, hv]; omega) (hv ▸ hpos) (by rw [hv]; omega) hf
  rw [hone, hv] at hudiv
  have hq : 2 ^ 64 * 2 ^ 64 / v.toNat ≤ 2 ^ 127 := Nat.div_le_of_le_mul (by omega)
  have hupper : 2 ^ 64 * 2 ^ 64 / v.toNat * v.toNat ≤ 2 ^ 128 := Nat.div_mul_le_self _ _
  have hlower : 2 ^ 128 ≤ (2 ^ 64 * 2 ^ 64 / v.toNat + 1) * v.toNat := by
    rw [Nat.mul_comm]
    exact (Nat.lt_mul_div_succ (2 ^ 64 * 2 ^ 64) hpos).le
  generalize 2 ^ 64 * 2 ^ 64 / v.toNat = q at hudiv hq hupper hlower
  have htoNat : (BitVec.ofNat 128 q).toNat = q := by
    rw [BitVec.toNat_ofNat, Nat.mod_eq_of_lt (by omega)]
  have hsucc : (BitVec.ofNat 128 q + 1).toNat = q + 1 := by
    have hone' : (1 : BitVec 128).toNat = 1 := rfl
    rw [BitVec.toNat_add, htoNat, hone', Nat.mod_eq_of_lt (by omega)]
  have hinvert : invert fuel v = some ⟨if ((ofHighLow v 0).mulByInvert ⟨BitVec.ofNat 128 q⟩).getHigh ≠ 1
      then BitVec.ofNat 128 q + 1 else BitVec.ofNat 128 q⟩ := by
    rw [invert, if_pos hassert, hudiv]
    rfl
  refine ⟨_, hinvert, hpos, h63, ?_, ?_⟩
  · rw [ofHighLow_zero]
    dsimp only
    split
    · rw [hsucc]
      exact hlower
    · next hhigh =>
      have := le_of_getHigh_eq_one ⟨BitVec.ofNat 128 q⟩
        (htoNat.le.trans (hq.trans (Nat.le_succ _))) (not_not.mp hhigh)
      rw [htoNat] at this ⊢
      exact this
  · dsimp only
    split
    · rw [hsucc, Nat.add_mul, Nat.one_mul]
      exact Nat.add_le_add_right hupper _
    · rw [htoNat]
      exact hupper.trans (Nat.le_add_right _ _)

/-! ## Division by an inverse -/

theorem signed_div {z : ℤ} {R W : ℕ} (hquo : (R : ℤ) / W = (z.natAbs : ℤ) / V)
    (hneg : -(R : ℤ) / W = -(z.natAbs : ℤ) / V) :
    (z.sign * R).tdiv W = z.tdiv V ∧ z.sign * R / W = z / V := by
  rcases lt_trichotomy z 0 with hlt | rfl | hpos
  · obtain ⟨n, rfl⟩ := Int.exists_eq_neg_ofNat hlt.le
    rw [Int.natAbs_neg, Int.natAbs_natCast] at hquo hneg
    rw [Int.sign_eq_neg_one_of_neg hlt, neg_one_mul, Int.neg_tdiv, Int.neg_tdiv,
      Int.tdiv_eq_ediv_of_nonneg (Int.natCast_nonneg _),
      Int.tdiv_eq_ediv_of_nonneg (Int.natCast_nonneg _), hquo]
    exact ⟨rfl, hneg⟩
  · rw [Int.sign_zero, zero_mul, Int.zero_tdiv, Int.zero_tdiv, Int.zero_ediv, Int.zero_ediv]
    exact ⟨rfl, rfl⟩
  · rw [Int.natAbs_of_nonneg hpos.le] at hquo
    rw [Int.sign_eq_one_of_pos hpos, one_mul, Int.tdiv_eq_ediv_of_nonneg (Int.natCast_nonneg _),
      Int.tdiv_eq_ediv_of_nonneg hpos.le]
    exact ⟨hquo, hquo⟩

/-- **Multiplying by an inverse divides**: rounded toward zero, the integer part of the product is the
quotient, and rounded down, as `GetHigh` does, it is the quotient rounded down. -/
theorem Inverse.divides (x : BitVec 64) {inv : Int64x64} (h : Inverse V inv.v.toNat) (hV : 2 ≤ V) :
    ((ofInt64 x).mulByInvert inv).integerPart = x.toInt.tdiv V ∧
      ((ofInt64 x).mulByInvert inv).getHigh.toInt = x.toInt / V := by
  have hX := natAbs_toInt_le' x
  have hpow : ((2 ^ 64 : ℕ) : ℤ) = 2 ^ 64 := Nat.cast_pow 2 64
  have hquo : ((x.toInt.natAbs * inv.v.toNat / 2 ^ 64 : ℕ) : ℤ) / (2 ^ 64 : ℕ) =
      (x.toInt.natAbs : ℤ) / V := by
    rw [← Int.natCast_ediv, h.div_eq hX, Int.natCast_ediv]
  have hneg := h.neg_div_eq hX
  rw [← hpow] at hneg
  rw [integerPart, toInt_getHigh, toInt_mulByInvert x (h.inv_le hV), ← hpow]
  exact signed_div hquo hneg

theorem Inverse.sign_eq (x : BitVec 64) {inv : Int64x64} (h : Inverse V inv.v.toNat) (hV : 2 ≤ V) :
    ((ofInt64 x).mulByInvert inv).v.toInt.sign = x.toInt.sign := by
  rw [toInt_mulByInvert x (h.inv_le hV)]
  rcases eq_or_ne x.toInt 0 with hzero | hne
  · rw [hzero, Int.sign_zero, zero_mul, Int.sign_zero]
  · have hX : 0 < x.toInt.natAbs := Int.natAbs_pos.mpr hne
    have hI : 2 ^ 64 ≤ inv.v.toNat := by
      refine Nat.le_of_mul_le_mul_right ?_ h.pos
      calc 2 ^ 64 * V ≤ 2 ^ 64 * 2 ^ 63 := Nat.mul_le_mul_left _ h.le
        _ ≤ 2 ^ 128 := by norm_num
        _ ≤ inv.v.toNat * V := h.lower
    have hR : 0 < x.toInt.natAbs * inv.v.toNat / 2 ^ 64 :=
      Nat.div_pos (hI.trans (Nat.le_mul_of_pos_left _ hX)) (by norm_num)
    have hRsign : ((x.toInt.natAbs * inv.v.toNat / 2 ^ 64 : ℕ) : ℤ).sign = 1 :=
      Int.sign_eq_one_of_pos (Int.natCast_pos.mpr hR)
    rw [Int.sign_mul, Int.sign_sign, hRsign, mul_one]

end Int64x64

namespace Time

variable {V : ℕ} {inv : Int64x64} {factor : BitVec 64}

/-- **A conversion to a larger unit agrees with integer division.** -/
theorem integerPart_toUnit (m_data : BitVec 64) (h : Int64x64.Inverse V inv.v.toNat) (hV : 2 ≤ V)
    (hfactor : factor.toInt = V) :
    ∃ r, toUnit ⟨false, true, factor, inv, .ofInt64 factor⟩ m_data = .ok r ∧
      r.integerPart =
        (toInteger ⟨false, true, factor, inv, .ofInt64 factor⟩ m_data).toInt := by
  refine ⟨(Int64x64.ofInt64 m_data).mulByInvert inv, rfl, ?_⟩
  have hne : factor ≠ -1#64 := by
    intro hminus
    rw [hminus] at hfactor
    have : (-1#64).toInt = -1 := by decide
    omega
  rw [(h.divides m_data hV).1, toInteger, if_neg Bool.false_ne_true,
    BitVec.toInt_sdiv_of_ne_or_ne _ _ (.inr hne), hfactor]

/-- **A conversion from a smaller unit rounds down**, which is integer division where that is exact, or
the value is not negative. -/
theorem fromUnit_ofInt64 (x : BitVec 64) (h : Int64x64.Inverse V inv.v.toNat) (hV : 2 ≤ V)
    (hfactor : factor.toNat = V) :
    ∃ t, fromUnit ⟨true, false, factor, .ofInt64 factor, inv⟩ (.ofInt64 x) = .ok t ∧
      t.toInt = x.toInt / V ∧ (t.toInt = x.toInt.tdiv V ↔ 0 ≤ x.toInt ∨ (V : ℤ) ∣ x.toInt) ∧
      (0 ≤ x.toInt → t = fromInteger ⟨true, false, factor, .ofInt64 factor, inv⟩ x) := by
  have hdiv := (h.divides x hV).2
  refine ⟨_, rfl, hdiv, ?_, fun hx ↦ BitVec.eq_of_toInt_eq ?_⟩
  · rw [hdiv, Int.tdiv_eq_ediv]
    split_ifs with hexact
    · exact iff_of_true (add_zero _).symm hexact
    · rw [Int.sign_natCast_of_ne_zero (by omega)]
      exact iff_of_false (by omega) hexact
  · have hcond := BitVec.toInt_eq_toNat_cond x
    have hx' : x.toInt = x.toNat := by omega
    have hle : x.toNat / V ≤ x.toNat := Nat.div_le_self _ _
    have hudiv : (x / factor).toNat = x.toNat / V := by rw [BitVec.toNat_udiv, hfactor]
    rw [hdiv, fromInteger, if_neg Bool.false_ne_true, hx',
      BitVec.toInt_eq_toNat_of_lt (by rw [hudiv]; omega), hudiv, Int.natCast_ediv]

end Time

namespace Int64x64

/-- **Multiplication by the inverse of an integer is exact integer division**, and so is the
conversion of a time to a unit of so many times the resolution; a conversion from a unit that is so many
times smaller rounds down. -/
theorem mulByInvert_invert_exact (v : BitVec 64) (h2 : 2 ≤ v.toNat) (h63 : v.toNat ≤ 2 ^ 63)
    {fuel : ℕ} (hf : DIGITS < fuel) :
    ∃ inv, invert fuel v = some inv ∧
      (∀ x : BitVec 64, ((ofInt64 x).mulByInvert inv).integerPart = x.toInt.tdiv v.toNat ∧
        ((ofInt64 x).mulByInvert inv).v.toInt.sign = x.toInt.sign) ∧
      (∀ info, Time.setInformation fuel v .gt = some info → v.toNat < 2 ^ 63 → ∀ x : BitVec 64,
        ∃ r, Time.toUnit info x = .ok r ∧ r.integerPart = (Time.toInteger info x).toInt) ∧
      ∀ info, Time.setInformation fuel v .lt = some info → ∀ x : BitVec 64,
        ∃ t, Time.fromUnit info (ofInt64 x) = .ok t ∧ t.toInt = x.toInt / v.toNat ∧
          (t.toInt = x.toInt.tdiv v.toNat ↔ 0 ≤ x.toInt ∨ (v.toNat : ℤ) ∣ x.toInt) ∧
          (0 ≤ x.toInt → t = Time.fromInteger info x) := by
  obtain ⟨inv, hinvert, h⟩ := invert_spec h2 h63 hf
  refine ⟨inv, hinvert, fun x ↦ ⟨(h.divides x h2).1, h.sign_eq x h2⟩, ?_, ?_⟩
  · intro info hinfo hlt x
    rw [Time.setInformation, hinvert, Option.map_some, Option.some_inj] at hinfo
    subst hinfo
    have hint : v.toInt = v.toNat := by
      rw [BitVec.toInt_eq_toNat_of_lt]
      omega
    exact Time.integerPart_toUnit x h h2 hint
  · intro info hinfo x
    rw [Time.setInformation, hinvert, Option.map_some, Option.some_inj] at hinfo
    subst hinfo
    exact Time.fromUnit_ofInt64 x h h2 rfl

theorem mulByInvert_invert_exact_seven : ∃ inv, invert 65 7 = some inv ∧ ∀ x : BitVec 64,
    ((ofInt64 x).mulByInvert inv).integerPart = x.toInt.tdiv 7 := by
  obtain ⟨inv, hinvert, h, -⟩ := mulByInvert_invert_exact 7 (by decide) (by decide)
    (show DIGITS < 65 by decide)
  exact ⟨inv, hinvert, fun x ↦ (h x).1⟩

end Int64x64

namespace Time

/-- **Minus one picosecond** is minus one nanosecond, and integer division gives zero. -/
theorem fromUnit_ne_sdiv : ∃ info, setInformation 65 1000 .lt = some info ∧
    fromUnit info (.ofInt64 (-1)) = .ok (-1) ∧ (-1 : BitVec 64).sdiv info.factor = 0 := by
  obtain ⟨inv, hinvert, h⟩ := Int64x64.invert_spec (v := 1000) (by decide) (by decide)
    (show Int64x64.DIGITS < 65 by decide)
  have hsdiv : (-1 : BitVec 64).sdiv 1000 = 0 := by decide
  obtain ⟨t, ht, hdiv, -⟩ := fromUnit_ofInt64 (-1) h (by decide) rfl
  have hfloor : (-1 : BitVec 64).toInt / ((1000 : BitVec 64).toNat : ℤ) = (-1 : BitVec 64).toInt := by
    decide
  have hminus : t = -1 := BitVec.eq_of_toInt_eq (hdiv.trans hfloor)
  rw [hminus] at ht
  refine ⟨_, ?_, ht, hsdiv⟩
  rw [setInformation, hinvert, Option.map_some]

end Time

end Ns3
