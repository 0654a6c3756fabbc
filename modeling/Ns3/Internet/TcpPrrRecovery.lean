import Ns3.Library.Span

/-!
# Proportional rate reduction

During recovery, `TcpPrrRecovery` sets the congestion window from the bytes that have been delivered
and sent since recovery began. The rates are rational numbers and differences may be negative, but the
counters are unsigned 32-bit numbers and the result is an `int`.

## Where the numbers wrap

* While the pipe is above the threshold, `m_prrDelivered * m_ssThresh` is computed in 32 bits, and the
  quotient is converted to an `int`.
* With the slow start reduction bound, `m_prrDelivered - m_prrOut` is the argument of an unsigned
  `max`: when more has been sent than delivered, it is the greater one.
* With the conservative reduction bound, the same difference is converted to an `int` at once, and is
  right.

A step is right just if the numbers stay in range, or if what is lost is below the bound that is taken
anyway (`doRecovery_iff`), and an episode is right just if its steps are (`followsPrr_iff`).
-/

namespace Ns3

/-- `static_cast<int>` of an integer. -/
def castInt (x : ℤ) : ℤ := x.bmod (2 ^ 32)

theorem castInt_eq {x : ℤ} (hlow : -2 ^ 31 ≤ x) (hhigh : x < 2 ^ 31) : castInt x = x := by
  rw [castInt, Int.bmod_eq_of_le (by omega) (by omega)]

theorem castInt_wrap {x : ℤ} (hlow : 2 ^ 31 ≤ x) (hhigh : x < 2 ^ 32 + 2 ^ 31) :
    castInt x = x - 2 ^ 32 := by
  have hsub := Int.sub_bmod_right x (2 ^ 32)
  rw [castInt, ← hsub]
  exact Int.bmod_eq_of_le (by omega) (by omega)

/-- The conversion of an integral `double` to an `int`, which is undefined out of its range. -/
def intOfDouble (x : ℤ) : Option ℤ := if -2 ^ 31 ≤ x ∧ x < 2 ^ 31 then some x else none

/-- `ReductionBound_t`. -/
inductive ReductionBound
  | crb
  | ssrb
  deriving DecidableEq, Repr

/-- The members of `TcpSocketState` that recovery reads and writes. -/
structure TcpSocketState where
  m_bytesInFlight : ℕ
  m_ssThresh : ℕ
  m_segmentSize : ℕ
  m_cWnd : ℕ
  m_cWndInfl : ℕ
  deriving DecidableEq, Repr

/-- The members of a `TcpPrrRecovery`. -/
structure TcpPrrRecovery where
  m_prrDelivered : ℕ
  m_prrOut : ℕ
  m_recoveryFlightSize : ℕ
  m_reductionBoundMode : ReductionBound
  deriving DecidableEq, Repr

namespace TcpPrrRecovery

/-- `std::ceil` of a product divided by `m_recoveryFlightSize`. In double precision, the quotient of
two 32-bit numbers has the ceiling of the exact one. -/
def ceilQuotient (product m_recoveryFlightSize : ℕ) : Option ℤ :=
  if m_recoveryFlightSize = 0 then none else some ⌈(product / m_recoveryFlightSize : ℚ)⌉

/-- `sendCount` of `DoRecovery` above the threshold; `none` if it is undefined. -/
def proportional (r : TcpPrrRecovery) (tcb : TcpSocketState) : Option ℤ := do
  let quotient ← ceilQuotient (r.m_prrDelivered * tcb.m_ssThresh % 2 ^ 32) r.m_recoveryFlightSize
  intOfDouble (quotient - r.m_prrOut)

/-- `limit` of `DoRecovery`. -/
def limit (r : TcpPrrRecovery) (tcb : TcpSocketState) (deliveredBytes : ℕ) : ℤ :=
  match r.m_reductionBoundMode with
  | .crb => castInt (sub32 r.m_prrDelivered r.m_prrOut)
  | .ssrb =>
    castInt (add32 (max (sub32 r.m_prrDelivered r.m_prrOut) deliveredBytes) tcb.m_segmentSize)

/-- `sendCount` of `DoRecovery`, before it is forced to a fast retransmit. -/
def sendCount (r : TcpPrrRecovery) (tcb : TcpSocketState) (deliveredBytes : ℕ) : Option ℤ :=
  if tcb.m_ssThresh < tcb.m_bytesInFlight then r.proportional tcb
  else some (min (r.limit tcb deliveredBytes) (castInt (sub32 tcb.m_ssThresh tcb.m_bytesInFlight)))

/-- `DoRecovery`; `none` if the window is undefined. -/
def doRecovery (r : TcpPrrRecovery) (tcb : TcpSocketState) (deliveredBytes : ℕ) :
    TcpPrrRecovery × Option TcpSocketState :=
  let r := { r with m_prrDelivered := add32 r.m_prrDelivered deliveredBytes }
  (r, do
    let sendCount ← r.sendCount tcb deliveredBytes
    let sendCount := max sendCount (castInt (if 0 < r.m_prrOut then 0 else tcb.m_segmentSize))
    let m_cWnd := ((tcb.m_bytesInFlight + sendCount) % 2 ^ 32).toNat
    return { tcb with
      m_cWnd := m_cWnd
      m_cWndInfl := m_cWnd })

def enterRecovery (r : TcpPrrRecovery) (tcb : TcpSocketState) (unAckDataCount deliveredBytes : ℕ) :
    TcpPrrRecovery × Option TcpSocketState :=
  { r with
    m_prrOut := 0
    m_prrDelivered := 0
    m_recoveryFlightSize := unAckDataCount }.doRecovery tcb deliveredBytes

def updateBytesSent (r : TcpPrrRecovery) (bytesSent : ℕ) : TcpPrrRecovery :=
  { r with m_prrOut := add32 r.m_prrOut bytesSent }

/-! ## What is promised -/

/-- The calls in an episode of recovery. -/
inductive Op
  | doRecovery (tcb : TcpSocketState) (deliveredBytes : ℕ)
  | updateBytesSent (bytesSent : ℕ)
  deriving DecidableEq, Repr

/-- What is sent at least: a segment before anything has been sent. -/
def forced (tcb : TcpSocketState) (prr_out : ℕ) : ℕ := if 0 < prr_out then 0 else tcb.m_segmentSize

/-- The limit of the reduction bound, over unbounded integers. -/
def reductionLimit (prr_delivered prr_out deliveredData mss : ℤ) : ReductionBound → ℤ
  | .crb => prr_delivered - prr_out
  | .ssrb => max (prr_delivered - prr_out) deliveredData + mss

/-- `sndcnt`, over unbounded integers. -/
def sndcnt (mode : ReductionBound) (prr_delivered prr_out recoverFS : ℕ) (tcb : TcpSocketState)
    (deliveredData : ℕ) : ℤ :=
  max
    (if tcb.m_ssThresh < tcb.m_bytesInFlight then
      ⌈(prr_delivered * tcb.m_ssThresh / recoverFS : ℚ)⌉ - prr_out
    else
      min ((tcb.m_ssThresh : ℤ) - tcb.m_bytesInFlight)
        (reductionLimit prr_delivered prr_out deliveredData tcb.m_segmentSize mode))
    (forced tcb prr_out)

/-- `DoRecovery` has set the window to the pipe and `sndcnt`. -/
def SetsWindow (mode : ReductionBound) (prr_delivered prr_out recoverFS : ℕ) (tcb : TcpSocketState)
    (deliveredData : ℕ) (result : Option TcpSocketState) : Prop :=
  ∃ tcb', result = some tcb' ∧ tcb'.m_cWndInfl = tcb'.m_cWnd ∧
    (tcb'.m_cWnd : ℤ) =
      tcb.m_bytesInFlight + sndcnt mode prr_delivered prr_out recoverFS tcb deliveredData

/-- The window is set right at each call of `DoRecovery` in the rest of an episode. -/
def Follows (mode : ReductionBound) (recoverFS : ℕ) :
    TcpPrrRecovery → ℕ → ℕ → List Op → Prop
  | _, _, _, [] => True
  | r, prr_delivered, prr_out, .updateBytesSent n :: rest =>
    Follows mode recoverFS (r.updateBytesSent n) prr_delivered (prr_out + n) rest
  | r, prr_delivered, prr_out, .doRecovery tcb n :: rest =>
    SetsWindow mode (prr_delivered + n) prr_out recoverFS tcb n (r.doRecovery tcb n).2 ∧
      Follows mode recoverFS (r.doRecovery tcb n).1 (prr_delivered + n) prr_out rest

/-- The quantities and their totals are below `2 ^ 31`. -/
def Small : ℕ → ℕ → List Op → Prop
  | _, _, [] => True
  | prr_delivered, prr_out, .updateBytesSent n :: rest =>
    prr_out + n < 2 ^ 31 ∧ Small prr_delivered (prr_out + n) rest
  | prr_delivered, prr_out, .doRecovery tcb n :: rest =>
    (prr_delivered + n < 2 ^ 31 ∧ tcb.m_bytesInFlight < 2 ^ 31 ∧ tcb.m_ssThresh < 2 ^ 31 ∧
      tcb.m_segmentSize < 2 ^ 31) ∧ Small (prr_delivered + n) prr_out rest

/-- Up to the threshold, the numbers of a call of `DoRecovery` stay in range, or what is lost does not
count. -/
def LimitFits (prr_delivered prr_out : ℕ) (tcb : TcpSocketState) (deliveredData : ℕ) :
    ReductionBound → Prop
  | .crb => True
  | .ssrb =>
    if prr_out ≤ prr_delivered then
      max (prr_delivered - prr_out) deliveredData + tcb.m_segmentSize < 2 ^ 31 ∨
        tcb.m_ssThresh ≤ tcb.m_bytesInFlight + forced tcb prr_out
    else
      tcb.m_ssThresh ≤ tcb.m_bytesInFlight + (prr_delivered + tcb.m_segmentSize - prr_out) ∨
        deliveredData + tcb.m_segmentSize = 0

/-- The numbers of a call of `DoRecovery` stay in range, or what is lost does not count. -/
def Fits (mode : ReductionBound) (prr_delivered prr_out recoverFS : ℕ) (tcb : TcpSocketState)
    (deliveredData : ℕ) : Prop :=
  if tcb.m_ssThresh < tcb.m_bytesInFlight then
    0 < recoverFS ∧ (prr_delivered * tcb.m_ssThresh < 2 ^ 32 ∧
        prr_delivered * tcb.m_ssThresh ≤ (2 ^ 31 - 1 + prr_out) * recoverFS ∨
      prr_delivered * tcb.m_ssThresh ≤ (prr_out + forced tcb prr_out) * recoverFS)
  else LimitFits prr_delivered prr_out tcb deliveredData mode

/-- Every call of `DoRecovery` in the rest of an episode fits. -/
def AllFit (mode : ReductionBound) (recoverFS : ℕ) : ℕ → ℕ → List Op → Prop
  | _, _, [] => True
  | prr_delivered, prr_out, .updateBytesSent n :: rest =>
    AllFit mode recoverFS prr_delivered (prr_out + n) rest
  | prr_delivered, prr_out, .doRecovery tcb n :: rest =>
    Fits mode (prr_delivered + n) prr_out recoverFS tcb n ∧
      AllFit mode recoverFS (prr_delivered + n) prr_out rest

/-! ## One call -/

section Call

variable {mode : ReductionBound} {d o R n x k : ℕ} {tcb : TcpSocketState}

theorem castInt_lt (x : ℤ) : castInt x < 2 ^ 31 := by
  have := Int.bmod_lt (x := x) (m := 2 ^ 32) (by decide)
  rw [castInt]
  omega

theorem castInt_sub32 {a b : ℕ} (ha : a < 2 ^ 31) (hb : b < 2 ^ 31) :
    castInt (sub32 a b) = (a : ℤ) - b := by
  rw [sub32, Nat.mod_eq_of_lt (by omega : b < 2 ^ 32)]
  rcases le_or_gt b a with hle | hlt
  · rw [show a + (2 ^ 32 - b) = a - b + 2 ^ 32 by omega, Nat.add_mod_right,
      Nat.mod_eq_of_lt (by omega), castInt_eq (by omega) (by omega)]
    omega
  · rw [Nat.mod_eq_of_lt (by omega), castInt_wrap (by omega) (by omega)]
    omega

theorem ceil_le_iff (hR : 0 < R) : ⌈(x / R : ℚ)⌉ ≤ (k : ℤ) ↔ x ≤ k * R := by
  have hpos : (0 : ℚ) < R := by exact_mod_cast hR
  rw [Int.ceil_le, div_le_iff₀ hpos]
  exact_mod_cast Iff.rfl

theorem ceil_nonneg (x R : ℕ) : 0 ≤ ⌈(x / R : ℚ)⌉ := Int.ceil_nonneg (by positivity)

theorem ceil_mod_lt (hR : 0 < R) (hlt : R < 2 ^ 32) (hx : 2 ^ 32 ≤ x) :
    ⌈((x % 2 ^ 32 : ℕ) / R : ℚ)⌉ < ⌈(x / R : ℚ)⌉ := by
  have hpos : (0 : ℚ) < R := by exact_mod_cast hR
  have hle : (((x % 2 ^ 32 : ℕ) : ℚ) + R) / R ≤ x / R := by
    apply div_le_div_of_nonneg_right _ hpos.le
    have : x % 2 ^ 32 + R ≤ x := by omega
    exact_mod_cast this
  rw [add_div, div_self hpos.ne'] at hle
  rw [← Int.add_one_le_iff, ← Int.ceil_add_one]
  exact Int.ceil_mono hle

/-- **Above the threshold.** -/
theorem proportional_iff (hR : R < 2 ^ 31) (ho : o < 2 ^ 31) {m : ℕ} (hm : m < 2 ^ 31) :
    (∃ c, (⟨d, o, R, mode⟩ : TcpPrrRecovery).proportional tcb = some c ∧
      max c (m : ℤ) = max (⌈(d * tcb.m_ssThresh / R : ℚ)⌉ - o) m) ↔
    0 < R ∧ (d * tcb.m_ssThresh < 2 ^ 32 ∧ d * tcb.m_ssThresh ≤ (2 ^ 31 - 1 + o) * R ∨
      d * tcb.m_ssThresh ≤ (o + m) * R) := by
  rw [← Nat.cast_mul]
  simp only [proportional]
  generalize d * tcb.m_ssThresh = x
  rcases Nat.eq_zero_or_pos R with rfl | hpos
  · refine iff_of_false ?_ fun h ↦ absurd h.1 (lt_irrefl 0)
    rintro ⟨c, hc, -⟩
    exact absurd hc (Option.some_ne_none c).symm
  rw [ceilQuotient, if_neg hpos.ne', Option.bind_eq_bind, Option.bind_some, intOfDouble,
    and_iff_right hpos]
  have hfits : ⌈(x / R : ℚ)⌉ ≤ 2 ^ 31 - 1 + (o : ℤ) ↔ x ≤ (2 ^ 31 - 1 + o) * R :=
    ceil_le_iff (k := 2 ^ 31 - 1 + o) hpos
  have hforced : ⌈(x / R : ℚ)⌉ ≤ (o : ℤ) + m ↔ x ≤ (o + m) * R := ceil_le_iff (k := o + m) hpos
  have hnonneg := ceil_nonneg (x % 2 ^ 32) R
  by_cases hx : x < 2 ^ 32
  · rw [Nat.mod_eq_of_lt hx] at hnonneg ⊢
    rw [and_iff_right hx]
    have hmono : x ≤ (o + m) * R → x ≤ (2 ^ 31 - 1 + o) * R := fun hle ↦
      hle.trans (Nat.mul_le_mul_right R (by omega))
    rw [or_iff_left_of_imp hmono, ← hfits]
    constructor
    · rintro ⟨c, hc, -⟩
      rw [Option.ite_none_right_eq_some] at hc
      omega
    · intro hle
      exact ⟨_, if_pos ⟨by omega, by omega⟩, rfl⟩
  · have hlt := ceil_mod_lt hpos (by omega) (not_lt.mp hx)
    rw [or_iff_right fun h ↦ hx h.1, ← hforced]
    generalize ⌈((x % 2 ^ 32 : ℕ) / R : ℚ)⌉ = wrapped at hnonneg hlt ⊢
    constructor
    · rintro ⟨c, hc, hmax⟩
      rw [Option.ite_none_right_eq_some, Option.some_inj] at hc
      omega
    · intro hle
      exact ⟨_, if_pos ⟨by omega, by omega⟩, by omega⟩

/-- **Up to the threshold.** -/
theorem limit_iff (hd : d < 2 ^ 31) (ho : o < 2 ^ 31) (hn : n ≤ d) (hthresh : tcb.m_ssThresh < 2 ^ 31)
    (hsegment : tcb.m_segmentSize < 2 ^ 31) (hle : tcb.m_bytesInFlight ≤ tcb.m_ssThresh) :
    max (min ((⟨d, o, R, mode⟩ : TcpPrrRecovery).limit tcb n)
        (castInt (sub32 tcb.m_ssThresh tcb.m_bytesInFlight))) (forced tcb o : ℤ) =
      sndcnt mode d o R tcb n ↔ Fits mode d o R tcb n := by
  rw [sndcnt, Fits, if_neg (not_lt.mpr hle), if_neg (not_lt.mpr hle), limit,
    castInt_sub32 hthresh (hle.trans_lt hthresh)]
  cases mode with
  | crb =>
    dsimp only
    rw [castInt_sub32 hd ho, min_comm]
    exact iff_of_true rfl trivial
  | ssrb =>
    rw [LimitFits, reductionLimit]
    dsimp only
    by_cases hout : o ≤ d
    · rw [if_pos hout, sub32_eq hout (by omega), add32, Nat.mod_eq_of_lt (by omega)]
      by_cases hfits : max (d - o) n + tcb.m_segmentSize < 2 ^ 31
      · rw [castInt_eq (by omega) (by omega)]
        refine iff_of_true ?_ (.inl hfits)
        omega
      · have hwrap : castInt (max (d - o) n + tcb.m_segmentSize : ℕ) =
            (max (d - o) n + tcb.m_segmentSize : ℕ) - 2 ^ 32 :=
          castInt_wrap (by omega) (by omega)
        rw [hwrap, or_iff_right hfits]
        omega
    · have hzero : forced tcb o = 0 := if_pos (by omega)
      have hsub : sub32 d o = 2 ^ 32 + d - o := by
        rw [sub32, Nat.mod_eq_of_lt (by omega : o < 2 ^ 32), Nat.mod_eq_of_lt (by omega)]
        omega
      have hcast : castInt (add32 (max (sub32 d o) n) tcb.m_segmentSize : ℕ) =
          (d : ℤ) + tcb.m_segmentSize - o := by
        rw [hsub, max_eq_left (by omega), add32]
        by_cases hwrap : 2 ^ 32 + d - o + tcb.m_segmentSize < 2 ^ 32
        · rw [Nat.mod_eq_of_lt hwrap, castInt_wrap (by omega) (by omega)]
          omega
        · rw [Nat.mod_eq_sub_mod (by omega), Nat.mod_eq_of_lt (by omega),
            castInt_eq (by omega) (by omega)]
          omega
      rw [if_neg hout, hcast, hzero]
      omega

theorem sendCount_lt {r : TcpPrrRecovery} {c : ℤ} (h : r.sendCount tcb n = some c) : c < 2 ^ 31 := by
  rw [sendCount] at h
  split_ifs at h with habove
  · rw [proportional, Option.bind_eq_bind, Option.bind_eq_some_iff] at h
    obtain ⟨quotient, -, h⟩ := h
    rw [intOfDouble, Option.ite_none_right_eq_some, Option.some_inj] at h
    omega
  · obtain rfl := Option.some.inj h
    exact (min_le_right _ _).trans_lt (castInt_lt _)

/-- **A call sets the window right just if its numbers fit.** -/
theorem doRecovery_iff (hd : d + n < 2 ^ 31) (ho : o < 2 ^ 31) (hR : R < 2 ^ 31)
    (hflight : tcb.m_bytesInFlight < 2 ^ 31) (hthresh : tcb.m_ssThresh < 2 ^ 31)
    (hsegment : tcb.m_segmentSize < 2 ^ 31) :
    SetsWindow mode (d + n) o R tcb n ((⟨d, o, R, mode⟩ : TcpPrrRecovery).doRecovery tcb n).2 ↔
      Fits mode (d + n) o R tcb n := by
  have hforced : forced tcb o < 2 ^ 31 := by
    rw [forced]
    split_ifs <;> omega
  have hcast : castInt (if 0 < o then 0 else (tcb.m_segmentSize : ℤ)) = forced tcb o := by
    rw [forced]
    split_ifs
    · rfl
    · exact castInt_eq (by omega) (by omega)
  have hwindow : SetsWindow mode (d + n) o R tcb n
        ((⟨d, o, R, mode⟩ : TcpPrrRecovery).doRecovery tcb n).2 ↔
      ∃ c, (⟨d + n, o, R, mode⟩ : TcpPrrRecovery).sendCount tcb n = some c ∧
        max c (forced tcb o : ℤ) = sndcnt mode (d + n) o R tcb n := by
    have hmap : ((⟨d, o, R, mode⟩ : TcpPrrRecovery).doRecovery tcb n).2 =
        ((⟨d + n, o, R, mode⟩ : TcpPrrRecovery).sendCount tcb n).map fun c ↦ { tcb with
          m_cWnd := ((tcb.m_bytesInFlight + max c (forced tcb o : ℤ)) % 2 ^ 32).toNat
          m_cWndInfl := ((tcb.m_bytesInFlight + max c (forced tcb o : ℤ)) % 2 ^ 32).toNat } := by
      rw [doRecovery, add32_eq (by omega : d + n < 2 ^ 32)]
      dsimp only
      rw [hcast, Option.bind_eq_bind, Option.map_eq_bind]
      rfl
    rw [SetsWindow, hmap]
    constructor
    · rintro ⟨tcb', hresult, -, hset⟩
      obtain ⟨c, hc, rfl⟩ := Option.map_eq_some_iff.mp hresult
      have hlt := sendCount_lt hc
      dsimp only at hset
      exact ⟨c, hc, by omega⟩
    · rintro ⟨c, hc, hset⟩
      have hlt := sendCount_lt hc
      refine ⟨_, by rw [hc]; rfl, rfl, ?_⟩
      dsimp only
      rw [← hset]
      omega
  rw [hwindow, sendCount]
  by_cases habove : tcb.m_ssThresh < tcb.m_bytesInFlight
  · rw [if_pos habove, sndcnt, if_pos habove, Fits, if_pos habove]
    exact proportional_iff hR ho hforced
  · rw [if_neg habove, ← limit_iff hd ho (Nat.le_add_left n d) hthresh hsegment (not_lt.mp habove)]
    simp only [Option.some_inj, exists_eq_left']

end Call

/-! ## Episodes -/

/-- An episode: `EnterRecovery` and then any calls. Each call that sets the window sets it right. -/
def FollowsPrr (r : TcpPrrRecovery) (tcb : TcpSocketState) (unAckDataCount deliveredBytes : ℕ)
    (ops : List Op) : Prop :=
  SetsWindow r.m_reductionBoundMode deliveredBytes 0 unAckDataCount tcb deliveredBytes
      (r.enterRecovery tcb unAckDataCount deliveredBytes).2 ∧
    Follows r.m_reductionBoundMode unAckDataCount
      (r.enterRecovery tcb unAckDataCount deliveredBytes).1 deliveredBytes 0 ops

/-- **The calls of an episode**, from any totals on. -/
theorem follows_iff {mode : ReductionBound} {R d o : ℕ} (hR : R < 2 ^ 31) (ho : o < 2 ^ 31)
    (hd : d < 2 ^ 31) {ops : List Op} (hops : Small d o ops) :
    Follows mode R ⟨d, o, R, mode⟩ d o ops ↔ AllFit mode R d o ops := by
  induction ops generalizing d o with
  | nil => exact Iff.rfl
  | cons op ops ih =>
    cases op with
    | updateBytesSent n =>
      obtain ⟨hsum, hrest⟩ := hops
      have hupdate : (⟨d, o, R, mode⟩ : TcpPrrRecovery).updateBytesSent n = ⟨d, o + n, R, mode⟩ := by
        rw [updateBytesSent, add32_eq (by omega : o + n < 2 ^ 32)]
      rw [Follows, AllFit, hupdate]
      exact ih hsum hd hrest
    | doRecovery tcb n =>
      obtain ⟨⟨hsum, hflight, hthresh, hsegment⟩, hrest⟩ := hops
      have hstep : ((⟨d, o, R, mode⟩ : TcpPrrRecovery).doRecovery tcb n).1 = ⟨d + n, o, R, mode⟩ := by
        rw [doRecovery, add32_eq (by omega : d + n < 2 ^ 32)]
      rw [Follows, AllFit, hstep, doRecovery_iff hsum ho hR hflight hthresh hsegment,
        ih ho hsum hrest]

/-- **An episode follows the rule** just if the numbers of each of its calls fit. -/
theorem followsPrr_iff (r : TcpPrrRecovery) {tcb : TcpSocketState} {unAckDataCount deliveredBytes : ℕ}
    {ops : List Op} (hR : unAckDataCount < 2 ^ 31)
    (hops : Small 0 0 (.doRecovery tcb deliveredBytes :: ops)) :
    FollowsPrr r tcb unAckDataCount deliveredBytes ops ↔
      AllFit r.m_reductionBoundMode unAckDataCount 0 0 (.doRecovery tcb deliveredBytes :: ops) := by
  have hiff : Follows r.m_reductionBoundMode unAckDataCount
      ⟨0, 0, unAckDataCount, r.m_reductionBoundMode⟩ 0 0 (.doRecovery tcb deliveredBytes :: ops) ↔ _ :=
    follows_iff hR (by decide) (by decide) hops
  rw [Follows, Nat.zero_add] at hiff
  exact hiff

/-- An episode with the slow start reduction bound: above the threshold and then below it. -/
theorem followsPrr_iff_ssrb : FollowsPrr ⟨5, 6, 7, .ssrb⟩ ⟨20000, 10000, 1000, 0, 0⟩ 20000 3000
    [.updateBytesSent 2000, .doRecovery ⟨8000, 10000, 1000, 0, 0⟩ 1000] :=
  (followsPrr_iff _ (by decide) (by simp [Small])).mpr (by simp [AllFit, Fits, LimitFits, forced])

/-- **More has been sent than delivered**: with the slow start reduction bound the window is the pipe,
without the bytes that have been delivered and the segment. -/
theorem not_followsPrr_sent : ¬ FollowsPrr ⟨0, 0, 0, .ssrb⟩ ⟨9000, 10000, 1000, 0, 0⟩ 20000 1000
    [.updateBytesSent 3000, .doRecovery ⟨8000, 10000, 1000, 0, 0⟩ 1000] := by
  rintro ⟨-, ⟨tcb', hresult, -, hset⟩, -⟩
  obtain rfl := Option.some.inj hresult
  exact absurd hset (by decide +kernel)

end TcpPrrRecovery

end Ns3
