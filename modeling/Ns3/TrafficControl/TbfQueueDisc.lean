import Ns3.Library.Machine
import Ns3.Library.TokenBucket

/-!
# The token bucket filter

A packet leaves when both buckets hold a token for each of its bytes: the first bucket is filled at the
rate, the second one, if there is a peak rate, at the peak rate. Both are refilled from one checkpoint, the
time of the last packet that left. A packet that has to wait stays with the child queue disc, and a wake-up
is scheduled unless one is pending.

What the child shows is charged, and what it then returns leaves. A child that chooses or drops when it is
asked for a packet may return a larger one, or none.

Products of times and rates are exact here, where the code has doubles.
-/

namespace Ns3

namespace TrafficControl

open TokenBucket

/-- The attributes of the disc. Rates are in bits per second, buckets in bytes. -/
structure TbfConfig where
  m_rate : ℕ
  m_peakRate : ℕ
  m_burst : ℕ
  m_mtu : ℕ
  burst_lt : m_burst < 2 ^ 32
  mtu_lt : m_mtu < 2 ^ 32
  /-- The units of the simulator's time in a second. -/
  unitsPerSecond : ℚ
  unitsPerSecond_pos : 0 < unitsPerSecond
  /-- The time that `Seconds` makes of a quotient by zero, which is not a number. -/
  indefinite : ℤ

/-- The state of the disc. -/
structure TbfQueueDisc where
  m_btokens : ℕ
  m_ptokens : ℕ
  m_timeCheckPoint : ℕ
  /-- The time of the wake-up, when one is pending. -/
  m_id : Option ℕ
deriving DecidableEq

namespace TbfQueueDisc

variable (p : TbfConfig)

def initializeParams : TbfQueueDisc where
  m_btokens := p.m_burst
  m_ptokens := p.m_mtu
  m_timeCheckPoint := 0
  m_id := none

/-- The conversion to an unsigned number of 32 bits. -/
def toUint32 (x : ℤ) : ℕ := (x % 2 ^ 32).toNat

/-- `DataRate::CalculateBytesTxTime` at `bps` bits per second, in units of time. -/
def calculateBytesTxTime (bps bytes : ℕ) : ℤ :=
  if bps = 0 then p.indefinite else ⌊(bytes * 8 / bps * p.unitsPerSecond : ℚ)⌋

/-- The tokens of a bucket after `delta` seconds, before they are converted to `int64_t`. -/
def refilled (tokens bps : ℕ) (delta : ℚ) : ℤ := tokens + round (delta * (bps / 8 : ℕ))

/-- What a packet leaves of them. -/
def balance (tokens cap bps : ℕ) (delta : ℚ) (pktSize : ℕ) : ℤ :=
  let toks := refilled tokens bps delta
  (if toks > cap then (cap : ℤ) else toks) - pktSize

/-- The time since the checkpoint in seconds. -/
def delta (s : TbfQueueDisc) (now : ℕ) : ℚ := ((now : ℚ) - s.m_timeCheckPoint) / p.unitsPerSecond

def btoks (s : TbfQueueDisc) (now pktSize : ℕ) : ℤ :=
  balance s.m_btokens p.m_burst p.m_rate (s.delta p now) pktSize

def ptoks (s : TbfQueueDisc) (now pktSize : ℕ) : ℤ :=
  if 0 < p.m_peakRate then balance s.m_ptokens p.m_mtu p.m_peakRate (s.delta p now) pktSize else 0

/-- The refilled buckets fit `int64_t`; else the conversion is undefined. -/
def InRange (s : TbfQueueDisc) (now : ℕ) : Prop :=
  refilled s.m_btokens p.m_rate (s.delta p now) < 2 ^ 63 ∧
    (0 < p.m_peakRate → refilled s.m_ptokens p.m_peakRate (s.delta p now) < 2 ^ 63)

instance (s : TbfQueueDisc) (now : ℕ) : Decidable (s.InRange p now) := inferInstanceAs (Decidable (_ ∧ _))

def requiredDelayTime (s : TbfQueueDisc) (now pktSize : ℕ) : ℤ :=
  max (calculateBytesTxTime p p.m_rate (toUint32 (-s.btoks p now pktSize)))
    (calculateBytesTxTime p p.m_peakRate (toUint32 (-s.ptoks p now pktSize)))

/-- `DoDequeue`, with the size of the packet that `Peek` of the child shows, and of the one that its
`Dequeue` returns. -/
def doDequeue (s : TbfQueueDisc) (now : ℕ) (itemPeek item : Option ℕ) : TbfQueueDisc × Option ℕ :=
  match itemPeek with
  | none => (s, none)
  | some pktSize =>
    if 0 ≤ Int.lor (s.btoks p now pktSize) (s.ptoks p now pktSize) then
      match item with
      | none => (s, none)
      | some item => ({ s with
          m_timeCheckPoint := now
          m_btokens := toUint32 (s.btoks p now pktSize)
          m_ptokens := toUint32 (s.ptoks p now pktSize) }, some item)
    else if s.m_id = none then
      ({ s with m_id := some (now + (s.requiredDelayTime p now pktSize).toNat) }, none)
    else (s, none)

end TbfQueueDisc

/-! ## Runs -/

/-- What happens: the disc is asked for a packet, and its child shows and would return some, time passes, or
the wake-up is due. -/
inductive TbfOp
  | doDequeue (itemPeek item : Option ℕ)
  | advance (d : ℕ)
  | wake

/-- The disc at a time, with the times and sizes of the packets it has returned, and the size of the packet
that the child has shown last, if it has not left. -/
structure TbfState where
  now : ℕ
  disc : TbfQueueDisc
  returned : List (ℕ × ℕ)
  shown : Option ℕ

namespace TbfState

/-- The disc is asked for a packet. -/
def doDequeue (p : TbfConfig) (s : TbfState) (itemPeek item : Option ℕ) : TbfState :=
  let (disc, out) := s.disc.doDequeue p s.now itemPeek item
  { s with
    disc := disc
    returned := s.returned ++ (out.map fun size ↦ (s.now, size)).toList
    shown := if out.isSome then none else itemPeek }

/-- The time does not pass an event. -/
def advance (s : TbfState) (d : ℕ) : Option TbfState :=
  if ∀ due ∈ s.disc.m_id, s.now + d ≤ due then some { s with now := s.now + d } else none

/-- The wake-up runs the disc, which then is asked for packets. -/
def wake (s : TbfState) : Option TbfState :=
  if s.disc.m_id = some s.now then some { s with disc := { s.disc with m_id := none } } else none

end TbfState

/-- The token bucket filter from its initialization on. -/
def tbfMachine (p : TbfConfig) : Machine TbfState TbfOp where
  init := ⟨0, TbfQueueDisc.initializeParams p, [], none⟩
  next s
    | .doDequeue itemPeek item => some (s.doDequeue p itemPeek item)
    | .advance d => s.advance d
    | .wake => s.wake

/-! ## The balances -/

namespace TbfQueueDisc

variable {p : TbfConfig} {s : TbfQueueDisc} {now size : ℕ}

/-- The bytes that a rate brings in a unit of time. -/
def byteRate (p : TbfConfig) (bps : ℕ) : ℚ := (bps / 8 : ℕ) / p.unitsPerSecond

theorem byteRate_nonneg (p : TbfConfig) (bps : ℕ) : 0 ≤ byteRate p bps :=
  div_nonneg (Nat.cast_nonneg _) p.unitsPerSecond_pos.le

theorem byteRate_le (p : TbfConfig) (bps : ℕ) : byteRate p bps ≤ bps / 8 / p.unitsPerSecond := by
  have hdiv : ((bps / 8 : ℕ) : ℚ) ≤ bps / 8 := Nat.cast_div_le
  exact div_le_div_of_nonneg_right hdiv p.unitsPerSecond_pos.le

/-- A balance is a bucket refilled since the checkpoint, less the packet. -/
theorem balance_eq (hle : s.m_timeCheckPoint ≤ now) (tokens cap bps : ℕ) :
    balance tokens cap bps (s.delta p now) size =
      refill cap tokens (byteRate p bps) (now - s.m_timeCheckPoint) - size := by
  have hdelta : s.delta p now * (bps / 8 : ℕ) =
      ((now - s.m_timeCheckPoint : ℕ) : ℚ) * byteRate p bps := by
    rw [delta, byteRate, Nat.cast_sub hle]
    ring
  rw [balance, refilled, hdelta, refill, min_def]
  by_cases hcap : (cap : ℤ) ≤ tokens + round (((now - s.m_timeCheckPoint : ℕ) : ℚ) * byteRate p bps)
  · rw [if_pos hcap]
    rcases hcap.lt_or_eq with hlt | heq
    · rw [if_pos hlt]
    · rw [← heq, if_neg (lt_irrefl _)]
  · rw [if_neg hcap, if_neg fun h ↦ hcap h.le]

theorem balance_le (tokens cap bps : ℕ) (delta : ℚ) (size : ℕ) :
    balance tokens cap bps delta size ≤ cap - size := by
  rw [balance]
  split_ifs <;> omega

theorem lor_nonneg {a b : ℤ} : 0 ≤ Int.lor a b ↔ 0 ≤ a ∧ 0 ≤ b := by
  rcases a with a | a <;> rcases b with b | b <;> simp [Int.lor]

theorem toUint32_of_nonneg {x : ℤ} (h : 0 ≤ x) (hlt : x < 2 ^ 32) : (toUint32 x : ℤ) = x := by
  rw [toUint32, Int.emod_eq_of_lt h hlt, Int.toNat_of_nonneg h]

theorem btoks_lt : s.btoks p now size < 2 ^ 32 := by
  have hle := balance_le s.m_btokens p.m_burst p.m_rate (s.delta p now) size
  have hburst : (p.m_burst : ℤ) < 2 ^ 32 := by exact_mod_cast p.burst_lt
  rw [btoks]
  omega

theorem ptoks_le : s.ptoks p now size ≤ p.m_mtu := by
  have hle := balance_le s.m_ptokens p.m_mtu p.m_peakRate (s.delta p now) size
  rw [ptoks]
  split_ifs <;> omega

theorem ptoks_lt : s.ptoks p now size < 2 ^ 32 := by
  have hmtu : (p.m_mtu : ℤ) < 2 ^ 32 := by exact_mod_cast p.mtu_lt
  exact ptoks_le.trans_lt hmtu

/-! ## What the disc does -/

/-- Both buckets hold enough for a packet of this size. -/
def Enough (p : TbfConfig) (s : TbfQueueDisc) (now size : ℕ) : Prop :=
  0 ≤ s.btoks p now size ∧ 0 ≤ s.ptoks p now size

instance : Decidable (Enough p s now size) := inferInstanceAs (Decidable (_ ∧ _))

/-- What one call does: nothing, or a packet leaves, or it has to wait and a wake-up is scheduled. -/
theorem doDequeue_cases (p : TbfConfig) (s : TbfQueueDisc) (now : ℕ) (itemPeek item : Option ℕ) :
    ((∀ size ∈ itemPeek, if Enough p s now size then item = none else s.m_id ≠ none) ∧
        s.doDequeue p now itemPeek item = (s, none)) ∨
      ∃ pktSize, itemPeek = some pktSize ∧
        ((∃ size, item = some size ∧ Enough p s now pktSize ∧ s.doDequeue p now itemPeek item =
            ({ s with
                m_timeCheckPoint := now
                m_btokens := toUint32 (s.btoks p now pktSize)
                m_ptokens := toUint32 (s.ptoks p now pktSize) }, some size)) ∨
          ¬ Enough p s now pktSize ∧ s.m_id = none ∧ s.doDequeue p now itemPeek item =
            ({ s with m_id := some (now + (s.requiredDelayTime p now pktSize).toNat) }, none)) := by
  rcases itemPeek with _ | pktSize
  · exact Or.inl ⟨fun size h ↦ absurd h (Option.not_mem_none size), rfl⟩
  unfold doDequeue
  dsimp only
  by_cases henough : Enough p s now pktSize
  · rw [if_pos (lor_nonneg.mpr henough)]
    rcases item with _ | size
    · refine Or.inl ⟨fun size h ↦ ?_, rfl⟩
      rw [← Option.some.inj h, if_pos henough]
    · exact Or.inr ⟨pktSize, rfl, Or.inl ⟨size, rfl, henough, rfl⟩⟩
  rw [if_neg (mt lor_nonneg.mp henough)]
  by_cases hid : s.m_id = none
  · rw [if_pos hid]
    exact Or.inr ⟨pktSize, rfl, Or.inr ⟨henough, hid, rfl⟩⟩
  · rw [if_neg hid]
    refine Or.inl ⟨fun size h ↦ ?_, rfl⟩
    rwa [← Option.some.inj h, if_neg henough]

theorem doDequeue_eq_some {itemPeek item : Option ℕ} (h : (s.doDequeue p now itemPeek item).2 = some size) :
    item = some size ∧ ∃ pktSize, itemPeek = some pktSize ∧ Enough p s now pktSize ∧
      (s.doDequeue p now itemPeek item).1 = { s with
        m_timeCheckPoint := now
        m_btokens := toUint32 (s.btoks p now pktSize)
        m_ptokens := toUint32 (s.ptoks p now pktSize) } := by
  rcases doDequeue_cases p s now itemPeek item with
    ⟨-, hout⟩ | ⟨pktSize, hpeek, ⟨size', hitem, henough, hout⟩ | ⟨-, -, hout⟩⟩
  · rw [hout] at h
    cases h
  · rw [hout] at h ⊢
    exact ⟨hitem.trans h, pktSize, hpeek, henough, rfl⟩
  · rw [hout] at h
    cases h

theorem doDequeue_eq_none {itemPeek item : Option ℕ} (h : (s.doDequeue p now itemPeek item).2 = none) :
    (s.doDequeue p now itemPeek item).1.m_btokens = s.m_btokens ∧
      (s.doDequeue p now itemPeek item).1.m_ptokens = s.m_ptokens ∧
      (s.doDequeue p now itemPeek item).1.m_timeCheckPoint = s.m_timeCheckPoint := by
  rcases doDequeue_cases p s now itemPeek item with
    ⟨-, hout⟩ | ⟨pktSize, -, ⟨size, -, -, hout⟩ | ⟨-, -, hout⟩⟩
  · rw [hout]
    exact ⟨rfl, rfl, rfl⟩
  · rw [hout] at h
    cases h
  · rw [hout]
    exact ⟨rfl, rfl, rfl⟩

end TbfQueueDisc

/-! ## The envelope -/

open TbfQueueDisc

variable {p : TbfConfig} {s : TbfState}

/-- The child returns nothing larger than what it has shown, and the balances are in range. -/
def Charged (p : TbfConfig) (s : TbfState) : TbfOp → Prop
  | .doDequeue itemPeek item =>
    s.disc.InRange p s.now ∧ ∀ pktSize ∈ itemPeek, ∀ size ∈ item, size ≤ pktSize
  | _ => True

instance (p : TbfConfig) (s : TbfState) (op : TbfOp) : Decidable (Charged p s op) :=
  match op with
  | .doDequeue itemPeek item =>
    inferInstanceAs (Decidable (_ ∧ ∀ pktSize ∈ itemPeek, ∀ size ∈ item, size ≤ pktSize))
  | .advance _ => isTrue trivial
  | .wake => isTrue trivial

/-- Each bucket has served what has been returned. -/
structure Metered (p : TbfConfig) (s : TbfState) : Prop where
  checkPoint_le : s.disc.m_timeCheckPoint ≤ s.now
  first : Served p.m_burst (byteRate p p.m_rate) s.returned s.disc.m_timeCheckPoint s.disc.m_btokens
  second : 0 < p.m_peakRate →
    Served p.m_mtu (byteRate p p.m_peakRate) s.returned s.disc.m_timeCheckPoint s.disc.m_ptokens
  ptokens_le : s.disc.m_ptokens ≤ p.m_mtu

theorem Metered.init (p : TbfConfig) : Metered p (tbfMachine p).init where
  checkPoint_le := le_rfl
  first := .full
  second _ := .full
  ptokens_le := le_rfl

theorem Metered.doDequeue (h : Metered p s) {itemPeek item : Option ℕ}
    (hcharged : Charged p s (.doDequeue itemPeek item)) : Metered p (s.doDequeue p itemPeek item) := by
  rcases hout : (s.disc.doDequeue p s.now itemPeek item).2 with _ | size
  · obtain ⟨hbtokens, hptokens, hcheckPoint⟩ := doDequeue_eq_none hout
    have hreturned : (s.doDequeue p itemPeek item).returned = s.returned := by
      simp [TbfState.doDequeue, hout]
    refine ⟨?_, ?_, ?_, ?_⟩
    · exact hcheckPoint.le.trans h.checkPoint_le
    · rw [hreturned]
      exact hbtokens.symm ▸ hcheckPoint.symm ▸ h.first
    · intro hpeak
      rw [hreturned]
      exact hptokens.symm ▸ hcheckPoint.symm ▸ h.second hpeak
    · exact hptokens.le.trans h.ptokens_le
  · obtain ⟨rfl, pktSize, rfl, ⟨hbtoks, hptoks⟩, hdisc⟩ := doDequeue_eq_some hout
    have hreturned : (s.doDequeue p (some pktSize) (some size)).returned =
        s.returned ++ [(s.now, size)] := by
      simp [TbfState.doDequeue, hout]
    have hdisc' : (s.doDequeue p (some pktSize) (some size)).disc = _ := hdisc
    have hsize : (size : ℤ) ≤ pktSize := by exact_mod_cast hcharged.2 pktSize rfl size rfl
    have hb := toUint32_of_nonneg hbtoks btoks_lt
    have hp := toUint32_of_nonneg hptoks ptoks_lt
    refine ⟨?_, ?_, ?_, ?_⟩
    · rw [hdisc']
      exact le_rfl
    · rw [hdisc', hreturned]
      refine h.first.serve h.checkPoint_le ?_
      rw [hb, btoks, balance_eq h.checkPoint_le]
      omega
    · intro hpeak
      rw [hdisc', hreturned]
      refine (h.second hpeak).serve h.checkPoint_le ?_
      rw [hp, ptoks, if_pos hpeak, balance_eq h.checkPoint_le]
      omega
    · rw [hdisc']
      exact_mod_cast hp.le.trans ptoks_le

theorem Metered.advance {d : ℕ} {s' : TbfState} (h : Metered p s) (hs : s.advance d = some s') :
    Metered p s' := by
  rw [TbfState.advance, Option.ite_none_right_eq_some, Option.some_inj] at hs
  obtain ⟨-, rfl⟩ := hs
  exact ⟨h.checkPoint_le.trans (Nat.le_add_right _ _), h.first, h.second, h.ptokens_le⟩

theorem Metered.wake {s' : TbfState} (h : Metered p s) (hs : s.wake = some s') : Metered p s' := by
  rw [TbfState.wake, Option.ite_none_right_eq_some, Option.some_inj] at hs
  obtain ⟨-, rfl⟩ := hs
  exact ⟨h.checkPoint_le, h.first, h.second, h.ptokens_le⟩

theorem metered {ops : List TbfOp} (hr : (tbfMachine p).Run (Charged p) ops s) : Metered p s := by
  refine hr.invariant (I := Metered p) (Metered.init p) ?_
  rintro s (⟨itemPeek, item⟩ | d | _) s' h hok hs
  · exact Option.some.inj hs ▸ h.doDequeue hok
  · exact h.advance hs
  · exact h.wake hs

theorem total_between_le {cap bps level c : ℕ} {log : List (ℕ × ℕ)}
    (h : Served cap (byteRate p bps) log c level) (a D : ℕ) :
    (total (between log a (a + D)) : ℚ) ≤
      cap + D / p.unitsPerSecond * bps / 8 + (between log a (a + D)).length / 2 := by
  have hbound := h.total_between_le (byteRate_nonneg p bps) a D
  have hrate : (D : ℚ) * byteRate p bps ≤ D * (bps / 8 / p.unitsPerSecond) :=
    mul_le_mul_of_nonneg_left (byteRate_le p bps) (Nat.cast_nonneg D)
  have heq : (D : ℚ) * (bps / 8 / p.unitsPerSecond) = D / p.unitsPerSecond * bps / 8 := by ring
  linarith

/-- **The token bucket filter keeps its envelope** in every run in which the child returns nothing larger
than what it has shown. In every interval of `D` units of time the bytes of the packets returned are at most
the burst, what the rate brings in, and half a byte for each packet; with a peak rate the same holds of the
second bucket. The buckets never hold more than they can, and the balances written back when a packet is
returned are not negative, so nothing wraps. -/
theorem tbf_envelope (p : TbfConfig) {ops : List TbfOp} {s : TbfState}
    (hr : (tbfMachine p).Run (Charged p) ops s) :
    (∀ a D : ℕ,
      (total (between s.returned a (a + D)) : ℚ) ≤
        p.m_burst + D / p.unitsPerSecond * p.m_rate / 8 + (between s.returned a (a + D)).length / 2 ∧
      (0 < p.m_peakRate → (total (between s.returned a (a + D)) : ℚ) ≤
        p.m_mtu + D / p.unitsPerSecond * p.m_peakRate / 8 +
          (between s.returned a (a + D)).length / 2)) ∧
    s.disc.m_btokens ≤ p.m_burst ∧ s.disc.m_ptokens ≤ p.m_mtu ∧
    ∀ pktSize item size, Charged p s (.doDequeue (some pktSize) item) →
      (s.disc.doDequeue p s.now (some pktSize) item).2 = some size →
      ((s.disc.doDequeue p s.now (some pktSize) item).1.m_btokens : ℤ) = s.disc.btoks p s.now pktSize ∧
      ((s.disc.doDequeue p s.now (some pktSize) item).1.m_ptokens : ℤ) = s.disc.ptoks p s.now pktSize := by
  have h := metered hr
  refine ⟨fun a D ↦ ⟨total_between_le h.first a D, fun hpeak ↦ total_between_le (h.second hpeak) a D⟩,
    h.first.level_le, h.ptokens_le, ?_⟩
  rintro pktSize item size - hout
  obtain ⟨-, pktSize, heq, ⟨hbtoks, hptoks⟩, hdisc⟩ := doDequeue_eq_some hout
  rw [hdisc, Option.some.inj heq]
  exact ⟨toUint32_of_nonneg hbtoks btoks_lt, toUint32_of_nonneg hptoks ptoks_lt⟩

/-- A filter at 8000 bits per second with a burst of 3000 bytes, and a peak rate of 16000 with 1000. -/
def slowTbf : TbfConfig where
  m_rate := 8000
  m_peakRate := 16000
  m_burst := 3000
  m_mtu := 1000
  burst_lt := by decide
  mtu_lt := by decide
  unitsPerSecond := 1000
  unitsPerSecond_pos := by norm_num
  indefinite := 0

/-- Two packets of 900 bytes leave, the second one after 450 ms. -/
theorem tbf_envelope_two : ∃ s, (tbfMachine slowTbf).Run (Charged slowTbf)
      [.doDequeue (some 900) (some 900), .advance 450, .doDequeue (some 900) (some 900)] s ∧
    s.returned = [(0, 900), (450, 900)] ∧
    (total (between s.returned 0 (0 + 450)) : ℚ) ≤
      3000 + 450 / 1000 * 8000 / 8 + (between s.returned 0 (0 + 450)).length / 2 := by
  refine Machine.exists_run_and_allowed (p := fun s : TbfState ↦ s.returned = [(0, 900), (450, 900)])
    (by decide +kernel) (by decide +kernel) fun s hr hs ↦ ?_
  have hbound := ((tbf_envelope slowTbf hr).1 0 450).1
  refine ⟨hs, ?_⟩
  simpa [slowTbf] using hbound

/-- The child shows a packet of 100 bytes, drops it when it is asked for it, and returns one of 1500. -/
theorem not_tbf_envelope : ¬ ∀ p ops s, (tbfMachine p).Run Machine.unguarded ops s → 0 < p.m_peakRate →
    ∀ a D : ℕ, (total (between s.returned a (a + D)) : ℚ) ≤
      p.m_mtu + D / p.unitsPerSecond * p.m_peakRate / 8 + (between s.returned a (a + D)).length / 2 := by
  intro hall
  obtain ⟨s, hr, hs⟩ : ∃ s, (tbfMachine slowTbf).Run Machine.unguarded
      [.doDequeue (some 100) (some 1500)] s ∧ between s.returned 0 (0 + 0) = [(0, 1500)] :=
    Machine.exists_run_and (p := fun s : TbfState ↦ between s.returned 0 (0 + 0) = [(0, 1500)])
      (by decide +kernel) fun _ _ hs ↦ hs
  have hbound := hall slowTbf _ s hr (by decide) 0 0
  rw [hs] at hbound
  norm_num [total, slowTbf] at hbound

end TrafficControl

end Ns3
