import Ns3.TrafficControl.TbfQueueDisc

/-!
# The wake-up of the token bucket filter

When a packet has to wait, the disc computes for each bucket how long it takes to bring in what is missing,
and wakes up after the longer of the two times. What is missing is the negated balance, passed as an
unsigned number of 32 bits: a bucket that holds more than the packet needs is missing nearly `2 ^ 32` bytes.

In the runs where no bucket holds more than is needed when a wake-up is scheduled, and the child shows a
packet until it is taken, the wake-up is in time. It stays so for the packets that come after the one it was
scheduled for: a pending wake-up is early enough for the packet that has been shown, or it is due now up to
the time of a byte.
-/

namespace Ns3

namespace TrafficControl

open TokenBucket TbfQueueDisc

variable {p : TbfConfig} {s : TbfState}

/-- The time of a byte at a rate. -/
def byteTime (p : TbfConfig) (bps : ℕ) : ℚ := 8 / bps * p.unitsPerSecond

theorem byteTime_nonneg (p : TbfConfig) (bps : ℕ) : 0 ≤ byteTime p bps :=
  mul_nonneg (by positivity) p.unitsPerSecond_pos.le

theorem byteTime_anti (p : TbfConfig) {bps bps' : ℕ} (hpos : 0 < bps) (hle : bps ≤ bps') :
    byteTime p bps' ≤ byteTime p bps := by
  have hpos' : (0 : ℚ) < bps := by exact_mod_cast hpos
  have hle' : (bps : ℚ) ≤ bps' := by exact_mod_cast hle
  exact mul_le_mul_of_nonneg_right (div_le_div_of_nonneg_left (by norm_num) hpos' hle')
    p.unitsPerSecond_pos.le

/-- When the disc returns no packet although the child has one, a wake-up is pending, at most a unit of time
and the time of a byte after the buckets first hold enough for the packet. -/
def WakesInTime (p : TbfConfig) (s : TbfState) (child : Option ℕ) : Prop :=
  let out := s.disc.doDequeue p s.now child child
  ∀ size, out.2 = none → child = some size → ∃ due, out.1.m_id = some due ∧ s.now ≤ due ∧
    ∀ t ≥ s.now, Enough p out.1 t size → (due : ℚ) ≤ t + 1 + byteTime p p.m_rate

/-- No bucket is too small for the packet that the child shows. -/
def Fits (p : TbfConfig) (_ : TbfState) : TbfOp → Prop
  | .doDequeue itemPeek _ => ∀ size ∈ itemPeek, size ≤ p.m_burst ∧ (0 < p.m_peakRate → size ≤ p.m_mtu)
  | _ => True

/-- When the packet that the child shows has to wait and no wake-up is pending, neither bucket holds more
than the packet needs. -/
def NoSurplus (p : TbfConfig) (s : TbfState) : TbfOp → Prop
  | .doDequeue itemPeek _ => ∀ size ∈ itemPeek, s.disc.m_id = none →
      ¬ Enough p s.disc s.now size → s.disc.btoks p s.now size ≤ 0 ∧ s.disc.ptoks p s.now size ≤ 0
  | _ => True

/-- The child shows a packet until it is taken, and returns it; and the balances are in range. -/
def Steady (p : TbfConfig) (s : TbfState) : TbfOp → Prop
  | .doDequeue itemPeek item =>
    s.disc.InRange p s.now ∧ (∀ size ∈ s.shown, itemPeek = some size) ∧ item = itemPeek
  | _ => True

theorem Steady.charged {op : TbfOp} (h : Steady p s op) : Charged p s op := by
  cases op with
  | doDequeue itemPeek item =>
    obtain ⟨hrange, -, rfl⟩ := h
    refine ⟨hrange, fun pktSize hpeek size hitem ↦ ?_⟩
    exact (Option.some.inj (hitem.symm.trans hpeek)).le
  | advance d => trivial
  | wake => trivial

instance (p : TbfConfig) (s : TbfState) (op : TbfOp) : Decidable (Fits p s op) :=
  match op with
  | .doDequeue itemPeek _ => inferInstanceAs (Decidable (∀ size ∈ itemPeek, _ ∧ _))
  | .advance _ => isTrue trivial
  | .wake => isTrue trivial

instance (p : TbfConfig) (s : TbfState) (op : TbfOp) : Decidable (NoSurplus p s op) :=
  match op with
  | .doDequeue itemPeek _ => inferInstanceAs (Decidable (∀ size ∈ itemPeek, _ → _))
  | .advance _ => isTrue trivial
  | .wake => isTrue trivial

instance (p : TbfConfig) (s : TbfState) (op : TbfOp) : Decidable (Steady p s op) :=
  match op with
  | .doDequeue _ _ => inferInstanceAs (Decidable (_ ∧ _))
  | .advance _ => isTrue trivial
  | .wake => isTrue trivial

/-! ## The delay for one bucket -/

theorem missing_le {disc : TbfQueueDisc} {tokens cap bps now t size : ℕ} (hsize : size ≤ cap)
    (hle : now ≤ t) (hnow : balance tokens cap bps (disc.delta p now) size < 0)
    (ht : 0 ≤ balance tokens cap bps (disc.delta p t) size) :
    -(balance tokens cap bps (disc.delta p now) size : ℚ) - 1 ≤ (t - now) * (bps / 8 / p.unitsPerSecond) := by
  rw [balance] at hnow ht ⊢
  -- The bucket is not full now, or it would hold enough.
  have hcap : ¬ refilled tokens bps (disc.delta p now) > cap := by
    intro hgt
    rw [if_pos hgt] at hnow
    omega
  rw [if_neg hcap] at hnow ⊢
  have hthen : (size : ℤ) ≤ refilled tokens bps (disc.delta p t) := by
    split_ifs at ht <;> omega
  rw [refilled] at hthen ⊢
  have hthen' : (size : ℚ) ≤ tokens + (round (disc.delta p t * (bps / 8 : ℕ)) : ℤ) := by
    exact_mod_cast hthen
  have hup : (round (disc.delta p t * (bps / 8 : ℕ)) : ℚ) ≤ disc.delta p t * (bps / 8 : ℕ) + 1 / 2 :=
    round_le_add_half _
  have hdown : disc.delta p now * (bps / 8 : ℕ) - 1 / 2 ≤ (round (disc.delta p now * (bps / 8 : ℕ)) : ℚ) := by
    have := abs_le.mp (abs_sub_round (disc.delta p now * (bps / 8 : ℕ)))
    linarith [this.2]
  have hdelta : disc.delta p t * (bps / 8 : ℕ) - disc.delta p now * (bps / 8 : ℕ) =
      (t - now) * byteRate p bps := by
    rw [delta, delta, byteRate]
    ring
  have hrate : ((t : ℚ) - now) * byteRate p bps ≤ (t - now) * (bps / 8 / p.unitsPerSecond) := by
    have hle' : (now : ℚ) ≤ t := by exact_mod_cast hle
    exact mul_le_mul_of_nonneg_left (byteRate_le p bps) (by linarith)
  push_cast
  linarith

theorem delay_le {disc : TbfQueueDisc} {tokens cap bps now t size : ℕ} (hbps : 0 < bps) (hsize : size ≤ cap)
    (hcap : cap < 2 ^ 32) (hle : now ≤ t) (hnow : balance tokens cap bps (disc.delta p now) size ≤ 0)
    (hlow : -(size : ℤ) ≤ balance tokens cap bps (disc.delta p now) size)
    (ht : 0 ≤ balance tokens cap bps (disc.delta p t) size) :
    (calculateBytesTxTime p bps (toUint32 (-balance tokens cap bps (disc.delta p now) size)) : ℚ) ≤
      t - now + byteTime p bps := by
  have hpos : (0 : ℚ) < bps := by exact_mod_cast hbps
  have hunits := p.unitsPerSecond_pos
  have hle' : (now : ℚ) ≤ t := by exact_mod_cast hle
  set x := balance tokens cap bps (disc.delta p now) size with hx
  have hbytes : (toUint32 (-x) : ℤ) = -x := toUint32_of_nonneg (by omega) (by omega)
  have hbytes' : (toUint32 (-x) : ℚ) = -x := by exact_mod_cast congrArg (Int.cast (R := ℚ)) hbytes
  rw [calculateBytesTxTime, if_neg (by omega)]
  refine (Int.floor_le _).trans ?_
  rw [hbytes']
  rcases hnow.lt_or_eq with hlt | heq
  · have hmissing := missing_le (p := p) hsize hle hlt ht
    rw [← hx] at hmissing
    have hscale := mul_le_mul_of_nonneg_right hmissing (byteTime_nonneg p bps)
    have hcancel : ((t : ℚ) - now) * (bps / 8 / p.unitsPerSecond) * byteTime p bps = t - now := by
      rw [byteTime]
      field_simp
    rw [hcancel] at hscale
    have hexpand : -(x : ℚ) * 8 / bps * p.unitsPerSecond = (-x - 1) * byteTime p bps + byteTime p bps := by
      rw [byteTime]
      ring
    linarith
  · rw [heq, Int.cast_zero, neg_zero, zero_mul, zero_div, zero_mul]
    linarith [byteTime_nonneg p bps]

theorem neg_size_le_balance {disc : TbfQueueDisc} {now : ℕ} (hle : disc.m_timeCheckPoint ≤ now)
    (tokens cap bps size : ℕ) : -(size : ℤ) ≤ balance tokens cap bps (disc.delta p now) size := by
  have hnonneg := refill_nonneg cap tokens (byteRate_nonneg p bps) (now - disc.m_timeCheckPoint)
  rw [balance_eq hle]
  omega

/-! ## The pending wake-up -/

/-- The pending wake-up is not past, and early enough for the packet that has been shown, or due now up to
the time of a byte. -/
def DueInTime (p : TbfConfig) (s : TbfState) : Prop :=
  ∀ due, s.disc.m_id = some due → s.now ≤ due ∧
    ((due : ℚ) ≤ s.now + byteTime p p.m_rate ∨ ∃ size, s.shown = some size ∧
      ∀ t ≥ s.now, Enough p s.disc t size → (due : ℚ) ≤ t + byteTime p p.m_rate)

/-- What the code requires of the rates: the peak rate, if there is one, is above the rate. Without one the
time made of a quotient by zero must not count. -/
structure Rates (p : TbfConfig) : Prop where
  rate_pos : 0 < p.m_rate
  peakRate : p.m_peakRate = 0 ∨ p.m_rate < p.m_peakRate
  indefinite : p.m_peakRate = 0 → p.indefinite ≤ 0

theorem requiredDelayTime_le (hrates : Rates p) {disc : TbfQueueDisc} {now t size : ℕ}
    (hcheck : disc.m_timeCheckPoint ≤ now) (hle : now ≤ t) (hburst : size ≤ p.m_burst)
    (hmtu : 0 < p.m_peakRate → size ≤ p.m_mtu) (hbtoks : disc.btoks p now size ≤ 0)
    (hptoks : disc.ptoks p now size ≤ 0) (henough : Enough p disc t size) :
    (disc.requiredDelayTime p now size : ℚ) ≤ t - now + byteTime p p.m_rate := by
  have hle' : (now : ℚ) ≤ t := by exact_mod_cast hle
  rw [requiredDelayTime, Int.cast_max]
  refine max_le ?_ ?_
  · exact delay_le hrates.rate_pos hburst p.burst_lt hle hbtoks (neg_size_le_balance hcheck _ _ _ _)
      henough.1
  rcases hrates.peakRate with hzero | hpeak
  · -- No peak rate: no time is needed for the second bucket.
    have hindefinite : (p.indefinite : ℚ) ≤ 0 := by exact_mod_cast hrates.indefinite hzero
    rw [calculateBytesTxTime, if_pos hzero]
    linarith [byteTime_nonneg p p.m_rate]
  · have hpos : 0 < p.m_peakRate := (Nat.zero_le _).trans_lt hpeak
    rw [ptoks, if_pos hpos] at hptoks
    have hthen := henough.2
    rw [ptoks, if_pos hpos] at hthen
    rw [ptoks, if_pos hpos]
    have hdelay := delay_le hpos (hmtu hpos) p.mtu_lt hle hptoks
      (neg_size_le_balance hcheck _ _ _ _) hthen
    linarith [byteTime_anti p hrates.rate_pos hpeak.le]

theorem requiredDelayTime_nonneg (hrate : 0 < p.m_rate) (disc : TbfQueueDisc) (now size : ℕ) :
    0 ≤ disc.requiredDelayTime p now size := by
  refine le_max_of_le_left ?_
  rw [calculateBytesTxTime, if_neg (by omega)]
  exact Int.floor_nonneg.mpr (mul_nonneg (by positivity) p.unitsPerSecond_pos.le)

theorem DueInTime.doDequeue (hrates : Rates p) (hcheck : s.disc.m_timeCheckPoint ≤ s.now)
    (h : DueInTime p s) {itemPeek item : Option ℕ} (hfits : Fits p s (.doDequeue itemPeek item))
    (hsurplus : NoSurplus p s (.doDequeue itemPeek item)) (hsteady : Steady p s (.doDequeue itemPeek item)) :
    DueInTime p (s.doDequeue p itemPeek item) := by
  obtain ⟨-, hshown, rfl⟩ := hsteady
  intro due hdue
  rw [TbfState.doDequeue] at hdue ⊢
  rcases doDequeue_cases p s.disc s.now item item with
    ⟨-, hout⟩ | ⟨pktSize, rfl, ⟨size, hitem, henough, hout⟩ | ⟨hblocked, hid, hout⟩⟩
  · -- Nothing has changed.
    rw [hout] at hdue ⊢
    obtain ⟨hnow, hdue' | ⟨size, hsize, hall⟩⟩ := h due hdue
    · exact ⟨hnow, Or.inl hdue'⟩
    · exact ⟨hnow, Or.inr ⟨size, hshown size hsize, hall⟩⟩
  · -- The packet leaves, and the wake-up is due by now.
    rw [hout] at hdue ⊢
    obtain ⟨hnow, hdue' | ⟨size', hsize', hall⟩⟩ := h due hdue
    · exact ⟨hnow, Or.inl hdue'⟩
    · obtain rfl : pktSize = size' := Option.some.inj (hshown size' hsize')
      exact ⟨hnow, Or.inl (hall s.now le_rfl henough)⟩
  · -- A wake-up is scheduled.
    rw [hout] at hdue ⊢
    obtain ⟨hburst, hmtu⟩ := hfits pktSize rfl
    obtain ⟨hbtoks, hptoks⟩ := hsurplus pktSize rfl hid hblocked
    obtain rfl : s.now + (s.disc.requiredDelayTime p s.now pktSize).toNat = due := Option.some.inj hdue
    refine ⟨Nat.le_add_right _ _, Or.inr ⟨pktSize, rfl, ?_⟩⟩
    intro t ht hthen
    have hdelay := requiredDelayTime_le hrates hcheck ht hburst hmtu hbtoks hptoks hthen
    have hcast : ((s.disc.requiredDelayTime p s.now pktSize).toNat : ℚ) =
        s.disc.requiredDelayTime p s.now pktSize := by
      exact_mod_cast Int.toNat_of_nonneg (requiredDelayTime_nonneg hrates.rate_pos _ _ _)
    rw [Nat.cast_add, hcast]
    linarith

theorem DueInTime.advance (h : DueInTime p s) {d : ℕ} {s' : TbfState} (hs : s.advance d = some s') :
    DueInTime p s' := by
  rw [TbfState.advance, Option.ite_none_right_eq_some, Option.some_inj] at hs
  obtain ⟨hdue, rfl⟩ := hs
  intro due hid
  refine ⟨hdue due hid, ?_⟩
  obtain ⟨-, hnow | ⟨size, hsize, hall⟩⟩ := h due hid
  · left
    push_cast
    linarith [(Nat.cast_nonneg d : (0 : ℚ) ≤ d)]
  · exact Or.inr ⟨size, hsize, fun t ht ↦ hall t ((Nat.le_add_right _ _).trans ht)⟩

theorem DueInTime.wake {s' : TbfState} (hs : s.wake = some s') : DueInTime p s' := by
  rw [TbfState.wake, Option.ite_none_right_eq_some, Option.some_inj] at hs
  obtain ⟨-, rfl⟩ := hs
  intro due hdue
  cases hdue

theorem dueInTime (hrates : Rates p) {ops : List TbfOp}
    (hr : (tbfMachine p).Run (fun s op ↦ Fits p s op ∧ NoSurplus p s op ∧ Steady p s op) ops s) :
    DueInTime p s := by
  have key : Metered p s ∧ DueInTime p s := by
    refine hr.invariant (I := fun s ↦ Metered p s ∧ DueInTime p s) ⟨.init p, fun due h ↦ by cases h⟩ ?_
    rintro s (⟨itemPeek, item⟩ | d | _) s' ⟨hmetered, hdue⟩ ⟨hfits, hsurplus, hsteady⟩ hs
    · obtain rfl := Option.some.inj hs
      exact ⟨hmetered.doDequeue hsteady.charged,
        hdue.doDequeue hrates hmetered.checkPoint_le hfits hsurplus hsteady⟩
    · exact ⟨hmetered.advance hs, hdue.advance hs⟩
    · exact ⟨hmetered.wake hs, .wake hs⟩
  exact key.2

/-- **A blocked filter wakes up in time** in every run in which, whenever a packet has to wait and no
wake-up is pending, neither bucket holds more than the packet needs, and the child shows a packet until it is
taken. -/
theorem tbf_wakesInTime (p : TbfConfig) (hrates : Rates p) {ops : List TbfOp} {s : TbfState}
    (hr : (tbfMachine p).Run (fun s op ↦ Fits p s op ∧ NoSurplus p s op ∧ Steady p s op) ops s)
    {child : Option ℕ} (hfits : Fits p s (.doDequeue child child))
    (hsurplus : NoSurplus p s (.doDequeue child child)) (hsteady : Steady p s (.doDequeue child child)) :
    WakesInTime p s child := by
  have hafter := dueInTime hrates
    (hr.snoc ⟨hfits, hsurplus, hsteady⟩ (a := .doDequeue child child) rfl)
  rintro size hnone rfl
  have hshown : (s.doDequeue p (some size) (some size)).shown = some size := by
    rw [TbfState.doDequeue]
    dsimp only
    rw [hnone]
    rfl
  -- The packet has not left, so a wake-up is pending.
  have hpending : ∃ due, (s.disc.doDequeue p s.now (some size) (some size)).1.m_id = some due := by
    rcases doDequeue_cases p s.disc s.now (some size) (some size) with
      ⟨hall, hout⟩ | ⟨_, -, ⟨_, -, -, hout⟩ | ⟨-, -, hout⟩⟩
    · have hid := hall size rfl
      rw [hout]
      split_ifs at hid
      exact Option.ne_none_iff_exists'.mp hid
    · rw [hout] at hnone
      cases hnone
    · rw [hout]
      exact ⟨_, rfl⟩
  obtain ⟨due, hdue⟩ := hpending
  refine ⟨due, hdue, ?_⟩
  obtain ⟨hnow, hdue' | ⟨size', hsize', hall⟩⟩ := hafter due hdue
  · refine ⟨hnow, fun t ht _ ↦ ?_⟩
    have ht' : (s.now : ℚ) ≤ t := by exact_mod_cast ht
    have hnow' : ((s.doDequeue p (some size) (some size)).now : ℚ) = s.now := rfl
    linarith
  · obtain rfl : size' = size := Option.some.inj (hsize'.symm.trans hshown)
    refine ⟨hnow, fun t ht hthen ↦ ?_⟩
    linarith [hall t ht hthen]

/-- A filter whose buckets are equally large. -/
def evenTbf : TbfConfig := { slowTbf with m_burst := 1000, burst_lt := slowTbf.mtu_lt }

theorem evenTbf_rates : Rates evenTbf := ⟨by decide, Or.inr (by decide), by decide⟩

/-- The second of two packets has to wait for 800 ms. -/
theorem tbf_wakesInTime_even : ∃ s, (tbfMachine evenTbf).Run
      (fun s op ↦ Fits evenTbf s op ∧ NoSurplus evenTbf s op ∧ Steady evenTbf s op)
      [.doDequeue (some 900) (some 900)] s ∧
    (s.disc.doDequeue evenTbf s.now (some 900) (some 900)).1.m_id = some 800 ∧
    WakesInTime evenTbf s (some 900) := by
  refine Machine.exists_run_and_allowed
    (p := fun s ↦ Fits evenTbf s (.doDequeue (some 900) (some 900)) ∧
      NoSurplus evenTbf s (.doDequeue (some 900) (some 900)) ∧
      Steady evenTbf s (.doDequeue (some 900) (some 900)) ∧
      (s.disc.doDequeue evenTbf s.now (some 900) (some 900)).1.m_id = some 800)
    (by decide +kernel) (by decide +kernel) fun s hr ⟨hfits, hsurplus, hsteady, hid⟩ ↦ ?_
  exact ⟨hid, tbf_wakesInTime evenTbf evenTbf_rates hr hfits hsurplus hsteady⟩

theorem slowTbf_rates : Rates slowTbf := ⟨by decide, Or.inr (by decide), by decide⟩

/-- **A wake-up may come weeks late.** The first bucket holds more than the second of two packets needs, so
it counts as missing nearly `2 ^ 32` bytes: the wake-up is scheduled in 4294966 seconds, although both
buckets hold enough after 400 ms. -/
theorem not_tbf_wakesInTime : ¬ ∀ p, Rates p → ∀ ops s,
    (tbfMachine p).Run (fun s op ↦ Fits p s op ∧ Steady p s op) ops s →
    ∀ child, Fits p s (.doDequeue child child) → WakesInTime p s child := by
  intro hall
  obtain ⟨s, hr, hfits, hnow, henough, hnone, hid⟩ : ∃ s, (tbfMachine slowTbf).Run
      (fun s op ↦ Fits slowTbf s op ∧ Steady slowTbf s op) [.doDequeue (some 900) (some 900)] s ∧
      (Fits slowTbf s (.doDequeue (some 900) (some 900)) ∧ s.now = 0 ∧
        Enough slowTbf (s.disc.doDequeue slowTbf s.now (some 900) (some 900)).1 400 900 ∧
        (s.disc.doDequeue slowTbf s.now (some 900) (some 900)).2 = none ∧
        (s.disc.doDequeue slowTbf s.now (some 900) (some 900)).1.m_id = some 4294966096) :=
    Machine.exists_run_of_exec_allowed (by decide +kernel) (by decide +kernel)
  obtain ⟨due, hdue, -, htime⟩ := hall slowTbf slowTbf_rates _ s hr (some 900) hfits 900 hnone rfl
  obtain rfl : 4294966096 = due := Option.some.inj (hid.symm.trans hdue)
  have hlate := htime 400 (by rw [hnow]; exact Nat.zero_le _) henough
  norm_num [byteTime, slowTbf] at hlate

end TrafficControl

end Ns3
