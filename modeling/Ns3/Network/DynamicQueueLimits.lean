import Ns3.Library.Machine
import Ns3.Library.Partial

/-!
# Dynamic queue limits

A limit on the number of objects in a device queue, adjusted each time the device reports completed
objects: raised when the queue was starved, lowered when it has been busy with more than it needed.
All counters are free-running numbers of 32 bits. The differences are taken by `Posdiff`, on signed
numbers, after the conversion of both counters; a signed difference that does not fit in 32 bits is
undefined, and the functions here fail on it.

Next to the limits a run keeps the true totals, which do not wrap around: all objects ever queued, all
ever completed, and those that were queued at the last report.
-/

namespace Ns3

namespace DynamicQueueLimits

/-- Why a function stops: a failed assertion, or a signed difference that does not fit. -/
inductive Failure
  | assertion
  | signedOverflow
  deriving DecidableEq, Repr

end DynamicQueueLimits

/-- `DynamicQueueLimits`. -/
structure DynamicQueueLimits where
  m_numQueued : UInt32
  m_adjLimit : UInt32
  m_lastObjCnt : UInt32
  m_limit : UInt32
  m_numCompleted : UInt32
  m_prevOvlimit : UInt32
  m_prevNumQueued : UInt32
  m_prevLastObjCnt : UInt32
  m_lowestSlack : UInt32
  m_slackStartTime : ℤ
  m_maxLimit : UInt32
  m_minLimit : UInt32
  m_slackHoldTime : ℤ
  deriving DecidableEq, Repr

namespace DynamicQueueLimits

/-! ## The code -/

def UINTMAX : UInt32 := 4294967295

def DQL_MAX_OBJECT : UInt32 := UINTMAX / 16

def DQL_MAX_LIMIT : UInt32 := UINTMAX / 2 - DQL_MAX_OBJECT

/-- The conversion `(int32_t) x`. -/
def int32 (x : UInt32) : ℤ := x.toBitVec.toInt

def reset (now : ℤ) (q : DynamicQueueLimits) : DynamicQueueLimits :=
  { q with
    m_limit := 0
    m_numQueued := 0
    m_numCompleted := 0
    m_lastObjCnt := 0
    m_prevNumQueued := 0
    m_prevLastObjCnt := 0
    m_prevOvlimit := 0
    m_lowestSlack := UINTMAX
    m_slackStartTime := now }

def posdiff (a b : UInt32) : Except Failure UInt32 :=
  let diff := int32 a - int32 b
  if -2 ^ 31 ≤ diff ∧ diff < 2 ^ 31 then .ok (UInt32.ofNat (max diff 0).toNat)
  else .error .signedOverflow

/-- What the branches of `Completed` compute: the limit, and where the slack stands. -/
structure Adjustment where
  limit : UInt32
  m_lowestSlack : UInt32
  m_slackStartTime : ℤ
  deriving DecidableEq, Repr

/-- The branch of `Completed` for a starved queue. -/
def increase (q : DynamicQueueLimits) (now : ℤ) (completed : UInt32) : Except Failure Adjustment := do
  let diff ← posdiff completed q.m_prevNumQueued
  .ok ⟨q.m_limit + (diff + q.m_prevOvlimit), UINTMAX, now⟩

/-- The value `slackLastObjs` of `Completed`. -/
def slackLastObjs (q : DynamicQueueLimits) : Except Failure UInt32 :=
  if q.m_prevOvlimit ≠ 0 then posdiff q.m_prevLastObjCnt q.m_prevOvlimit else .ok 0

/-- The branch of `Completed` for a queue that was busy in the whole interval. -/
def decrease (q : DynamicQueueLimits) (now : ℤ) (completed : UInt32) : Except Failure Adjustment := do
  let slack ← posdiff (q.m_limit + q.m_prevOvlimit) (2 * (completed - q.m_numCompleted))
  let slackLastObjs ← q.slackLastObjs
  let slack := max slack slackLastObjs
  let lowestSlack := if slack < q.m_lowestSlack then slack else q.m_lowestSlack
  if q.m_slackStartTime + q.m_slackHoldTime < now then do
    let limit ← posdiff q.m_limit lowestSlack
    .ok ⟨limit, UINTMAX, now⟩
  else .ok ⟨q.m_limit, lowestSlack, q.m_slackStartTime⟩

/-- The adjustment that `Completed` makes, before the limit is put into its bounds. -/
def adjust (q : DynamicQueueLimits) (now : ℤ) (completed ovlimit : UInt32) :
    Except Failure Adjustment :=
  let inprogress := q.m_numQueued - completed
  let prevInprogress := q.m_prevNumQueued - q.m_numCompleted
  let allPrevCompleted := 0 ≤ int32 (completed - q.m_prevNumQueued)
  if (ovlimit ≠ 0 ∧ inprogress = 0) ∨ (q.m_prevOvlimit ≠ 0 ∧ allPrevCompleted) then
    q.increase now completed
  else if inprogress ≠ 0 ∧ prevInprogress ≠ 0 ∧ ¬ allPrevCompleted then q.decrease now completed
  else .ok ⟨q.m_limit, q.m_lowestSlack, q.m_slackStartTime⟩

def completed (q : DynamicQueueLimits) (now : ℤ) (count : UInt32) :
    Except Failure DynamicQueueLimits :=
  if q.m_numQueued - q.m_numCompleted < count then .error .assertion
  else do
    let completed := q.m_numCompleted + count
    let ovlimit ← posdiff (q.m_numQueued - q.m_numCompleted) q.m_limit
    let adjustment ← q.adjust now completed ovlimit
    let limit := min (max adjustment.limit q.m_minLimit) q.m_maxLimit
    .ok { q with
      m_limit := limit
      m_adjLimit := limit + completed
      m_prevOvlimit := if limit ≠ q.m_limit then 0 else ovlimit
      m_prevLastObjCnt := q.m_lastObjCnt
      m_numCompleted := completed
      m_prevNumQueued := q.m_numQueued
      m_lowestSlack := adjustment.m_lowestSlack
      m_slackStartTime := adjustment.m_slackStartTime }

def available (q : DynamicQueueLimits) : ℤ := int32 (q.m_adjLimit - q.m_numQueued)

def queued (q : DynamicQueueLimits) (count : UInt32) : Except Failure DynamicQueueLimits :=
  if DQL_MAX_OBJECT < count then .error .assertion
  else .ok { q with m_lastObjCnt := count, m_numQueued := q.m_numQueued + count }

/-! ## Counters as signed numbers -/

variable {x y : ℕ} {a b d : UInt32}

theorem int32_ofNat (x : ℕ) : int32 (UInt32.ofNat x) = x - 2 ^ 32 * ((x + 2 ^ 31) / 2 ^ 32 : ℕ) := by
  rw [int32, UInt32.toBitVec_ofNat', BitVec.toInt_ofNat', Int.bmod_eq_emod]
  norm_num
  split <;> omega

theorem int32_eq_toNat (h : a.toNat < 2 ^ 31) : int32 a = a.toNat := by
  have := int32_ofNat a.toNat
  rw [UInt32.ofNat_toNat] at this
  rw [this, Nat.div_eq_of_lt (by omega)]
  simp

theorem int32_sub_ofNat (hxy : x < y + 2 ^ 31) (hyx : y ≤ x + 2 ^ 31) :
    int32 (UInt32.ofNat x - UInt32.ofNat y) = (x : ℤ) - y := by
  rw [int32, UInt32.toBitVec_sub, UInt32.toBitVec_ofNat', UInt32.toBitVec_ofNat', BitVec.toInt_sub,
    BitVec.toInt_ofNat', BitVec.toInt_ofNat', ← Int.sub_bmod]
  exact Int.bmod_eq_of_le_mul_two (by omega) (by omega)

theorem toNat_max (a b : UInt32) : (max a b).toNat = max a.toNat b.toNat := by
  show (if a ≤ b then b else a).toNat = _
  split
  · next h => exact (max_eq_right (UInt32.le_iff_toNat_le.mp h)).symm
  · next h => exact (max_eq_left (Nat.le_of_not_le fun h' ↦ h (UInt32.le_iff_toNat_le.mpr h'))).symm

theorem toNat_min (a b : UInt32) : (min a b).toNat = min a.toNat b.toNat := by
  show (if a ≤ b then a else b).toNat = _
  split
  · next h => exact (min_eq_left (UInt32.le_iff_toNat_le.mp h)).symm
  · next h => exact (min_eq_right (Nat.le_of_not_le fun h' ↦ h (UInt32.le_iff_toNat_le.mpr h'))).symm

theorem toNat_lt_of_posdiff (h : posdiff a b = .ok d) : d.toNat < 2 ^ 31 := by
  rw [posdiff] at h
  split at h
  · next hfit =>
    rw [← Except.ok_inj.mp h, UInt32.toNat_ofNat']
    omega
  · exact absurd h Except.error_ne_ok

theorem posdiff_ok_iff :
    (∃ d, posdiff a b = .ok d) ↔ -2 ^ 31 ≤ int32 a - int32 b ∧ int32 a - int32 b < 2 ^ 31 := by
  rw [posdiff]
  split
  · next h => exact ⟨fun _ ↦ h, fun _ ↦ ⟨_, rfl⟩⟩
  · next h =>
    refine ⟨?_, fun h' ↦ absurd h' h⟩
    rintro ⟨d, hd⟩
    exact absurd hd Except.error_ne_ok

/-- On numbers that are not negative when signed, `Posdiff` is the truncated difference. -/
theorem posdiff_eq_ok (ha : a.toNat < 2 ^ 31) (hb : b.toNat < 2 ^ 31) :
    posdiff a b = .ok (UInt32.ofNat (a.toNat - b.toNat)) := by
  have hmax : (max ((a.toNat : ℤ) - b.toNat) 0).toNat = a.toNat - b.toNat := by omega
  rw [posdiff, int32_eq_toNat ha, int32_eq_toNat hb]
  rw [if_pos ⟨by omega, by omega⟩, hmax]

/-- The blocks of `2 ^ 32` numbers on which the conversion to a signed number keeps differences. -/
def block (n : ℕ) : ℕ := (n + 2 ^ 31) / 2 ^ 32

/-- Two counters that are not too far apart have a difference exactly if they are in one block. -/
theorem posdiff_counters_iff (hxy : x < y + 2 ^ 31) (hyx : y < x + 2 ^ 31) :
    (∃ d, posdiff (UInt32.ofNat x) (UInt32.ofNat y) = .ok d) ↔ block x = block y := by
  rw [posdiff_ok_iff, int32_ofNat, int32_ofNat, block, block]
  push_cast
  constructor
  · rintro ⟨h1, h2⟩
    omega
  · intro h
    omega

/-- The doubled number of completed objects is negative, when signed, from `2 ^ 30` on. -/
theorem posdiff_double_iff (ha : a.toNat < 2 ^ 31) (hx : x < 2 ^ 31) :
    (∃ d, posdiff a (2 * UInt32.ofNat x) = .ok d) ↔
      ¬ (2 ^ 30 ≤ x ∧ 2 * x ≤ a.toNat + 2 ^ 31) := by
  have hdouble : 2 * UInt32.ofNat x = UInt32.ofNat (2 * x) := (UInt32.ofNat_mul 2 x).symm
  rw [posdiff_ok_iff, hdouble, int32_ofNat, int32_eq_toNat ha]
  push_cast
  constructor
  · rintro ⟨h1, h2⟩ ⟨h3, h4⟩
    omega
  · intro h
    omega

/-! ## Runs -/

/-- The attributes, in the ranges that their checkers accept. -/
structure Config where
  minLimit : UInt32
  maxLimit : UInt32
  holdTime : ℤ
  min_le_max : minLimit.toNat ≤ maxLimit.toNat
  max_le : maxLimit.toNat ≤ DQL_MAX_LIMIT.toNat

/-- The limits, and the totals of all objects queued, of all completed, and of those that were queued
when objects were last completed. -/
structure Traffic where
  limits : DynamicQueueLimits
  queued : ℕ
  completed : ℕ
  prevQueued : ℕ
  deriving DecidableEq, Repr

/-- What a device does: it queues objects, or it reports completed ones at some time. -/
inductive Op
  | queued (count : UInt32)
  | completed (now : ℤ) (count : UInt32)
  deriving DecidableEq, Repr

namespace Traffic

/-- Objects queued and not completed. -/
def outstanding (t : Traffic) : ℕ := t.queued - t.completed

/-- One call. -/
def step (t : Traffic) : Op → Option Traffic
  | .queued count =>
    (t.limits.queued count).toOption.map fun q ↦
      { t with limits := q, queued := t.queued + count.toNat }
  | .completed now count =>
    (t.limits.completed now count).toOption.map fun q ↦
      { limits := q
        queued := t.queued
        completed := t.completed + count.toNat
        prevQueued := t.queued }

end Traffic

/-- New limits, made at a time: `m_adjLimit` is not initialized. -/
def create (c : Config) (m_adjLimit : UInt32) (now : ℤ) : DynamicQueueLimits :=
  reset now ⟨0, m_adjLimit, 0, 0, 0, 0, 0, 0, 0, 0, c.maxLimit, c.minLimit, c.holdTime⟩

/-- The limits in use. -/
def machine (c : Config) (m_adjLimit : UInt32) (now : ℤ) : Machine Traffic Op :=
  ⟨⟨create c m_adjLimit now, 0, 0, 0⟩, Traffic.step⟩

/-- Calls that a device may make: not too many objects at a time or in all, and no more completed than
are outstanding. -/
def Admissible (t : Traffic) : Op → Prop
  | .queued count => count ≤ DQL_MAX_OBJECT ∧ t.outstanding + count.toNat ≤ 2 ^ 31 - 1
  | .completed _ count => count.toNat ≤ t.outstanding

instance (t : Traffic) : DecidablePred (Admissible t)
  | .queued count =>
    inferInstanceAs (Decidable (count ≤ DQL_MAX_OBJECT ∧ t.outstanding + count.toNat ≤ 2 ^ 31 - 1))
  | .completed _ count => inferInstanceAs (Decidable (count.toNat ≤ t.outstanding))

/-- The queue is starved by completing so many objects. -/
def Starved (t : Traffic) (count : ℕ) : Prop :=
  (t.limits.m_limit.toNat < t.outstanding ∧ count = t.outstanding) ∨
    (t.limits.m_prevOvlimit ≠ 0 ∧ t.prevQueued ≤ t.completed + count)

/-- **When a report of completed objects takes no difference that overflows**: where the queue is
starved, the totals that are subtracted lie in one block; where it was busy, not half of what a signed
number can hold is completed at once. -/
def Aligned (t : Traffic) (count : ℕ) : Prop :=
  (Starved t count → block (t.completed + count) = block t.prevQueued) ∧
    (¬ Starved t count → count < t.outstanding → t.completed + count < t.prevQueued →
      ¬ (2 ^ 30 ≤ count ∧
        2 * count ≤ t.limits.m_limit.toNat + t.limits.m_prevOvlimit.toNat + 2 ^ 31))

/-- A report of completed objects goes well: no difference overflows, the limit is in its bounds, and
what is available is the limit less what is outstanding. -/
def GoesWell (c : Config) (t : Traffic) (now : ℤ) (count : UInt32) : Prop :=
  ∃ q, t.limits.completed now count = .ok q ∧
    c.minLimit.toNat ≤ q.m_limit.toNat ∧ q.m_limit.toNat ≤ c.maxLimit.toNat ∧
    q.available = (q.m_limit.toNat : ℤ) - (t.outstanding - count.toNat : ℕ)

/-- What holds between calls. -/
structure Invariant (c : Config) (t : Traffic) : Prop where
  numQueued : t.limits.m_numQueued = UInt32.ofNat t.queued
  numCompleted : t.limits.m_numCompleted = UInt32.ofNat t.completed
  prevNumQueued : t.limits.m_prevNumQueued = UInt32.ofNat t.prevQueued
  completed_le : t.completed ≤ t.prevQueued
  prevQueued_le : t.prevQueued ≤ t.queued
  outstanding_le : t.queued < t.completed + 2 ^ 31
  limit_add_lt : t.limits.m_limit.toNat + t.limits.m_prevOvlimit.toNat < 2 ^ 31
  lastObjCnt : t.limits.m_lastObjCnt.toNat < 2 ^ 31
  prevLastObjCnt : t.limits.m_prevLastObjCnt.toNat < 2 ^ 31
  minLimit : t.limits.m_minLimit = c.minLimit
  maxLimit : t.limits.m_maxLimit = c.maxLimit

namespace Invariant

variable {c : Config} {t : Traffic} {now : ℤ} {count : UInt32}

/-! ### The values that a report of completed objects computes -/

theorem toNat_ofNat_lt (h : x < 2 ^ 31) : (UInt32.ofNat x).toNat = x := by
  rw [UInt32.toNat_ofNat', Nat.mod_eq_of_lt (by omega)]

theorem outstanding_eq (hi : Invariant c t) :
    t.limits.m_numQueued - t.limits.m_numCompleted = UInt32.ofNat t.outstanding := by
  have := hi.completed_le.trans hi.prevQueued_le
  rw [hi.numQueued, hi.numCompleted, Traffic.outstanding, UInt32.ofNat_sub this]

theorem outstanding_lt (hi : Invariant c t) : t.outstanding < 2 ^ 31 := by
  have := hi.outstanding_le
  rw [Traffic.outstanding]
  omega

theorem completed_eq (hi : Invariant c t) :
    t.limits.m_numCompleted + count = UInt32.ofNat (t.completed + count.toNat) := by
  rw [hi.numCompleted, UInt32.ofNat_add, UInt32.ofNat_toNat]

theorem ovlimit_eq (hi : Invariant c t) :
    posdiff (t.limits.m_numQueued - t.limits.m_numCompleted) t.limits.m_limit =
      .ok (UInt32.ofNat (t.outstanding - t.limits.m_limit.toNat)) := by
  have hlt := hi.outstanding_lt
  have hlim := hi.limit_add_lt
  rw [hi.outstanding_eq, posdiff_eq_ok (by rw [toNat_ofNat_lt hlt]; exact hlt) (by omega),
    toNat_ofNat_lt hlt]

theorem ofNat_ne_zero_iff (h : x < 2 ^ 31) : UInt32.ofNat x ≠ 0 ↔ 0 < x := by
  rw [ne_eq, ← UInt32.toNat_inj, toNat_ofNat_lt h, UInt32.toNat_zero]
  exact Nat.pos_iff_ne_zero.symm

theorem inprogress_eq (hi : Invariant c t) (hc : count.toNat ≤ t.outstanding) :
    t.limits.m_numQueued - (t.limits.m_numCompleted + count) =
      UInt32.ofNat (t.outstanding - count.toNat) := by
  have hle := hi.completed_le.trans hi.prevQueued_le
  have hsub : t.outstanding - count.toNat = t.queued - (t.completed + count.toNat) := by
    rw [Traffic.outstanding]
    omega
  have hle' : t.completed + count.toNat ≤ t.queued := by
    rw [Traffic.outstanding] at hc
    omega
  rw [hi.completed_eq, hi.numQueued, hsub, UInt32.ofNat_sub hle']

theorem allPrevCompleted_iff (hi : Invariant c t) (hc : count.toNat ≤ t.outstanding) :
    0 ≤ int32 (t.limits.m_numCompleted + count - t.limits.m_prevNumQueued) ↔
      t.prevQueued ≤ t.completed + count.toNat := by
  have h1 := hi.completed_le
  have h2 := hi.prevQueued_le
  have h3 := hi.outstanding_le
  rw [Traffic.outstanding] at hc
  rw [hi.completed_eq, hi.prevNumQueued, int32_sub_ofNat (by omega) (by omega)]
  omega

theorem starved_iff (hi : Invariant c t) (hc : count.toNat ≤ t.outstanding) :
    ((UInt32.ofNat (t.outstanding - t.limits.m_limit.toNat) ≠ 0 ∧
        t.limits.m_numQueued - (t.limits.m_numCompleted + count) = 0) ∨
      (t.limits.m_prevOvlimit ≠ 0 ∧
        0 ≤ int32 (t.limits.m_numCompleted + count - t.limits.m_prevNumQueued))) ↔
      Starved t count.toNat := by
  have hlt := hi.outstanding_lt
  have hin : t.limits.m_numQueued - (t.limits.m_numCompleted + count) = 0 ↔
      count.toNat = t.outstanding := by
    rw [← not_iff_not, ← ne_eq, hi.inprogress_eq hc, ofNat_ne_zero_iff (by omega)]
    omega
  rw [ofNat_ne_zero_iff (by omega), Nat.sub_pos_iff_lt, hin, hi.allPrevCompleted_iff hc, Starved]

theorem busy_iff (hi : Invariant c t) (hc : count.toNat ≤ t.outstanding) :
    (t.limits.m_numQueued - (t.limits.m_numCompleted + count) ≠ 0 ∧
      t.limits.m_prevNumQueued - t.limits.m_numCompleted ≠ 0 ∧
      ¬ 0 ≤ int32 (t.limits.m_numCompleted + count - t.limits.m_prevNumQueued)) ↔
      count.toNat < t.outstanding ∧ t.completed + count.toNat < t.prevQueued := by
  have hlt := hi.outstanding_lt
  have h1 := hi.completed_le
  have h2 := hi.prevQueued_le
  have h3 := hi.outstanding_le
  have hprev : t.limits.m_prevNumQueued - t.limits.m_numCompleted =
      UInt32.ofNat (t.prevQueued - t.completed) := by
    rw [hi.prevNumQueued, hi.numCompleted, UInt32.ofNat_sub h1]
  rw [hi.inprogress_eq hc, ofNat_ne_zero_iff (by omega), hprev, ofNat_ne_zero_iff (by omega),
    hi.allPrevCompleted_iff hc]
  omega

/-! ### The branches -/

theorem increase_ok_iff (hi : Invariant c t) (hc : count.toNat ≤ t.outstanding) :
    (∃ a, t.limits.increase now (t.limits.m_numCompleted + count) = .ok a) ↔
      block (t.completed + count.toNat) = block t.prevQueued := by
  have h1 := hi.completed_le
  have h2 := hi.prevQueued_le
  have h3 := hi.outstanding_le
  rw [Traffic.outstanding] at hc
  rw [← posdiff_counters_iff (by omega) (by omega), hi.completed_eq, ← hi.prevNumQueued, increase]
  constructor
  · rintro ⟨a, ha⟩
    obtain ⟨d, hd, -⟩ := Except.bind_eq_ok.mp ha
    exact ⟨d, hd⟩
  · rintro ⟨d, hd⟩
    rw [hd]
    exact ⟨_, rfl⟩

theorem exists_slackLastObjs (hi : Invariant c t) :
    ∃ last, t.limits.slackLastObjs = .ok last ∧ last.toNat < 2 ^ 31 := by
  have hlim := hi.limit_add_lt
  rw [slackLastObjs]
  split
  · have hok := posdiff_eq_ok hi.prevLastObjCnt (b := t.limits.m_prevOvlimit) (by omega)
    exact ⟨_, hok, toNat_lt_of_posdiff hok⟩
  · exact ⟨0, rfl, by decide⟩

/-- A busy queue: of the differences only that of the doubled count can overflow. -/
theorem decrease_ok_iff (hi : Invariant c t) (hc : count.toNat ≤ t.outstanding) :
    (∃ a, t.limits.decrease now (t.limits.m_numCompleted + count) = .ok a) ↔
      ¬ (2 ^ 30 ≤ count.toNat ∧
        2 * count.toNat ≤ t.limits.m_limit.toNat + t.limits.m_prevOvlimit.toNat + 2 ^ 31) := by
  have hlim := hi.limit_add_lt
  have hlt := hi.outstanding_lt
  have hadd : (t.limits.m_limit + t.limits.m_prevOvlimit).toNat =
      t.limits.m_limit.toNat + t.limits.m_prevOvlimit.toNat := by
    rw [UInt32.toNat_add, Nat.mod_eq_of_lt (by omega)]
  have hcount : t.limits.m_numCompleted + count - t.limits.m_numCompleted =
      UInt32.ofNat count.toNat := by
    rw [UInt32.ofNat_toNat]
    grind
  rw [← hadd, ← posdiff_double_iff (by omega) (by omega), decrease, hcount]
  constructor
  · rintro ⟨a, ha⟩
    obtain ⟨d, hd, -⟩ := Except.bind_eq_ok.mp ha
    exact ⟨d, hd⟩
  · rintro ⟨slack, hslack⟩
    obtain ⟨last, hlast, hlastlt⟩ := hi.exists_slackLastObjs
    have hslacklt := toNat_lt_of_posdiff hslack
    have hmax : (max slack last).toNat < 2 ^ 31 := by
      rw [toNat_max]
      exact max_lt hslacklt hlastlt
    have hlowest : (if max slack last < t.limits.m_lowestSlack then max slack last
        else t.limits.m_lowestSlack).toNat < 2 ^ 31 := by
      split
      · exact hmax
      · next h =>
        exact lt_of_le_of_lt (UInt32.le_iff_toNat_le.mp (UInt32.not_lt.mp h)) hmax
    rw [hslack, Except.ok_bind, hlast, Except.ok_bind]
    dsimp only
    split
    · rw [posdiff_eq_ok (by omega) hlowest]
      exact ⟨_, rfl⟩
    · exact ⟨_, rfl⟩

theorem adjust_ok_iff (hi : Invariant c t) (hc : count.toNat ≤ t.outstanding) (now : ℤ) :
    (∃ a, t.limits.adjust now (t.limits.m_numCompleted + count)
        (UInt32.ofNat (t.outstanding - t.limits.m_limit.toNat)) = .ok a) ↔
      Aligned t count.toNat := by
  have hstarved := hi.starved_iff hc
  have hbusy := hi.busy_iff hc
  rw [adjust, Aligned]
  by_cases hs : Starved t count.toNat
  · rw [if_pos (hstarved.mpr hs), hi.increase_ok_iff hc]
    exact ⟨fun h ↦ ⟨fun _ ↦ h, fun hn ↦ absurd hs hn⟩, fun h ↦ h.1 hs⟩
  · rw [if_neg fun h ↦ hs (hstarved.mp h)]
    by_cases hb : count.toNat < t.outstanding ∧ t.completed + count.toNat < t.prevQueued
    · rw [if_pos (hbusy.mpr hb), hi.decrease_ok_iff hc]
      exact ⟨fun h ↦ ⟨fun h' ↦ absurd h' hs, fun _ _ _ ↦ h⟩, fun h ↦ h.2 hs hb.1 hb.2⟩
    · rw [if_neg fun h ↦ hb (hbusy.mp h)]
      exact ⟨fun _ ↦ ⟨fun h' ↦ absurd h' hs, fun _ h1 h2 ↦ absurd ⟨h1, h2⟩ hb⟩, fun _ ↦ ⟨_, rfl⟩⟩

/-! ### A report -/

theorem completed_eq_ok (hi : Invariant c t) {q : DynamicQueueLimits}
    (h : t.limits.completed now count = .ok q) : ∃ a : Adjustment,
      count.toNat ≤ t.outstanding ∧
      t.limits.adjust now (t.limits.m_numCompleted + count)
        (UInt32.ofNat (t.outstanding - t.limits.m_limit.toNat)) = .ok a ∧
      q = { t.limits with
        m_limit := min (max a.limit t.limits.m_minLimit) t.limits.m_maxLimit
        m_adjLimit := min (max a.limit t.limits.m_minLimit) t.limits.m_maxLimit +
          (t.limits.m_numCompleted + count)
        m_prevOvlimit :=
          if min (max a.limit t.limits.m_minLimit) t.limits.m_maxLimit ≠ t.limits.m_limit then 0
          else UInt32.ofNat (t.outstanding - t.limits.m_limit.toNat)
        m_prevLastObjCnt := t.limits.m_lastObjCnt
        m_numCompleted := t.limits.m_numCompleted + count
        m_prevNumQueued := t.limits.m_numQueued
        m_lowestSlack := a.m_lowestSlack
        m_slackStartTime := a.m_slackStartTime } := by
  rw [completed] at h
  split at h
  · exact absurd h Except.error_ne_ok
  · next hle =>
    rw [hi.outstanding_eq, UInt32.lt_iff_toNat_lt, toNat_ofNat_lt hi.outstanding_lt, not_lt] at hle
    rw [hi.ovlimit_eq, Except.ok_bind, Except.bind_eq_ok] at h
    obtain ⟨a, ha, hq⟩ := h
    exact ⟨a, hle, ha, (Except.ok_inj.mp hq).symm⟩

/-- A report goes through exactly if it takes no difference that overflows. -/
theorem completed_ok_iff (hi : Invariant c t) (hc : count.toNat ≤ t.outstanding) (now : ℤ) :
    (∃ q, t.limits.completed now count = .ok q) ↔ Aligned t count.toNat := by
  have hle : ¬ t.limits.m_numQueued - t.limits.m_numCompleted < count := by
    rw [hi.outstanding_eq, UInt32.lt_iff_toNat_lt, toNat_ofNat_lt hi.outstanding_lt, not_lt]
    exact hc
  rw [← hi.adjust_ok_iff hc now, completed, if_neg hle, hi.ovlimit_eq, Except.ok_bind]
  constructor
  · rintro ⟨q, hq⟩
    obtain ⟨a, ha, -⟩ := Except.bind_eq_ok.mp hq
    exact ⟨a, ha⟩
  · rintro ⟨a, ha⟩
    rw [ha]
    exact ⟨_, rfl⟩

theorem limit_mem (hi : Invariant c t) (l : UInt32) :
    c.minLimit.toNat ≤ (min (max l t.limits.m_minLimit) t.limits.m_maxLimit).toNat ∧
      (min (max l t.limits.m_minLimit) t.limits.m_maxLimit).toNat ≤ c.maxLimit.toNat := by
  rw [hi.minLimit, hi.maxLimit, toNat_min, toNat_max]
  exact ⟨le_min (le_max_right _ _) c.min_le_max, min_le_right _ _⟩

theorem goesWell (hi : Invariant c t) {q : DynamicQueueLimits}
    (h : t.limits.completed now count = .ok q) :
    c.minLimit.toNat ≤ q.m_limit.toNat ∧ q.m_limit.toNat ≤ c.maxLimit.toNat ∧
      q.available = (q.m_limit.toNat : ℤ) - (t.outstanding - count.toNat : ℕ) := by
  obtain ⟨a, hle, -, rfl⟩ := hi.completed_eq_ok h
  obtain ⟨hmin, hmax⟩ := hi.limit_mem a.limit
  have hmaxlt : c.maxLimit.toNat < 2 ^ 31 := lt_of_le_of_lt c.max_le (by decide)
  have hlt := hi.outstanding_lt
  refine ⟨hmin, hmax, ?_⟩
  dsimp only [available]
  generalize min (max a.limit t.limits.m_minLimit) t.limits.m_maxLimit = limit at hmin hmax
  have hdiff : limit + (t.limits.m_numCompleted + count) - t.limits.m_numQueued =
      UInt32.ofNat limit.toNat - UInt32.ofNat (t.outstanding - count.toNat) := by
    rw [← hi.inprogress_eq hle, UInt32.ofNat_toNat]
    grind
  rw [hdiff, int32_sub_ofNat (by omega) (by omega)]

/-! ### Steps -/

theorem init (c : Config) (m_adjLimit : UInt32) (now : ℤ) :
    Invariant c (machine c m_adjLimit now).init where
  numQueued := rfl
  numCompleted := rfl
  prevNumQueued := rfl
  completed_le := le_rfl
  prevQueued_le := le_rfl
  outstanding_le := by
    show (0 : ℕ) < 0 + 2 ^ 31
    norm_num
  limit_add_lt := by
    show (0 : UInt32).toNat + (0 : UInt32).toNat < 2 ^ 31
    decide
  lastObjCnt := by
    show (0 : UInt32).toNat < 2 ^ 31
    decide
  prevLastObjCnt := by
    show (0 : UInt32).toNat < 2 ^ 31
    decide
  minLimit := rfl
  maxLimit := rfl

theorem step_queued (hi : Invariant c t) (hok : Admissible t (.queued count)) :
    Invariant c { t with
      limits := { t.limits with
        m_lastObjCnt := count
        m_numQueued := t.limits.m_numQueued + count }
      queued := t.queued + count.toNat } := by
  obtain ⟨hcount, hout⟩ := hok
  have hle := hi.completed_le.trans hi.prevQueued_le
  refine { hi with
    numQueued := ?_
    prevQueued_le := hi.prevQueued_le.trans (Nat.le_add_right _ _)
    outstanding_le := ?_
    lastObjCnt := lt_of_le_of_lt (UInt32.le_iff_toNat_le.mp hcount) (by decide) }
  · show t.limits.m_numQueued + count = _
    rw [hi.numQueued, UInt32.ofNat_add, UInt32.ofNat_toNat]
  · rw [Traffic.outstanding] at hout
    dsimp only
    omega

theorem step_completed (hi : Invariant c t) {q : DynamicQueueLimits}
    (h : t.limits.completed now count = .ok q) :
    Invariant c ⟨q, t.queued, t.completed + count.toNat, t.queued⟩ := by
  obtain ⟨a, hle, -, rfl⟩ := hi.completed_eq_ok h
  obtain ⟨-, hmax⟩ := hi.limit_mem a.limit
  have hmaxlt : c.maxLimit.toNat < 2 ^ 31 := lt_of_le_of_lt c.max_le (by decide)
  have hlt := hi.outstanding_lt
  have hlim := hi.limit_add_lt
  have hout := hi.outstanding_le
  rw [Traffic.outstanding] at hle
  refine
    { numQueued := hi.numQueued
      numCompleted := hi.completed_eq
      prevNumQueued := hi.numQueued
      completed_le := ?_
      prevQueued_le := le_rfl
      outstanding_le := ?_
      limit_add_lt := ?_
      lastObjCnt := hi.lastObjCnt
      prevLastObjCnt := hi.lastObjCnt
      minLimit := hi.minLimit
      maxLimit := hi.maxLimit }
  · have := hi.completed_le.trans hi.prevQueued_le
    dsimp only
    omega
  · dsimp only
    omega
  · dsimp only
    generalize min (max a.limit t.limits.m_minLimit) t.limits.m_maxLimit = limit at hmax
    split
    · rw [UInt32.toNat_zero]
      omega
    · next heq =>
      -- an unchanged limit and its overrun are together what was outstanding, or the limit
      rw [not_not.mp heq, toNat_ofNat_lt (by omega)]
      omega

theorem step (hi : Invariant c t) {op : Op} {t' : Traffic} (hok : Admissible t op)
    (h : t.step op = some t') : Invariant c t' := by
  cases op with
  | queued count =>
    obtain ⟨q, hq, rfl⟩ := Option.map_eq_some_iff.mp h
    rw [Except.toOption_eq_some, queued] at hq
    split at hq
    · exact absurd hq Except.error_ne_ok
    · rw [← Except.ok_inj.mp hq]
      exact hi.step_queued hok
  | completed now count =>
    obtain ⟨q, hq, rfl⟩ := Option.map_eq_some_iff.mp h
    exact hi.step_completed (Except.toOption_eq_some.mp hq)

end Invariant

/-- **In every run, a report of completed objects goes well if and only if** the totals that it
subtracts are aligned. -/
theorem goesWell_iff_of_run (c : Config) (m_adjLimit : UInt32) (start : ℤ) {ops : List Op}
    {t : Traffic} (hr : (machine c m_adjLimit start).Run Admissible ops t) (now : ℤ)
    (count : UInt32) (hc : Admissible t (.completed now count)) :
    GoesWell c t now count ↔ Aligned t count.toNat := by
  have hi : Invariant c t := hr.invariant (I := Invariant c) (.init c m_adjLimit start)
    fun _ _ _ h hok hs ↦ h.step hok hs
  rw [← hi.completed_ok_iff hc now]
  constructor
  · rintro ⟨q, hq, -⟩
    exact ⟨q, hq⟩
  · rintro ⟨q, hq⟩
    exact ⟨q, hq, hi.goesWell hq⟩

/-- Limits of at most 1000 objects. -/
def sampleConfig : Config := ⟨0, 1000, 10, by decide, by decide⟩

theorem goesWell_iff_of_run_sample : ∃ t, (machine sampleConfig 7 0).Run Admissible
    [.queued 50, .completed 1 20, .queued 1500, .completed 2 1530] t ∧
    ∃ now count, Admissible t (.completed now count) ∧
      (GoesWell sampleConfig t now count ↔ Aligned t count.toNat) := by
  refine Machine.exists_run_and_allowed (p := fun t : Traffic ↦ Admissible t (.completed 3 0))
    (by decide +kernel) (by decide +kernel) fun t hr hadm ↦ ?_
  exact ⟨3, 0, hadm, goesWell_iff_of_run sampleConfig 7 0 hr 3 0 hadm⟩

/-- Seven times the most objects at once, all completed, and two times more, all completed: the total
completed has passed `2 ^ 31`, the total queued before has not. -/
theorem not_goesWell_past_two_pow : ¬ ∀ (c : Config) (m_adjLimit : UInt32) (start : ℤ) (ops : List Op)
    (t : Traffic), (machine c m_adjLimit start).Run Admissible ops t → ∀ (now : ℤ) (count : UInt32),
      Admissible t (.completed now count) → GoesWell c t now count := by
  intro hall
  have hrun : ∃ t, (machine sampleConfig 0 0).Run Admissible
      (List.replicate 7 (.queued DQL_MAX_OBJECT) ++
        .completed 1 1879048185 :: List.replicate 2 (.queued DQL_MAX_OBJECT)) t ∧
      Admissible t (.completed 2 536870910) ∧
        t.limits.completed 2 536870910 = .error .signedOverflow :=
    Machine.exists_run_of_exec_allowed (p := fun t : Traffic ↦ Admissible t (.completed 2 536870910) ∧
      t.limits.completed 2 536870910 = .error .signedOverflow) (by decide +kernel) (by decide +kernel)
  obtain ⟨t, hr, hadm, herr⟩ := hrun
  obtain ⟨q, hq, -⟩ := hall _ _ _ _ t hr 2 536870910 hadm
  rw [herr] at hq
  exact absurd hq Except.error_ne_ok

end DynamicQueueLimits

end Ns3
