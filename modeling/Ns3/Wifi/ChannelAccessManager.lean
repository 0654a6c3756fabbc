import Mathlib

/-!
# The channel access manager

The manager keeps the last interval of each kind in which the medium could not be used: a reception, a
transmission, a busy medium, the NAV, the two response timeouts and a channel switch. From these and
from its own backoff each `Txop` has an instant at which its backoff ends. One event, the access
timeout, wakes the manager up to grant the access to a `Txop` whose backoff has ended.

Times are natural numbers of one unit. What a `Txop` does when it is granted the access is left to the
caller: the notifications that reach the manager before `NotifyAccessGranted` returns, and the slots
drawn by the `Txop`s that lose an internal collision, are given with each call.
-/

namespace Ns3

namespace Wifi

/-- What the manager reads and writes of a `Txop`. -/
structure Txop where
  m_aifsn : ℕ
  isQosTxop : Bool
  m_backoffSlots : ℕ
  m_backoffStart : ℕ
  m_accessRequested : Bool
deriving DecidableEq

namespace Txop

def updateBackoffSlotsNow (x : Txop) (nSlots backoffUpdateBound : ℕ) : Txop :=
  { x with m_backoffSlots := x.m_backoffSlots - nSlots, m_backoffStart := backoffUpdateBound }

def startBackoffNow (x : Txop) (now nSlots : ℕ) : Txop :=
  { x with m_backoffSlots := nSlots, m_backoffStart := now }

/-- What a channel switch and a wake-up do first to each `Txop`. -/
def resetBackoff (x : Txop) (now : ℕ) : Txop :=
  { (if 0 < x.m_backoffSlots then x.updateBackoffSlotsNow x.m_backoffSlots now else x) with
    m_accessRequested := false }

end Txop

/-- An access that has been granted: to which `Txop`, when its backoff ended, and when. -/
structure Grant where
  txop : ℕ
  backoffEnd : ℕ
  time : ℕ
deriving DecidableEq

/-- A `ChannelAccessManager`, with the clock, the instant of the access timeout if it is pending, and
the accesses granted so far. -/
structure ChannelAccessManager where
  now : ℕ
  m_txops : List Txop
  m_lastAckTimeoutEnd : ℕ
  m_lastCtsTimeoutEnd : ℕ
  m_lastNavStart : ℕ
  m_lastNavDuration : ℕ
  m_lastRxStart : ℕ
  m_lastRxDuration : ℕ
  m_lastRxReceivedOk : Bool
  m_lastTxStart : ℕ
  m_lastTxDuration : ℕ
  m_lastBusyStart : ℕ
  m_lastBusyDuration : ℕ
  m_lastSwitchingStart : ℕ
  m_lastSwitchingDuration : ℕ
  m_sleeping : Bool
  m_off : Bool
  m_eifsNoDifs : ℕ
  m_slot : ℕ
  m_sifs : ℕ
  m_accessTimeout : Option ℕ
  /-- The `Txop` of `DoGrantPcfAccess`, if that is what the access timeout calls. -/
  pcfTxop : Option ℕ
  grants : List Grant
deriving DecidableEq

/-- The calls that tell the manager about the medium and that a `Txop` can cause while it is granted
the access. -/
inductive Notification
  | rxStart (duration : ℕ)
  | rxEndOk
  | rxEndError
  | txStart (duration : ℕ)
  | maybeCcaBusyStart (duration : ℕ)
  | navReset (duration : ℕ)
  | navStart (duration : ℕ)
  | ackTimeoutStart (duration : ℕ)
  | ackTimeoutReset
  | ctsTimeoutStart (duration : ℕ)
  | ctsTimeoutReset
deriving DecidableEq

/-- What happens while the access is granted: the notifications that the `Txop` causes, and the number
of slots drawn by each `Txop` that loses the internal collision. -/
structure Reaction where
  notifications : List Notification
  slots : ℕ → ℕ

/-- Whether the `Txop` that is granted the access transmits. -/
def Reaction.transmits (r : Reaction) : Bool :=
  r.notifications.any fun
    | .txStart _ => true
    | _ => false

namespace ChannelAccessManager

/-! ## The start and the end of a backoff -/

def mostRecent (l : List ℕ) : ℕ := l.foldr max 0

/-- The end of the last reception and SIFS, and EIFS - DIFS if it ended with an error. -/
def rxAccessStart (s : ChannelAccessManager) : ℕ :=
  let lastRxEnd := s.m_lastRxStart + s.m_lastRxDuration
  if lastRxEnd ≤ s.now ∧ s.m_lastRxReceivedOk = false then lastRxEnd + s.m_sifs + s.m_eifsNoDifs
  else lastRxEnd + s.m_sifs

/-- `GetAccessGrantStart`, with the NAV. -/
def getAccessGrantStart (s : ChannelAccessManager) : ℕ :=
  mostRecent
    [s.rxAccessStart,
      s.m_lastBusyStart + s.m_lastBusyDuration + s.m_sifs,
      s.m_lastTxStart + s.m_lastTxDuration + s.m_sifs,
      s.m_lastNavStart + s.m_lastNavDuration + s.m_sifs,
      s.m_lastAckTimeoutEnd + s.m_sifs,
      s.m_lastCtsTimeoutEnd + s.m_sifs,
      s.m_lastSwitchingStart + s.m_lastSwitchingDuration + s.m_sifs]

def getBackoffStartFor (s : ChannelAccessManager) (x : Txop) : ℕ :=
  mostRecent [x.m_backoffStart, s.getAccessGrantStart + x.m_aifsn * s.m_slot]

def getBackoffEndFor (s : ChannelAccessManager) (x : Txop) : ℕ :=
  s.getBackoffStartFor x + x.m_backoffSlots * s.m_slot

/-- The slots that `UpdateBackoff` finds to have passed, in the code's 32 bits: of EDCA one more. -/
def nIntSlots (s : ChannelAccessManager) (x : Txop) : ℕ :=
  let n := (s.now - s.getBackoffStartFor x) / s.m_slot % 2 ^ 32
  if x.isQosTxop then (n + 1) % 2 ^ 32 else n

/-- One iteration of `UpdateBackoff`. -/
def updateBackoffOf (s : ChannelAccessManager) (x : Txop) : Txop :=
  if s.getBackoffStartFor x ≤ s.now then
    let n := min (s.nIntSlots x) x.m_backoffSlots
    x.updateBackoffSlotsNow n (s.getBackoffStartFor x + n * s.m_slot)
  else x

def updateBackoff (s : ChannelAccessManager) : ChannelAccessManager :=
  { s with m_txops := s.m_txops.map s.updateBackoffOf }

/-! ## The access timeout -/

/-- The earliest end of a backoff that `DoRestartAccessTimeoutIfNeeded` has to wait for. -/
def expectedBackoffEnd (s : ChannelAccessManager) : Option ℕ :=
  ((s.m_txops.filter fun x ↦ x.m_accessRequested && decide (s.now < s.getBackoffEndFor x)).map
    s.getBackoffEndFor).min?

def doRestartAccessTimeoutIfNeeded (s : ChannelAccessManager) : ChannelAccessManager :=
  match s.expectedBackoffEnd with
  | none => s
  | some e =>
    match s.m_accessTimeout with
    | none => { s with m_accessTimeout := some e, pcfTxop := none }
    | some t =>
      if e - s.now < t - s.now then { s with m_accessTimeout := some e, pcfTxop := none } else s

/-! ## The notifications -/

def notifyRxStartNow (s : ChannelAccessManager) (duration : ℕ) : ChannelAccessManager :=
  { s.updateBackoff with
    m_lastRxStart := s.now, m_lastRxDuration := duration, m_lastRxReceivedOk := true }

def notifyRxEndOkNow (s : ChannelAccessManager) : ChannelAccessManager :=
  { s with m_lastRxDuration := s.now - s.m_lastRxStart, m_lastRxReceivedOk := true }

def notifyRxEndErrorNow (s : ChannelAccessManager) : ChannelAccessManager :=
  let lastRxEnd := s.m_lastRxStart + s.m_lastRxDuration
  let s' :=
    if s.now < lastRxEnd then
      { s with m_lastBusyStart := s.now, m_lastBusyDuration := lastRxEnd - s.now }
    else s
  { s' with m_lastRxDuration := s.now - s.m_lastRxStart, m_lastRxReceivedOk := false }

/-- What `NotifyTxStartNow` does to the last reception. -/
def truncateRx (s : ChannelAccessManager) : ChannelAccessManager :=
  if s.now < s.m_lastRxStart + s.m_lastRxDuration then
    { s with m_lastRxReceivedOk := true, m_lastRxDuration := s.now - s.m_lastRxStart }
  else { s with m_lastRxReceivedOk := true }

/-- `NotifyTxStartNow`: a reception can only have started within SIFS. -/
def notifyTxStartNow (s : ChannelAccessManager) (duration : ℕ) : Option ChannelAccessManager :=
  if s.now < s.m_lastRxStart + s.m_lastRxDuration ∧ s.m_sifs < s.now - s.m_lastRxStart then none
  else some { s.truncateRx.updateBackoff with m_lastTxStart := s.now, m_lastTxDuration := duration }

def notifyMaybeCcaBusyStartNow (s : ChannelAccessManager) (duration : ℕ) : ChannelAccessManager :=
  { s.updateBackoff with m_lastBusyStart := s.now, m_lastBusyDuration := duration }

def notifyNavResetNow (s : ChannelAccessManager) (duration : ℕ) : ChannelAccessManager :=
  doRestartAccessTimeoutIfNeeded
    { s.updateBackoff with m_lastNavStart := s.now, m_lastNavDuration := duration }

/-- `NotifyNavStartNow`: the NAV is only made longer. -/
def notifyNavStartNow (s : ChannelAccessManager) (duration : ℕ) : Option ChannelAccessManager :=
  if s.m_lastNavStart ≤ s.now then
    some (if s.m_lastNavStart + s.m_lastNavDuration < s.now + duration then
      { s.updateBackoff with m_lastNavStart := s.now, m_lastNavDuration := duration }
    else s.updateBackoff)
  else none

/-- `NotifyAckTimeoutStartNow`: the previous timeout has ended. -/
def notifyAckTimeoutStartNow (s : ChannelAccessManager) (duration : ℕ) :
    Option ChannelAccessManager :=
  if s.m_lastAckTimeoutEnd < s.now then some { s with m_lastAckTimeoutEnd := s.now + duration }
  else none

def notifyAckTimeoutResetNow (s : ChannelAccessManager) : ChannelAccessManager :=
  doRestartAccessTimeoutIfNeeded { s with m_lastAckTimeoutEnd := s.now }

/-- `NotifyCtsTimeoutStartNow`: unlike for the acknowledgment, the previous timeout may not have
ended. -/
def notifyCtsTimeoutStartNow (s : ChannelAccessManager) (duration : ℕ) : ChannelAccessManager :=
  { s with m_lastCtsTimeoutEnd := s.now + duration }

def notifyCtsTimeoutResetNow (s : ChannelAccessManager) : ChannelAccessManager :=
  doRestartAccessTimeoutIfNeeded { s with m_lastCtsTimeoutEnd := s.now }

/-- The call of a notification; `none` if an assertion of the code fails. -/
def notify (s : ChannelAccessManager) : Notification → Option ChannelAccessManager
  | .rxStart d => some (s.notifyRxStartNow d)
  | .rxEndOk => some s.notifyRxEndOkNow
  | .rxEndError => some s.notifyRxEndErrorNow
  | .txStart d => s.notifyTxStartNow d
  | .maybeCcaBusyStart d => some (s.notifyMaybeCcaBusyStartNow d)
  | .navReset d => some (s.notifyNavResetNow d)
  | .navStart d => s.notifyNavStartNow d
  | .ackTimeoutStart d => s.notifyAckTimeoutStartNow d
  | .ackTimeoutReset => some s.notifyAckTimeoutResetNow
  | .ctsTimeoutStart d => some (s.notifyCtsTimeoutStartNow d)
  | .ctsTimeoutReset => some s.notifyCtsTimeoutResetNow

/-- The calls of several notifications, one after the other. -/
def notifyAll (s : ChannelAccessManager) : List Notification → Option ChannelAccessManager
  | [] => some s
  | n :: ns => (s.notify n).bind fun s' ↦ s'.notifyAll ns

/-! ## The accesses -/

/-- Whether a `Txop` has requested the access and its backoff has ended. -/
def expired (s : ChannelAccessManager) (x : Txop) : Bool :=
  x.m_accessRequested && decide (s.getBackoffEndFor x ≤ s.now)

/-- The `Txop` that `DoGrantDcfAccess` grants the access to. -/
def winner (s : ChannelAccessManager) : Option ℕ := s.m_txops.findIdx? s.expired

/-- Whether the `Txop` `j` loses an internal collision with the `Txop` `i`. -/
def collides (s : ChannelAccessManager) (i j : ℕ) : Bool :=
  decide (i < j) && (s.m_txops[j]?).any s.expired

/-- What `NotifyAccessGranted` does first. -/
def accessGranted (s : ChannelAccessManager) (i : ℕ) : ChannelAccessManager :=
  { s with
    m_txops := s.m_txops.modify i fun x ↦ { x with m_accessRequested := false }
    grants := (s.m_txops[i]?).toList.map (fun x ↦ ⟨i, s.getBackoffEndFor x, s.now⟩) ++ s.grants }

/-- `NotifyInternalCollision` of the `Txop`s that `lost`: each starts a new backoff, and its request
stays. -/
def internalCollisions (s : ChannelAccessManager) (lost : ℕ → Bool) (slots : ℕ → ℕ) :
    ChannelAccessManager :=
  { s with
    m_txops := s.m_txops.mapIdx fun j x ↦
      if lost j then x.startBackoffNow s.now (slots j) else x }

def doGrantDcfAccess (s : ChannelAccessManager) (r : Reaction) : Option ChannelAccessManager :=
  match s.winner with
  | none => some s
  | some i =>
    ((s.accessGranted i).notifyAll r.notifications).map fun s' ↦
      s'.internalCollisions (s.collides i) r.slots

/-- The instant to which `RequestAccess` moves the start of an EDCA backoff: the next boundary of a
slot. -/
def slotBoundary (s : ChannelAccessManager) (x : Txop) : ℕ :=
  let accessGrantStart := s.getAccessGrantStart + x.m_aifsn * s.m_slot
  accessGrantStart +
    ((x.m_backoffStart - accessGrantStart) / s.m_slot + 1) % 2 ^ 32 * s.m_slot

/-- The first step of `RequestAccess`. -/
def alignBackoff (s : ChannelAccessManager) (x : Txop) : Txop :=
  if x.isQosTxop && decide (s.getAccessGrantStart + x.m_aifsn * s.m_slot < x.m_backoffStart) then
    x.updateBackoffSlotsNow 0 (s.slotBoundary x)
  else x

/-- `RequestAccess`, up to `NotifyAccessRequested`. -/
def accessRequested (s : ChannelAccessManager) (i : ℕ) : ChannelAccessManager :=
  let s' := updateBackoff { s with m_txops := s.m_txops.modify i s.alignBackoff }
  { s' with m_txops := s'.m_txops.modify i fun x ↦ { x with m_accessRequested := true } }

/-- `GetAccessGrantStart`, without the NAV. -/
def getAccessGrantStartIgnoringNav (s : ChannelAccessManager) : ℕ :=
  mostRecent
    [s.rxAccessStart,
      s.m_lastBusyStart + s.m_lastBusyDuration + s.m_sifs,
      s.m_lastTxStart + s.m_lastTxDuration + s.m_sifs,
      s.m_lastAckTimeoutEnd + s.m_sifs,
      s.m_lastCtsTimeoutEnd + s.m_sifs,
      s.m_lastSwitchingStart + s.m_lastSwitchingDuration + s.m_sifs]

/-- `RequestAccess` of the `Txop` `i`. In a contention-free period the access timeout becomes another
one, and one that is pending is forgotten. -/
def requestAccess (s : ChannelAccessManager) (i : ℕ) (isCfPeriod : Bool) (r : Reaction) :
    Option ChannelAccessManager :=
  match s.m_txops[i]? with
  | none => none
  | some x =>
    if s.m_sleeping || s.m_off then some s
    else if isCfPeriod then
      some { s with
        m_txops := s.m_txops.modify i fun x ↦ { x with m_accessRequested := true }
        m_accessTimeout := some (mostRecent [s.getAccessGrantStartIgnoringNav, s.now])
        pcfTxop := some i }
    else if x.m_accessRequested then none
    else ((s.accessRequested i).doGrantDcfAccess r).map doRestartAccessTimeoutIfNeeded

/-- `AccessTimeout`, or `DoGrantPcfAccess`: the event that runs is not pending any more. -/
def accessTimeout (s : ChannelAccessManager) (r : Reaction) : Option ChannelAccessManager :=
  match s.pcfTxop with
  | some i => (accessGranted { s with m_accessTimeout := none, pcfTxop := none } i).notifyAll r.notifications
  | none =>
    (doGrantDcfAccess (updateBackoff { s with m_accessTimeout := none }) r).map
      doRestartAccessTimeoutIfNeeded

def isBusy (s : ChannelAccessManager) : Bool :=
  decide (s.now < s.m_lastRxStart + s.m_lastRxDuration) ||
    decide (s.now < s.m_lastTxStart + s.m_lastTxDuration) ||
    decide (s.now < s.m_lastNavStart + s.m_lastNavDuration) ||
    decide (s.now < s.m_lastBusyStart + s.m_lastBusyDuration)

/-- What `NeedBackoffUponAccess` does to the backoff of a `Txop` without slots, if the medium is idle
and the `Txop` has no frames yet: a DCF backs off for a DIFS, and an EDCAF is aligned by
`RequestAccess`. -/
def immediateAccess (s : ChannelAccessManager) (hasFrames isCfPeriod : Bool) (x : Txop) : Txop :=
  if hasFrames = false ∧ isCfPeriod = false ∧ x.m_backoffSlots = 0 ∧ s.isBusy = false then
    x.updateBackoffSlotsNow 0
      (s.now + if x.isQosTxop then 0 else s.m_sifs + x.m_aifsn * s.m_slot)
  else x

/-- `NeedBackoffUponAccess` of the `Txop` `i`. -/
def needBackoffUponAccess (s : ChannelAccessManager) (i : ℕ) (hasFrames isCfPeriod : Bool) :
    ChannelAccessManager :=
  { s.updateBackoff with
    m_txops := s.updateBackoff.m_txops.modify i (s.immediateAccess hasFrames isCfPeriod) }

/-! ## Switching, sleep and wake-up -/

/-- What `NotifySwitchingStartNow` does to the other intervals. -/
def truncateAll (s : ChannelAccessManager) : ChannelAccessManager :=
  { s with
    m_lastRxReceivedOk := true
    m_lastRxDuration :=
      if s.now < s.m_lastRxStart + s.m_lastRxDuration then s.now - s.m_lastRxStart
      else s.m_lastRxDuration
    m_lastNavDuration :=
      if s.now < s.m_lastNavStart + s.m_lastNavDuration then s.now - s.m_lastNavStart
      else s.m_lastNavDuration
    m_lastBusyDuration :=
      if s.now < s.m_lastBusyStart + s.m_lastBusyDuration then s.now - s.m_lastBusyStart
      else s.m_lastBusyDuration
    m_lastAckTimeoutEnd := if s.now < s.m_lastAckTimeoutEnd then s.now else s.m_lastAckTimeoutEnd
    m_lastCtsTimeoutEnd := if s.now < s.m_lastCtsTimeoutEnd then s.now else s.m_lastCtsTimeoutEnd }

/-- `NotifySwitchingStartNow`: the last transmission and the last switch have ended. -/
def notifySwitchingStartNow (s : ChannelAccessManager) (duration : ℕ) :
    Option ChannelAccessManager :=
  if s.m_lastTxStart + s.m_lastTxDuration ≤ s.now ∧
      s.m_lastSwitchingStart + s.m_lastSwitchingDuration ≤ s.now then
    some { s.truncateAll with
      m_accessTimeout := none
      m_txops := s.m_txops.map fun x ↦ x.resetBackoff s.now
      m_lastSwitchingStart := s.now
      m_lastSwitchingDuration := duration }
  else none

def notifySleepNow (s : ChannelAccessManager) : ChannelAccessManager :=
  { s with m_sleeping := true, m_accessTimeout := none }

def notifyOffNow (s : ChannelAccessManager) : ChannelAccessManager :=
  { s with m_off := true, m_accessTimeout := none }

/-- The reset of the backoff of the `Txop` `i` when the manager wakes up. -/
def resetTxop (s : ChannelAccessManager) (i : ℕ) : ChannelAccessManager :=
  { s with m_txops := s.m_txops.modify i fun x ↦ x.resetBackoff s.now }

/-- The loop of `NotifyWakeupNow` and `NotifyOnNow`: the backoff of each `Txop` is reset, and the
`Txop` requests the access if it has something to send. -/
def restartAll (restarts : ℕ → Option Reaction) :
    List ℕ → ChannelAccessManager → Option ChannelAccessManager
  | [], s => some s
  | i :: is, s =>
    match restarts i with
    | none => restartAll restarts is (s.resetTxop i)
    | some r => ((s.resetTxop i).requestAccess i false r).bind (restartAll restarts is)

def notifyWakeupNow (s : ChannelAccessManager) (restarts : ℕ → Option Reaction) :
    Option ChannelAccessManager :=
  restartAll restarts (List.range s.m_txops.length) { s with m_sleeping := false }

def notifyOnNow (s : ChannelAccessManager) (restarts : ℕ → Option Reaction) :
    Option ChannelAccessManager :=
  restartAll restarts (List.range s.m_txops.length) { s with m_off := false }

/-! ## The end of a backoff while it is counted down -/

variable {s s' : ChannelAccessManager} {x : Txop}

theorem getBackoffStartFor_eq (s : ChannelAccessManager) (x : Txop) :
    s.getBackoffStartFor x =
      max x.m_backoffStart (s.getAccessGrantStart + x.m_aifsn * s.m_slot) := by
  simp [getBackoffStartFor, mostRecent]

theorem getAccessGrantStart_le_start (s : ChannelAccessManager) (x : Txop) :
    s.getAccessGrantStart ≤ s.getBackoffStartFor x := by
  rw [getBackoffStartFor_eq]
  exact (Nat.le_add_right _ _).trans (le_max_right _ _)

theorem start_le_end (s : ChannelAccessManager) (x : Txop) :
    s.getBackoffStartFor x ≤ s.getBackoffEndFor x := Nat.le_add_right _ _

theorem getAccessGrantStart_le_end (s : ChannelAccessManager) (x : Txop) :
    s.getAccessGrantStart ≤ s.getBackoffEndFor x :=
  (s.getAccessGrantStart_le_start x).trans (s.start_le_end x)

theorem end_le_of_start_le (h : s.getBackoffStartFor x ≤ s'.getBackoffStartFor x)
    (hslot : s'.m_slot = s.m_slot) :
    s.getBackoffEndFor x ≤ s'.getBackoffEndFor x := by
  rw [getBackoffEndFor, getBackoffEndFor, hslot]
  exact Nat.add_le_add_right h _

theorem start_le_of_grantStart_le (h : s.getAccessGrantStart ≤ s'.getAccessGrantStart)
    (hslot : s'.m_slot = s.m_slot) :
    s.getBackoffStartFor x ≤ s'.getBackoffStartFor x := by
  rw [getBackoffStartFor_eq, getBackoffStartFor_eq, hslot]
  exact max_le_max_left _ (Nat.add_le_add_right h _)

@[simp] theorem updateBackoffOf_accessRequested (s : ChannelAccessManager) (x : Txop) :
    (s.updateBackoffOf x).m_accessRequested = x.m_accessRequested := by
  rw [updateBackoffOf]
  split_ifs <;> rfl

theorem counted (h : s.getBackoffStartFor x ≤ s.now) :
    (s.updateBackoffOf x).m_backoffStart +
      (s.updateBackoffOf x).m_backoffSlots * s.m_slot = s.getBackoffEndFor x := by
  rw [updateBackoffOf, if_pos h]
  dsimp only [Txop.updateBackoffSlotsNow]
  rw [getBackoffEndFor, Nat.sub_mul, add_assoc,
    Nat.add_sub_cancel' (Nat.mul_le_mul_right _ (min_le_right _ _))]

/-- **Counting down does not move the end of a backoff.** -/
theorem end_updateBackoffOf (s : ChannelAccessManager) (x : Txop) :
    s.getBackoffEndFor (s.updateBackoffOf x) = s.getBackoffEndFor x := by
  by_cases h : s.getBackoffStartFor x ≤ s.now
  · rw [← counted h, getBackoffEndFor, Nat.add_right_cancel_iff, getBackoffStartFor_eq]
    apply max_eq_left
    rw [updateBackoffOf, if_pos h]
    dsimp only [Txop.updateBackoffSlotsNow]
    apply le_trans ?_ (Nat.le_add_right _ _)
    rw [getBackoffStartFor_eq]
    exact le_max_right _ _
  · rw [updateBackoffOf, if_neg h]

/-- A backoff that has been counted ends no earlier than it did, whatever the intervals become. -/
theorem end_le_of_counted (hslot : s'.m_slot = s.m_slot) (h : s.getBackoffStartFor x ≤ s.now) :
    s.getBackoffEndFor x ≤ s'.getBackoffEndFor (s.updateBackoffOf x) := by
  rw [← counted h, getBackoffEndFor, hslot]
  apply Nat.add_le_add_right
  rw [getBackoffStartFor_eq]
  exact le_max_left _ _

end ChannelAccessManager

end Wifi

end Ns3
