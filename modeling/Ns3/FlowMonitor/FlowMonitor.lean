import Ns3.Library.Machine
import Ns3.Library.OrderedMap

/-!
# The accounts of a flow monitor

A packet is tracked from its first transmission until it is received, dropped, or not heard of for too long,
and then it is counted as received or as lost. A flow has sent what it has received, what it has lost and
what is tracked of it.

The reports of a packet that is not tracked, or no longer, are not counted, except for that of a drop: it is
counted before the packet is looked up.

The histograms, and the statistics of the probes, are left out; they are written only.
-/

namespace Ns3

/-- A `FlowId`. -/
abbrev FlowId := ℕ

/-- A `FlowPacketId`. -/
abbrev FlowPacketId := ℕ

namespace FlowMonitor

/-- The key of a packet. -/
abbrev Key := FlowId ×ₗ FlowPacketId

/-- `std::make_pair (flowId, packetId)`. -/
abbrev makePair (flowId : FlowId) (packetId : FlowPacketId) : Key := toLex (flowId, packetId)

/-- The flow of a key. -/
abbrev flowOf (key : Key) : FlowId := (ofLex key).1

theorem flowOf_makePair (flowId : FlowId) (packetId : FlowPacketId) :
    flowOf (makePair flowId packetId) = flowId := rfl

/-- `TrackedPacket`. -/
structure TrackedPacket where
  firstSeenTime : ℤ
  lastSeenTime : ℤ
  timesForwarded : UInt32
  deriving DecidableEq, Repr

/-- `FlowStats`. -/
structure FlowStats where
  timeFirstTxPacket : ℤ
  timeFirstRxPacket : ℤ
  timeLastTxPacket : ℤ
  timeLastRxPacket : ℤ
  delaySum : ℤ
  jitterSum : ℤ
  lastDelay : ℤ
  txBytes : UInt64
  rxBytes : UInt64
  txPackets : UInt32
  rxPackets : UInt32
  lostPackets : UInt32
  timesForwarded : UInt32
  packetsDropped : List UInt32
  bytesDropped : List UInt64
  deriving DecidableEq, Repr

/-- The statistics of a flow that nothing has been reported of. -/
def FlowStats.init : FlowStats := ⟨0, 0, 0, 0, 0, 0, 0, 0, 0, 0, 0, 0, 0, [], []⟩

end FlowMonitor

open FlowMonitor in
/-- A `FlowMonitor`. -/
structure FlowMonitor where
  m_flowStats : List (FlowId × FlowStats)
  m_trackedPackets : List (Key × TrackedPacket)
  m_enabled : Bool

namespace FlowMonitor

/-- `GetStatsForFlow`; the entry that it makes is there when the statistics are written. -/
def getStatsForFlow (m : FlowMonitor) (flowId : FlowId) : FlowStats :=
  (OrderedMap.find flowId m.m_flowStats).getD .init

/-- The statistics of a flow are written. -/
def setStats (m : FlowMonitor) (flowId : FlowId) (stats : FlowStats) : FlowMonitor :=
  { m with m_flowStats := OrderedMap.insert flowId stats m.m_flowStats }

/-- A packet is tracked. -/
def setTracked (m : FlowMonitor) (key : Key) (tracked : TrackedPacket) : FlowMonitor :=
  { m with m_trackedPackets := OrderedMap.insert key tracked m.m_trackedPackets }

/-- A packet is no longer tracked. -/
def untrack (m : FlowMonitor) (key : Key) : FlowMonitor :=
  { m with m_trackedPackets := OrderedMap.erase key m.m_trackedPackets }

/-! ## Reports -/

/-- What `ReportFirstTx` counts. -/
def FlowStats.addTx (stats : FlowStats) (now : ℤ) (packetSize : UInt32) : FlowStats :=
  { stats with
    txBytes := stats.txBytes + packetSize.toUInt64
    txPackets := stats.txPackets + 1
    timeFirstTxPacket := if stats.txPackets + 1 = 1 then now else stats.timeFirstTxPacket
    timeLastTxPacket := now }

def reportFirstTx (m : FlowMonitor) (now : ℤ) (flowId : FlowId) (packetId : FlowPacketId)
    (packetSize : UInt32) : FlowMonitor :=
  if m.m_enabled then
    let m := m.setTracked (makePair flowId packetId) ⟨now, now, 0⟩
    m.setStats flowId ((m.getStatsForFlow flowId).addTx now packetSize)
  else m

def reportForwarding (m : FlowMonitor) (now : ℤ) (flowId : FlowId) (packetId : FlowPacketId) :
    FlowMonitor :=
  if m.m_enabled then
    match OrderedMap.find (makePair flowId packetId) m.m_trackedPackets with
    | none => m
    | some tracked => m.setTracked (makePair flowId packetId)
        { tracked with timesForwarded := tracked.timesForwarded + 1, lastSeenTime := now }
  else m

/-- What `ReportLastRx` counts. -/
def FlowStats.addRx (stats : FlowStats) (now : ℤ) (packetSize : UInt32) (tracked : TrackedPacket) :
    FlowStats :=
  let delay := now - tracked.firstSeenTime
  { stats with
    delaySum := stats.delaySum + delay
    jitterSum := if stats.rxPackets > 0 then
        if stats.lastDelay - delay > 0 then stats.jitterSum + (stats.lastDelay - delay)
        else stats.jitterSum - (stats.lastDelay - delay)
      else stats.jitterSum
    lastDelay := delay
    rxBytes := stats.rxBytes + packetSize.toUInt64
    rxPackets := stats.rxPackets + 1
    timeFirstRxPacket := if stats.rxPackets + 1 = 1 then now else stats.timeFirstRxPacket
    timeLastRxPacket := now
    timesForwarded := stats.timesForwarded + tracked.timesForwarded }

def reportLastRx (m : FlowMonitor) (now : ℤ) (flowId : FlowId) (packetId : FlowPacketId)
    (packetSize : UInt32) : FlowMonitor :=
  if m.m_enabled then
    match OrderedMap.find (makePair flowId packetId) m.m_trackedPackets with
    | none => m
    | some tracked =>
      (m.setStats flowId ((m.getStatsForFlow flowId).addRx now packetSize tracked)).untrack
        (makePair flowId packetId)
  else m

/-- `std::vector::resize`. -/
def resize {α : Type} (n : ℕ) (value : α) (l : List α) : List α :=
  l.take n ++ List.replicate (n - l.length) value

/-- What `ReportDrop` counts; `none` where an index is out of bounds. -/
def FlowStats.addDrop (stats : FlowStats) (packetSize reasonCode : UInt32) : Option FlowStats :=
  let (packetsDropped, bytesDropped) :=
    if stats.packetsDropped.length < (reasonCode + 1).toNat then
      (resize (reasonCode + 1).toNat 0 stats.packetsDropped,
        resize (reasonCode + 1).toNat 0 stats.bytesDropped)
    else (stats.packetsDropped, stats.bytesDropped)
  match packetsDropped[reasonCode.toNat]?, bytesDropped[reasonCode.toNat]? with
  | some packets, some bytes => some { stats with
      lostPackets := stats.lostPackets + 1
      packetsDropped := packetsDropped.set reasonCode.toNat (packets + 1)
      bytesDropped := bytesDropped.set reasonCode.toNat (bytes + packetSize.toUInt64) }
  | _, _ => none

def reportDrop (m : FlowMonitor) (flowId : FlowId) (packetId : FlowPacketId)
    (packetSize reasonCode : UInt32) : Option FlowMonitor :=
  if m.m_enabled then
    ((m.getStatsForFlow flowId).addDrop packetSize reasonCode).map fun stats ↦
      (m.setStats flowId stats).untrack (makePair flowId packetId)
  else some m

/-- The loop of `CheckForLostPackets`: what is still tracked, and the statistics; `none` for an assertion. -/
def checkLoop (now maxDelay : ℤ) : List (Key × TrackedPacket) → List (FlowId × FlowStats) →
    Option (List (Key × TrackedPacket) × List (FlowId × FlowStats))
  | [], stats => some ([], stats)
  | iter :: rest, stats =>
    if now - iter.2.lastSeenTime ≥ maxDelay then
      match OrderedMap.find (flowOf iter.1) stats with
      | none => none
      | some flow => checkLoop now maxDelay rest
          (OrderedMap.insert (flowOf iter.1) { flow with lostPackets := flow.lostPackets + 1 } stats)
    else (checkLoop now maxDelay rest stats).map fun r ↦ (iter :: r.1, r.2)

def checkForLostPackets (m : FlowMonitor) (now maxDelay : ℤ) : Option FlowMonitor :=
  (checkLoop now maxDelay m.m_trackedPackets m.m_flowStats).map fun r ↦
    { m with m_trackedPackets := r.1, m_flowStats := r.2 }

/-- The statistics of a flow of which some packets are tracked, and some have been received with so many
forwarding reports in all; the counters have 32 bits. -/
structure FlowStats.Balanced (stats : FlowStats) (tracked received forwarded : ℕ) : Prop where
  sent : stats.txPackets = stats.rxPackets + stats.lostPackets + UInt32.ofNat tracked
  rx : stats.rxPackets = UInt32.ofNat received
  forwards : stats.timesForwarded = UInt32.ofNat forwarded

section Counts

variable {stats : FlowStats} {t r n k : ℕ}

theorem FlowStats.Balanced.addTx (h : stats.Balanced t r n) (now : ℤ) (packetSize : UInt32) :
    (stats.addTx now packetSize).Balanced (t + 1) r n where
  sent := by
    have := h.sent
    rw [UInt32.ofNat_add, FlowStats.addTx]
    grind
  rx := h.rx
  forwards := h.forwards

theorem FlowStats.Balanced.addRx {tracked : TrackedPacket} (h : stats.Balanced (t + 1) r n)
    (hk : tracked.timesForwarded = UInt32.ofNat k) (now : ℤ) (packetSize : UInt32) :
    (stats.addRx now packetSize tracked).Balanced t (r + 1) (n + k) where
  sent := by
    have hsent := h.sent
    rw [UInt32.ofNat_add] at hsent
    rw [FlowStats.addRx]
    grind
  rx := by
    rw [UInt32.ofNat_add, ← h.rx]
    rfl
  forwards := by
    rw [UInt32.ofNat_add, ← h.forwards, ← hk]
    rfl

theorem FlowStats.Balanced.addLost {stats' : FlowStats} (h : stats.Balanced (t + 1) r n)
    (htx : stats'.txPackets = stats.txPackets) (hrx : stats'.rxPackets = stats.rxPackets)
    (hforwards : stats'.timesForwarded = stats.timesForwarded)
    (hlost : stats'.lostPackets = stats.lostPackets + 1) : stats'.Balanced t r n where
  sent := by
    have hsent := h.sent
    rw [UInt32.ofNat_add] at hsent
    rw [htx, hrx, hlost]
    grind
  rx := hrx.trans h.rx
  forwards := hforwards.trans h.forwards

theorem FlowStats.Balanced.addLost_many (m : ℕ)
    (h : stats.Balanced (t + m) r n) :
    FlowStats.Balanced { stats with lostPackets := stats.lostPackets + UInt32.ofNat m } t r n where
  sent := by
    have hsent := h.sent
    rw [UInt32.ofNat_add] at hsent
    rw [hsent]
    grind
  rx := h.rx
  forwards := h.forwards

end Counts

/-! ## Sessions -/

/-- What is called, and time that passes. -/
inductive Op
  | reportFirstTx (flowId : FlowId) (packetId : FlowPacketId) (packetSize : UInt32)
  | reportForwarding (flowId : FlowId) (packetId : FlowPacketId)
  | reportLastRx (flowId : FlowId) (packetId : FlowPacketId) (packetSize : UInt32)
  | reportDrop (flowId : FlowId) (packetId : FlowPacketId) (packetSize reasonCode : UInt32)
  | checkForLostPackets (maxDelay : ℤ)
  | wait (d : ℕ)
  deriving DecidableEq, Repr

/-- A monitor, the time, the calls with the last one first, and the packets that are counted as received, each
with its forwarding reports. -/
structure Session where
  monitor : FlowMonitor
  now : ℤ
  log : List Op
  received : List (Key × ℕ)

/-- The packet has been transmitted. -/
def Sent (log : List Op) (key : Key) : Prop :=
  ∃ packetSize, Op.reportFirstTx (ofLex key).1 (ofLex key).2 packetSize ∈ log

/-- The forwarding reports of a packet since it was transmitted. -/
def forwards (key : Key) : List Op → ℕ
  | [] => 0
  | .reportFirstTx flowId packetId _ :: log =>
    if makePair flowId packetId = key then 0 else forwards key log
  | .reportForwarding flowId packetId :: log =>
    if makePair flowId packetId = key then forwards key log + 1 else forwards key log
  | _ :: log => forwards key log

/-- The packet is tracked. -/
def Tracked (m : FlowMonitor) (key : Key) : Prop := key ∈ OrderedMap.keys m.m_trackedPackets

instance (m : FlowMonitor) (key : Key) : Decidable (m.Tracked key) :=
  inferInstanceAs (Decidable (_ ∈ _))

namespace Session

/-- A call has changed the monitor. -/
def call (s : Session) (op : Op) (monitor : FlowMonitor) : Session :=
  { s with monitor := monitor, log := op :: s.log }

/-- A step. -/
def step (s : Session) (op : Op) : Option Session :=
  match op with
  | .reportFirstTx flowId packetId packetSize =>
    some (s.call op (s.monitor.reportFirstTx s.now flowId packetId packetSize))
  | .reportForwarding flowId packetId =>
    some (s.call op (s.monitor.reportForwarding s.now flowId packetId))
  | .reportLastRx flowId packetId packetSize =>
    let key := makePair flowId packetId
    some { s.call op (s.monitor.reportLastRx s.now flowId packetId packetSize) with
      received := if s.monitor.Tracked key then (key, forwards key s.log) :: s.received else s.received }
  | .reportDrop flowId packetId packetSize reasonCode =>
    (s.monitor.reportDrop flowId packetId packetSize reasonCode).map (s.call op)
  | .checkForLostPackets maxDelay => (s.monitor.checkForLostPackets s.now maxDelay).map (s.call op)
  | .wait d => some { s with now := s.now + d }

/-- The sessions of a monitor that has been started. -/
def machine : Machine Session Op := ⟨⟨⟨[], [], true⟩, 0, [], []⟩, step⟩

/-- Whether a call is the first transmission of a packet. -/
def isFirstTx (key : Key) : Op → Bool
  | .reportFirstTx flowId packetId _ => makePair flowId packetId = key
  | _ => false

theorem sent_iff {log : List Op} {key : Key} : log.any (isFirstTx key) = true ↔ Sent log key := by
  rw [List.any_eq_true]
  constructor
  · rintro ⟨op, hmem, hop⟩
    cases op with
    | reportFirstTx flowId packetId packetSize =>
      obtain rfl := of_decide_eq_true hop
      exact ⟨packetSize, hmem⟩
    | _ => cases hop
  · rintro ⟨packetSize, hmem⟩
    exact ⟨_, hmem, decide_eq_true rfl⟩

instance (log : List Op) (key : Key) : Decidable (Sent log key) := decidable_of_iff _ sent_iff

/-- Packets are transmitted for the first time once. -/
def Distinct (s : Session) : Op → Prop
  | .reportFirstTx flowId packetId _ => ¬ Sent s.log (makePair flowId packetId)
  | _ => True

/-- Besides, drops are reported of packets that are tracked, with a reason that leaves room for one more. -/
def Fitting (s : Session) : Op → Prop
  | .reportDrop flowId packetId _ reasonCode =>
    s.monitor.Tracked (makePair flowId packetId) ∧ reasonCode ≠ 0xffffffff
  | op => s.Distinct op

instance (s : Session) (op : Op) : Decidable (s.Distinct op) := by
  unfold Distinct
  cases op <;> infer_instance

instance (s : Session) (op : Op) : Decidable (s.Fitting op) := by
  unfold Fitting
  cases op <;> infer_instance

/-! ## The balance of a flow -/

/-- How many packets of a flow are tracked. -/
def trackedOf (m : FlowMonitor) (flow : FlowId) : ℕ :=
  (OrderedMap.keys m.m_trackedPackets).countP fun key ↦ flowOf key = flow

/-- How many packets of a flow have been received. -/
def receivedOf (received : List (Key × ℕ)) (flow : FlowId) : ℕ :=
  received.countP fun x ↦ flowOf x.1 = flow

/-- The forwarding reports of the packets of a flow that have been received. -/
def forwardsOf (received : List (Key × ℕ)) (flow : FlowId) : ℕ :=
  ((received.filter fun x ↦ flowOf x.1 = flow).map Prod.snd).sum

/-- The accounts of a flow balance. -/
def Balanced (s : Session) (flow : FlowId) : Prop :=
  (s.monitor.getStatsForFlow flow).Balanced (trackedOf s.monitor flow)
    (receivedOf s.received flow) (forwardsOf s.received flow)

/-- The accounts, with what the steps need. -/
structure Accounts (s : Session) : Prop where
  enabled : s.monitor.m_enabled = true
  sorted : OrderedMap.Sorted s.monitor.m_trackedPackets
  stats : ∀ key, s.monitor.Tracked key → flowOf key ∈ OrderedMap.keys s.monitor.m_flowStats
  sent : ∀ key, s.monitor.Tracked key → Sent s.log key
  count : ∀ key tracked, OrderedMap.find key s.monitor.m_trackedPackets = some tracked →
    tracked.timesForwarded = UInt32.ofNat (forwards key s.log)
  dropped : ∀ flow, (s.monitor.getStatsForFlow flow).packetsDropped.length =
    (s.monitor.getStatsForFlow flow).bytesDropped.length
  balanced : ∀ flow, s.Balanced flow

end Session

/-! ## What is written -/

section Writes

variable {m : FlowMonitor} {flow flow' : FlowId} {key key' : Key} {stats : FlowStats}
  {tracked : TrackedPacket}

theorem getStatsForFlow_setStats : (m.setStats flow stats).getStatsForFlow flow' =
    if flow' = flow then stats else m.getStatsForFlow flow' := by
  rw [getStatsForFlow, setStats, OrderedMap.find_insert]
  split_ifs <;> rfl

@[simp] theorem getStatsForFlow_untrack : (m.untrack key).getStatsForFlow flow =
    m.getStatsForFlow flow := rfl

theorem tracked_of_find (h : OrderedMap.find key m.m_trackedPackets = some tracked) : m.Tracked key := by
  by_contra hnone
  rw [OrderedMap.find_eq_none.mpr hnone] at h
  cases h

theorem tracked_setTracked : (m.setTracked key tracked).Tracked key' ↔ key' = key ∨ m.Tracked key' :=
  OrderedMap.mem_keys_insert key tracked _

theorem tracked_untrack : (m.untrack key).Tracked key' ↔ m.Tracked key' ∧ key' ≠ key :=
  OrderedMap.mem_keys_erase key _

theorem trackedOf_setTracked_new (h : ¬ m.Tracked key) (tracked : TrackedPacket) (flow : FlowId) :
    Session.trackedOf (m.setTracked key tracked) flow =
      Session.trackedOf m flow + if flowOf key = flow then 1 else 0 := by
  rw [Session.trackedOf, setTracked, (OrderedMap.keys_insert_perm tracked h).countP_eq,
    List.countP_cons, Session.trackedOf]
  simp

theorem trackedOf_setTracked_old (hs : OrderedMap.Sorted m.m_trackedPackets) (h : m.Tracked key)
    (tracked : TrackedPacket) (flow : FlowId) :
    Session.trackedOf (m.setTracked key tracked) flow = Session.trackedOf m flow := by
  rw [Session.trackedOf, setTracked, hs.keys_insert tracked h, Session.trackedOf]

theorem trackedOf_untrack (hs : OrderedMap.Sorted m.m_trackedPackets) (h : m.Tracked key)
    (flow : FlowId) : Session.trackedOf m flow =
      Session.trackedOf (m.untrack key) flow + if flowOf key = flow then 1 else 0 := by
  rw [Session.trackedOf, (hs.keys_erase_perm h).countP_eq, List.countP_cons, Session.trackedOf]
  simp [untrack]

end Writes

/-! ## Steps -/

namespace Session

variable {s s' : Session} {flow : FlowId}

theorem sent_cons {log : List Op} {key : Key} (h : Sent log key) (op : Op) : Sent (op :: log) key := by
  obtain ⟨packetSize, hmem⟩ := h
  exact ⟨packetSize, List.mem_cons_of_mem op hmem⟩

theorem Accounts.reportFirstTx (h : Accounts s) {flowId : FlowId} {packetId : FlowPacketId}
    (hnew : ¬ Sent s.log (makePair flowId packetId)) (packetSize : UInt32) :
    Accounts (s.call (.reportFirstTx flowId packetId packetSize)
      (s.monitor.reportFirstTx s.now flowId packetId packetSize)) := by
  have huntracked : ¬ s.monitor.Tracked (makePair flowId packetId) := fun ht ↦ hnew (h.sent _ ht)
  have hm : s.monitor.reportFirstTx s.now flowId packetId packetSize =
      (s.monitor.setTracked (makePair flowId packetId) ⟨s.now, s.now, 0⟩).setStats flowId
        ((s.monitor.getStatsForFlow flowId).addTx s.now packetSize) := by
    rw [FlowMonitor.reportFirstTx, if_pos h.enabled]
    rfl
  rw [hm]
  constructor
  · exact h.enabled
  · exact h.sorted.insert _ _
  · intro key hkey
    refine (OrderedMap.mem_keys_insert _ _ _).mpr ?_
    rcases tracked_setTracked.mp hkey with rfl | hkey
    · exact Or.inl rfl
    · exact Or.inr (h.stats key hkey)
  · intro key hkey
    rcases tracked_setTracked.mp hkey with rfl | hkey
    · exact ⟨packetSize, List.mem_cons_self⟩
    · exact sent_cons (h.sent key hkey) _
  · intro key tracked hfind
    change OrderedMap.find key (OrderedMap.insert _ _ _) = _ at hfind
    change tracked.timesForwarded = UInt32.ofNat (forwards key (Op.reportFirstTx _ _ _ :: s.log))
    rw [OrderedMap.find_insert] at hfind
    rw [forwards]
    by_cases hkey : key = makePair flowId packetId
    · rw [if_pos hkey, Option.some_inj] at hfind
      rw [if_pos hkey.symm, ← hfind]
      rfl
    · rw [if_neg hkey] at hfind
      rw [if_neg (Ne.symm hkey)]
      exact h.count key tracked hfind
  · intro flow
    rw [call, getStatsForFlow_setStats]
    split_ifs with hf
    · exact h.dropped flowId
    · exact h.dropped flow
  · intro flow
    have htracked := trackedOf_setTracked_new huntracked ⟨s.now, s.now, 0⟩ flow
    change (FlowMonitor.getStatsForFlow (setStats _ _ _) flow).Balanced
      (trackedOf (setTracked _ _ _) flow) (receivedOf s.received flow) (forwardsOf s.received flow)
    rw [getStatsForFlow_setStats, htracked, flowOf_makePair]
    by_cases hf : flow = flowId
    · rw [if_pos hf, if_pos hf.symm, hf]
      exact (h.balanced flowId).addTx _ _
    · rw [if_neg hf, if_neg (Ne.symm hf)]
      exact h.balanced flow

/-- A call that leaves the monitor as it is, and does not report a forwarding of a tracked packet. -/
theorem Accounts.call_self (h : Accounts s) {op : Op}
    (hop : ∀ key, s.monitor.Tracked key → forwards key (op :: s.log) = forwards key s.log) :
    Accounts (s.call op s.monitor) where
  enabled := h.enabled
  sorted := h.sorted
  stats := h.stats
  sent key hkey := sent_cons (h.sent key hkey) op
  count key tracked hfind := by
    have hkey : s.monitor.Tracked key := tracked_of_find hfind
    change _ = UInt32.ofNat (forwards key (op :: s.log))
    rw [hop key hkey]
    exact h.count key tracked hfind
  dropped := h.dropped
  balanced := h.balanced

theorem Accounts.reportForwarding (h : Accounts s) (flowId : FlowId) (packetId : FlowPacketId) :
    Accounts (s.call (.reportForwarding flowId packetId)
      (s.monitor.reportForwarding s.now flowId packetId)) := by
  rw [FlowMonitor.reportForwarding, if_pos h.enabled]
  cases hfind : OrderedMap.find (makePair flowId packetId) s.monitor.m_trackedPackets with
  | none =>
    refine h.call_self fun key hkey ↦ ?_
    rw [forwards, if_neg]
    rintro rfl
    exact OrderedMap.find_eq_none.mp hfind hkey
  | some tracked =>
    have htracked : s.monitor.Tracked (makePair flowId packetId) := tracked_of_find hfind
    have hsame : ∀ key, (s.monitor.setTracked (makePair flowId packetId)
        { tracked with timesForwarded := tracked.timesForwarded + 1, lastSeenTime := s.now }).Tracked key ↔
          s.monitor.Tracked key := fun key ↦ by
      rw [tracked_setTracked]
      exact or_iff_right_of_imp fun hkey ↦ hkey ▸ htracked
    constructor
    · exact h.enabled
    · exact h.sorted.insert _ _
    · exact fun key hkey ↦ h.stats key ((hsame key).mp hkey)
    · exact fun key hkey ↦ sent_cons (h.sent key ((hsame key).mp hkey)) _
    · intro key tracked' hfind'
      change OrderedMap.find key (OrderedMap.insert _ _ _) = _ at hfind'
      change tracked'.timesForwarded = UInt32.ofNat (forwards key (Op.reportForwarding _ _ :: s.log))
      rw [OrderedMap.find_insert] at hfind'
      rw [forwards]
      by_cases hkey : key = makePair flowId packetId
      · rw [if_pos hkey, Option.some_inj] at hfind'
        rw [if_pos hkey.symm, UInt32.ofNat_add, ← hfind', hkey, ← h.count _ tracked hfind]
        rfl
      · rw [if_neg hkey] at hfind'
        rw [if_neg (Ne.symm hkey)]
        exact h.count key tracked' hfind'
    · exact h.dropped
    · intro flow
      change (s.monitor.getStatsForFlow flow).Balanced (trackedOf (setTracked _ _ _) flow)
        (receivedOf s.received flow) (forwardsOf s.received flow)
      rw [trackedOf_setTracked_old h.sorted htracked]
      exact h.balanced flow

/-- A tracked packet is counted, as received or as lost, and it is tracked no longer. -/
theorem Accounts.settle (h : Accounts s) {key : Key} (hkey : s.monitor.Tracked key) (op : Op)
    (hop : ∀ key, forwards key (op :: s.log) = forwards key s.log) {stats : FlowStats}
    (hdropped : stats.packetsDropped.length = stats.bytesDropped.length) {received : List (Key × ℕ)}
    (hstats : stats.Balanced (trackedOf (s.monitor.untrack key) (flowOf key))
      (receivedOf received (flowOf key)) (forwardsOf received (flowOf key)))
    (hreceived : ∀ flow, flow ≠ flowOf key → receivedOf received flow = receivedOf s.received flow ∧
      forwardsOf received flow = forwardsOf s.received flow) :
    Accounts { s.call op ((s.monitor.setStats (flowOf key) stats).untrack key) with
      received := received } := by
  have hrest : ∀ key', ((s.monitor.setStats (flowOf key) stats).untrack key).Tracked key' →
      s.monitor.Tracked key' := fun key' hkey' ↦ (tracked_untrack.mp hkey').1
  constructor
  · exact h.enabled
  · exact h.sorted.erase key
  · exact fun key' hkey' ↦
      (OrderedMap.mem_keys_insert _ _ _).mpr (Or.inr (h.stats key' (hrest key' hkey')))
  · exact fun key' hkey' ↦ sent_cons (h.sent key' (hrest key' hkey')) op
  · intro key' tracked hfind
    change _ = UInt32.ofNat (forwards key' (op :: s.log))
    rw [hop]
    refine h.count key' tracked ?_
    exact (h.sorted.find_eq_some).mpr
      (List.mem_filter.mp ((h.sorted.erase key).find_eq_some.mp hfind)).1
  · intro flow
    rw [call, getStatsForFlow_untrack, getStatsForFlow_setStats]
    split_ifs with hf
    · exact hdropped
    · exact h.dropped flow
  · intro flow
    rw [Balanced, call, getStatsForFlow_untrack, getStatsForFlow_setStats]
    by_cases hf : flow = flowOf key
    · rw [if_pos hf, hf]
      exact hstats
    · obtain ⟨hr, hn⟩ := hreceived flow hf
      have htracked := trackedOf_untrack h.sorted hkey flow
      rw [if_neg (Ne.symm hf), Nat.add_zero] at htracked
      rw [if_neg hf]
      have hbalanced := h.balanced flow
      rw [Balanced, htracked, ← hr, ← hn] at hbalanced
      exact hbalanced

theorem Accounts.reportLastRx (h : Accounts s) (flowId : FlowId) (packetId : FlowPacketId)
    (packetSize : UInt32) (hs : s.step (.reportLastRx flowId packetId packetSize) = some s') :
    Accounts s' := by
  rw [step, Option.some_inj] at hs
  subst hs
  rw [FlowMonitor.reportLastRx, if_pos h.enabled]
  cases hfind : OrderedMap.find (makePair flowId packetId) s.monitor.m_trackedPackets with
  | none =>
    have hnone : ¬ s.monitor.Tracked (makePair flowId packetId) := OrderedMap.find_eq_none.mp hfind
    rw [if_neg hnone]
    exact h.call_self fun _ _ ↦ rfl
  | some tracked =>
    have htracked : s.monitor.Tracked (makePair flowId packetId) := tracked_of_find hfind
    rw [if_pos htracked]
    have hcount := trackedOf_untrack h.sorted htracked flowId
    rw [flowOf_makePair, if_pos rfl] at hcount
    have hbalanced := h.balanced flowId
    rw [Balanced, hcount] at hbalanced
    have hrx := hbalanced.addRx (h.count _ tracked hfind) s.now packetSize
    have hdropped : ((s.monitor.getStatsForFlow flowId).addRx s.now packetSize tracked).packetsDropped.length =
        ((s.monitor.getStatsForFlow flowId).addRx s.now packetSize tracked).bytesDropped.length :=
      h.dropped flowId
    refine h.settle htracked (.reportLastRx flowId packetId packetSize) (fun _ ↦ rfl) hdropped ?_
      fun flow hf ↦ ?_
    · rw [receivedOf, forwardsOf, List.countP_cons, List.filter_cons, flowOf_makePair, decide_eq_true rfl,
        if_pos rfl, if_pos rfl, List.map_cons, List.sum_cons, Nat.add_comm (forwards _ _)]
      exact hrx
    · have hne : ¬ flowOf (makePair flowId packetId) = flow := Ne.symm hf
      rw [receivedOf, forwardsOf, List.countP_cons, List.filter_cons, decide_eq_false hne,
        if_neg Bool.false_ne_true, if_neg Bool.false_ne_true]
      exact ⟨rfl, rfl⟩

theorem length_resize {α : Type} (n : ℕ) (value : α) {l : List α} (h : l.length ≤ n) :
    (resize n value l).length = n := by
  rw [resize, List.length_append, List.length_take, List.length_replicate]
  omega

theorem addDrop_spec {stats : FlowStats} (h : stats.packetsDropped.length = stats.bytesDropped.length)
    (packetSize : UInt32) {reasonCode : UInt32} (hreason : reasonCode ≠ 0xffffffff) :
    ∃ stats', stats.addDrop packetSize reasonCode = some stats' ∧
      stats'.txPackets = stats.txPackets ∧ stats'.rxPackets = stats.rxPackets ∧
      stats'.timesForwarded = stats.timesForwarded ∧ stats'.lostPackets = stats.lostPackets + 1 ∧
      stats'.packetsDropped.length = stats'.bytesDropped.length := by
  have hnext : (reasonCode + 1).toNat = reasonCode.toNat + 1 := by
    have hlt := reasonCode.toNat_lt
    have hne : reasonCode.toNat ≠ 2 ^ 32 - 1 := fun heq ↦ hreason (UInt32.toNat_inj.mp heq)
    rw [UInt32.toNat_add, show (1 : UInt32).toNat = 1 from rfl]
    omega
  rw [FlowStats.addDrop, hnext]
  by_cases hgrow : stats.packetsDropped.length < reasonCode.toNat + 1
  · have hlen := length_resize (reasonCode.toNat + 1) (0 : UInt32) (Nat.le_of_lt hgrow)
    have hlen' := length_resize (reasonCode.toNat + 1) (0 : UInt64) (h ▸ Nat.le_of_lt hgrow)
    rw [if_pos hgrow]
    dsimp only
    rw [List.getElem?_eq_getElem (by omega), List.getElem?_eq_getElem (by omega)]
    refine ⟨_, rfl, rfl, rfl, rfl, rfl, ?_⟩
    dsimp only
    rw [List.length_set, List.length_set, hlen, hlen']
  · rw [if_neg hgrow]
    dsimp only
    rw [List.getElem?_eq_getElem (by omega), List.getElem?_eq_getElem (by omega)]
    refine ⟨_, rfl, rfl, rfl, rfl, rfl, ?_⟩
    dsimp only
    rw [List.length_set, List.length_set, h]

theorem Accounts.reportDrop (h : Accounts s) {flowId : FlowId} {packetId : FlowPacketId}
    (htracked : s.monitor.Tracked (makePair flowId packetId)) (packetSize : UInt32) {reasonCode : UInt32}
    (hreason : reasonCode ≠ 0xffffffff) :
    ∃ s', s.step (.reportDrop flowId packetId packetSize reasonCode) = some s' ∧ Accounts s' := by
  obtain ⟨stats, hstats, htx, hrx, hforwards, hlost, hdropped⟩ :=
    addDrop_spec (h.dropped flowId) packetSize hreason
  have hcount := trackedOf_untrack h.sorted htracked flowId
  rw [flowOf_makePair, if_pos rfl] at hcount
  have hbalanced := h.balanced flowId
  rw [Balanced, hcount] at hbalanced
  refine ⟨_, ?_, h.settle htracked (.reportDrop flowId packetId packetSize reasonCode) (fun _ ↦ rfl)
    hdropped (hbalanced.addLost htx hrx hforwards hlost) fun _ _ ↦ ⟨rfl, rfl⟩⟩
  rw [step, FlowMonitor.reportDrop, if_pos h.enabled, hstats]
  rfl

/-! ## The sweep -/

theorem checkLoop_spec (now maxDelay : ℤ) (tracked : List (Key × TrackedPacket))
    (flowStats : List (FlowId × FlowStats))
    (hflows : ∀ key ∈ OrderedMap.keys tracked, flowOf key ∈ OrderedMap.keys flowStats) :
    ∃ tracked' flowStats', checkLoop now maxDelay tracked flowStats = some (tracked', flowStats') ∧
      tracked'.Sublist tracked ∧
      (∀ flow, flow ∈ OrderedMap.keys flowStats → flow ∈ OrderedMap.keys flowStats') ∧
      ∀ flow, ∃ n,
        (OrderedMap.keys tracked).countP (fun key ↦ flowOf key = flow) =
          (OrderedMap.keys tracked').countP (fun key ↦ flowOf key = flow) + n ∧
        (OrderedMap.find flow flowStats').getD .init =
          { (OrderedMap.find flow flowStats).getD .init with
            lostPackets := ((OrderedMap.find flow flowStats).getD .init).lostPackets + UInt32.ofNat n } := by
  induction tracked generalizing flowStats with
  | nil =>
    exact ⟨[], flowStats, rfl, List.Sublist.slnil, fun _ h ↦ h, fun flow ↦ ⟨0, rfl, by simp⟩⟩
  | cons iter rest ih =>
    have hfirst := hflows iter.1 List.mem_cons_self
    have hrest : ∀ key ∈ OrderedMap.keys rest, flowOf key ∈ OrderedMap.keys flowStats :=
      fun key hkey ↦ hflows key (List.mem_cons_of_mem _ hkey)
    rw [checkLoop]
    by_cases hold : now - iter.2.lastSeenTime ≥ maxDelay
    · rw [if_pos hold]
      obtain ⟨stats, hstats⟩ : ∃ stats, OrderedMap.find (flowOf iter.1) flowStats = some stats :=
        Option.ne_none_iff_exists'.mp fun hnone ↦ OrderedMap.find_eq_none.mp hnone hfirst
      rw [hstats]
      obtain ⟨tracked', flowStats', hloop, hsub, hkeys, hflow⟩ := ih
        (OrderedMap.insert (flowOf iter.1) { stats with lostPackets := stats.lostPackets + 1 } flowStats)
        fun key hkey ↦ (OrderedMap.mem_keys_insert _ _ _).mpr (Or.inr (hrest key hkey))
      refine ⟨tracked', flowStats', hloop, hsub.cons iter, fun flow hf ↦
        hkeys flow ((OrderedMap.mem_keys_insert _ _ _).mpr (Or.inr hf)), fun flow ↦ ?_⟩
      obtain ⟨n, hcount, hlost⟩ := hflow flow
      rw [OrderedMap.find_insert] at hlost
      rw [OrderedMap.keys_cons, List.countP_cons, hcount]
      by_cases hf : flow = flowOf iter.1
      · refine ⟨n + 1, ?_, ?_⟩
        · rw [if_pos (decide_eq_true hf.symm), Nat.add_assoc]
        · rw [if_pos hf, Option.getD_some] at hlost
          rw [hlost, hf, hstats, Option.getD_some, UInt32.ofNat_add, UInt32.add_assoc,
            UInt32.add_comm 1]
          rfl
      · refine ⟨n, ?_, ?_⟩
        · rw [if_neg fun h ↦ hf (of_decide_eq_true h).symm, Nat.add_zero]
        · rw [if_neg hf] at hlost
          exact hlost
    · rw [if_neg hold]
      obtain ⟨tracked', flowStats', hloop, hsub, hkeys, hflow⟩ := ih flowStats hrest
      refine ⟨iter :: tracked', flowStats', ?_, hsub.cons_cons iter, hkeys, fun flow ↦ ?_⟩
      · rw [hloop]
        rfl
      · obtain ⟨n, hcount, hlost⟩ := hflow flow
        refine ⟨n, ?_, hlost⟩
        rw [OrderedMap.keys_cons, OrderedMap.keys_cons, List.countP_cons, List.countP_cons, hcount,
          Nat.add_right_comm]

theorem Accounts.checkForLostPackets (h : Accounts s) (maxDelay : ℤ) :
    ∃ s', s.step (.checkForLostPackets maxDelay) = some s' ∧ Accounts s' := by
  have hflows : ∀ key ∈ OrderedMap.keys s.monitor.m_trackedPackets,
      flowOf key ∈ OrderedMap.keys s.monitor.m_flowStats := h.stats
  obtain ⟨tracked', flowStats', hloop, hsub, hkeys, hflow⟩ :=
    checkLoop_spec s.now maxDelay s.monitor.m_trackedPackets s.monitor.m_flowStats hflows
  have hrest : ∀ key, key ∈ OrderedMap.keys tracked' → s.monitor.Tracked key :=
    fun key hkey ↦ (hsub.map Prod.fst).subset hkey
  have hsorted : OrderedMap.Sorted tracked' := List.Pairwise.sublist (hsub.map Prod.fst) h.sorted
  refine ⟨s.call (.checkForLostPackets maxDelay)
    { s.monitor with m_trackedPackets := tracked', m_flowStats := flowStats' }, ?_, ?_⟩
  · rw [step, FlowMonitor.checkForLostPackets, hloop]
    rfl
  constructor
  · exact h.enabled
  · exact hsorted
  · exact fun key hkey ↦ hkeys _ (h.stats key (hrest key hkey))
  · exact fun key hkey ↦ sent_cons (h.sent key (hrest key hkey)) _
  · intro key tracked hfind
    have hmem : (key, tracked) ∈ s.monitor.m_trackedPackets :=
      hsub.subset (hsorted.find_eq_some.mp hfind)
    exact h.count key tracked (h.sorted.find_eq_some.mpr hmem)
  · intro flow
    obtain ⟨n, -, hlost⟩ := hflow flow
    change ((OrderedMap.find flow flowStats').getD .init).packetsDropped.length = _
    rw [getStatsForFlow, call, hlost]
    exact h.dropped flow
  · intro flow
    obtain ⟨n, hcount, hlost⟩ := hflow flow
    have hbalanced := h.balanced flow
    rw [Balanced, trackedOf, hcount] at hbalanced
    rw [Balanced, getStatsForFlow, call, hlost]
    exact hbalanced.addLost_many n

theorem Accounts.step (h : Accounts s) {op : Op} (hop : s.Fitting op) :
    ∃ s', s.step op = some s' ∧ Accounts s' := by
  cases op with
  | reportFirstTx flowId packetId packetSize => exact ⟨_, rfl, h.reportFirstTx hop packetSize⟩
  | reportForwarding flowId packetId => exact ⟨_, rfl, h.reportForwarding flowId packetId⟩
  | reportLastRx flowId packetId packetSize => exact ⟨_, rfl, h.reportLastRx flowId packetId packetSize rfl⟩
  | reportDrop flowId packetId packetSize reasonCode => exact h.reportDrop hop.1 packetSize hop.2
  | checkForLostPackets maxDelay => exact h.checkForLostPackets maxDelay
  | wait d => exact ⟨_, rfl, h.enabled, h.sorted, h.stats, h.sent, h.count, h.dropped, h.balanced⟩

end Session

end FlowMonitor

end Ns3
