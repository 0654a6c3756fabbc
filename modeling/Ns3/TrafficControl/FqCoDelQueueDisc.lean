import Ns3.Library.Machine
import Ns3.TrafficControl.CoDelQueueDisc

/-!
# The FQ-CoDel queue discipline

Packets are hashed into flows, each with a CoDel queue of its own and a deficit in bytes. Flows that have
become active are in one list and those that have been served before in another; the flow in front is
served while its deficit is positive, and gets a quantum and goes to the back of the old flows when it is
not. When there are too many packets, some of the flow with the most bytes are dropped.

The number of bytes of a queue is counted in 32 bits. When every queue has a multiple of `2 ^ 32` bytes
there is no fat flow, and packets are dropped from the first class, which may be empty.
-/

namespace Ns3

namespace TrafficControl

namespace FqCoDel

/-- The attributes, with the times in ns. -/
structure Attributes where
  m_useEcn : Bool
  m_interval : ℕ
  m_target : ℕ
  maxSize : ℕ
  m_flows : ℕ
  m_dropBatchSize : ℕ
  m_ceThreshold : ℕ
  m_enableSetAssociativeHash : Bool
  m_setWays : ℕ
  m_quantum : ℕ

/-- The default values, with a quantum. -/
def defaults (quantum : ℕ) : Attributes where
  m_useEcn := true
  m_interval := 100000000
  m_target := 5000000
  maxSize := 10240
  m_flows := 1024
  m_dropBatchSize := 64
  m_ceThreshold := 2 ^ 63 - 1
  m_enableSetAssociativeHash := false
  m_setWays := 8
  m_quantum := quantum

/-- The attributes of the queue of a flow. -/
def Attributes.codel (cfg : Attributes) : CoDel.Attributes where
  m_useEcn := cfg.m_useEcn
  maxSizeUnit := .PACKETS
  maxSize := cfg.maxSize
  m_minBytes := CoDel.defaults.m_minBytes
  m_interval := cfg.m_interval
  m_target := cfg.m_target
  m_ceThreshold := cfg.m_ceThreshold

inductive FlowStatus where
  | INACTIVE
  | NEW_FLOW
  | OLD_FLOW
deriving DecidableEq

/-- How a call ends. -/
inductive Outcome (α : Type) where
  | done (a : α)
  | nullPointer
  | divisionByZero
  | unfinished

instance {α : Type} : ∀ o : Outcome α, Decidable (o = .nullPointer)
  | .done _ => isFalse nofun
  | .nullPointer => isTrue rfl
  | .divisionByZero => isFalse nofun
  | .unfinished => isFalse nofun

end FqCoDel

open FqCoDel CoDelQueueDisc

/-- A `FqCoDelFlow`. -/
structure FqCoDelFlow where
  m_queueDisc : CoDelQueueDisc
  m_deficit : ℤ
  m_status : FlowStatus
  m_index : ℕ
deriving DecidableEq

namespace FqCoDelFlow

/-- The conversion to a signed number of 32 bits. -/
def toInt32 (z : ℤ) : ℤ := Int.bmod z (2 ^ 32)

/-- The constructor, with the queue and the index that `DoEnqueue` sets. -/
def create (index : ℕ) : FqCoDelFlow where
  m_queueDisc := CoDelQueueDisc.create
  m_deficit := 0
  m_status := .INACTIVE
  m_index := index

def setDeficit (f : FqCoDelFlow) (deficit : ℕ) : FqCoDelFlow :=
  { f with m_deficit := toInt32 deficit }

def increaseDeficit (f : FqCoDelFlow) (deficit : ℤ) : FqCoDelFlow :=
  { f with m_deficit := toInt32 (f.m_deficit + toInt32 deficit) }

def setStatus (f : FqCoDelFlow) (status : FlowStatus) : FqCoDelFlow := { f with m_status := status }

end FqCoDelFlow

/-- A `FqCoDelQueueDisc`. A flow is named by the number of its class. -/
structure FqCoDelQueueDisc where
  nClasses : ℕ
  flow : ℕ → FqCoDelFlow
  m_nPackets : ℕ
  m_flowsIndices : ℕ → Option ℕ
  m_tags : ℕ → Option ℕ
  m_newFlows : List ℕ
  m_oldFlows : List ℕ

namespace FqCoDelQueueDisc

/-- A disc without classes. -/
def create : FqCoDelQueueDisc where
  nClasses := 0
  flow _ := FqCoDelFlow.create 0
  m_nPackets := 0
  m_flowsIndices _ := none
  m_tags _ := none
  m_newFlows := []
  m_oldFlows := []

/-- The packets that a flow holds. -/
def queue (s : FqCoDelQueueDisc) (i : ℕ) : List QueueDiscItem := (s.flow i).m_queueDisc.queue

def setFlow (s : FqCoDelQueueDisc) (i : ℕ) (f : FqCoDelFlow) : FqCoDelQueueDisc :=
  { s with flow := Function.update s.flow i f }

/-- The queue of a flow after a call to it, with the packets of the disc counted as the traces of the
queue tell it. -/
def setQueueDisc (s : FqCoDelQueueDisc) (i : ℕ) (qd : CoDelQueueDisc) : FqCoDelQueueDisc :=
  { s.setFlow i { s.flow i with m_queueDisc := qd } with
    m_nPackets := sub32 (add32 s.m_nPackets qd.queue.length) (s.queue i).length }

/-! ## Enqueueing -/

/-- The loop of `SetAssociativeHash`, which has `n` queues of the set still to look at. -/
def findQueue (s : FqCoDelQueueDisc) (flowHash : ℕ) : ℕ → ℕ → Option ℕ
  | 0, _ => none
  | n + 1, i =>
    match s.m_flowsIndices i with
    | none => some i
    | some j =>
      if s.m_tags i = some flowHash ∨ (s.flow j).m_status = .INACTIVE then some i
      else findQueue s flowHash n (i + 1)

def setAssociativeHash (cfg : Attributes) (s : FqCoDelQueueDisc) (flowHash : ℕ) :
    ℕ × FqCoDelQueueDisc :=
  let h := flowHash % cfg.m_flows
  let outerHash := h - h % cfg.m_setWays
  let i := (s.findQueue flowHash cfg.m_setWays outerHash).getD outerHash
  (i, { s with m_tags := Function.update s.m_tags i (some flowHash) })

/-- The index of the queue of a packet. -/
def hash (cfg : Attributes) (s : FqCoDelQueueDisc) (flowHash : ℕ) : ℕ × FqCoDelQueueDisc :=
  if cfg.m_enableSetAssociativeHash then s.setAssociativeHash cfg flowHash
  else (flowHash % cfg.m_flows, s)

/-- The class of an index, which is created if there is none. -/
def getFlow (s : FqCoDelQueueDisc) (h : ℕ) : ℕ × FqCoDelQueueDisc :=
  match s.m_flowsIndices h with
  | none =>
    (s.nClasses,
      { s.setFlow s.nClasses (FqCoDelFlow.create h) with
        nClasses := s.nClasses + 1
        m_flowsIndices := Function.update s.m_flowsIndices h (some s.nClasses) })
  | some i => (i, s)

/-- A flow that is not active becomes a new one. -/
def activate (cfg : Attributes) (s : FqCoDelQueueDisc) (i : ℕ) : FqCoDelQueueDisc :=
  if (s.flow i).m_status = .INACTIVE then
    { s.setFlow i (((s.flow i).setStatus .NEW_FLOW).setDeficit cfg.m_quantum) with
      m_newFlows := s.m_newFlows ++ [i] }
  else s

/-- `Enqueue` of the queue of a flow. -/
def enqueueFlow (cfg : Attributes) (s : FqCoDelQueueDisc) (i : ℕ) (p : Packet) (t : ℕ) :
    FqCoDelQueueDisc × List Event :=
  let r := (s.flow i).m_queueDisc.doEnqueue cfg.codel p t
  (s.setQueueDisc i r.1, r.2)

/-- The loop of `FqCoDelDrop` over the classes: the number of bytes of the fat flow, and its class. -/
def fatFlow (s : FqCoDelQueueDisc) : ℕ × ℕ :=
  (List.range s.nClasses).foldl
    (fun m i ↦ if m.1 < nBytes (s.queue i) then (nBytes (s.queue i), i) else m) (0, 0)

/-- The loop of `FqCoDelDrop` over the packets of the fat flow; `none` if it dereferences a null
pointer. -/
def dropBatch (cfg : Attributes) (threshold : ℕ) : List QueueDiscItem → ℕ → ℕ →
    Option (List Event × List QueueDiscItem)
  | [], _, _ => none
  | item :: queue, len, count =>
    if count + 1 < cfg.m_dropBatchSize ∧ add32 len item.packet.size < threshold then
      (dropBatch cfg threshold queue (add32 len item.packet.size) (count + 1)).map fun r ↦
        (.drop item.packet .OVERLIMIT_DROP :: r.1, r.2)
    else some ([.drop item.packet .OVERLIMIT_DROP], queue)

def fqCoDelDrop (cfg : Attributes) (s : FqCoDelQueueDisc) :
    Option (FqCoDelQueueDisc × List Event) :=
  let m := s.fatFlow
  (dropBatch cfg (m.1 >>> 1) (s.queue m.2) 0 0).map fun r ↦
    (s.setQueueDisc m.2 { (s.flow m.2).m_queueDisc with queue := r.2 }, r.1)

/-- The disc of `DoEnqueue` before it looks for overload. -/
def beforeDrop (cfg : Attributes) (s : FqCoDelQueueDisc) (p : Packet) (flowHash t : ℕ) :
    FqCoDelQueueDisc × List Event :=
  let h := s.hash cfg flowHash
  let g := h.2.getFlow h.1
  (g.2.activate cfg g.1).enqueueFlow cfg g.1 p t

/-- `DoEnqueue` of a packet, with the hash that it is classified by, if it is. -/
def doEnqueue (cfg : Attributes) (s : FqCoDelQueueDisc) (p : Packet) (flowHash : Option ℕ) (t : ℕ) :
    Outcome (FqCoDelQueueDisc × List Event) :=
  match flowHash with
  | none => .done (s, [.drop p .UNCLASSIFIED_DROP])
  | some flowHash =>
    if cfg.m_flows = 0 ∨ cfg.m_enableSetAssociativeHash ∧ cfg.m_setWays = 0 then .divisionByZero
    else
      let r := s.beforeDrop cfg p flowHash t
      if cfg.maxSize < r.1.m_nPackets then
        match r.1.fqCoDelDrop cfg with
        | none => .nullPointer
        | some r' => .done (r'.1, r.2 ++ r'.2)
      else .done r

/-! ## Dequeueing -/

/-- What one turn of the loops of `DoDequeue` comes to. -/
inductive Turn where
  | next (s : FqCoDelQueueDisc)
  | stop (s : FqCoDelQueueDisc) (events : List Event) (item : Option (ℕ × Packet))
  | nullPointer

/-- A packet is asked for from a flow with a positive deficit, at the front of the new flows if there are
any, or else of the old ones. -/
def serve (cfg : Attributes) (s : FqCoDelQueueDisc) (i : ℕ) (t : ℕ) : Turn :=
  match (s.flow i).m_queueDisc.doDequeue cfg.codel t with
  | none => .nullPointer
  | some (qd, events) =>
    let s' := s.setQueueDisc i qd
    match returned events with
    | none =>
      .next
        (if s.m_newFlows ≠ [] then
          { s'.setFlow i ((s'.flow i).setStatus .OLD_FLOW) with
            m_oldFlows := s.m_oldFlows ++ [i]
            m_newFlows := s.m_newFlows.tail }
        else
          { s'.setFlow i ((s'.flow i).setStatus .INACTIVE) with m_oldFlows := s.m_oldFlows.tail })
    | some p => .stop (s'.setFlow i ((s'.flow i).increaseDeficit (-p.size))) events (some (i, p))

/-- One turn of the loops of `DoDequeue`, which look at the old flows when there are no new ones, and start
again when a queue has no packet. -/
def turn (cfg : Attributes) (s : FqCoDelQueueDisc) (t : ℕ) : Turn :=
  match s.m_newFlows, s.m_oldFlows with
  | i :: newFlows, _ =>
    if (s.flow i).m_deficit ≤ 0 then
      .next
        { s.setFlow i (((s.flow i).increaseDeficit cfg.m_quantum).setStatus .OLD_FLOW) with
          m_oldFlows := s.m_oldFlows ++ [i]
          m_newFlows := newFlows }
    else s.serve cfg i t
  | [], i :: oldFlows =>
    if (s.flow i).m_deficit ≤ 0 then
      .next
        { s.setFlow i ((s.flow i).increaseDeficit cfg.m_quantum) with
          m_oldFlows := oldFlows ++ [i] }
    else s.serve cfg i t
  | [], [] => .stop s [] none

/-- `DoDequeue`, in at most `fuel` turns of its loops. The flow of the packet is returned with it. -/
def doDequeue (cfg : Attributes) (t : ℕ) : ℕ → FqCoDelQueueDisc →
    Outcome (FqCoDelQueueDisc × List Event × Option (ℕ × Packet))
  | 0, _ => .unfinished
  | fuel + 1, s =>
    match s.turn cfg t with
    | .next s' => doDequeue cfg t fuel s'
    | .stop s' events item => .done (s', events, item)
    | .nullPointer => .nullPointer

/-! ## Runs -/

/-- A call, at a time in ns; a call of `DoDequeue` with the number of turns that it is given. -/
inductive Op where
  | enqueue (p : Packet) (flowHash : Option ℕ) (t : ℕ)
  | dequeue (t fuel : ℕ)
deriving DecidableEq

/-- What a call does, if it returns: the disc, and the packet that it returns with its flow. -/
def step (cfg : Attributes) (s : FqCoDelQueueDisc) :
    Op → Option (FqCoDelQueueDisc × Option (ℕ × Packet))
  | .enqueue p flowHash t =>
    match s.doEnqueue cfg p flowHash t with
    | .done (s', _) => some (s', none)
    | _ => none
  | .dequeue t fuel =>
    match s.doDequeue cfg t fuel with
    | .done (s', _, item) => some (s', item)
    | _ => none

/-- The runs of a disc. -/
def machine (cfg : Attributes) : Machine FqCoDelQueueDisc Op where
  init := create
  next s op := (s.step cfg op).map Prod.fst

/-! ## Flows and their lists -/

/-- The status of a flow. -/
def status (s : FqCoDelQueueDisc) (i : ℕ) : FlowStatus := (s.flow i).m_status

/-- The number of packets in all queues. -/
def nPackets (s : FqCoDelQueueDisc) : ℕ := ∑ i ∈ Finset.range s.nClasses, (s.queue i).length

/-- A flow is in the list of its status, once. -/
structure Listed (status : ℕ → FlowStatus) (newFlows oldFlows : List ℕ) : Prop where
  new_iff : ∀ i, i ∈ newFlows ↔ status i = .NEW_FLOW
  old_iff : ∀ i, i ∈ oldFlows ↔ status i = .OLD_FLOW
  nodup_new : newFlows.Nodup
  nodup_old : oldFlows.Nodup

section Listed

variable {st : ℕ → FlowStatus} {newFlows oldFlows : List ℕ} {i : ℕ}

theorem Listed.newToOld (h : Listed st (i :: newFlows) oldFlows) :
    Listed (Function.update st i .OLD_FLOW) newFlows (oldFlows ++ [i]) := by
  have hnew := (h.new_iff i).mp List.mem_cons_self
  obtain ⟨hnot, hnodup⟩ := List.nodup_cons.mp h.nodup_new
  have hold : i ∉ oldFlows := by
    rw [h.old_iff, hnew]
    decide
  refine ⟨fun j ↦ ?_, fun j ↦ ?_, hnodup, ?_⟩
  · rcases eq_or_ne j i with rfl | hne
    · simp [hnot]
    · rw [Function.update_of_ne hne, ← h.new_iff, List.mem_cons, or_iff_right hne]
  · rcases eq_or_ne j i with rfl | hne
    · simp
    · rw [Function.update_of_ne hne, ← h.old_iff, List.mem_append, List.mem_singleton,
        or_iff_left hne]
  · exact List.nodup_append.mpr ⟨h.nodup_old, List.nodup_singleton i, by
      rintro j hj k hk rfl
      exact hold (List.mem_singleton.mp hk ▸ hj)⟩

theorem Listed.rotate (h : Listed st newFlows (i :: oldFlows)) :
    Listed st newFlows (oldFlows ++ [i]) := by
  have hperm : (oldFlows ++ [i]).Perm (i :: oldFlows) := List.perm_append_singleton i oldFlows
  exact { h with
    old_iff := fun j ↦ hperm.mem_iff.trans (h.old_iff j)
    nodup_old := hperm.nodup_iff.mpr h.nodup_old }

theorem Listed.deactivate (h : Listed st newFlows (i :: oldFlows)) :
    Listed (Function.update st i .INACTIVE) newFlows oldFlows := by
  have hold := (h.old_iff i).mp List.mem_cons_self
  obtain ⟨hnot, hnodup⟩ := List.nodup_cons.mp h.nodup_old
  have hnew : i ∉ newFlows := by
    rw [h.new_iff, hold]
    decide
  refine ⟨fun j ↦ ?_, fun j ↦ ?_, h.nodup_new, hnodup⟩
  · rcases eq_or_ne j i with rfl | hne
    · simp [hnew]
    · rw [Function.update_of_ne hne, h.new_iff]
  · rcases eq_or_ne j i with rfl | hne
    · simp [hnot]
    · rw [Function.update_of_ne hne, ← h.old_iff, List.mem_cons, or_iff_right hne]

theorem Listed.activate (h : Listed st newFlows oldFlows) (hi : st i = .INACTIVE) :
    Listed (Function.update st i .NEW_FLOW) (newFlows ++ [i]) oldFlows := by
  have hnew : i ∉ newFlows := by
    rw [h.new_iff, hi]
    decide
  have hold : i ∉ oldFlows := by
    rw [h.old_iff, hi]
    decide
  refine ⟨fun j ↦ ?_, fun j ↦ ?_, ?_, h.nodup_old⟩
  · rcases eq_or_ne j i with rfl | hne
    · simp
    · rw [Function.update_of_ne hne, ← h.new_iff, List.mem_append, List.mem_singleton,
        or_iff_left hne]
  · rcases eq_or_ne j i with rfl | hne
    · simp [hold]
    · rw [Function.update_of_ne hne, h.old_iff]
  · exact List.nodup_append.mpr ⟨h.nodup_new, List.nodup_singleton i, by
      rintro j hj k hk rfl
      exact hnew (List.mem_singleton.mp hk ▸ hj)⟩

end Listed

/-! ## The invariant -/

/-- A signed number of 32 bits. -/
def IsInt32 (z : ℤ) : Prop := -2 ^ 31 ≤ z ∧ z < 2 ^ 31

theorem isInt32_toInt32 (z : ℤ) : IsInt32 (FqCoDelFlow.toInt32 z) :=
  ⟨Int.le_bmod (by decide), Int.bmod_lt (by decide)⟩

theorem toInt32_eq {z : ℤ} (h : IsInt32 z) : FqCoDelFlow.toInt32 z = z :=
  Int.bmod_eq_of_le h.1 h.2

/-- What holds of a disc between two turns of its loops: the lists are those of the flows, a flow with a
packet is active, classes are numbered from zero on, and the packets have been counted. -/
structure Inv (s : FqCoDelQueueDisc) : Prop where
  listed : Listed s.status s.m_newFlows s.m_oldFlows
  active : ∀ i, s.queue i ≠ [] → s.status i ≠ .INACTIVE
  fresh : ∀ i, s.nClasses ≤ i → s.queue i = [] ∧ s.status i = .INACTIVE
  indices : ∀ h i, s.m_flowsIndices h = some i → i < s.nClasses
  deficit : ∀ i, IsInt32 (s.flow i).m_deficit
  count : s.m_nPackets = s.nPackets % 2 ^ 32

theorem inv_create : Inv create where
  listed := ⟨fun _ ↦ by simp [create, status, FqCoDelFlow.create],
    fun _ ↦ by simp [create, status, FqCoDelFlow.create], List.nodup_nil, List.nodup_nil⟩
  active i hne := absurd rfl hne
  fresh _ _ := ⟨rfl, rfl⟩
  indices _ _ h := by cases h
  deficit _ := ⟨show (-2 ^ 31 : ℤ) ≤ 0 by decide, show (0 : ℤ) < 2 ^ 31 by decide⟩
  count := rfl

theorem status_setFlow (s : FqCoDelQueueDisc) (i : ℕ) (f : FqCoDelFlow) :
    (s.setFlow i f).status = Function.update s.status i f.m_status := by
  funext j
  rcases eq_or_ne j i with rfl | hne
  · simp [status, setFlow]
  · simp [status, setFlow, hne]

theorem queue_setFlow (s : FqCoDelQueueDisc) (i : ℕ) (f : FqCoDelFlow) :
    (s.setFlow i f).queue = Function.update s.queue i f.m_queueDisc.queue := by
  funext j
  rcases eq_or_ne j i with rfl | hne
  · simp [queue, setFlow]
  · simp [queue, setFlow, hne]

theorem nPackets_setFlow {s : FqCoDelQueueDisc} {i : ℕ} (hi : i < s.nClasses) (f : FqCoDelFlow) :
    (s.setFlow i f).nPackets + (s.queue i).length = s.nPackets + f.m_queueDisc.queue.length := by
  have hmem : i ∈ Finset.range s.nClasses := Finset.mem_range.mpr hi
  have hlen : ∀ j, ((s.setFlow i f).queue j).length =
      Function.update (fun j ↦ (s.queue j).length) i f.m_queueDisc.queue.length j := by
    intro j
    rw [queue_setFlow]
    rcases eq_or_ne j i with rfl | hne
    · simp
    · simp [hne]
  have hold := Finset.sum_update_of_mem hmem (fun j ↦ (s.queue j).length) (s.queue i).length
  rw [Function.update_eq_self] at hold
  unfold nPackets
  rw [hold, Finset.sum_congr rfl fun j _ ↦ hlen j]
  change (∑ j ∈ Finset.range s.nClasses, _) + _ = _
  rw [Finset.sum_update_of_mem hmem]
  ring

theorem Inv.lt_nClasses {s : FqCoDelQueueDisc} (h : Inv s) {i : ℕ} (hi : s.status i ≠ .INACTIVE) :
    i < s.nClasses := by
  by_contra hge
  exact hi (h.fresh i (Nat.le_of_not_lt hge)).2

/-- **One flow changes**, and its place in the lists with it. -/
theorem Inv.update {s : FqCoDelQueueDisc} (h : Inv s) {i : ℕ} {f : FqCoDelFlow} {newFlows oldFlows : List ℕ}
    {n : ℕ} (hi : i < s.nClasses)
    (hlisted : Listed (Function.update s.status i f.m_status) newFlows oldFlows)
    (hactive : f.m_queueDisc.queue ≠ [] → f.m_status ≠ .INACTIVE) (hdeficit : IsInt32 f.m_deficit)
    (hcount : n = sub32 (add32 s.m_nPackets f.m_queueDisc.queue.length) (s.queue i).length) :
    Inv { s.setFlow i f with m_nPackets := n, m_newFlows := newFlows, m_oldFlows := oldFlows } where
  listed := by
    have heq := status_setFlow s i f
    rw [← heq] at hlisted
    exact hlisted
  active j hne := by
    have hstatus := congrFun (status_setFlow s i f) j
    have hqueue := congrFun (queue_setFlow s i f) j
    change (s.setFlow i f).queue j ≠ [] at hne
    change (s.setFlow i f).status j ≠ _
    rw [hqueue] at hne
    rw [hstatus]
    rcases eq_or_ne j i with rfl | hji
    · rw [Function.update_self] at hne ⊢
      exact hactive hne
    · rw [Function.update_of_ne hji] at hne ⊢
      exact h.active j hne
  fresh j hj := by
    have hji : j ≠ i := (hi.trans_le hj).ne'
    change (s.setFlow i f).queue j = [] ∧ (s.setFlow i f).status j = _
    rw [queue_setFlow, status_setFlow, Function.update_of_ne hji, Function.update_of_ne hji]
    exact h.fresh j hj
  indices := h.indices
  deficit j := by
    change IsInt32 ((s.setFlow i f).flow j).m_deficit
    rcases eq_or_ne j i with rfl | hji
    · simpa [setFlow] using hdeficit
    · simpa [setFlow, hji] using h.deficit j
  count := by
    have hsum := nPackets_setFlow hi f
    change n = (s.setFlow i f).nPackets % 2 ^ 32
    rw [hcount, h.count, sub32, add32]
    omega

theorem Inv.sub32_add32 {s : FqCoDelQueueDisc} (h : Inv s) (n : ℕ) :
    s.m_nPackets = sub32 (add32 s.m_nPackets n) n := by
  have hcount := h.count
  rw [sub32, add32]
  omega

theorem Inv.updateDeficit {s : FqCoDelQueueDisc} (h : Inv s) {i : ℕ} {z : ℤ} {st : FlowStatus}
    {newFlows oldFlows : List ℕ} (hi : i < s.nClasses)
    (hlisted : Listed (Function.update s.status i st) newFlows oldFlows)
    (hactive : s.queue i ≠ [] → st ≠ .INACTIVE) (hz : IsInt32 z) :
    Inv { s.setFlow i { s.flow i with m_deficit := z, m_status := st } with
      m_newFlows := newFlows, m_oldFlows := oldFlows } :=
  h.update (f := { s.flow i with m_deficit := z, m_status := st }) hi hlisted hactive hz
    (h.sub32_add32 _)

/-! ## A turn -/

/-- What is missing of a flow's deficit to be positive. -/
def debt (s : FqCoDelQueueDisc) (i : ℕ) : ℕ := (1 - (s.flow i).m_deficit).toNat

/-- The number of turns that `DoDequeue` can still take. -/
def turns (s : FqCoDelQueueDisc) : ℕ :=
  2 * s.m_newFlows.length + s.m_oldFlows.length + (s.m_newFlows.map s.debt).sum +
    (s.m_oldFlows.map s.debt).sum

/-- A quantum that a signed number can hold. -/
def QuantumFits (cfg : Attributes) : Prop := 0 < cfg.m_quantum ∧ cfg.m_quantum < 2 ^ 31

instance (cfg : Attributes) : Decidable (QuantumFits cfg) := inferInstanceAs (Decidable (_ ∧ _))

theorem QuantumFits.increaseDeficit {cfg : Attributes} (hq : QuantumFits cfg) {f : FqCoDelFlow}
    (hf : IsInt32 f.m_deficit) (hle : f.m_deficit ≤ 0) :
    (f.increaseDeficit cfg.m_quantum).m_deficit = f.m_deficit + cfg.m_quantum := by
  obtain ⟨hpos, hlt⟩ := hq
  have hquantum : IsInt32 cfg.m_quantum := ⟨by omega, by exact_mod_cast hlt⟩
  change FqCoDelFlow.toInt32 _ = _
  rw [toInt32_eq hquantum]
  exact toInt32_eq ⟨by linarith [hf.1], by omega⟩

theorem debt_setFlow_of_ne (s : FqCoDelQueueDisc) {i j : ℕ} (hne : j ≠ i) (f : FqCoDelFlow) :
    (s.setFlow i f).debt j = s.debt j := by
  simp [debt, setFlow, hne]

theorem map_debt_setFlow (s : FqCoDelQueueDisc) {i : ℕ} (f : FqCoDelFlow) {l : List ℕ}
    (hnot : i ∉ l) : l.map (s.setFlow i f).debt = l.map s.debt :=
  List.map_congr_left fun _ hj ↦ s.debt_setFlow_of_ne (ne_of_mem_of_not_mem hj hnot) f

theorem Listed.front {st : ℕ → FlowStatus} {newFlows oldFlows : List ℕ} {i : ℕ}
    (h : Listed st newFlows oldFlows) (hi : i ∈ newFlows ∨ i ∈ oldFlows) : st i ≠ .INACTIVE := by
  rcases hi with hi | hi
  · rw [(h.new_iff i).mp hi]
    decide
  · rw [(h.old_iff i).mp hi]
    decide

theorem Listed.not_mem_old {st : ℕ → FlowStatus} {newFlows oldFlows : List ℕ} {i : ℕ}
    (h : Listed st newFlows oldFlows) (hi : i ∈ newFlows) : i ∉ oldFlows := by
  rw [h.old_iff, (h.new_iff i).mp hi]
  decide

theorem doDequeue_flow (cfg : Attributes) (s : FqCoDelQueueDisc) (i t : ℕ) : ∃ qd events,
    (s.flow i).m_queueDisc.doDequeue cfg.codel t = some (qd, events) ∧
      (s.queue i = [] ∧ returned events = none ∧ qd.queue = [] ∨
        ∃ item ∈ s.queue i, returned events = some item.packet ∧
          qd.queue <:+ (s.queue i).tail) := by
  cases hqueue : s.queue i with
  | nil =>
    refine ⟨_, _, doDequeue_nil hqueue cfg.codel t, Or.inl ⟨rfl, rfl, hqueue⟩⟩
  | cons item queue =>
    obtain ⟨qd, events, item', hmem, heq, hreturned, hsuffix⟩ :=
      doDequeue_cons (show 0 < cfg.codel.m_minBytes from Nat.zero_lt_succ 1499) hqueue t
    exact ⟨qd, events, heq, Or.inr ⟨item', hqueue ▸ hmem, hreturned, hsuffix⟩⟩

/-- All that a turn can do. -/
inductive TurnSpec (cfg : Attributes) (s : FqCoDelQueueDisc) : Turn → Prop
  | newDebt (i : ℕ) (newFlows : List ℕ) (hnew : s.m_newFlows = i :: newFlows)
      (hdeficit : (s.flow i).m_deficit ≤ 0) : TurnSpec cfg s (.next
        { s.setFlow i { s.flow i with
            m_deficit := ((s.flow i).increaseDeficit cfg.m_quantum).m_deficit
            m_status := .OLD_FLOW } with
          m_newFlows := newFlows
          m_oldFlows := s.m_oldFlows ++ [i] })
  | oldDebt (i : ℕ) (oldFlows : List ℕ) (hnew : s.m_newFlows = []) (hold : s.m_oldFlows = i :: oldFlows)
      (hdeficit : (s.flow i).m_deficit ≤ 0) : TurnSpec cfg s (.next
        { s.setFlow i { s.flow i with
            m_deficit := ((s.flow i).increaseDeficit cfg.m_quantum).m_deficit
            m_status := (s.flow i).m_status } with
          m_newFlows := s.m_newFlows
          m_oldFlows := oldFlows ++ [i] })
  | newEmpty (i : ℕ) (newFlows : List ℕ) (qd : CoDelQueueDisc) (hnew : s.m_newFlows = i :: newFlows)
      (hempty : s.queue i = []) (hqd : qd.queue = []) : TurnSpec cfg s (.next
        { s.setFlow i { s.flow i with m_queueDisc := qd, m_status := .OLD_FLOW } with
          m_nPackets := sub32 (add32 s.m_nPackets qd.queue.length) (s.queue i).length
          m_newFlows := newFlows
          m_oldFlows := s.m_oldFlows ++ [i] })
  | oldEmpty (i : ℕ) (oldFlows : List ℕ) (qd : CoDelQueueDisc) (hnew : s.m_newFlows = [])
      (hold : s.m_oldFlows = i :: oldFlows) (hempty : s.queue i = []) (hqd : qd.queue = []) :
      TurnSpec cfg s (.next
        { s.setFlow i { s.flow i with m_queueDisc := qd, m_status := .INACTIVE } with
          m_nPackets := sub32 (add32 s.m_nPackets qd.queue.length) (s.queue i).length
          m_newFlows := s.m_newFlows
          m_oldFlows := oldFlows })
  | packet (i : ℕ) (qd : CoDelQueueDisc) (item : QueueDiscItem) (events : List Event)
      (hi : i ∈ s.m_newFlows ∨ i ∈ s.m_oldFlows) (hdeficit : 0 < (s.flow i).m_deficit)
      (hmem : item ∈ s.queue i) (hsuffix : qd.queue <:+ (s.queue i).tail) : TurnSpec cfg s (.stop
        { s.setFlow i { s.flow i with
            m_queueDisc := qd
            m_deficit := ((s.flow i).increaseDeficit (-item.packet.size)).m_deficit } with
          m_nPackets := sub32 (add32 s.m_nPackets qd.queue.length) (s.queue i).length
          m_newFlows := s.m_newFlows
          m_oldFlows := s.m_oldFlows } events (some (i, item.packet)))
  | nothing (hnew : s.m_newFlows = []) (hold : s.m_oldFlows = []) :
      TurnSpec cfg s (.stop s [] none)

theorem setFlow_setQueueDisc (s : FqCoDelQueueDisc) (i : ℕ) (qd : CoDelQueueDisc)
    (g : FqCoDelFlow → FqCoDelFlow) :
    (s.setQueueDisc i qd).setFlow i (g ((s.setQueueDisc i qd).flow i)) =
      { s.setFlow i (g { s.flow i with m_queueDisc := qd }) with
        m_nPackets := sub32 (add32 s.m_nPackets qd.queue.length) (s.queue i).length } := by
  unfold setQueueDisc setFlow
  dsimp only
  rw [Function.update_self, Function.update_idem]

theorem turnSpec_serve (cfg : Attributes) (s : FqCoDelQueueDisc) {i : ℕ} (t : ℕ)
    (hi : (∃ newFlows, s.m_newFlows = i :: newFlows) ∨
      s.m_newFlows = [] ∧ ∃ oldFlows, s.m_oldFlows = i :: oldFlows)
    (hdeficit : 0 < (s.flow i).m_deficit) : TurnSpec cfg s (s.serve cfg i t) := by
  obtain ⟨qd, events, heq, ⟨hempty, hreturned, hqd⟩ | ⟨item, hmem, hreturned, hsuffix⟩⟩ :=
    doDequeue_flow cfg s i t
  · unfold serve
    rw [heq]
    dsimp only
    rw [hreturned]
    dsimp only
    rcases hi with ⟨newFlows, hnew⟩ | ⟨hnew, oldFlows, hold⟩
    · rw [if_pos (by simp [hnew]), setFlow_setQueueDisc s i qd fun f ↦ f.setStatus .OLD_FLOW]
      have htail : s.m_newFlows.tail = newFlows := by rw [hnew, List.tail_cons]
      rw [htail]
      exact .newEmpty i newFlows qd hnew hempty hqd
    · rw [if_neg (by simp [hnew]), setFlow_setQueueDisc s i qd fun f ↦ f.setStatus .INACTIVE]
      have htail : s.m_oldFlows.tail = oldFlows := by rw [hold, List.tail_cons]
      rw [htail]
      exact .oldEmpty i oldFlows qd hnew hold hempty hqd
  · unfold serve
    rw [heq]
    dsimp only
    rw [hreturned]
    dsimp only
    rw [setFlow_setQueueDisc s i qd fun f ↦ f.increaseDeficit (-item.packet.size)]
    refine .packet i qd item events ?_ hdeficit hmem hsuffix
    rcases hi with ⟨newFlows, hnew⟩ | ⟨-, oldFlows, hold⟩
    · exact Or.inl (hnew ▸ List.mem_cons_self)
    · exact Or.inr (hold ▸ List.mem_cons_self)

/-- **A turn does one of these things.** -/
theorem turnSpec (cfg : Attributes) (s : FqCoDelQueueDisc) (t : ℕ) :
    TurnSpec cfg s (s.turn cfg t) := by
  unfold turn
  split
  · rename_i i newFlows hnew
    split_ifs with hdeficit
    · exact .newDebt i newFlows hnew hdeficit
    · exact turnSpec_serve cfg s t (Or.inl ⟨newFlows, hnew⟩) (not_le.mp hdeficit)
  · rename_i i oldFlows hnew hold
    split_ifs with hdeficit
    · exact .oldDebt i oldFlows hnew hold hdeficit
    · exact turnSpec_serve cfg s t (Or.inr ⟨hnew, oldFlows, hold⟩) (not_le.mp hdeficit)
  · rename_i hnew hold
    exact .nothing hnew hold

theorem debt_setFlow (s : FqCoDelQueueDisc) (i : ℕ) (f : FqCoDelFlow) :
    (s.setFlow i f).debt i = (1 - f.m_deficit).toNat := by
  simp [debt, setFlow]

theorem turns_newToOld {s : FqCoDelQueueDisc} {i n : ℕ} {newFlows : List ℕ}
    (hlisted : Listed s.status (i :: newFlows) s.m_oldFlows) (hnew : s.m_newFlows = i :: newFlows)
    {f : FqCoDelFlow} (hle : (1 - f.m_deficit).toNat ≤ s.debt i) :
    turns { s.setFlow i f with
      m_nPackets := n, m_newFlows := newFlows, m_oldFlows := s.m_oldFlows ++ [i] } < s.turns := by
  have hnot := (List.nodup_cons.mp hlisted.nodup_new).1
  have hold := hlisted.not_mem_old List.mem_cons_self
  unfold turns
  rw [hnew, List.map_cons, List.sum_cons, List.length_cons]
  change 2 * newFlows.length + (s.m_oldFlows ++ [i]).length +
    (newFlows.map (s.setFlow i f).debt).sum + ((s.m_oldFlows ++ [i]).map (s.setFlow i f).debt).sum < _
  rw [List.map_append, List.map_singleton, debt_setFlow, map_debt_setFlow s f hnot,
    map_debt_setFlow s f hold, List.sum_append, List.sum_singleton, List.length_append,
    List.length_singleton]
  omega

theorem TurnSpec.next {cfg : Attributes} (hq : QuantumFits cfg) {s s' : FqCoDelQueueDisc}
    (hturn : TurnSpec cfg s (.next s')) (h : Inv s) :
    Inv s' ∧ s'.queue = s.queue ∧ s'.nClasses = s.nClasses ∧ s'.turns < s.turns := by
  have hlisted := h.listed
  cases hturn with
  | newDebt i newFlows hnew hdeficit =>
    rw [hnew] at hlisted
    have hi := h.lt_nClasses (hlisted.front (Or.inl (List.mem_cons_self (a := i))))
    refine ⟨h.updateDeficit hi hlisted.newToOld (fun _ ↦ by decide) (isInt32_toInt32 _),
      (queue_setFlow s i _).trans (Function.update_eq_self i s.queue), rfl,
      turns_newToOld hlisted hnew ?_⟩
    rw [hq.increaseDeficit (h.deficit i) hdeficit, debt]
    have := hq.1
    omega
  | oldDebt i oldFlows hnew hold hdeficit =>
    rw [hold] at hlisted
    have hi := h.lt_nClasses (hlisted.front (Or.inr (List.mem_cons_self (a := i))))
    have hrotate := hlisted.rotate
    rw [← Function.update_eq_self i s.status] at hrotate
    refine ⟨h.updateDeficit hi hrotate (h.active i) (isInt32_toInt32 _),
      (queue_setFlow s i _).trans (Function.update_eq_self i s.queue), rfl, ?_⟩
    have hnot := (List.nodup_cons.mp hlisted.nodup_old).1
    generalize hf : ({ s.flow i with
      m_deficit := ((s.flow i).increaseDeficit cfg.m_quantum).m_deficit
      m_status := (s.flow i).m_status } : FqCoDelFlow) = f
    have hdebt : (1 - f.m_deficit).toNat < s.debt i := by
      rw [← hf]
      dsimp only
      rw [hq.increaseDeficit (h.deficit i) hdeficit, debt]
      have := hq.1
      omega
    unfold turns
    rw [hnew, hold]
    change 2 * 0 + (oldFlows ++ [i]).length + 0 + ((oldFlows ++ [i]).map (s.setFlow i f).debt).sum <
      2 * 0 + (i :: oldFlows).length + 0 + ((i :: oldFlows).map s.debt).sum
    rw [List.map_append, List.map_singleton, debt_setFlow, map_debt_setFlow s f hnot,
      List.sum_append, List.sum_singleton, List.map_cons, List.sum_cons, List.length_append,
      List.length_singleton, List.length_cons]
    omega
  | newEmpty i newFlows qd hnew hempty hqd =>
    rw [hnew] at hlisted
    have hi := h.lt_nClasses (hlisted.front (Or.inl (List.mem_cons_self (a := i))))
    refine ⟨h.update (f := { s.flow i with m_queueDisc := qd, m_status := .OLD_FLOW }) hi
      hlisted.newToOld (fun _ ↦ show FlowStatus.OLD_FLOW ≠ .INACTIVE by decide) (h.deficit i) rfl, ?_,
      rfl, turns_newToOld hlisted hnew le_rfl⟩
    refine (queue_setFlow s i _).trans ?_
    rw [hqd, ← hempty, Function.update_eq_self]
  | oldEmpty i oldFlows qd hnew hold hempty hqd =>
    rw [hold] at hlisted
    have hi := h.lt_nClasses (hlisted.front (Or.inr (List.mem_cons_self (a := i))))
    refine ⟨h.update (f := { s.flow i with m_queueDisc := qd, m_status := .INACTIVE }) hi
      hlisted.deactivate (fun hne ↦ absurd hqd hne) (h.deficit i) rfl, ?_, rfl, ?_⟩
    · refine (queue_setFlow s i _).trans ?_
      rw [hqd, ← hempty, Function.update_eq_self]
    · have hnot := (List.nodup_cons.mp hlisted.nodup_old).1
      unfold turns
      rw [hnew, hold]
      change 2 * 0 + oldFlows.length + 0 + (oldFlows.map (s.setFlow i _).debt).sum <
        2 * 0 + (i :: oldFlows).length + 0 + ((i :: oldFlows).map s.debt).sum
      rw [map_debt_setFlow s _ hnot, List.map_cons, List.sum_cons, List.length_cons]
      omega

theorem nPackets_congr {s s' : FqCoDelQueueDisc} (hqueue : s'.queue = s.queue)
    (hclasses : s'.nClasses = s.nClasses) : s'.nPackets = s.nPackets := by
  rw [nPackets, hqueue, hclasses, nPackets]

theorem Inv.shrink {s : FqCoDelQueueDisc} (h : Inv s) {i : ℕ} (hi : s.status i ≠ .INACTIVE)
    (qd : CoDelQueueDisc) {z : ℤ} (hz : IsInt32 z) :
    Inv { s.setFlow i { s.flow i with m_queueDisc := qd, m_deficit := z } with
      m_nPackets := sub32 (add32 s.m_nPackets qd.queue.length) (s.queue i).length
      m_newFlows := s.m_newFlows
      m_oldFlows := s.m_oldFlows } := by
  refine h.update (f := { s.flow i with m_queueDisc := qd, m_deficit := z }) (h.lt_nClasses hi) ?_
    (fun _ ↦ hi) hz rfl
  rw [show ({ s.flow i with m_queueDisc := qd, m_deficit := z } : FqCoDelFlow).m_status = s.status i
    from rfl, Function.update_eq_self]
  exact h.listed

/-- Where the loops end, a packet is returned unless all queues are empty. -/
theorem TurnSpec.stop {cfg : Attributes} {s s' : FqCoDelQueueDisc} {events : List Event}
    {item : Option (ℕ × Packet)} (hturn : TurnSpec cfg s (.stop s' events item)) (h : Inv s) :
    Inv s' ∧ (item = none → ∀ i, s'.queue i = []) ∧ s'.nPackets ≤ s.nPackets := by
  cases hturn with
  | packet i qd item events hi hdeficit hmem hsuffix =>
    have hstatus := h.listed.front hi
    refine ⟨h.shrink hstatus qd (isInt32_toInt32 _), fun hnone ↦ absurd hnone (by simp), ?_⟩
    have hsum := nPackets_setFlow (h.lt_nClasses hstatus) { s.flow i with
      m_queueDisc := qd
      m_deficit := ((s.flow i).increaseDeficit (-item.packet.size)).m_deficit }
    have hle := hsuffix.length_le.trans (List.tail_suffix (s.queue i)).length_le
    exact Nat.le_of_add_le_add_right (hsum.le.trans (Nat.add_le_add_left hle _))
  | nothing hnew hold =>
    refine ⟨h, fun _ i ↦ ?_, le_rfl⟩
    by_contra hne
    have hactive := h.active i hne
    cases hstatus : s.status i with
    | INACTIVE => exact hactive hstatus
    | NEW_FLOW =>
      have := (h.listed.new_iff i).mpr hstatus
      rw [hnew] at this
      exact absurd this List.not_mem_nil
    | OLD_FLOW =>
      have := (h.listed.old_iff i).mpr hstatus
      rw [hold] at this
      exact absurd this List.not_mem_nil

/-! ## Dequeueing -/

/-- **`DoDequeue` terminates.** -/
theorem exists_doDequeue {cfg : Attributes} (hq : QuantumFits cfg) (t : ℕ) {s : FqCoDelQueueDisc}
    (h : Inv s) : ∃ fuel r, s.doDequeue cfg t fuel = .done r := by
  -- The induction is on the turns that are left.
  induction hn : s.turns using Nat.strong_induction_on generalizing s with
  | _ n ih =>
    have hspec := turnSpec cfg s t
    cases hturn : s.turn cfg t with
    | next s' =>
      rw [hturn] at hspec
      obtain ⟨h', -, -, hlt⟩ := hspec.next hq h
      obtain ⟨fuel, r, hr⟩ := ih s'.turns (hn ▸ hlt) h' rfl
      exact ⟨fuel + 1, r, by rw [doDequeue, hturn]; exact hr⟩
    | stop s' events item => exact ⟨1, (s', events, item), by rw [doDequeue, hturn]⟩
    | nullPointer =>
      rw [hturn] at hspec
      cases hspec

/-- **What `DoDequeue` returns.** -/
theorem Inv.doDequeue {cfg : Attributes} (hq : QuantumFits cfg) {t fuel : ℕ} {s s' : FqCoDelQueueDisc}
    {events : List Event} {item : Option (ℕ × Packet)} (h : Inv s)
    (hdone : s.doDequeue cfg t fuel = .done (s', events, item)) :
    Inv s' ∧ (item = none → ∀ i, s'.queue i = []) ∧ s'.nPackets ≤ s.nPackets := by
  induction fuel generalizing s with
  | zero => cases hdone
  | succ fuel ih =>
    have hspec := turnSpec cfg s t
    rw [FqCoDelQueueDisc.doDequeue] at hdone
    cases hturn : s.turn cfg t with
    | next s₁ =>
      rw [hturn] at hspec hdone
      obtain ⟨h₁, hqueue, hclasses, -⟩ := hspec.next hq h
      rw [← nPackets_congr hqueue hclasses]
      exact ih h₁ hdone
    | stop s₁ events₁ item₁ =>
      rw [hturn] at hspec hdone
      cases hdone
      exact hspec.stop h
    | nullPointer =>
      rw [hturn] at hdone
      cases hdone

/-! ## Enqueueing -/

theorem Inv.hash {s : FqCoDelQueueDisc} (h : Inv s) (cfg : Attributes) (flowHash : ℕ) :
    Inv (s.hash cfg flowHash).2 ∧ (s.hash cfg flowHash).2.nPackets = s.nPackets := by
  unfold FqCoDelQueueDisc.hash setAssociativeHash
  split_ifs
  · exact ⟨⟨h.listed, h.active, h.fresh, h.indices, h.deficit, h.count⟩, rfl⟩
  · exact ⟨h, rfl⟩

theorem Inv.getFlow {s : FqCoDelQueueDisc} (h : Inv s) (index : ℕ) :
    Inv (s.getFlow index).2 ∧ (s.getFlow index).1 < (s.getFlow index).2.nClasses ∧
      (s.getFlow index).2.nPackets = s.nPackets := by
  obtain ⟨hempty, hinactive⟩ := h.fresh s.nClasses le_rfl
  have hqueue : (s.setFlow s.nClasses (FqCoDelFlow.create index)).queue = s.queue := by
    rw [queue_setFlow, show (FqCoDelFlow.create index).m_queueDisc.queue = s.queue s.nClasses from
      hempty.symm, Function.update_eq_self]
  have hstatus : (s.setFlow s.nClasses (FqCoDelFlow.create index)).status = s.status := by
    rw [status_setFlow, show (FqCoDelFlow.create index).m_status = s.status s.nClasses from
      hinactive.symm, Function.update_eq_self]
  unfold FqCoDelQueueDisc.getFlow
  cases hindex : s.m_flowsIndices index with
  | some i => exact ⟨h, h.indices index i hindex, rfl⟩
  | none =>
    have hsum : ∑ j ∈ Finset.range (s.nClasses + 1),
        ((s.setFlow s.nClasses (FqCoDelFlow.create index)).queue j).length = s.nPackets := by
      rw [Finset.sum_range_succ, hqueue, hempty, List.length_nil, Nat.add_zero, nPackets]
    refine ⟨⟨?_, ?_, ?_, ?_, ?_, ?_⟩, Nat.lt_succ_self _, hsum⟩
    · change Listed (s.setFlow s.nClasses (FqCoDelFlow.create index)).status _ _
      rw [hstatus]
      exact h.listed
    · intro i hne
      change (s.setFlow s.nClasses (FqCoDelFlow.create index)).status i ≠ _
      change (s.setFlow s.nClasses (FqCoDelFlow.create index)).queue i ≠ _ at hne
      rw [hqueue] at hne
      rw [hstatus]
      exact h.active i hne
    · intro i hi
      change (s.setFlow s.nClasses (FqCoDelFlow.create index)).queue i = [] ∧
        (s.setFlow s.nClasses (FqCoDelFlow.create index)).status i = _
      rw [hqueue, hstatus]
      exact h.fresh i ((Nat.le_succ _).trans hi)
    · intro k i hk
      dsimp only at hk
      rcases eq_or_ne k index with rfl | hne
      · rw [Function.update_self, Option.some.injEq] at hk
        exact hk ▸ Nat.lt_succ_self _
      · rw [Function.update_of_ne hne] at hk
        exact (h.indices k i hk).trans (Nat.lt_succ_self _)
    · intro i
      change IsInt32 (Function.update s.flow s.nClasses (FqCoDelFlow.create index) i).m_deficit
      rcases eq_or_ne i s.nClasses with rfl | hne
      · rw [Function.update_self]
        exact ⟨show (-2 ^ 31 : ℤ) ≤ 0 by decide, show (0 : ℤ) < 2 ^ 31 by decide⟩
      · rw [Function.update_of_ne hne]
        exact h.deficit i
    · exact h.count.trans (congrArg (· % 2 ^ 32) hsum.symm)

theorem Inv.activate {s : FqCoDelQueueDisc} (h : Inv s) (cfg : Attributes) {i : ℕ}
    (hi : i < s.nClasses) : Inv (s.activate cfg i) ∧ (s.activate cfg i).status i ≠ .INACTIVE ∧
      (s.activate cfg i).nPackets = s.nPackets := by
  unfold FqCoDelQueueDisc.activate
  split_ifs with hinactive
  · refine ⟨h.updateDeficit hi (h.listed.activate hinactive)
      (fun _ ↦ show FlowStatus.NEW_FLOW ≠ .INACTIVE by decide) (isInt32_toInt32 _), ?_, ?_⟩
    · change (s.setFlow i _).status i ≠ _
      rw [status_setFlow, Function.update_self]
      change FlowStatus.NEW_FLOW ≠ .INACTIVE
      decide
    · refine nPackets_congr ((queue_setFlow s i _).trans ?_) rfl
      exact Function.update_eq_self i s.queue
  · exact ⟨h, hinactive, rfl⟩

theorem length_doEnqueue_le (cfg : CoDel.Attributes) (s : CoDelQueueDisc) (p : Packet) (t : ℕ) :
    (s.doEnqueue cfg p t).1.queue.length ≤ s.queue.length + 1 := by
  unfold CoDelQueueDisc.doEnqueue
  split_ifs
  · exact Nat.le_succ _
  · rw [List.length_append, List.length_singleton]

theorem Inv.enqueueFlow {s : FqCoDelQueueDisc} (h : Inv s) (cfg : Attributes) {i : ℕ}
    (hi : s.status i ≠ .INACTIVE) (p : Packet) (t : ℕ) :
    Inv (s.enqueueFlow cfg i p t).1 ∧ (s.enqueueFlow cfg i p t).1.nPackets ≤ s.nPackets + 1 := by
  refine ⟨h.shrink hi _ (h.deficit i), ?_⟩
  have hsum := nPackets_setFlow (h.lt_nClasses hi) { s.flow i with
    m_queueDisc := ((s.flow i).m_queueDisc.doEnqueue cfg.codel p t).1 }
  have hle : ((s.flow i).m_queueDisc.doEnqueue cfg.codel p t).1.queue.length ≤
      (s.queue i).length + 1 := length_doEnqueue_le _ _ _ _
  have := Nat.add_le_add_left hle s.nPackets
  refine Nat.le_of_add_le_add_right (hsum.le.trans (this.trans (le_of_eq ?_)))
  rw [Nat.add_assoc, Nat.add_comm 1]

theorem Inv.beforeDrop {s : FqCoDelQueueDisc} (h : Inv s) (cfg : Attributes) (p : Packet)
    (flowHash t : ℕ) : Inv (s.beforeDrop cfg p flowHash t).1 ∧
      (s.beforeDrop cfg p flowHash t).1.nPackets ≤ s.nPackets + 1 := by
  obtain ⟨hhash, hsum₁⟩ := h.hash cfg flowHash
  obtain ⟨hflow, hlt, hsum₂⟩ := hhash.getFlow (s.hash cfg flowHash).1
  obtain ⟨hactive, hstatus, hsum₃⟩ := hflow.activate cfg hlt
  rw [← hsum₁, ← hsum₂, ← hsum₃]
  exact hactive.enqueueFlow cfg hstatus p t

/-! ## Overload -/

/-- Some queue has a number of bytes that is not a multiple of `2 ^ 32`, or the first class has a packet. -/
def FatFlowExists (s : FqCoDelQueueDisc) : Prop :=
  (∃ i < s.nClasses, nBytes (s.queue i) ≠ 0) ∨ s.queue 0 ≠ []

instance (s : FqCoDelQueueDisc) : Decidable s.FatFlowExists := inferInstanceAs (Decidable (_ ∨ _))

theorem foldl_fatFlow (s : FqCoDelQueueDisc) (l : List ℕ) (m : ℕ × ℕ)
    (hm : m.1 = 0 ∧ m.2 = 0 ∨ 0 < m.1 ∧ nBytes (s.queue m.2) = m.1) :
    let m' := l.foldl (fun m i ↦ if m.1 < nBytes (s.queue i) then (nBytes (s.queue i), i) else m) m
    (m'.1 = 0 ∧ m'.2 = 0 ∨ 0 < m'.1 ∧ nBytes (s.queue m'.2) = m'.1) ∧ m.1 ≤ m'.1 ∧
      ∀ i ∈ l, nBytes (s.queue i) ≤ m'.1 := by
  induction l generalizing m with
  | nil => exact ⟨hm, le_rfl, fun i hi ↦ absurd hi List.not_mem_nil⟩
  | cons i l ih =>
    rw [List.foldl_cons]
    split_ifs with hlt
    · obtain ⟨hres, hle, hall⟩ := ih (nBytes (s.queue i), i) (Or.inr ⟨Nat.zero_lt_of_lt hlt, rfl⟩)
      exact ⟨hres, hlt.le.trans hle, List.forall_mem_cons.mpr ⟨hle, hall⟩⟩
    · obtain ⟨hres, hle, hall⟩ := ih m hm
      exact ⟨hres, hle, List.forall_mem_cons.mpr ⟨(not_lt.mp hlt).trans hle, hall⟩⟩

theorem fatFlow_spec {s : FqCoDelQueueDisc} (hfat : s.FatFlowExists) :
    s.queue s.fatFlow.2 ≠ [] ∧ s.fatFlow.1 ≤ nBytes (s.queue s.fatFlow.2) := by
  obtain ⟨hres, -, hall⟩ := s.foldl_fatFlow (List.range s.nClasses) (0, 0) (Or.inl ⟨rfl, rfl⟩)
  change s.fatFlow.1 = 0 ∧ s.fatFlow.2 = 0 ∨
    0 < s.fatFlow.1 ∧ nBytes (s.queue s.fatFlow.2) = s.fatFlow.1 at hres
  change ∀ i ∈ _, nBytes (s.queue i) ≤ s.fatFlow.1 at hall
  rcases hres with ⟨hzero, hindex⟩ | ⟨hpos, hbytes⟩
  · rw [hzero, hindex]
    refine ⟨hfat.resolve_left ?_, Nat.zero_le _⟩
    rintro ⟨i, hi, hne⟩
    have := hall i (List.mem_range.mpr hi)
    omega
  · refine ⟨fun hnil ↦ ?_, hbytes.ge⟩
    rw [hnil] at hbytes
    exact absurd hpos (not_lt.mpr hbytes.ge)

theorem dropBatch_ne_none (cfg : Attributes) {threshold : ℕ} {queue : List QueueDiscItem}
    (hne : queue ≠ []) (len count : ℕ) (hle : threshold ≤ add32 len (nBytes queue)) :
    dropBatch cfg threshold queue len count ≠ none := by
  induction queue generalizing len count with
  | nil => exact absurd rfl hne
  | cons item queue ih =>
    rw [dropBatch]
    split_ifs with hmore
    · rw [ne_eq, Option.map_eq_none_iff]
      have hsum : add32 (add32 len item.packet.size) (nBytes queue) =
          add32 len (nBytes (item :: queue)) := by
        rw [nBytes, nBytes, List.map_cons, List.sum_cons, add32, add32, add32]
        omega
      apply ih
      · rintro rfl
        rw [nBytes, List.map_singleton, List.sum_singleton, add32, Nat.add_mod_mod, ← add32] at hle
        exact absurd hmore.2 (not_lt.mpr hle)
      · rwa [hsum]
    · exact Option.some_ne_none _

theorem dropBatch_suffix (cfg : Attributes) {threshold : ℕ} {queue : List QueueDiscItem}
    {len count : ℕ} {r : List Event × List QueueDiscItem}
    (hr : dropBatch cfg threshold queue len count = some r) :
    ∃ item rest, queue = item :: rest ∧ r.2 <:+ rest := by
  induction queue generalizing len count r with
  | nil => cases hr
  | cons item queue ih =>
    refine ⟨item, queue, rfl, ?_⟩
    rw [dropBatch] at hr
    split_ifs at hr with hmore
    · rw [Option.map_eq_some_iff] at hr
      obtain ⟨r', hr', rfl⟩ := hr
      obtain ⟨_, rest, rfl, hsuffix⟩ := ih hr'
      exact hsuffix.trans (List.suffix_cons _ _)
    · cases hr
      exact List.suffix_refl _

theorem nBytes_lt (queue : List QueueDiscItem) : nBytes queue < 2 ^ 32 :=
  Nat.mod_lt _ (Nat.two_pow_pos 32)

/-- **`FqCoDelDrop` drops a packet.** -/
theorem exists_fqCoDelDrop {s : FqCoDelQueueDisc} (hfat : s.FatFlowExists) (cfg : Attributes) :
    ∃ r, s.fqCoDelDrop cfg = some r := by
  obtain ⟨hne, hle⟩ := fatFlow_spec hfat
  have hthreshold : s.fatFlow.1 >>> 1 ≤ add32 0 (nBytes (s.queue s.fatFlow.2)) := by
    rw [add32, Nat.zero_add, Nat.mod_eq_of_lt (nBytes_lt _), Nat.shiftRight_eq_div_pow]
    exact (Nat.div_le_self _ _).trans hle
  obtain ⟨r, hr⟩ := Option.ne_none_iff_exists'.mp (dropBatch_ne_none cfg hne 0 0 hthreshold)
  exact ⟨_, by rw [fqCoDelDrop, hr]; rfl⟩

theorem Inv.fqCoDelDrop {s : FqCoDelQueueDisc} (h : Inv s) {cfg : Attributes}
    {r : FqCoDelQueueDisc × List Event} (hr : s.fqCoDelDrop cfg = some r) :
    Inv r.1 ∧ r.1.nPackets + 1 ≤ s.nPackets := by
  rw [FqCoDelQueueDisc.fqCoDelDrop, Option.map_eq_some_iff] at hr
  obtain ⟨⟨events, queue⟩, hbatch, rfl⟩ := hr
  obtain ⟨item, rest, hqueue, hsuffix⟩ := dropBatch_suffix cfg hbatch
  have hi : s.status s.fatFlow.2 ≠ .INACTIVE := h.active _ (by simp [hqueue])
  refine ⟨h.shrink hi { (s.flow s.fatFlow.2).m_queueDisc with queue } (h.deficit _), ?_⟩
  have hsum := nPackets_setFlow (h.lt_nClasses hi) { s.flow s.fatFlow.2 with
    m_queueDisc := { (s.flow s.fatFlow.2).m_queueDisc with queue } }
  have hle : queue.length + 1 ≤ (s.queue s.fatFlow.2).length := by
    rw [hqueue, List.length_cons]
    exact Nat.succ_le_succ hsuffix.length_le
  refine Nat.le_of_add_le_add_right (b := (s.queue s.fatFlow.2).length) ?_
  rw [Nat.add_right_comm]
  refine (Nat.add_le_add_right hsum.le 1).trans ?_
  rw [Nat.add_assoc]
  exact Nat.add_le_add_left hle _

/-- When a packet overloads the disc, there is a fat flow. -/
def FatEnough (cfg : Attributes) (s : FqCoDelQueueDisc) : Op → Prop
  | .enqueue p (some flowHash) t =>
    cfg.maxSize < (s.beforeDrop cfg p flowHash t).1.m_nPackets →
      (s.beforeDrop cfg p flowHash t).1.FatFlowExists
  | _ => True

instance (cfg : Attributes) (s : FqCoDelQueueDisc) : ∀ op, Decidable (FatEnough cfg s op)
  | .enqueue _ (some _) _ => inferInstanceAs (Decidable (_ → _))
  | .enqueue _ none _ => inferInstanceAs (Decidable True)
  | .dequeue _ _ => inferInstanceAs (Decidable True)

/-- **What `DoEnqueue` does**: no null pointer is dereferenced, and the disc holds at most as many packets
as it may. -/
theorem Inv.doEnqueue {s : FqCoDelQueueDisc} (h : Inv s) {cfg : Attributes}
    (hsize : cfg.maxSize + 1 < 2 ^ 32) (hle : s.nPackets ≤ cfg.maxSize) {p : Packet}
    {flowHash : Option ℕ} {t : ℕ} (hfat : FatEnough cfg s (.enqueue p flowHash t)) :
    s.doEnqueue cfg p flowHash t ≠ .nullPointer ∧
      ∀ r, s.doEnqueue cfg p flowHash t = .done r → Inv r.1 ∧ r.1.nPackets ≤ cfg.maxSize := by
  unfold FqCoDelQueueDisc.doEnqueue
  cases flowHash with
  | none =>
    refine ⟨by simp, ?_⟩
    rintro r ⟨⟩
    exact ⟨h, hle⟩
  | some flowHash =>
    obtain ⟨hbefore, hsum⟩ := h.beforeDrop cfg p flowHash t
    have hcount := hbefore.count
    rw [Nat.mod_eq_of_lt ((hsum.trans (Nat.succ_le_succ hle)).trans_lt hsize)] at hcount
    dsimp only
    split_ifs with hzero hover
    · exact ⟨by simp, by simp⟩
    · obtain ⟨r, hr⟩ := exists_fqCoDelDrop (hfat hover) cfg
      obtain ⟨hinv, hdrop⟩ := hbefore.fqCoDelDrop hr
      rw [hr]
      refine ⟨by simp, ?_⟩
      rintro _ ⟨⟩
      exact ⟨hinv, by dsimp only; omega⟩
    · refine ⟨by simp, ?_⟩
      rintro _ ⟨⟩
      exact ⟨hbefore, hcount ▸ not_lt.mp hover⟩

/-! ## Runs -/

theorem inv_of_run {cfg : Attributes} (hq : QuantumFits cfg) (hsize : cfg.maxSize + 1 < 2 ^ 32)
    {ops : List Op} {s : FqCoDelQueueDisc}
    (hr : Machine.Run (machine cfg) (FatEnough cfg) ops s) : Inv s ∧ s.nPackets ≤ cfg.maxSize := by
  refine hr.invariant (I := fun s ↦ Inv s ∧ s.nPackets ≤ cfg.maxSize) ⟨inv_create, Nat.zero_le _⟩ ?_
  rintro s op s' ⟨h, hle⟩ hfat hstep
  obtain ⟨⟨s₁, item⟩, hdone, rfl⟩ := Option.map_eq_some_iff.mp hstep
  cases op with
  | enqueue p flowHash t =>
    rw [step] at hdone
    cases hres : s.doEnqueue cfg p flowHash t with
    | done r =>
      rw [hres] at hdone
      cases hdone
      exact (h.doEnqueue hsize hle hfat).2 r hres
    | nullPointer => rw [hres] at hdone; cases hdone
    | divisionByZero => rw [hres] at hdone; cases hdone
    | unfinished => rw [hres] at hdone; cases hdone
  | dequeue t fuel =>
    rw [step] at hdone
    cases hres : s.doDequeue cfg t fuel with
    | done r =>
      obtain ⟨s₂, events, item₂⟩ := r
      rw [hres] at hdone
      cases hdone
      obtain ⟨h', -, hle'⟩ := h.doDequeue hq hres
      exact ⟨h', hle'.trans hle⟩
    | nullPointer => rw [hres] at hdone; cases hdone
    | divisionByZero => rw [hres] at hdone; cases hdone
    | unfinished => rw [hres] at hdone; cases hdone

/-- **No packet is stranded or lost.** In a run in which there is a fat flow whenever there is overload,
each flow is in the list of its status once, one with a packet is active, `DoDequeue` terminates and
returns nothing only if all queues are empty, and `DoEnqueue` drops as many packets as it has to. -/
theorem not_stranded_of_run {cfg : Attributes} (hq : QuantumFits cfg)
    (hsize : cfg.maxSize + 1 < 2 ^ 32) {ops : List Op} {s : FqCoDelQueueDisc}
    (hr : Machine.Run (machine cfg) (FatEnough cfg) ops s) :
    Listed s.status s.m_newFlows s.m_oldFlows ∧
      (∀ i, s.queue i ≠ [] → s.status i ≠ .INACTIVE) ∧
      (∀ t, ∃ fuel r, s.doDequeue cfg t fuel = .done r) ∧
      (∀ t fuel s' events, s.doDequeue cfg t fuel = .done (s', events, none) →
        ∀ i, s'.queue i = []) ∧
      ∀ p flowHash t, FatEnough cfg s (.enqueue p flowHash t) →
        s.doEnqueue cfg p flowHash t ≠ .nullPointer ∧
          ∀ r, s.doEnqueue cfg p flowHash t = .done r → r.1.nPackets ≤ cfg.maxSize := by
  obtain ⟨h, hle⟩ := inv_of_run hq hsize hr
  refine ⟨h.listed, h.active, fun t ↦ exists_doDequeue hq t h,
    fun t fuel s' events hdone ↦ (h.doDequeue hq hdone).2.1 rfl, fun p flowHash t hfat ↦ ?_⟩
  obtain ⟨hnull, hdone⟩ := h.doEnqueue hsize hle hfat
  exact ⟨hnull, fun r hr ↦ (hdone r hr).2⟩

/-- At most three packets. -/
def threePackets : Attributes := { defaults 1500 with maxSize := 3 }

/-- Two flows with packets of 1500 bytes, and an overload. -/
theorem not_stranded_of_run_four : ∃ s, Machine.Run (machine threePackets) (FatEnough threePackets)
    [.enqueue ⟨0, 1500, false⟩ (some 0) 0, .enqueue ⟨1, 1500, false⟩ (some 1) 0,
      .enqueue ⟨2, 1500, false⟩ (some 1) 0, .enqueue ⟨3, 1500, false⟩ (some 1) 0, .dequeue 0 1] s ∧
    s.m_newFlows = [0, 1] ∧ ∀ t, ∃ fuel r, s.doDequeue threePackets t fuel = .done r := by
  refine Machine.exists_run_and_allowed (p := fun s : FqCoDelQueueDisc ↦ s.m_newFlows = [0, 1])
    (by decide +kernel) (by decide +kernel) fun s hr hnew ↦ ?_
  exact ⟨hnew, (not_stranded_of_run (by decide) (by decide) hr).2.2.1⟩

/-- Two flows of `2 ^ 32` bytes each, behind a class whose only packet has been returned: the fourth
packet overloads the disc, and a null pointer is dereferenced. -/
theorem null_of_no_fatFlow : ∃ s, Machine.Run (machine threePackets) Machine.unguarded
    [.enqueue ⟨0, 100, false⟩ (some 0) 0, .dequeue 0 1, .enqueue ⟨1, 2 ^ 31, false⟩ (some 1) 0,
      .enqueue ⟨2, 2 ^ 31, false⟩ (some 1) 0, .enqueue ⟨3, 2 ^ 31, false⟩ (some 2) 0] s ∧
    s.doEnqueue threePackets ⟨4, 2 ^ 31, false⟩ (some 2) 0 = .nullPointer :=
  Machine.exists_run_of_exec
    (p := fun s : FqCoDelQueueDisc ↦
      (s.doEnqueue threePackets ⟨4, 2 ^ 31, false⟩ (some 2) 0 : Outcome _) = .nullPointer)
    (by decide +kernel)

end FqCoDelQueueDisc

end TrafficControl

end Ns3
