import Ns3.Library.Machine
import Ns3.Library.Span

/-!
# Queue discs

A queue disc holds packets in internal queues, in child discs and in a slot for a packet that has been
peeked. It counts packets when the traces of its queues and children tell it to, and fires traces of its own
for its parent. What a disc takes for a peek is not counted as dequeued until it leaves the slot, or is
dropped.

What `DoEnqueue` and `DoDequeue` of a disc do is not fixed: a plan says to which queue or child a packet is
given, and what is taken from where, dropped and returned. Each call comes with a plan.
-/

namespace Ns3

namespace TrafficControl

namespace QueueDisc

/-- A `QueueDiscItem`, with the size that `GetSize` returns. -/
structure Item where
  uid : ℕ
  size : ℕ
deriving DecidableEq

/-- A number of packets, of 32 bits, and their bytes, of 64 bits. -/
@[ext] structure Counter where
  packets : ℕ
  bytes : ℕ
deriving DecidableEq

namespace Counter

def zero : Counter := ⟨0, 0⟩

/-- A packet is counted. -/
def count (c : Counter) (item : Item) : Counter :=
  ⟨(c.packets + 1) % 2 ^ 32, (c.bytes + item.size) % 2 ^ 64⟩

/-- The sum, as it is computed. -/
def add (c d : Counter) : Counter :=
  ⟨(c.packets + d.packets) % 2 ^ 32, (c.bytes + d.bytes) % 2 ^ 64⟩

/-- The difference, as it is computed. -/
def sub (c d : Counter) : Counter :=
  ⟨(c.packets + (2 ^ 32 - d.packets % 2 ^ 32)) % 2 ^ 32,
    (c.bytes + (2 ^ 64 - d.bytes % 2 ^ 64)) % 2 ^ 64⟩

end Counter

/-- The statistics. -/
structure Stats where
  nTotalReceived : Counter
  nTotalEnqueued : Counter
  nTotalDequeued : Counter
  nTotalRequeued : Counter
  nTotalDropped : Counter
  nTotalDroppedBeforeEnqueue : Counter
  nTotalDroppedAfterDequeue : Counter

/-- A trace that is fired. -/
inductive Event where
  | enqueue (item : Item)
  | dequeue (item : Item)
  | dropBeforeEnqueue (item : Item)
  | dropAfterDequeue (item : Item)

/-- How a call fails: an assertion does, or the plan asks for what there is not. -/
inductive Fault where
  | assertion
  | plan

/-- The members of a disc other than its queues and its children; `received` lists the packets that
`Enqueue` was called with, and `trace` the traces that were fired. -/
structure Core where
  m_nPackets : ℕ
  m_nBytes : ℕ
  m_stats : Stats
  m_requeued : Option Item
  m_peeked : Bool
  m_running : Bool
  m_quota : ℕ
  received : List Item
  trace : List Event

namespace Core

/-- A new disc. -/
def create (quota : ℕ) : Core where
  m_nPackets := 0
  m_nBytes := 0
  m_stats := ⟨.zero, .zero, .zero, .zero, .zero, .zero, .zero⟩
  m_requeued := none
  m_peeked := false
  m_running := false
  m_quota := quota
  received := []
  trace := []

/-- `Enqueue` begins. -/
def receive (c : Core) (item : Item) : Core :=
  { c with
    m_stats := { c.m_stats with nTotalReceived := c.m_stats.nTotalReceived.count item }
    received := c.received ++ [item] }

def packetEnqueued (c : Core) (item : Item) : Core :=
  { c with
    m_nPackets := add32 c.m_nPackets 1
    m_nBytes := add32 c.m_nBytes item.size
    m_stats := { c.m_stats with nTotalEnqueued := c.m_stats.nTotalEnqueued.count item }
    trace := c.trace ++ [.enqueue item] }

def packetDequeued (c : Core) (item : Item) : Core :=
  if c.m_peeked then c
  else
    { c with
      m_nPackets := sub32 c.m_nPackets 1
      m_nBytes := sub32 c.m_nBytes item.size
      m_stats := { c.m_stats with nTotalDequeued := c.m_stats.nTotalDequeued.count item }
      trace := c.trace ++ [.dequeue item] }

def dropBeforeEnqueue (c : Core) (item : Item) : Core :=
  { c with
    m_stats := { c.m_stats with
      nTotalDropped := c.m_stats.nTotalDropped.count item
      nTotalDroppedBeforeEnqueue := c.m_stats.nTotalDroppedBeforeEnqueue.count item }
    trace := c.trace ++ [.dropBeforeEnqueue item] }

def dropAfterDequeue (c : Core) (item : Item) : Core :=
  let c₁ := { c with
    m_stats := { c.m_stats with
      nTotalDropped := c.m_stats.nTotalDropped.count item
      nTotalDroppedAfterDequeue := c.m_stats.nTotalDroppedAfterDequeue.count item } }
  let c₂ :=
    if c₁.m_peeked then { ({ c₁ with m_peeked := false }).packetDequeued item with m_peeked := true }
    else c₁
  { c₂ with trace := c₂.trace ++ [.dropAfterDequeue item] }

/-- What is connected to a trace of an internal queue or of a child. -/
def handle (c : Core) : Event → Core
  | .enqueue item => c.packetEnqueued item
  | .dequeue item => c.packetDequeued item
  | .dropBeforeEnqueue item => c.dropBeforeEnqueue item
  | .dropAfterDequeue item => c.dropAfterDequeue item

/-- A queue or a child has fired traces. -/
def notify (c : Core) (events : List Event) : Core := events.foldl handle c

def requeue (c : Core) (item : Item) : Core :=
  { c with
    m_requeued := some item
    m_stats := { c.m_stats with nTotalRequeued := c.m_stats.nTotalRequeued.count item } }

/-- The peeked packet leaves the slot, or the requeued one. -/
def release (c : Core) (item : Item) : Core :=
  let c₁ := { c with m_requeued := none }
  if c₁.m_peeked then ({ c₁ with m_peeked := false }).packetDequeued item else c₁

/-- The assertions of `Enqueue`. -/
def EnqueueAsserts (c : Core) : Prop :=
  c.m_stats.nTotalReceived =
    c.m_stats.nTotalDroppedBeforeEnqueue.add c.m_stats.nTotalEnqueued

/-- The assertions of `Dequeue`. -/
def DequeueAsserts (c : Core) : Prop :=
  Counter.mk c.m_nPackets c.m_nBytes = c.m_stats.nTotalEnqueued.sub c.m_stats.nTotalDequeued

instance (c : Core) : Decidable c.EnqueueAsserts := inferInstanceAs (Decidable (_ = _))

instance (c : Core) : Decidable c.DequeueAsserts := inferInstanceAs (Decidable (_ = _))

end Core

inductive SizeUnit where
  | PACKETS
  | BYTES

/-- An internal queue: the packets, and the maximum size. -/
structure InternalQueue where
  unit : SizeUnit
  maxSize : ℕ
  m_packets : List Item

namespace InternalQueue

/-- The number of bytes, of 32 bits. -/
def nBytes (q : InternalQueue) : ℕ := (q.m_packets.map Item.size).sum % 2 ^ 32

/-- `GetCurrentSize () + item > GetMaxSize ()`. -/
def exceeds (q : InternalQueue) (item : Item) : Bool :=
  match q.unit with
  | .PACKETS => decide (q.maxSize < add32 q.m_packets.length 1)
  | .BYTES => decide (q.maxSize < add32 q.nBytes item.size)

/-- `Enqueue`, with the trace that is fired. -/
def enqueue (q : InternalQueue) (item : Item) : InternalQueue × Event × Bool :=
  if q.exceeds item then (q, .dropBeforeEnqueue item, false)
  else ({ q with m_packets := q.m_packets ++ [item] }, .enqueue item, true)

def dequeue (q : InternalQueue) : Except Fault (Option (Item × InternalQueue)) :=
  match q.m_packets with
  | [] => .ok none
  | item :: packets =>
    if (packets.length + 1) % 2 ^ 32 = 0 then .ok none
    else if item.size ≤ q.nBytes then .ok (some (item, { q with m_packets := packets }))
    else .error .assertion

end InternalQueue

end QueueDisc

open QueueDisc

/-- A `QueueDisc`, with its internal queues and its children. -/
inductive QueueDisc where
  | mk (core : Core) (m_queues : List InternalQueue) (m_classes : List QueueDisc)

namespace QueueDisc

def core : QueueDisc → Core
  | .mk core _ _ => core

def m_queues : QueueDisc → List InternalQueue
  | .mk _ m_queues _ => m_queues

def m_classes : QueueDisc → List QueueDisc
  | .mk _ _ m_classes => m_classes

def setCore (d : QueueDisc) (c : Core) : QueueDisc := .mk c d.m_queues d.m_classes

/-- The traces that a call has fired. -/
def fired (d d' : QueueDisc) : List Event := d'.core.trace.drop d.core.trace.length

/-! ## Enqueueing -/

/-- What `DoEnqueue` does with the packet: it gives it to a queue, or to a child, or drops it. -/
inductive EnqueuePlan where
  | queue (i : ℕ)
  | child (i : ℕ) (plan : EnqueuePlan)
  | drop

def enqueue (item : Item) : EnqueuePlan → QueueDisc → Except Fault (QueueDisc × Bool)
  | .queue i, .mk core queues classes =>
    match queues[i]? with
    | none => .error .plan
    | some q =>
      let r := q.enqueue item
      let core' := (core.receive item).notify [r.2.1]
      if core'.EnqueueAsserts then .ok (.mk core' (queues.set i r.1) classes, r.2.2)
      else .error .assertion
  | .child i plan, .mk core queues classes =>
    match classes[i]? with
    | none => .error .plan
    | some d => do
      let r ← enqueue item plan d
      let core' := (core.receive item).notify (fired d r.1)
      if core'.EnqueueAsserts then .ok (.mk core' queues (classes.set i r.1), r.2)
      else .error .assertion
  | .drop, .mk core queues classes =>
    let core' := (core.receive item).dropBeforeEnqueue item
    if core'.EnqueueAsserts then .ok (.mk core' queues classes, false) else .error .assertion

/-! ## Dequeueing -/

/-- What `DoDequeue` does: it takes packets from queues or children, or peeks at a child, drops some of the
packets it has taken, and returns the one that is left, if there is one. -/
inductive DequeuePlan where
  | queue (i : ℕ) (rest : DequeuePlan)
  | child (i : ℕ) (plan rest : DequeuePlan)
  | peek (i : ℕ) (plan rest : DequeuePlan)
  | drop (i : ℕ) (rest : DequeuePlan)
  | ret

/-- The assertions of `Dequeue`, where it returns. -/
def checked (r : QueueDisc × Option Item) : Except Fault (QueueDisc × Option Item) :=
  if r.1.core.DequeueAsserts then .ok r else .error .assertion

/-- `Dequeue` of a disc with this `DoDequeue`. -/
def dequeueBy (doDequeue : QueueDisc → Except Fault (QueueDisc × Option Item)) (d : QueueDisc) :
    Except Fault (QueueDisc × Option Item) :=
  match d.core.m_requeued with
  | some item => checked (d.setCore (d.core.release item), some item)
  | none => doDequeue d >>= checked

/-- `DoPeek` of a disc with this `DoDequeue`. -/
def peekBy (doDequeue : QueueDisc → Except Fault (QueueDisc × Option Item)) (d : QueueDisc) :
    Except Fault (QueueDisc × Option Item) :=
  match d.core.m_requeued with
  | some item => .ok (d, some item)
  | none => do
    let r ← dequeueBy doDequeue (d.setCore { d.core with m_peeked := true })
    match r.2 with
    | some item => .ok (r.1.setCore { r.1.core with m_requeued := some item }, some item)
    | none => .ok (r.1.setCore { r.1.core with m_requeued := none, m_peeked := false }, none)

/-- `DoDequeue`, with the packets that have been taken so far. -/
def doDequeue : DequeuePlan → List Item → QueueDisc → Except Fault (QueueDisc × Option Item)
  | .queue i rest, taken, .mk core queues classes =>
    match queues[i]? with
    | none => .error .plan
    | some q => do
      match ← q.dequeue with
      | none => doDequeue rest taken (.mk core queues classes)
      | some (item, q') =>
        doDequeue rest (taken ++ [item])
          (.mk (core.notify [.dequeue item]) (queues.set i q') classes)
  | .child i plan rest, taken, .mk core queues classes =>
    match classes[i]? with
    | none => .error .plan
    | some d => do
      let r ← dequeueBy (doDequeue plan []) d
      doDequeue rest (taken ++ r.2.toList)
        (.mk (core.notify (fired d r.1)) queues (classes.set i r.1))
  | .peek i plan rest, taken, .mk core queues classes =>
    match classes[i]? with
    | none => .error .plan
    | some d => do
      let r ← peekBy (doDequeue plan []) d
      doDequeue rest taken (.mk (core.notify (fired d r.1)) queues (classes.set i r.1))
  | .drop i rest, taken, .mk core queues classes =>
    match taken[i]? with
    | none => .error .plan
    | some item =>
      doDequeue rest (taken.eraseIdx i) (.mk (core.dropAfterDequeue item) queues classes)
  | .ret, taken, d =>
    match taken with
    | [] => .ok (d, none)
    | [item] => .ok (d, some item)
    | _ => .error .plan

def dequeue (plan : DequeuePlan) (d : QueueDisc) : Except Fault (QueueDisc × Option Item) :=
  dequeueBy (doDequeue plan []) d

def peek (plan : DequeuePlan) (d : QueueDisc) : Except Fault (QueueDisc × Option Item) :=
  peekBy (doDequeue plan []) d

/-! ## Running -/

/-- One `Restart`: what `DoDequeue` does, and whether the transmission queue is stopped when
`DequeuePacket`, `Transmit` and, after the packet has been sent, `Transmit` again look at it. -/
structure Turn where
  plan : DequeuePlan
  stopped₁ : Bool
  stopped₂ : Bool
  stopped₃ : Bool

/-- `DequeuePacket`; the device has a queue interface with as many transmission queues, or none. -/
def dequeuePacket (m_devQueueIface : Option ℕ) (t : Turn) (d : QueueDisc) :
    Except Fault (QueueDisc × Option Item) :=
  match d.core.m_requeued with
  | some item =>
    if m_devQueueIface.isNone || !t.stopped₁ then .ok (d.setCore (d.core.release item), some item)
    else .ok (d, none)
  | none =>
    if m_devQueueIface.all fun n ↦ decide (1 < n) || !t.stopped₁ then d.dequeue t.plan
    else .ok (d, none)

def transmit (m_devQueueIface : Option ℕ) (t : Turn) (item : Item) (d : QueueDisc) :
    QueueDisc × Bool :=
  if m_devQueueIface.isSome && t.stopped₂ then (d.setCore (d.core.requeue item), false)
  else (d, !(d.core.m_nPackets = 0 || m_devQueueIface.isSome && t.stopped₃))

def restart (m_devQueueIface : Option ℕ) (t : Turn) (d : QueueDisc) :
    Except Fault (QueueDisc × Bool) := do
  let r ← d.dequeuePacket m_devQueueIface t
  match r.2 with
  | none => .ok (r.1, false)
  | some item => .ok (r.1.transmit m_devQueueIface t item)

/-- The loop of `Run`. -/
def runLoop (m_devQueueIface : Option ℕ) : List Turn → ℕ → QueueDisc → Except Fault QueueDisc
  | [], _, _ => .error .plan
  | t :: turns, quota, d => do
    let r ← d.restart m_devQueueIface t
    if r.2 then
      if sub32 quota 1 ≤ 0 then .ok r.1
      else runLoop m_devQueueIface turns (sub32 quota 1) r.1
    else .ok r.1

def run (m_devQueueIface : Option ℕ) (turns : List Turn) (d : QueueDisc) :
    Except Fault QueueDisc :=
  if d.core.m_running then .ok d
  else do
    let d' ← runLoop m_devQueueIface turns d.core.m_quota
      (d.setCore { d.core with m_running := true })
    .ok (d'.setCore { d'.core with m_running := false })

/-- A call on the root. -/
inductive Op where
  | enqueue (item : Item) (plan : EnqueuePlan)
  | dequeue (plan : DequeuePlan)
  | peek (plan : DequeuePlan)
  | run (turns : List Turn)

def step (m_devQueueIface : Option ℕ) (d : QueueDisc) : Op → Except Fault QueueDisc
  | .enqueue item plan => (d.enqueue item plan).map Prod.fst
  | .dequeue plan => (d.dequeue plan).map Prod.fst
  | .peek plan => (d.peek plan).map Prod.fst
  | .run turns => d.run m_devQueueIface turns

/-- The runs of a tree of discs. -/
def machine (m_devQueueIface : Option ℕ) (root : QueueDisc) : Machine QueueDisc Op where
  init := root
  next d op := (d.step m_devQueueIface op).toOption

end QueueDisc

end TrafficControl

end Ns3
