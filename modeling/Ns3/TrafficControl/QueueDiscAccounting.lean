import Ns3.Library.Partial
import Ns3.TrafficControl.QueueDisc

/-!
# The accounting of queue discs

The accounts of a disc are read off the traces it has fired: what was enqueued is what was dequeued and what
is held, as multisets of packets. While a disc takes packets for a peek they are neither, and the invariant
says which of them it has in hand. A child's traces are its parent's, but the parent counts them in its own
way when it is being peeked at.

Bytes are counted in 32 bits, but the statistics in 64, and the assertion that compares them fails for a disc
that holds `2 ^ 32` bytes or more.
-/

namespace Ns3

namespace TrafficControl

namespace QueueDisc

/-! ## What a disc holds -/

mutual

/-- The packets in the internal queues, in the children and in the slot of a peeked packet. -/
def held : QueueDisc → Multiset Item
  | .mk core queues classes =>
    (if core.m_peeked then (core.m_requeued.toList : Multiset Item) else 0) +
      (queues.map fun q ↦ (q.m_packets : Multiset Item)).sum + heldAll classes

def heldAll : List QueueDisc → Multiset Item
  | [] => 0
  | d :: classes => held d + heldAll classes

end

/-- The bytes of packets. -/
def bytes (m : Multiset Item) : ℕ := (m.map Item.size).sum

/-- The packets of the events of one kind. -/
def enqueuedIn (events : List Event) : Multiset Item :=
  (events.map fun | .enqueue item => {item} | _ => (0 : Multiset Item)).sum

def dequeuedIn (events : List Event) : Multiset Item :=
  (events.map fun | .dequeue item => {item} | _ => (0 : Multiset Item)).sum

def droppedBefore (events : List Event) : Multiset Item :=
  (events.map fun | .dropBeforeEnqueue item => {item} | _ => (0 : Multiset Item)).sum

def droppedAfter (events : List Event) : Multiset Item :=
  (events.map fun | .dropAfterDequeue item => {item} | _ => (0 : Multiset Item)).sum

/-- **The accounts of a disc are exact**: what was received was enqueued or dropped; what was enqueued was
dequeued, once, or is held; no packet was dropped more often than it was received; and the held packets and
their bytes are counted. -/
structure Accounted (d : QueueDisc) : Prop where
  nTotalReceived : d.core.EnqueueAsserts
  received : (d.core.received : Multiset Item) =
    enqueuedIn d.core.trace + droppedBefore d.core.trace
  enqueued : enqueuedIn d.core.trace = dequeuedIn d.core.trace + d.held
  dropped : droppedBefore d.core.trace + droppedAfter d.core.trace ≤
    (d.core.received : Multiset Item)
  nPackets : d.core.m_nPackets = d.held.card
  nBytes : d.core.m_nBytes = bytes d.held

/-- A property of all discs of a tree. -/
inductive Everywhere (P : QueueDisc → Prop) : QueueDisc → Prop where
  | mk {core : Core} {queues : List InternalQueue} {classes : List QueueDisc}
      (here : P (.mk core queues classes)) (below : ∀ d ∈ classes, Everywhere P d) :
      Everywhere P (.mk core queues classes)

theorem Everywhere.here {P : QueueDisc → Prop} {d : QueueDisc} (h : d.Everywhere P) : P d := by
  cases h with
  | mk here _ => exact here

theorem Everywhere.children {P : QueueDisc → Prop} {d : QueueDisc} (h : d.Everywhere P) :
    ∀ d' ∈ d.m_classes, d'.Everywhere P := by
  cases h with
  | mk _ below => exact below

theorem everywhere_iff {P : QueueDisc → Prop} {d : QueueDisc} :
    d.Everywhere P ↔ P d ∧ ∀ d' ∈ d.m_classes, d'.Everywhere P := by
  refine ⟨fun h ↦ ⟨h.here, h.children⟩, fun ⟨here, below⟩ ↦ ?_⟩
  cases d with
  | mk core queues classes => exact .mk here below

section Held

variable {core : Core} {queues : List InternalQueue} {classes : List QueueDisc} {i : ℕ}

theorem held_mk : held (.mk core queues classes) =
    (if core.m_peeked then (core.m_requeued.toList : Multiset Item) else 0) +
      (queues.map fun q ↦ (q.m_packets : Multiset Item)).sum + heldAll classes := by
  rw [held]

theorem heldAll_cons (d : QueueDisc) : heldAll (d :: classes) = d.held + heldAll classes := by
  rw [heldAll]

theorem heldAll_set {d : QueueDisc} (hd : classes[i]? = some d) (d' : QueueDisc) :
    heldAll (classes.set i d') + d.held = heldAll classes + d'.held := by
  induction classes generalizing i with
  | nil => cases hd
  | cons c classes ih =>
    cases i with
    | zero =>
      cases hd
      rw [List.set_cons_zero, heldAll_cons, heldAll_cons]
      abel
    | succ i =>
      rw [List.set_cons_succ, heldAll_cons, heldAll_cons, add_assoc,
        ih (List.getElem?_cons_succ ▸ hd), add_assoc]

theorem queues_set {q : InternalQueue} (hq : queues[i]? = some q) (q' : InternalQueue) :
    ((queues.set i q').map fun q ↦ (q.m_packets : Multiset Item)).sum + q.m_packets =
      (queues.map fun q ↦ (q.m_packets : Multiset Item)).sum + q'.m_packets := by
  induction queues generalizing i with
  | nil => cases hq
  | cons r queues ih =>
    cases i with
    | zero =>
      cases hq
      rw [List.set_cons_zero, List.map_cons, List.sum_cons, List.map_cons, List.sum_cons]
      abel
    | succ i =>
      rw [List.set_cons_succ, List.map_cons, List.sum_cons, List.map_cons, List.sum_cons, add_assoc,
        ih (List.getElem?_cons_succ ▸ hq), add_assoc]

theorem held_child_le {d : QueueDisc} (hd : d ∈ classes) : d.held ≤ heldAll classes := by
  induction classes with
  | nil => cases hd
  | cons c classes ih =>
    rw [heldAll_cons]
    rcases List.mem_cons.mp hd with rfl | hd
    · exact Multiset.le_add_right _ _
    · exact (ih hd).trans (Multiset.le_add_left _ _)

theorem queue_le {q : InternalQueue} (hq : q ∈ queues) :
    (q.m_packets : Multiset Item) ≤ (queues.map fun q ↦ (q.m_packets : Multiset Item)).sum := by
  induction queues with
  | nil => cases hq
  | cons r queues ih =>
    rw [List.map_cons, List.sum_cons]
    rcases List.mem_cons.mp hq with rfl | hq
    · exact Multiset.le_add_right _ _
    · exact (ih hq).trans (Multiset.le_add_left _ _)

end Held

/-! ## Counting -/

/-- Packets, as they are counted. -/
def tally (m : Multiset Item) : Counter := ⟨m.card % 2 ^ 32, bytes m % 2 ^ 64⟩

section Tally

variable {m n : Multiset Item} {item : Item}

theorem bytes_add (m n : Multiset Item) : bytes (m + n) = bytes m + bytes n := by
  rw [bytes, Multiset.map_add, Multiset.sum_add, bytes, bytes]

theorem bytes_singleton (item : Item) : bytes {item} = item.size := by
  rw [bytes, Multiset.map_singleton, Multiset.sum_singleton]

theorem bytes_le (h : m ≤ n) : bytes m ≤ bytes n := by
  obtain ⟨k, rfl⟩ := Multiset.le_iff_exists_add.mp h
  rw [bytes_add]
  exact Nat.le_add_right _ _

theorem tally_count (m : Multiset Item) (item : Item) :
    (tally m).count item = tally (m + {item}) := by
  rw [tally, tally, Counter.count, Multiset.card_add, Multiset.card_singleton, bytes_add,
    bytes_singleton, Nat.mod_add_mod, Nat.mod_add_mod]

theorem tally_add (m n : Multiset Item) : (tally m).add (tally n) = tally (m + n) := by
  rw [tally, tally, tally, Counter.add, Multiset.card_add, bytes_add, ← Nat.add_mod, ← Nat.add_mod]

theorem tally_sub (m n : Multiset Item) : (tally (m + n)).sub (tally m) = tally n := by
  rw [tally, tally, tally, Counter.sub, Multiset.card_add, bytes_add, Counter.mk.injEq]
  dsimp only
  constructor <;> omega

end Tally

section Events

variable {es fs : List Event} {item : Item}

@[simp] theorem enqueuedIn_append : enqueuedIn (es ++ fs) = enqueuedIn es + enqueuedIn fs := by
  rw [enqueuedIn, List.map_append, List.sum_append, enqueuedIn, enqueuedIn]

@[simp] theorem dequeuedIn_append : dequeuedIn (es ++ fs) = dequeuedIn es + dequeuedIn fs := by
  rw [dequeuedIn, List.map_append, List.sum_append, dequeuedIn, dequeuedIn]

@[simp] theorem droppedBefore_append :
    droppedBefore (es ++ fs) = droppedBefore es + droppedBefore fs := by
  rw [droppedBefore, List.map_append, List.sum_append, droppedBefore, droppedBefore]

@[simp] theorem droppedAfter_append :
    droppedAfter (es ++ fs) = droppedAfter es + droppedAfter fs := by
  rw [droppedAfter, List.map_append, List.sum_append, droppedAfter, droppedAfter]

end Events

/-- The statistics, from the packets that were received and the traces that were fired. -/
def statsOf (received : Multiset Item) (requeued : Counter) (trace : List Event) : Stats where
  nTotalReceived := tally received
  nTotalEnqueued := tally (enqueuedIn trace)
  nTotalDequeued := tally (dequeuedIn trace)
  nTotalRequeued := requeued
  nTotalDropped := tally (droppedBefore trace + droppedAfter trace)
  nTotalDroppedBeforeEnqueue := tally (droppedBefore trace)
  nTotalDroppedAfterDequeue := tally (droppedAfter trace)

section StatsOf

variable {received : Multiset Item} {requeued : Counter} {trace : List Event} {item : Item}

theorem statsOf_receive : statsOf (received + {item}) requeued trace =
    { statsOf received requeued trace with
      nTotalReceived := (statsOf received requeued trace).nTotalReceived.count item } := by
  simp [statsOf, tally_count]

theorem statsOf_enqueue : statsOf received requeued (trace ++ [.enqueue item]) =
    { statsOf received requeued trace with
      nTotalEnqueued := (statsOf received requeued trace).nTotalEnqueued.count item } := by
  simp [statsOf, tally_count, enqueuedIn, dequeuedIn, droppedBefore, droppedAfter]

theorem statsOf_dequeue : statsOf received requeued (trace ++ [.dequeue item]) =
    { statsOf received requeued trace with
      nTotalDequeued := (statsOf received requeued trace).nTotalDequeued.count item } := by
  simp [statsOf, tally_count, enqueuedIn, dequeuedIn, droppedBefore, droppedAfter]

theorem statsOf_dropBeforeEnqueue :
    statsOf received requeued (trace ++ [.dropBeforeEnqueue item]) =
      { statsOf received requeued trace with
        nTotalDropped := (statsOf received requeued trace).nTotalDropped.count item
        nTotalDroppedBeforeEnqueue :=
          (statsOf received requeued trace).nTotalDroppedBeforeEnqueue.count item } := by
  simp [statsOf, tally_count, enqueuedIn, dequeuedIn, droppedBefore, droppedAfter, add_right_comm]

theorem statsOf_dropAfterDequeue :
    statsOf received requeued (trace ++ [.dropAfterDequeue item]) =
      { statsOf received requeued trace with
        nTotalDropped := (statsOf received requeued trace).nTotalDropped.count item
        nTotalDroppedAfterDequeue :=
          (statsOf received requeued trace).nTotalDroppedAfterDequeue.count item } := by
  simp [statsOf, tally_count, enqueuedIn, dequeuedIn, droppedBefore, droppedAfter, add_assoc]

end StatsOf

/-- What the members of a disc say: which packets are counted as held, and which have been received but not
been enqueued or dropped yet. -/
structure Recorded (c : Core) (counted pending : Multiset Item) : Prop where
  stats : c.m_stats = statsOf c.received c.m_stats.nTotalRequeued c.trace
  received : (c.received : Multiset Item) =
    enqueuedIn c.trace + droppedBefore c.trace + pending
  enqueued : enqueuedIn c.trace = dequeuedIn c.trace + counted
  nPackets : c.m_nPackets = counted.card % 2 ^ 32
  nBytes : c.m_nBytes = bytes counted % 2 ^ 32

section Recorded

variable {c : Core} {counted pending : Multiset Item} {item : Item}

theorem recorded_create (quota : ℕ) : Recorded (Core.create quota) 0 0 :=
  ⟨rfl, rfl, rfl, rfl, rfl⟩

theorem Recorded.receive (h : Recorded c counted 0) (item : Item) :
    Recorded (c.receive item) counted {item} where
  stats := by
    rw [Core.receive]
    dsimp only
    rw [← Multiset.coe_add, Multiset.coe_singleton, statsOf_receive, ← h.stats]
  received := by
    have hold := h.received
    rw [add_zero] at hold
    rw [Core.receive]
    dsimp only
    rw [← Multiset.coe_add, hold]
    rfl
  enqueued := h.enqueued
  nPackets := h.nPackets
  nBytes := h.nBytes

theorem Recorded.packetEnqueued (h : Recorded c counted {item}) :
    Recorded (c.packetEnqueued item) (counted + {item}) 0 where
  stats := by
    rw [Core.packetEnqueued]
    dsimp only
    rw [statsOf_enqueue, ← h.stats]
  received := by
    rw [Core.packetEnqueued]
    dsimp only
    rw [h.received]
    simp [enqueuedIn, droppedBefore, add_right_comm]
  enqueued := by
    rw [Core.packetEnqueued]
    dsimp only
    rw [enqueuedIn_append, h.enqueued]
    simp [enqueuedIn, dequeuedIn, add_assoc]
  nPackets := by
    rw [Core.packetEnqueued]
    dsimp only
    rw [h.nPackets, Multiset.card_add, Multiset.card_singleton, add32, Nat.mod_add_mod]
  nBytes := by
    rw [Core.packetEnqueued]
    dsimp only
    rw [h.nBytes, bytes_add, bytes_singleton, add32, Nat.mod_add_mod]

theorem Recorded.dropBeforeEnqueue (h : Recorded c counted {item}) :
    Recorded (c.dropBeforeEnqueue item) counted 0 where
  stats := by
    rw [Core.dropBeforeEnqueue]
    dsimp only
    rw [statsOf_dropBeforeEnqueue, ← h.stats]
  received := by
    rw [Core.dropBeforeEnqueue]
    dsimp only
    rw [h.received]
    simp [enqueuedIn, droppedBefore, add_assoc]
  enqueued := by
    rw [Core.dropBeforeEnqueue]
    dsimp only
    rw [enqueuedIn_append, h.enqueued]
    simp [enqueuedIn, dequeuedIn]
  nPackets := h.nPackets
  nBytes := h.nBytes

theorem Recorded.packetDequeued (h : Recorded c (counted + {item}) pending)
    (hpeeked : c.m_peeked = false) : Recorded (c.packetDequeued item) counted pending := by
  have heq : c.packetDequeued item = { c with
      m_nPackets := sub32 c.m_nPackets 1
      m_nBytes := sub32 c.m_nBytes item.size
      m_stats := { c.m_stats with nTotalDequeued := c.m_stats.nTotalDequeued.count item }
      trace := c.trace ++ [.dequeue item] } := by
    rw [Core.packetDequeued, if_neg (by simp [hpeeked])]
  rw [heq]
  refine ⟨?_, ?_, ?_, ?_, ?_⟩
  · dsimp only
    rw [statsOf_dequeue, ← h.stats]
  · rw [h.received]
    simp [enqueuedIn, droppedBefore]
  · dsimp only
    rw [enqueuedIn_append, h.enqueued]
    simp [enqueuedIn, dequeuedIn, add_assoc, add_comm]
  · dsimp only
    rw [h.nPackets, Multiset.card_add, Multiset.card_singleton, sub32]
    omega
  · dsimp only
    rw [h.nBytes, bytes_add, bytes_singleton, sub32]
    omega

theorem dropAfterDequeue_peeked (hpeeked : c.m_peeked = true) : c.dropAfterDequeue item =
    { c with
      m_nPackets := sub32 c.m_nPackets 1
      m_nBytes := sub32 c.m_nBytes item.size
      m_stats := { c.m_stats with
        nTotalDequeued := c.m_stats.nTotalDequeued.count item
        nTotalDropped := c.m_stats.nTotalDropped.count item
        nTotalDroppedAfterDequeue := c.m_stats.nTotalDroppedAfterDequeue.count item }
      trace := c.trace ++ [.dequeue item] ++ [.dropAfterDequeue item] } := by
  cases c
  cases hpeeked
  rfl

theorem dropAfterDequeue_not_peeked (hpeeked : c.m_peeked = false) : c.dropAfterDequeue item =
    { c with
      m_stats := { c.m_stats with
        nTotalDropped := c.m_stats.nTotalDropped.count item
        nTotalDroppedAfterDequeue := c.m_stats.nTotalDroppedAfterDequeue.count item }
      trace := c.trace ++ [.dropAfterDequeue item] } := by
  cases c
  cases hpeeked
  rfl

theorem Recorded.dropAfterDequeue_peeked (h : Recorded c (counted + {item}) pending)
    (hpeeked : c.m_peeked = true) : Recorded (c.dropAfterDequeue item) counted pending := by
  rw [QueueDisc.dropAfterDequeue_peeked hpeeked]
  refine ⟨?_, ?_, ?_, ?_, ?_⟩
  · dsimp only
    rw [statsOf_dropAfterDequeue, statsOf_dequeue, ← h.stats]
  · rw [h.received]
    simp [enqueuedIn, droppedBefore]
  · dsimp only
    rw [enqueuedIn_append, enqueuedIn_append, h.enqueued]
    simp [enqueuedIn, dequeuedIn, add_assoc, add_comm]
  · dsimp only
    rw [h.nPackets, Multiset.card_add, Multiset.card_singleton, sub32]
    omega
  · dsimp only
    rw [h.nBytes, bytes_add, bytes_singleton, sub32]
    omega

theorem Recorded.dropAfterDequeue (h : Recorded c counted pending) (hpeeked : c.m_peeked = false) :
    Recorded (c.dropAfterDequeue item) counted pending := by
  rw [QueueDisc.dropAfterDequeue_not_peeked hpeeked]
  refine ⟨?_, ?_, ?_, h.nPackets, h.nBytes⟩
  · dsimp only
    rw [statsOf_dropAfterDequeue, ← h.stats]
  · rw [h.received]
    simp [enqueuedIn, droppedBefore]
  · dsimp only
    rw [enqueuedIn_append, h.enqueued]
    simp [enqueuedIn, dequeuedIn]

theorem Recorded.requeue (h : Recorded c counted pending) (item : Item) :
    Recorded (c.requeue item) counted pending where
  stats := congrArg (fun stats : Stats ↦
    { stats with nTotalRequeued := c.m_stats.nTotalRequeued.count item }) h.stats
  received := h.received
  enqueued := h.enqueued
  nPackets := h.nPackets
  nBytes := h.nBytes

theorem Recorded.enqueueAsserts (h : Recorded c counted 0) : c.EnqueueAsserts := by
  unfold Core.EnqueueAsserts
  rw [h.stats]
  change tally c.received = (tally (droppedBefore c.trace)).add (tally (enqueuedIn c.trace))
  rw [tally_add, h.received, add_zero, add_comm]

/-- The assertions of `Dequeue` hold when the bytes can be counted. -/
theorem Recorded.dequeueAsserts (h : Recorded c counted pending) (hbytes : bytes counted < 2 ^ 32) :
    c.DequeueAsserts := by
  unfold Core.DequeueAsserts
  rw [h.stats]
  change _ = (tally (enqueuedIn c.trace)).sub (tally (dequeuedIn c.trace))
  rw [h.enqueued, tally_sub, h.nPackets, h.nBytes, tally, Nat.mod_eq_of_lt hbytes,
    Nat.mod_eq_of_lt (hbytes.trans (by decide))]

end Recorded

/-! ## Taking packets -/

/-- A disc has taken packets: the traces it has fired for those that are gone and those that are dropped. -/
structure Took (c c' : Core) (gone dropped : Multiset Item) : Prop where
  trace : ∃ es, c'.trace = c.trace ++ es ∧ enqueuedIn es = 0 ∧ droppedBefore es = 0 ∧
    dequeuedIn es = gone ∧ droppedAfter es = dropped
  peeked : c'.m_peeked = c.m_peeked
  requeued : c'.m_requeued = c.m_requeued

section Took

variable {c c' c'' : Core} {gone dropped gone' dropped' counted pending : Multiset Item} {item : Item}

theorem took_refl (c : Core) : Took c c 0 0 := ⟨⟨[], by simp, rfl, rfl, rfl, rfl⟩, rfl, rfl⟩

theorem Took.trans (h : Took c c' gone dropped) (h' : Took c' c'' gone' dropped') :
    Took c c'' (gone + gone') (dropped + dropped') := by
  obtain ⟨⟨es, htrace, henq, hbefore, hgone, hdropped⟩, hpeeked, hrequeued⟩ := h
  obtain ⟨⟨fs, htrace', henq', hbefore', hgone', hdropped'⟩, hpeeked', hrequeued'⟩ := h'
  refine ⟨⟨es ++ fs, ?_, ?_, ?_, ?_, ?_⟩, hpeeked'.trans hpeeked, hrequeued'.trans hrequeued⟩
  · rw [htrace', htrace, List.append_assoc]
  · rw [enqueuedIn_append, henq, henq', add_zero]
  · rw [droppedBefore_append, hbefore, hbefore', add_zero]
  · rw [dequeuedIn_append, hgone, hgone']
  · rw [droppedAfter_append, hdropped, hdropped']

/-- The packets that are counted as dequeued: for a peek, only those that are dropped. -/
def goneOf (peeked : Bool) (dequeued dropped : Multiset Item) : Multiset Item :=
  if peeked then dropped else dequeued

theorem took_packetDequeued (c : Core) (item : Item) :
    Took c (c.packetDequeued item) (goneOf c.m_peeked {item} 0) 0 := by
  unfold Core.packetDequeued goneOf
  split_ifs
  · exact took_refl c
  · exact ⟨⟨[.dequeue item], rfl, rfl, rfl, by simp [dequeuedIn], rfl⟩, rfl, rfl⟩

theorem took_dropAfterDequeue (c : Core) (item : Item) :
    Took c (c.dropAfterDequeue item) (goneOf c.m_peeked 0 {item}) {item} := by
  cases hpeeked : c.m_peeked with
  | true =>
    rw [dropAfterDequeue_peeked hpeeked]
    exact ⟨⟨[.dequeue item, .dropAfterDequeue item], by simp, rfl, rfl, by simp [dequeuedIn, goneOf],
      by simp [droppedAfter]⟩, rfl, rfl⟩
  | false =>
    rw [dropAfterDequeue_not_peeked hpeeked]
    exact ⟨⟨[.dropAfterDequeue item], rfl, rfl, rfl, rfl, by simp [droppedAfter]⟩, rfl, rfl⟩

theorem Recorded.packetDequeued_goneOf
    (h : Recorded c (counted + goneOf c.m_peeked {item} 0) pending) :
    Recorded (c.packetDequeued item) counted pending := by
  cases hpeeked : c.m_peeked with
  | true =>
    rw [Core.packetDequeued, if_pos hpeeked]
    simpa [goneOf, hpeeked] using h
  | false => exact Recorded.packetDequeued (by simpa [goneOf, hpeeked] using h) hpeeked

theorem Recorded.dropAfterDequeue_goneOf
    (h : Recorded c (counted + goneOf c.m_peeked 0 {item}) pending) :
    Recorded (c.dropAfterDequeue item) counted pending := by
  cases hpeeked : c.m_peeked with
  | true => exact Recorded.dropAfterDequeue_peeked (by simpa [goneOf, hpeeked] using h) hpeeked
  | false => exact Recorded.dropAfterDequeue (by simpa [goneOf, hpeeked] using h) hpeeked

theorem goneOf_false (m n : Multiset Item) : goneOf false m n = m := rfl

theorem goneOf_true (m n : Multiset Item) : goneOf true m n = n := rfl

theorem goneOf_add (peeked : Bool) (m m' n n' : Multiset Item) :
    goneOf peeked (m + m') (n + n') = goneOf peeked m n + goneOf peeked m' n' := by
  cases peeked <;> rfl

/-- **What a child has taken, its parent has**, but it counts it in its own way. -/
theorem took_notify (es : List Event) (henq : enqueuedIn es = 0) (hbefore : droppedBefore es = 0)
    (c : Core) : Took c (c.notify es) (goneOf c.m_peeked (dequeuedIn es) (droppedAfter es))
      (droppedAfter es) ∧
    ∀ counted pending,
      Recorded c (counted + goneOf c.m_peeked (dequeuedIn es) (droppedAfter es)) pending →
        Recorded (c.notify es) counted pending := by
  induction es generalizing c with
  | nil =>
    refine ⟨?_, fun counted pending h ↦ ?_⟩
    · cases hpeeked : c.m_peeked <;> exact took_refl c
    · cases hpeeked : c.m_peeked <;>
        simpa [goneOf, hpeeked, dequeuedIn, droppedAfter, Core.notify] using h
  | cons e es ih =>
    rw [← List.singleton_append] at henq hbefore
    rw [← List.singleton_append, dequeuedIn_append, droppedAfter_append, goneOf_add]
    rw [enqueuedIn_append, add_eq_zero] at henq
    rw [droppedBefore_append, add_eq_zero] at hbefore
    cases e with
    | enqueue item => simp [enqueuedIn] at henq
    | dropBeforeEnqueue item => simp [droppedBefore] at hbefore
    | dequeue item =>
      have hfirst := took_packetDequeued c item
      obtain ⟨hrest, hrecorded⟩ := ih henq.2 hbefore.2 (c.packetDequeued item)
      rw [hfirst.peeked] at hrest hrecorded
      rw [show dequeuedIn [.dequeue item] = {item} by simp [dequeuedIn],
        show droppedAfter [.dequeue item] = 0 from rfl]
      refine ⟨hfirst.trans hrest, fun counted pending h ↦ ?_⟩
      refine hrecorded counted pending (Recorded.packetDequeued_goneOf ?_)
      rwa [add_assoc, add_comm (goneOf _ _ _)]
    | dropAfterDequeue item =>
      have hfirst := took_dropAfterDequeue c item
      obtain ⟨hrest, hrecorded⟩ := ih henq.2 hbefore.2 (c.dropAfterDequeue item)
      rw [hfirst.peeked] at hrest hrecorded
      rw [show droppedAfter [.dropAfterDequeue item] = {item} by simp [droppedAfter],
        show dequeuedIn [.dropAfterDequeue item] = 0 from rfl]
      refine ⟨hfirst.trans hrest, fun counted pending h ↦ ?_⟩
      refine hrecorded counted pending (Recorded.dropAfterDequeue_goneOf ?_)
      rwa [add_assoc, add_comm (goneOf _ _ _)]

end Took

/-! ## The invariant -/

/-- The packet in the slot, if it was put there by a peek. -/
def slot (c : Core) : Multiset Item := if c.m_peeked then (c.m_requeued.toList : Multiset Item) else 0

/-- What a disc holds elsewhere. -/
def rest (d : QueueDisc) : Multiset Item :=
  (d.m_queues.map fun q ↦ (q.m_packets : Multiset Item)).sum + heldAll d.m_classes

/-- What holds of a disc between two calls. -/
structure Exact (d : QueueDisc) : Prop where
  recorded : Recorded d.core d.held 0
  dropped : droppedAfter d.core.trace ≤ dequeuedIn d.core.trace
  peeked : d.core.m_peeked = true → d.core.m_requeued.isSome = true

/-- The packet in the slot was put there by a peek. -/
def NotRequeued (d : QueueDisc) : Prop := d.core.m_requeued.isSome = true → d.core.m_peeked = true

/-- What holds of a child, which is not run and has no requeued packet. -/
def Sound (d : QueueDisc) : Prop := d.Exact ∧ d.NotRequeued

/-- What holds of the root. -/
structure Tree (d : QueueDisc) : Prop where
  exact : d.Exact
  sound : ∀ d' ∈ d.m_classes, d'.Everywhere Sound

/-- The packets and their bytes can be counted in 32 bits. -/
def Small (d : QueueDisc) : Prop := d.held.card < 2 ^ 32 ∧ bytes d.held < 2 ^ 32

section Invariant

variable {d d' d₀ : QueueDisc} {taken out : Multiset Item} {item : Item}

theorem held_eq (d : QueueDisc) : d.held = slot d.core + d.rest := by
  cases d with
  | mk core queues classes =>
    rw [held_mk, add_assoc]
    rfl

theorem held_setCore (d : QueueDisc) (c : Core) : (d.setCore c).held = slot c + d.rest :=
  held_eq _

theorem Small.of_le {n : Multiset Item} (h : Small d) (hle : n ≤ d.held) :
    n.card < 2 ^ 32 ∧ bytes n < 2 ^ 32 :=
  ⟨(Multiset.card_le_card hle).trans_lt h.1, (bytes_le hle).trans_lt h.2⟩

theorem Small.child (h : Small d) (hd' : d' ∈ d.m_classes) : Small d' := by
  refine h.of_le ((held_child_le hd').trans ?_)
  rw [held_eq, rest]
  exact (Multiset.le_add_left _ _).trans (Multiset.le_add_left _ _)

/-- A `DoDequeue` under way: what has been taken, and what has been fired. -/
structure Taking (d₀ d : QueueDisc) (taken : Multiset Item) : Prop where
  took : ∃ gone dropped, Took d₀.core d.core gone dropped ∧
    dropped + goneOf d₀.core.m_peeked taken 0 = gone ∧
    d₀.held = d.held + gone + goneOf d₀.core.m_peeked 0 taken
  recorded : Recorded d.core (d.held + goneOf d₀.core.m_peeked 0 taken) 0
  requeued : d₀.core.m_requeued = none
  dropped : droppedAfter d₀.core.trace ≤ dequeuedIn d₀.core.trace
  sound : ∀ d' ∈ d.m_classes, d'.Everywhere Sound

theorem goneOf_zero (peeked : Bool) : goneOf peeked 0 0 = 0 := by cases peeked <;> rfl

theorem taking_refl (hrecorded : Recorded d.core d.held 0) (hrequeued : d.core.m_requeued = none)
    (hdropped : droppedAfter d.core.trace ≤ dequeuedIn d.core.trace)
    (hsound : ∀ d' ∈ d.m_classes, d'.Everywhere Sound) : Taking d d 0 := by
  refine ⟨⟨0, 0, took_refl _, ?_, ?_⟩, ?_, hrequeued, hdropped, hsound⟩
  · rw [goneOf_zero, add_zero]
  · rw [goneOf_zero, add_zero, add_zero]
  · rwa [goneOf_zero, add_zero]

theorem Taking.peeked (h : Taking d₀ d taken) : d.core.m_peeked = d₀.core.m_peeked := by
  obtain ⟨gone, dropped, htook, -, -⟩ := h.took
  exact htook.peeked

theorem Taking.requeued_eq (h : Taking d₀ d taken) : d.core.m_requeued = none := by
  obtain ⟨gone, dropped, htook, -, -⟩ := h.took
  exact htook.requeued.trans h.requeued

/-- **Packets are taken** from a queue or a child, which may have dropped others. -/
theorem Taking.take (h : Taking d₀ d taken) {es : List Event} (henq : enqueuedIn es = 0)
    (hbefore : droppedBefore es = 0) (hout : droppedAfter es + out = dequeuedIn es)
    (hcore : d'.core = d.core.notify es) (hheld : d'.held + dequeuedIn es = d.held)
    (hsound : ∀ d'' ∈ d'.m_classes, d''.Everywhere Sound) : Taking d₀ d' (taken + out) := by
  obtain ⟨gone, dropped, htook, hgone, hsum⟩ := h.took
  obtain ⟨hnotify, hrecorded⟩ := took_notify es henq hbefore d.core
  have hrec := h.recorded
  rw [← hcore, h.peeked] at hnotify hrecorded
  rw [← hheld, ← hout] at hsum hrec
  rw [← hout] at hnotify hrecorded
  refine ⟨⟨_, _, htook.trans hnotify, ?_, ?_⟩, hrecorded _ _ ?_, h.requeued, h.dropped, hsound⟩
  all_goals cases hp : d₀.core.m_peeked
  · rw [hp, goneOf_false] at hgone
    rw [goneOf_false, goneOf_false, ← hgone]
    abel
  · rw [hp, goneOf_true] at hgone
    rw [goneOf_true, goneOf_true, ← hgone]
    abel
  · rw [hp, goneOf_false] at hsum
    rw [goneOf_false, goneOf_false, hsum]
    abel
  · rw [hp, goneOf_true] at hsum
    rw [goneOf_true, goneOf_true, hsum]
    abel
  · rw [hp, goneOf_false, add_zero] at hrec
    rw [goneOf_false, goneOf_false, add_zero]
    exact hrec
  · rw [hp, goneOf_true] at hrec
    rw [goneOf_true, goneOf_true]
    convert hrec using 1
    abel

/-- **A packet that was taken is dropped.** -/
theorem Taking.drop (h : Taking d₀ d (taken + {item}))
    (hcore : d'.core = d.core.dropAfterDequeue item) (hheld : d'.held = d.held)
    (hclasses : d'.m_classes = d.m_classes) : Taking d₀ d' taken := by
  obtain ⟨gone, dropped, htook, hgone, hsum⟩ := h.took
  have hdrop := took_dropAfterDequeue d.core item
  have hrec := h.recorded
  rw [← hcore, h.peeked] at hdrop
  refine ⟨⟨_, _, htook.trans hdrop, ?_, ?_⟩, ?_, h.requeued, h.dropped, hclasses ▸ h.sound⟩
  · cases hp : d₀.core.m_peeked
    · rw [hp, goneOf_false] at hgone
      rw [goneOf_false, goneOf_false, ← hgone]
      abel
    · rw [hp, goneOf_true] at hgone
      rw [goneOf_true, goneOf_true, ← hgone]
      abel
  · rw [hsum, hheld]
    cases hp : d₀.core.m_peeked
    · simp only [goneOf_false]
      abel
    · simp only [goneOf_true]
      abel
  · rw [hcore, hheld]
    apply Recorded.dropAfterDequeue_goneOf
    rw [h.peeked]
    convert hrec using 1
    cases hp : d₀.core.m_peeked
    · simp only [goneOf_false]
      abel
    · simp only [goneOf_true]
      abel

/-- A call on a disc is over: it has returned these packets, which were dequeued and not dropped. -/
structure Gave (d d' : QueueDisc) (out : Multiset Item) : Prop where
  tree : d'.Tree
  notRequeued : d.NotRequeued → d'.NotRequeued
  trace : ∃ es, d'.core.trace = d.core.trace ++ es ∧ enqueuedIn es = 0 ∧ droppedBefore es = 0 ∧
    droppedAfter es + out = dequeuedIn es ∧ d'.held + dequeuedIn es = d.held

theorem Gave.fired (h : Gave d d' out) : enqueuedIn (fired d d') = 0 ∧ droppedBefore (fired d d') = 0 ∧
    droppedAfter (fired d d') + out = dequeuedIn (fired d d') ∧
      d'.held + dequeuedIn (fired d d') = d.held := by
  obtain ⟨es, htrace, henq, hbefore, hout, hheld⟩ := h.trace
  rw [QueueDisc.fired, htrace, List.drop_left]
  exact ⟨henq, hbefore, hout, hheld⟩

theorem Gave.held_le (h : Gave d d' out) : d'.held ≤ d.held := by
  obtain ⟨es, -, -, -, -, hheld⟩ := h.trace
  rw [← hheld]
  exact Multiset.le_add_right _ _

/-! ## Dequeueing -/

/-- An assertion fails. -/
def IsAssertion (e : Fault) : Prop := e = .assertion

/-- What is asked of a `DoDequeue`. -/
def Takes (doDequeue : QueueDisc → Except Fault (QueueDisc × Option Item)) : Prop :=
  ∀ d, Taking d d 0 → d.Small →
    (doDequeue d).Meets IsAssertion fun r ↦ Taking d r.1 (r.2.toList : Multiset Item)

theorem not_isAssertion_plan : ¬ IsAssertion .plan := by
  rintro ⟨⟩

theorem Taking.counted_le (h : Taking d₀ d taken) :
    d.held + goneOf d₀.core.m_peeked 0 taken ≤ d₀.held := by
  obtain ⟨gone, dropped, -, -, hsum⟩ := h.took
  rw [hsum, add_right_comm]
  exact Multiset.le_add_right _ _

theorem dequeueBy_of_not_requeued
    {doDequeue : QueueDisc → Except Fault (QueueDisc × Option Item)} (hdo : Takes doDequeue)
    (h : Taking d d 0) (hsmall : d.Small) : (dequeueBy doDequeue d).Meets IsAssertion fun r ↦
      Taking d r.1 (r.2.toList : Multiset Item) := by
  unfold dequeueBy
  rw [h.requeued]
  refine (hdo d h hsmall).bind fun r hr ↦ ?_
  unfold checked
  rw [if_pos (hr.recorded.dequeueAsserts (hsmall.of_le hr.counted_le).2)]
  exact hr

theorem Tree.taking (h : d.Tree) (hrequeued : d.core.m_requeued = none) : Taking d d 0 :=
  taking_refl h.exact.recorded hrequeued h.exact.dropped h.sound

theorem Took.dropped_le {c c' : Core} {gone dropped : Multiset Item} (h : Took c c' gone dropped)
    (hle : droppedAfter c.trace ≤ dequeuedIn c.trace) (hgone : dropped ≤ gone) :
    droppedAfter c'.trace ≤ dequeuedIn c'.trace := by
  obtain ⟨es, htrace, -, -, hdequeued, hdropped⟩ := h.trace
  rw [htrace, droppedAfter_append, dequeuedIn_append, hdequeued, hdropped]
  exact add_le_add hle hgone

theorem checked_eq {r : QueueDisc × Option Item} (h : r.1.core.DequeueAsserts) :
    checked r = .ok r := if_pos h

theorem Tree.release_peeked (h : d.Tree) (hrequeued : d.core.m_requeued = some item)
    (hpeeked : d.core.m_peeked = true) : (d.core.release item).m_requeued = none ∧
      Recorded (d.core.release item) d.rest 0 ∧ Gave d (d.setCore (d.core.release item)) {item} := by
  have hheld := d.held_eq
  have hslot : slot d.core = {item} := by
    rw [slot, if_pos hpeeked, hrequeued]
    rfl
  have hrelease : d.core.release item =
      ({ d.core with m_requeued := none, m_peeked := false } : Core).packetDequeued item := by
    unfold Core.release
    rw [if_pos hpeeked]
  have hrest : (d.setCore (d.core.release item)).held = d.rest := by
    rw [held_setCore, hrelease]
    exact zero_add _
  have hrec : Recorded (d.core.release item) d.rest 0 := by
    have hold := h.exact.recorded
    rw [hheld, hslot, add_comm] at hold
    rw [hrelease]
    exact Recorded.packetDequeued ⟨hold.1, hold.2, hold.3, hold.4, hold.5⟩ rfl
  have htrace : (d.core.release item).trace = d.core.trace ++ [.dequeue item] := by
    rw [hrelease]
    rfl
  have hflags : (d.core.release item).m_requeued = none ∧
      (d.core.release item).m_peeked = false := by
    rw [hrelease]
    exact ⟨rfl, rfl⟩
  refine ⟨hflags.1, hrec, ⟨⟨hrest.symm ▸ hrec, ?_, fun hp ↦ ?_⟩, h.sound⟩, fun _ hsome ↦ ?_, ?_⟩
  · change droppedAfter (d.core.release item).trace ≤ dequeuedIn (d.core.release item).trace
    rw [htrace, droppedAfter_append, dequeuedIn_append]
    exact add_le_add h.exact.dropped (Multiset.zero_le _)
  · exact absurd (hflags.2.symm.trans hp) (by decide)
  · change (d.core.release item).m_requeued.isSome = true at hsome
    rw [hflags.1] at hsome
    cases hsome
  · refine ⟨[.dequeue item], htrace, rfl, rfl, ?_, ?_⟩
    · simp [droppedAfter, dequeuedIn]
    · rw [hrest, hheld, hslot, add_comm]
      simp [dequeuedIn]

theorem Tree.release_requeued (h : d.Tree) (hrequeued : d.core.m_requeued = some item)
    (hpeeked : d.core.m_peeked = false) : (d.core.release item).m_requeued = none ∧
      Recorded (d.core.release item) d.held 0 ∧ Gave d (d.setCore (d.core.release item)) 0 := by
  have hrelease : d.core.release item = { d.core with m_requeued := none } := by
    unfold Core.release
    rw [if_neg (by simp [hpeeked])]
  have hrest : (d.setCore (d.core.release item)).held = d.held := by
    rw [held_setCore, hrelease, held_eq, slot, slot, if_neg (by simp [hpeeked]),
      if_neg (by simp [hpeeked])]
  have hrec : Recorded (d.core.release item) d.held 0 := by
    have hold := h.exact.recorded
    rw [hrelease]
    exact ⟨hold.1, hold.2, hold.3, hold.4, hold.5⟩
  refine ⟨by rw [hrelease], hrec, ⟨⟨hrest.symm ▸ hrec, ?_, fun hp ↦ ?_⟩, h.sound⟩, fun hnot ↦ ?_, ?_⟩
  · change droppedAfter (d.core.release item).trace ≤ dequeuedIn (d.core.release item).trace
    rw [hrelease]
    exact h.exact.dropped
  · change (d.core.release item).m_peeked = true at hp
    rw [hrelease] at hp
    exact absurd (hpeeked.symm.trans hp) (by decide)
  · exact absurd (hpeeked.symm.trans (hnot (by simp [hrequeued]))) (by decide)
  · refine ⟨[], ?_, rfl, rfl, rfl, ?_⟩
    · change (d.core.release item).trace = _
      rw [hrelease, List.append_nil]
    · rw [hrest]
      exact add_zero _

/-- What `DoDequeue` returns when it is not called for a peek. -/
theorem Taking.gave (h : Taking d d' out) (hpeeked : d.core.m_peeked = false) : Gave d d' out := by
  obtain ⟨gone, dropped, htook, hgone, hsum⟩ := h.took
  have hrec := h.recorded
  rw [hpeeked, goneOf_false] at hgone hsum hrec
  rw [add_zero] at hsum hrec
  refine ⟨⟨⟨hrec, ?_, fun hp ↦ ?_⟩, h.sound⟩, fun _ hsome ↦ ?_, ?_⟩
  · exact htook.dropped_le h.dropped (hgone ▸ Multiset.le_add_right _ _)
  · rw [h.peeked, hpeeked] at hp
    cases hp
  · rw [h.requeued_eq] at hsome
    cases hsome
  · obtain ⟨es, htrace, henq, hbefore, hdequeued, hdropped⟩ := htook.trace
    refine ⟨es, htrace, henq, hbefore, ?_, ?_⟩
    · rw [hdropped, hdequeued, hgone]
    · rw [hdequeued, hsum]

theorem held_setCore_of_not_requeued {c : Core} (hrequeued : d.core.m_requeued = none)
    (hc : c.m_requeued = none) : (d.setCore c).held = d.held := by
  rw [held_setCore, held_eq d, slot, slot, hc, hrequeued]
  split_ifs <;> rfl

theorem Taking.gave_peek {r : Option Item} (h : Taking (d.setCore { d.core with m_peeked := true }) d'
    (r.toList : Multiset Item)) {c : Core} (hc : c = { d'.core with
      m_requeued := r
      m_peeked := r.isSome }) : Gave d (d'.setCore c) 0 := by
  obtain ⟨gone, dropped, htook, hgone, hsum⟩ := h.took
  have hrec := h.recorded
  change dropped + 0 = gone at hgone
  rw [add_zero] at hgone
  change _ = d'.held + gone + (r.toList : Multiset Item) at hsum
  change Recorded _ (d'.held + (r.toList : Multiset Item)) 0 at hrec
  have hslot : slot c = (r.toList : Multiset Item) := by
    rw [hc]
    cases r <;> rfl
  have hempty : slot d'.core = 0 := by
    rw [slot, h.requeued_eq]
    split_ifs <;> rfl
  have hheld : (d'.setCore c).held = d'.held + (r.toList : Multiset Item) := by
    rw [held_setCore, hslot, held_eq d', hempty, zero_add, add_comm]
  have hrequeued : d.core.m_requeued = none := h.requeued
  have hstart : (d.setCore { d.core with m_peeked := true }).held = d.held :=
    held_setCore_of_not_requeued hrequeued hrequeued
  refine ⟨⟨⟨?_, ?_, fun hp ↦ ?_⟩, h.sound⟩, fun _ hsome ↦ ?_, ?_⟩
  · rw [hheld, hc]
    exact ⟨hrec.1, hrec.2, hrec.3, hrec.4, hrec.5⟩
  · rw [hc]
    exact htook.dropped_le h.dropped hgone.le
  · rw [hc] at hp ⊢
    exact hp
  · rw [hc] at hsome ⊢
    exact hsome
  · obtain ⟨es, htrace, henq, hbefore, hdequeued, hdropped⟩ := htook.trace
    refine ⟨es, ?_, henq, hbefore, ?_, ?_⟩
    · rw [hc]
      exact htrace
    · rw [hdropped, hdequeued, hgone, add_zero]
    · rw [hdequeued, hheld, ← hstart, hsum, add_right_comm]

/-- **`Dequeue`.** -/
theorem Tree.dequeueBy {doDequeue : QueueDisc → Except Fault (QueueDisc × Option Item)}
    (hdo : Takes doDequeue) (h : d.Tree) (hsmall : d.Small) :
    (dequeueBy doDequeue d).Meets IsAssertion fun r ↦ r.1.core.m_requeued = none ∧
      ∃ out, Gave d r.1 out ∧ (d.NotRequeued → out = (r.2.toList : Multiset Item)) := by
  cases hrequeued : d.core.m_requeued with
  | none =>
    have hpeeked : d.core.m_peeked = false := by
      by_contra hp
      have hsome := h.exact.peeked (by simpa using hp)
      rw [hrequeued] at hsome
      cases hsome
    refine (dequeueBy_of_not_requeued hdo (h.taking hrequeued) hsmall).mono fun r hr ↦ ?_
    exact ⟨hr.requeued_eq, _, hr.gave hpeeked, fun _ ↦ rfl⟩
  | some item =>
    unfold QueueDisc.dequeueBy
    rw [hrequeued]
    change (checked (d.setCore (d.core.release item), some item)).Meets _ _
    cases hpeeked : d.core.m_peeked with
    | true =>
      obtain ⟨hnone, hrec, hgave⟩ := h.release_peeked hrequeued hpeeked
      have hle : d.rest ≤ d.held := by
        rw [held_eq]
        exact Multiset.le_add_left _ _
      rw [checked_eq (r := (d.setCore (d.core.release item), some item))
        (hrec.dequeueAsserts (hsmall.of_le hle).2)]
      exact ⟨hnone, {item}, hgave, fun _ ↦ rfl⟩
    | false =>
      obtain ⟨hnone, hrec, hgave⟩ := h.release_requeued hrequeued hpeeked
      rw [checked_eq (r := (d.setCore (d.core.release item), some item)) (hrec.dequeueAsserts hsmall.2)]
      refine ⟨hnone, 0, hgave, fun hnot ↦ ?_⟩
      exact absurd (hpeeked.symm.trans (hnot (by simp [hrequeued]))) (by decide)

/-- **`Peek`.** -/
theorem Tree.peekBy {doDequeue : QueueDisc → Except Fault (QueueDisc × Option Item)}
    (hdo : Takes doDequeue) (h : d.Tree) (hsmall : d.Small) :
    (peekBy doDequeue d).Meets IsAssertion fun r ↦ Gave d r.1 0 := by
  unfold QueueDisc.peekBy
  cases hrequeued : d.core.m_requeued with
  | some item =>
    exact ⟨h, id, [], (List.append_nil _).symm, rfl, rfl, rfl, add_zero _⟩
  | none =>
    have hheld : (d.setCore { d.core with m_peeked := true }).held = d.held :=
      held_setCore_of_not_requeued hrequeued hrequeued
    have htaking : Taking (d.setCore { d.core with m_peeked := true })
        (d.setCore { d.core with m_peeked := true }) 0 := by
      have hrec := h.exact.recorded
      refine taking_refl ?_ hrequeued h.exact.dropped h.sound
      rw [hheld]
      exact ⟨hrec.1, hrec.2, hrec.3, hrec.4, hrec.5⟩
    have hsmall' : (d.setCore { d.core with m_peeked := true }).Small := by
      rw [Small, hheld]
      exact hsmall
    refine (dequeueBy_of_not_requeued hdo htaking hsmall').bind fun r hr ↦ ?_
    obtain ⟨d', r⟩ := r
    cases r with
    | none => exact hr.gave_peek rfl
    | some item =>
      refine hr.gave_peek ?_
      rw [Option.isSome_some, ← show d'.core.m_peeked = true from hr.peeked]

theorem Taking.child {core : Core} {queues : List InternalQueue} {classes : List QueueDisc} {i : ℕ}
    (h : Taking d₀ (.mk core queues classes) taken) (hd : classes[i]? = some d) (hgave : Gave d d' out)
    (hsound : d'.NotRequeued) : Taking d₀
      (.mk (core.notify (fired d d')) queues (classes.set i d')) (taken + out) := by
  obtain ⟨henq, hbefore, hout, hheld⟩ := hgave.fired
  obtain ⟨hnotify, -⟩ := took_notify (fired d d') henq hbefore core
  refine h.take henq hbefore hout rfl ?_ fun d'' hd'' ↦ ?_
  · have hset := heldAll_set hd d'
    rw [held_mk, held_mk, hnotify.peeked, hnotify.requeued]
    rw [← hheld, add_comm d'.held, ← add_assoc] at hset
    rw [add_assoc, add_right_cancel hset]
  · rcases List.mem_or_eq_of_mem_set hd'' with hd'' | rfl
    · exact h.sound d'' hd''
    · exact everywhere_iff.mpr ⟨⟨hgave.tree.exact, hsound⟩, hgave.tree.sound⟩

theorem Taking.of_child {core : Core} {queues : List InternalQueue} {classes : List QueueDisc} {i : ℕ}
    (h : Taking d₀ (.mk core queues classes) taken) (hd : classes[i]? = some d) (hsmall : d₀.Small) :
    d.Tree ∧ d.NotRequeued ∧ d.Small := by
  have hmem : d ∈ classes := List.mem_of_getElem? hd
  have hsound := h.sound d hmem
  refine ⟨⟨hsound.here.1, hsound.children⟩, hsound.here.2, hsmall.of_le ?_⟩
  refine (held_child_le hmem).trans (le_trans ?_ ((Multiset.le_add_right _ _).trans h.counted_le))
  rw [held_mk]
  exact Multiset.le_add_left _ _

theorem dequeue_meets {q : InternalQueue} (hbytes : bytes q.m_packets < 2 ^ 32) :
    q.dequeue.Meets IsAssertion fun r ↦ ∀ item q', r = some (item, q') →
      (q'.m_packets : Multiset Item) + {item} = q.m_packets := by
  unfold InternalQueue.dequeue
  cases hpackets : q.m_packets with
  | nil =>
    intro item q' hr
    cases hr
  | cons item packets =>
    rw [hpackets, ← Multiset.cons_coe, ← Multiset.singleton_add, bytes_add, bytes_singleton] at hbytes
    dsimp only
    split_ifs with hwrap hle
    · intro item q' hr
      cases hr
    · intro item q' hr
      cases hr
      rw [← Multiset.cons_coe, ← Multiset.singleton_add, add_comm]
    · refine absurd ?_ hle
      have hsum : (packets.map Item.size).sum = bytes (packets : Multiset Item) := by
        rw [bytes, Multiset.map_coe, Multiset.sum_coe]
      rw [InternalQueue.nBytes, hpackets, List.map_cons, List.sum_cons, hsum,
        Nat.mod_eq_of_lt hbytes]
      exact Nat.le_add_right _ _

theorem Taking.queue {core : Core} {queues : List InternalQueue} {classes : List QueueDisc} {i : ℕ}
    {q q' : InternalQueue} (h : Taking d₀ (.mk core queues classes) taken) (hq : queues[i]? = some q)
    (hitem : (q'.m_packets : Multiset Item) + {item} = q.m_packets) : Taking d₀
      (.mk (core.notify [.dequeue item]) (queues.set i q') classes) (taken + {item}) := by
  have hdequeued : dequeuedIn [.dequeue item] = {item} := by simp [dequeuedIn]
  obtain ⟨hnotify, -⟩ := took_notify [.dequeue item] rfl rfl core
  refine h.take rfl rfl ?_ rfl ?_ h.sound
  · rw [hdequeued]
    exact zero_add _
  · have hset := queues_set hq q'
    rw [← hitem, add_comm (q'.m_packets : Multiset Item), ← add_assoc] at hset
    rw [held_mk, held_mk, hnotify.peeked, hnotify.requeued, hdequeued, add_right_comm,
      add_assoc (if core.m_peeked = true then _ else _), add_right_cancel hset]

theorem coe_eraseIdx {l : List Item} {i : ℕ} (hitem : l[i]? = some item) :
    (l.eraseIdx i : Multiset Item) + {item} = l := by
  obtain ⟨hi, rfl⟩ := List.getElem?_eq_some_iff.mp hitem
  rw [add_comm, Multiset.singleton_add, Multiset.cons_coe, Multiset.coe_eq_coe]
  exact List.getElem_cons_eraseIdx_perm hi

/-- **`DoDequeue`.** -/
theorem doDequeue_meets (plan : DequeuePlan) : ∀ (taken : List Item) (d₀ d : QueueDisc),
    Taking d₀ d (taken : Multiset Item) → d₀.Small →
      (doDequeue plan taken d).Meets IsAssertion fun r ↦
        Taking d₀ r.1 (r.2.toList : Multiset Item) := by
  induction plan with
  | queue i rest ih =>
    rintro taken d₀ ⟨core, queues, classes⟩ h hsmall
    rw [doDequeue]
    cases hq : queues[i]? with
    | none => exact not_isAssertion_plan
    | some q =>
      have hle : (q.m_packets : Multiset Item) ≤ d₀.held := by
        refine (queue_le (List.mem_of_getElem? hq)).trans
          (le_trans ?_ ((Multiset.le_add_right _ _).trans h.counted_le))
        rw [held_mk]
        exact (Multiset.le_add_left _ _).trans (Multiset.le_add_right _ _)
      refine (dequeue_meets (hsmall.of_le hle).2).bind fun r hr ↦ ?_
      rcases r with _ | ⟨item, q'⟩
      · exact ih taken d₀ _ h hsmall
      · have htaking := h.queue hq (hr item q' rfl)
        rw [← Multiset.coe_singleton, Multiset.coe_add] at htaking
        exact ih _ d₀ _ htaking hsmall
  | child i plan rest ihplan ih =>
    rintro taken d₀ ⟨core, queues, classes⟩ h hsmall
    rw [doDequeue]
    cases hd : classes[i]? with
    | none => exact not_isAssertion_plan
    | some d =>
      obtain ⟨htree, hnot, hsmall'⟩ := h.of_child hd hsmall
      refine (htree.dequeueBy (fun d h hs ↦ ihplan [] d d h hs) hsmall').bind fun r hr ↦ ?_
      obtain ⟨-, out, hgave, hout⟩ := hr
      have htaking := h.child hd hgave (hgave.notRequeued hnot)
      rw [hout hnot, Multiset.coe_add] at htaking
      exact ih _ d₀ _ htaking hsmall
  | peek i plan rest ihplan ih =>
    rintro taken d₀ ⟨core, queues, classes⟩ h hsmall
    rw [doDequeue]
    cases hd : classes[i]? with
    | none => exact not_isAssertion_plan
    | some d =>
      obtain ⟨htree, hnot, hsmall'⟩ := h.of_child hd hsmall
      refine (htree.peekBy (fun d h hs ↦ ihplan [] d d h hs) hsmall').bind fun r hgave ↦ ?_
      have htaking := h.child hd hgave (hgave.notRequeued hnot)
      rw [add_zero] at htaking
      exact ih taken d₀ _ htaking hsmall
  | drop i rest ih =>
    rintro taken d₀ ⟨core, queues, classes⟩ h hsmall
    rw [doDequeue]
    cases hitem : taken[i]? with
    | none => exact not_isAssertion_plan
    | some item =>
      rw [← coe_eraseIdx hitem] at h
      have hdrop := took_dropAfterDequeue core item
      refine ih _ d₀ _ (h.drop rfl ?_ rfl) hsmall
      rw [held_mk, held_mk, hdrop.peeked, hdrop.requeued]
  | ret =>
    intro taken d₀ d h hsmall
    rcases taken with _ | ⟨item, _ | ⟨item', taken⟩⟩
    · rw [doDequeue]
      exact h
    · rw [doDequeue]
      exact h
    · rw [doDequeue]
      · exact not_isAssertion_plan
      · simp
      · simp

theorem doDequeue_takes (plan : DequeuePlan) : Takes (doDequeue plan []) :=
  fun d h hsmall ↦ doDequeue_meets plan [] d d h hsmall

/-! ## Enqueueing -/

/-- A call of `Enqueue` is over: the packet is held, or has been dropped. -/
structure Received (d d' : QueueDisc) (item : Item) : Prop where
  tree : d'.Tree
  notRequeued : d.NotRequeued → d'.NotRequeued
  trace : d'.core.trace = d.core.trace ++ [.enqueue item] ∧ d'.rest = d.rest + {item} ∨
    d'.core.trace = d.core.trace ++ [.dropBeforeEnqueue item] ∧ d'.rest = d.rest
  slot : slot d'.core = slot d.core

theorem Received.held (h : Received d d' item) : d'.held = d.held + {item} ∧
    d'.core.trace = d.core.trace ++ [.enqueue item] ∨
      d'.held = d.held ∧ d'.core.trace = d.core.trace ++ [.dropBeforeEnqueue item] := by
  rw [held_eq d', held_eq d, h.slot]
  rcases h.trace with ⟨htrace, hrest⟩ | ⟨htrace, hrest⟩
  · exact Or.inl ⟨by rw [hrest, add_assoc], htrace⟩
  · exact Or.inr ⟨by rw [hrest], htrace⟩

/-- **A packet is received.** -/
theorem Tree.receive (h : d.Tree) (d' : QueueDisc) (item : Item) (hcore : d'.core = (d.core.receive item).notify [.enqueue item] ∧
    d'.rest = d.rest + {item} ∨
      d'.core = (d.core.receive item).notify [.dropBeforeEnqueue item] ∧ d'.rest = d.rest)
    (hsound : ∀ d'' ∈ d'.m_classes, d''.Everywhere Sound) :
    d'.core.EnqueueAsserts ∧ Received d d' item := by
  have hrec := h.exact.recorded.receive item
  rcases hcore with ⟨hcore, hrest⟩ | ⟨hcore, hrest⟩
  · change d'.core = (d.core.receive item).packetEnqueued item at hcore
    have hslot : slot d'.core = slot d.core := by
      rw [hcore]
      rfl
    have hheld : d'.held = d.held + {item} := by rw [held_eq, hslot, hrest, held_eq, add_assoc]
    have hrec' := hrec.packetEnqueued
    rw [← hcore, ← hheld] at hrec'
    have htrace : d'.core.trace = d.core.trace ++ [.enqueue item] := by
      rw [hcore]
      rfl
    refine ⟨hrec'.enqueueAsserts, ⟨⟨hrec', ?_, ?_⟩, hsound⟩, ?_, Or.inl ⟨htrace, hrest⟩, hslot⟩
    · rw [htrace, droppedAfter_append, dequeuedIn_append]
      exact add_le_add h.exact.dropped le_rfl
    · rw [hcore]
      exact h.exact.peeked
    · unfold NotRequeued
      rw [hcore]
      exact id
  · change d'.core = (d.core.receive item).dropBeforeEnqueue item at hcore
    have hslot : slot d'.core = slot d.core := by
      rw [hcore]
      rfl
    have hheld : d'.held = d.held := by rw [held_eq, hslot, hrest, held_eq]
    have hrec' := hrec.dropBeforeEnqueue
    rw [← hcore, ← hheld] at hrec'
    have htrace : d'.core.trace = d.core.trace ++ [.dropBeforeEnqueue item] := by
      rw [hcore]
      rfl
    refine ⟨hrec'.enqueueAsserts, ⟨⟨hrec', ?_, ?_⟩, hsound⟩, ?_, Or.inr ⟨htrace, hrest⟩, hslot⟩
    · rw [htrace, droppedAfter_append, dequeuedIn_append]
      exact add_le_add h.exact.dropped le_rfl
    · rw [hcore]
      exact h.exact.peeked
    · unfold NotRequeued
      rw [hcore]
      exact id

theorem rest_mk (core : Core) (queues : List InternalQueue) (classes : List QueueDisc) :
    (QueueDisc.mk core queues classes).rest =
      (queues.map fun q ↦ (q.m_packets : Multiset Item)).sum + heldAll classes := rfl

theorem Received.fired (h : Received d d' item) : fired d d' = [.enqueue item] ∧
    d'.held = d.held + {item} ∨ fired d d' = [.dropBeforeEnqueue item] ∧ d'.held = d.held := by
  unfold QueueDisc.fired
  rcases h.held with ⟨hheld, htrace⟩ | ⟨hheld, htrace⟩
  · exact Or.inl ⟨by rw [htrace, List.drop_left], hheld⟩
  · exact Or.inr ⟨by rw [htrace, List.drop_left], hheld⟩

/-- **`Enqueue`.** -/
theorem enqueue_meets (item : Item) (plan : EnqueuePlan) : ∀ d : QueueDisc, d.Tree →
    (enqueue item plan d).Meets IsAssertion fun r ↦ Received d r.1 item := by
  induction plan with
  | drop =>
    rintro ⟨core, queues, classes⟩ h
    obtain ⟨hassert, hreceived⟩ := h.receive
      (.mk ((core.receive item).dropBeforeEnqueue item) queues classes) item (Or.inr ⟨rfl, rfl⟩) h.sound
    rw [enqueue]
    exact Except.meets_ite hassert hreceived
  | queue i =>
    rintro ⟨core, queues, classes⟩ h
    rw [enqueue]
    cases hq : queues[i]? with
    | none => exact not_isAssertion_plan
    | some q =>
      have hset := queues_set hq (q.enqueue item).1
      have hcases : (q.enqueue item).2.1 = .enqueue item ∧
          ((q.enqueue item).1.m_packets : Multiset Item) = q.m_packets + {item} ∨
          (q.enqueue item).2.1 = .dropBeforeEnqueue item ∧
            ((q.enqueue item).1.m_packets : Multiset Item) = q.m_packets := by
        unfold InternalQueue.enqueue
        split_ifs
        · exact Or.inr ⟨rfl, rfl⟩
        · exact Or.inl ⟨rfl, (Multiset.coe_add _ _).symm⟩
      obtain ⟨hassert, hreceived⟩ := h.receive
        (.mk ((core.receive item).notify [(q.enqueue item).2.1]) (queues.set i (q.enqueue item).1)
          classes) item (by
          rcases hcases with ⟨hevent, hpackets⟩ | ⟨hevent, hpackets⟩
          · refine Or.inl ⟨congrArg (fun e ↦ (core.receive item).notify [e]) hevent, ?_⟩
            rw [hpackets, add_comm (q.m_packets : Multiset Item), ← add_assoc] at hset
            rw [rest_mk, rest_mk, add_right_cancel hset, add_right_comm]
          · refine Or.inr ⟨congrArg (fun e ↦ (core.receive item).notify [e]) hevent, ?_⟩
            rw [hpackets] at hset
            rw [rest_mk, rest_mk, add_right_cancel hset]) h.sound
      exact Except.meets_ite hassert hreceived
  | child i plan ih =>
    rintro ⟨core, queues, classes⟩ h
    rw [enqueue]
    cases hd : classes[i]? with
    | none => exact not_isAssertion_plan
    | some d =>
      have hsound := h.sound d (List.mem_of_getElem? hd)
      refine (ih d ⟨hsound.here.1, hsound.children⟩).bind fun r hr ↦ ?_
      have hset := heldAll_set hd r.1
      obtain ⟨hassert, hreceived⟩ := h.receive
        (.mk ((core.receive item).notify (QueueDisc.fired d r.1)) queues (classes.set i r.1)) item (by
          rcases hr.fired with ⟨hevent, hheld⟩ | ⟨hevent, hheld⟩
          · refine Or.inl ⟨congrArg (core.receive item).notify hevent, ?_⟩
            rw [hheld, add_comm d.held, ← add_assoc] at hset
            rw [rest_mk, rest_mk, add_right_cancel hset, add_assoc]
          · refine Or.inr ⟨congrArg (core.receive item).notify hevent, ?_⟩
            rw [hheld] at hset
            rw [rest_mk, rest_mk, add_right_cancel hset]) (by
          intro d'' hd''
          rcases List.mem_or_eq_of_mem_set hd'' with hd'' | rfl
          · exact h.sound d'' hd''
          · exact everywhere_iff.mpr ⟨⟨hr.tree.exact, hr.notRequeued hsound.here.2⟩, hr.tree.sound⟩)
      exact Except.meets_ite hassert hreceived

/-! ## Running -/

theorem Tree.setRunning (h : d.Tree) (running : Bool) :
    (d.setCore { d.core with m_running := running }).Tree ∧
      (d.setCore { d.core with m_running := running }).held = d.held := by
  have hheld : (d.setCore { d.core with m_running := running }).held = d.held := by
    rw [held_setCore, held_eq]
    rfl
  have hrec := h.exact.recorded
  refine ⟨⟨⟨?_, h.exact.dropped, h.exact.peeked⟩, h.sound⟩, hheld⟩
  rw [hheld]
  exact ⟨hrec.1, hrec.2, hrec.3, hrec.4, hrec.5⟩

/-- What a call leaves of a tree whose packets can be counted. -/
def Kept (d d' : QueueDisc) : Prop := d'.Tree ∧ d'.held ≤ d.held

theorem Kept.trans {d'' : QueueDisc} (h : Kept d d') (h' : Kept d' d'') : Kept d d'' :=
  ⟨h'.1, h'.2.trans h.2⟩

theorem Kept.small (h : Kept d d') (hsmall : d.Small) : d'.Small := hsmall.of_le h.2

theorem Tree.dequeue (h : d.Tree) (hsmall : d.Small) (plan : DequeuePlan) :
    (d.dequeue plan).Meets IsAssertion fun r ↦ r.1.core.m_requeued = none ∧ Kept d r.1 :=
  (h.dequeueBy (doDequeue_takes plan) hsmall).mono fun _ ⟨hnone, _, hgave, _⟩ ↦
    ⟨hnone, hgave.tree, hgave.held_le⟩

theorem Tree.dequeuePacket (h : d.Tree) (hsmall : d.Small) (m_devQueueIface : Option ℕ) (t : Turn) :
    (d.dequeuePacket m_devQueueIface t).Meets IsAssertion fun r ↦
      (r.2.isSome = true → r.1.core.m_requeued = none) ∧ Kept d r.1 := by
  unfold QueueDisc.dequeuePacket
  cases hrequeued : d.core.m_requeued with
  | none =>
    dsimp only
    split_ifs
    · exact (h.dequeue hsmall t.plan).mono fun r ⟨hnone, hkept⟩ ↦ ⟨fun _ ↦ hnone, hkept⟩
    · exact ⟨nofun, h, le_rfl⟩
  | some item =>
    dsimp only
    split_ifs
    · cases hpeeked : d.core.m_peeked with
      | true =>
        obtain ⟨hnone, -, hgave⟩ := h.release_peeked hrequeued hpeeked
        exact ⟨fun _ ↦ hnone, hgave.tree, hgave.held_le⟩
      | false =>
        obtain ⟨hnone, -, hgave⟩ := h.release_requeued hrequeued hpeeked
        exact ⟨fun _ ↦ hnone, hgave.tree, hgave.held_le⟩
    · exact ⟨nofun, h, le_rfl⟩

theorem Tree.transmit (h : d.Tree) (hrequeued : d.core.m_requeued = none) (m_devQueueIface : Option ℕ)
    (t : Turn) (item : Item) : Kept d (d.transmit m_devQueueIface t item).1 := by
  unfold QueueDisc.transmit
  split_ifs
  · have hpeeked : d.core.m_peeked = false := by
      by_contra hp
      have hsome := h.exact.peeked (by simpa using hp)
      rw [hrequeued] at hsome
      cases hsome
    have hheld : (d.setCore (d.core.requeue item)).held = d.held := by
      rw [held_setCore, held_eq, slot, slot, if_neg (by simp [Core.requeue, hpeeked]),
        if_neg (by simp [hpeeked])]
    have hrec := h.exact.recorded
    refine ⟨⟨⟨?_, h.exact.dropped, fun _ ↦ rfl⟩, h.sound⟩, hheld.le⟩
    rw [hheld]
    exact hrec.requeue item
  · exact ⟨h, le_rfl⟩

theorem Tree.restart (h : d.Tree) (hsmall : d.Small) (m_devQueueIface : Option ℕ) (t : Turn) :
    (d.restart m_devQueueIface t).Meets IsAssertion fun r ↦ Kept d r.1 := by
  unfold QueueDisc.restart
  refine (h.dequeuePacket hsmall m_devQueueIface t).bind fun r ⟨hnone, hkept⟩ ↦ ?_
  obtain ⟨d', r⟩ := r
  cases r with
  | none => exact hkept
  | some item => exact hkept.trans (hkept.1.transmit (hnone rfl) m_devQueueIface t item)

theorem Tree.runLoop (m_devQueueIface : Option ℕ) (turns : List Turn) :
    ∀ (quota : ℕ) (d : QueueDisc), d.Tree → d.Small →
      (runLoop m_devQueueIface turns quota d).Meets IsAssertion fun d' ↦ Kept d d' := by
  induction turns with
  | nil => exact fun _ _ _ _ ↦ not_isAssertion_plan
  | cons t turns ih =>
    intro quota d h hsmall
    rw [QueueDisc.runLoop]
    refine (h.restart hsmall m_devQueueIface t).bind fun r hkept ↦ ?_
    generalize sub32 quota 1 = quota'
    split_ifs
    · exact hkept
    · exact (ih _ r.1 hkept.1 (hkept.small hsmall)).mono fun d' h' ↦ hkept.trans h'
    · exact hkept

/-- **`Run`.** -/
theorem Tree.run (h : d.Tree) (hsmall : d.Small) (m_devQueueIface : Option ℕ) (turns : List Turn) :
    (d.run m_devQueueIface turns).Meets IsAssertion fun d' ↦ Kept d d' := by
  unfold QueueDisc.run
  split_ifs
  · exact ⟨h, le_rfl⟩
  · obtain ⟨hrun, hheld⟩ := h.setRunning true
    have hsmall' : (d.setCore { d.core with m_running := true }).Small := by
      rw [Small, hheld]
      exact hsmall
    refine (Tree.runLoop m_devQueueIface turns _ _ hrun hsmall').bind fun d' hkept ↦ ?_
    obtain ⟨hdone, hheld'⟩ := hkept.1.setRunning false
    exact ⟨hdone, hheld'.le.trans (hheld ▸ hkept.2)⟩

/-! ## Runs -/

/-- A packet that arrives can be counted with those that the root holds. -/
def Fits (d : QueueDisc) : Op → Prop
  | .enqueue item _ => d.held.card + 1 < 2 ^ 32 ∧ bytes d.held + item.size < 2 ^ 32
  | _ => True

instance (d : QueueDisc) : ∀ op, Decidable (Fits d op)
  | .enqueue _ _ => inferInstanceAs (Decidable (_ ∧ _))
  | .dequeue _ => inferInstanceAs (Decidable True)
  | .peek _ => inferInstanceAs (Decidable True)
  | .run _ => inferInstanceAs (Decidable True)

/-- A new disc, without packets. -/
def New (d : QueueDisc) : Prop :=
  (∃ quota, d.core = Core.create quota) ∧ ∀ q ∈ d.m_queues, q.m_packets = []

/-- **A call on the root.** -/
theorem Tree.step (h : d.Tree) (hsmall : d.Small) (m_devQueueIface : Option ℕ) {op : Op}
    (hfits : Fits d op) :
    (d.step m_devQueueIface op).Meets IsAssertion fun d' ↦ d'.Tree ∧ d'.Small := by
  cases op with
  | enqueue item plan =>
    refine (enqueue_meets item plan d h).map fun r hr ↦ ⟨hr.tree, ?_⟩
    rcases hr.held with ⟨hheld, -⟩ | ⟨hheld, -⟩
    · rw [Small, hheld, Multiset.card_add, Multiset.card_singleton, bytes_add, bytes_singleton]
      exact hfits
    · rw [Small, hheld]
      exact hsmall
  | dequeue plan =>
    exact (h.dequeue hsmall plan).map fun r ⟨_, hkept⟩ ↦ ⟨hkept.1, hkept.small hsmall⟩
  | peek plan =>
    refine (h.peekBy (doDequeue_takes plan) hsmall).map fun r hgave ↦ ⟨hgave.tree, ?_⟩
    exact hsmall.of_le hgave.held_le
  | run turns =>
    exact (h.run hsmall m_devQueueIface turns).mono fun _ hkept ↦ ⟨hkept.1, hkept.small hsmall⟩

theorem New.held {core : Core} {queues : List InternalQueue} {classes : List QueueDisc}
    (h : (QueueDisc.mk core queues classes).New) (hclasses : heldAll classes = 0) :
    (QueueDisc.mk core queues classes).held = 0 := by
  obtain ⟨⟨quota, hcore⟩, hqueues⟩ := h
  have hcore' : core = Core.create quota := hcore
  have hsum : (queues.map fun q ↦ (q.m_packets : Multiset Item)).sum = 0 := by
    refine List.sum_eq_zero fun m hm ↦ ?_
    obtain ⟨q, hq, rfl⟩ := List.mem_map.mp hm
    rw [hqueues q hq]
    rfl
  rw [held_mk, hcore', hsum, hclasses]
  rfl

theorem heldAll_eq_zero {classes : List QueueDisc} (h : ∀ d ∈ classes, d.held = 0) :
    heldAll classes = 0 := by
  induction classes with
  | nil => rw [heldAll]
  | cons d classes ih =>
    rw [heldAll_cons, h d List.mem_cons_self, zero_add]
    exact ih fun d' hd' ↦ h d' (List.mem_cons_of_mem _ hd')

theorem Everywhere.sound (h : d.Everywhere New) : d.held = 0 ∧ d.Everywhere Sound := by
  induction h with
  | @mk core queues classes here below ih =>
    have hheld := here.held (heldAll_eq_zero fun d' hd' ↦ (ih d' hd').1)
    obtain ⟨⟨quota, hcore⟩, -⟩ := here
    change core = Core.create quota at hcore
    subst hcore
    refine ⟨hheld, .mk ⟨⟨?_, le_rfl, nofun⟩, nofun⟩ fun d' hd' ↦ (ih d' hd').2⟩
    rw [hheld]
    exact recorded_create quota

theorem Exact.accounted (h : d.Exact) (hsmall : d.Small) : d.Accounted := by
  have hreceived := h.recorded.received
  rw [add_zero] at hreceived
  refine ⟨h.recorded.enqueueAsserts, hreceived, h.recorded.enqueued, ?_, ?_, ?_⟩
  · rw [hreceived, h.recorded.enqueued, add_comm]
    refine add_le_add ?_ le_rfl
    exact h.dropped.trans (Multiset.le_add_right _ _)
  · rw [h.recorded.nPackets, Nat.mod_eq_of_lt hsmall.1]
  · rw [h.recorded.nBytes, Nat.mod_eq_of_lt hsmall.2]

theorem Everywhere.accounted (h : d.Everywhere Sound) (hsmall : d.Small) :
    d.Everywhere Accounted := by
  induction h with
  | mk here below ih =>
    exact .mk (here.1.accounted hsmall) fun d' hd' ↦ ih d' hd' (hsmall.child hd')

theorem tree_of_run {root : QueueDisc} (hnew : root.Everywhere New) {m_devQueueIface : Option ℕ}
    {ops : List Op} (hr : Machine.Run (machine m_devQueueIface root) Fits ops d) :
    d.Tree ∧ d.Small := by
  refine hr.invariant (I := fun d ↦ d.Tree ∧ d.Small) ?_ ?_
  · obtain ⟨hheld, hsound⟩ := hnew.sound
    refine ⟨⟨hsound.here.1, hsound.children⟩, ?_⟩
    change root.held.card < _ ∧ bytes root.held < _
    rw [hheld]
    exact ⟨Nat.two_pow_pos 32, Nat.two_pow_pos 32⟩
  · rintro d op d' ⟨h, hsmall⟩ hfits hstep
    exact (h.step hsmall m_devQueueIface hfits).of_eq_ok (Except.toOption_eq_some.mp hstep)

/-- **The accounts are exact at every level**, in every run in which the root never holds `2 ^ 32` packets
or bytes, and the assertions of the next call hold. -/
theorem accounted_of_run {root : QueueDisc} (hnew : root.Everywhere New)
    {m_devQueueIface : Option ℕ} {ops : List Op}
    (hr : Machine.Run (machine m_devQueueIface root) Fits ops d) :
    d.Everywhere Accounted ∧
      ∀ op, Fits d op → d.step m_devQueueIface op ≠ .error .assertion := by
  obtain ⟨h, hsmall⟩ := tree_of_run hnew hr
  refine ⟨everywhere_iff.mpr ⟨h.exact.accounted hsmall, fun d' hd' ↦ ?_⟩, fun op hfits hstep ↦ ?_⟩
  · exact (h.sound d' hd').accounted (hsmall.child hd')
  · exact (h.step hsmall m_devQueueIface hfits).not_bad hstep rfl

end Invariant

/-- A queue, a disc with it, and a root with this disc as its child. -/
def oneChild : QueueDisc :=
  .mk (Core.create 64) [] [.mk (Core.create 64) [⟨.PACKETS, 10, []⟩] []]

/-- A root with a queue. -/
def oneQueue : QueueDisc := .mk (Core.create 64) [⟨.PACKETS, 10, []⟩] []

/-- Packets are received and peeked at, one is requeued, and one dropped by the child for a peek. -/
def sixCalls : List Op :=
  [.enqueue ⟨0, 1500⟩ (.child 0 (.queue 0)), .enqueue ⟨1, 100⟩ (.child 0 (.queue 0)),
    .run [⟨.child 0 (.queue 0 .ret) .ret, false, true, true⟩],
    .run [⟨.ret, false, false, false⟩, ⟨.child 0 (.queue 0 (.drop 0 .ret)) .ret, false, false, false⟩],
    .enqueue ⟨2, 100⟩ (.child 0 (.queue 0)),
    .peek (.child 0 (.queue 0 .ret) .ret)]

theorem oneChild_new : oneChild.Everywhere New := by
  refine .mk ⟨⟨64, rfl⟩, by simp [m_queues]⟩ fun d hd ↦ ?_
  obtain rfl := List.mem_singleton.mp hd
  exact .mk ⟨⟨64, rfl⟩, by simp [m_queues]⟩ nofun

/-- The accounts of a child and its parent. -/
theorem accounted_of_run_six : ∃ d, Machine.Run (machine (some 1) oneChild) Fits sixCalls d ∧
    d.core.m_nPackets = 1 ∧ d.Everywhere Accounted := by
  refine Machine.exists_run_and_allowed (p := fun d : QueueDisc ↦ d.core.m_nPackets = 1)
    (by decide +kernel) (by decide +kernel) fun d hr hpackets ↦ ?_
  exact ⟨hpackets, (accounted_of_run oneChild_new hr).1⟩

/-- Three packets of `2 ^ 31` bytes: when one of them is dequeued, the assertion fails. -/
theorem assertion_of_many_bytes : ∃ d, Machine.Run (machine none oneQueue) Machine.unguarded
    [.enqueue ⟨0, 2 ^ 31⟩ (.queue 0), .enqueue ⟨1, 2 ^ 31⟩ (.queue 0),
      .enqueue ⟨2, 2 ^ 31⟩ (.queue 0)] d ∧
    (match d.step none (.dequeue (.queue 0 .ret)) with
      | .error .assertion => true
      | _ => false) = true :=
  Machine.exists_run_of_exec (p := fun d : QueueDisc ↦
    (match d.step none (.dequeue (.queue 0 .ret)) with
      | .error .assertion => true
      | _ => false) = true) (by decide +kernel)

end QueueDisc

end TrafficControl

end Ns3
