import Mathlib
import Ns3.Library.Machine
import Ns3.Network.Ipv4Address

/-!
# The queue of deferred packets of AODV

A packet for which there is no route yet waits in the request queue. It leaves the queue through its
forward callback, when a route has been found, or through its error callback: because it is too old,
because the queue is full and it is the oldest, or because no route was found.

There is one more way out, for a packet that asked for an output device that is not the route's: it is
taken out of the queue, neither callback is called, and those behind it are left. In every run in which
no such packet meets a route each packet that was accepted is in the queue, or was given to one of its
callbacks once (`conserved_of_run`).
-/

namespace Ns3

namespace Aodv

/-- A packet, with the interface of its `DeferredRouteOutputTag`. -/
structure Packet where
  uid : ℕ
  deferredRouteOutputTag : Option ℤ
  deriving DecidableEq

/-- What is used of an `Ipv4Header`. -/
structure Ipv4Header where
  source : Ipv4Address
  destination : Ipv4Address
  ttl : ℕ
  deriving DecidableEq

/-- What is used of an `Ipv4Route`; the output device by the interface that it has. -/
structure Ipv4Route where
  source : Ipv4Address
  outputInterface : ℤ
  deriving DecidableEq

/-- A `QueueEntry`; the callbacks by their names. -/
structure QueueEntry where
  m_packet : Packet
  m_header : Ipv4Header
  m_ucb : ℕ
  m_ecb : ℕ
  m_expire : ℤ
  deriving DecidableEq

/-- The destination of an entry. -/
def QueueEntry.dst (e : QueueEntry) : Ipv4Address := e.m_header.destination

def QueueEntry.setExpireTime (e : QueueEntry) (exp now : ℤ) : QueueEntry :=
  { e with m_expire := exp + now }

def QueueEntry.IsExpired (now : ℤ) (e : QueueEntry) : Prop := e.m_expire - now < 0

instance (now : ℤ) (e : QueueEntry) : Decidable (e.IsExpired now) :=
  inferInstanceAs (Decidable (_ < _))

/-! ## The queue -/

/-- A `RequestQueue`, with what has been given to the error callbacks. -/
structure RequestQueue where
  m_queue : List QueueEntry
  m_maxLen : ℕ
  m_queueTimeout : ℤ
  reported : List QueueEntry
  deriving DecidableEq

namespace RequestQueue

def purge (q : RequestQueue) (now : ℤ) : RequestQueue :=
  { q with
    reported := q.reported ++ q.m_queue.filter fun e ↦ e.IsExpired now
    m_queue := q.m_queue.filter fun e ↦ ¬ e.IsExpired now }

def getSize (q : RequestQueue) (now : ℤ) : RequestQueue × ℕ :=
  (q.purge now, (q.purge now).m_queue.length)

/-- An entry is the same packet for the same destination. -/
def Same (e e' : QueueEntry) : Prop := e.m_packet.uid = e'.m_packet.uid ∧ e.dst = e'.dst

instance (e e' : QueueEntry) : Decidable (Same e e') := inferInstanceAs (Decidable (_ ∧ _))

/-- `Enqueue`, with the entry if it was accepted; `none` where the first entry of an empty queue is
dropped. -/
def enqueue (q : RequestQueue) (now : ℤ) (entry : QueueEntry) :
    Option (RequestQueue × Option QueueEntry) :=
  let q := q.purge now
  if ∃ e ∈ q.m_queue, Same e entry then some (q, none)
  else
    let entry := entry.setExpireTime q.m_queueTimeout now
    if q.m_queue.length = q.m_maxLen then
      match q.m_queue with
      | [] => none
      | front :: rest => some ({ q with
          reported := q.reported ++ [front]
          m_queue := rest ++ [entry] }, some entry)
    else some ({ q with m_queue := q.m_queue ++ [entry] }, some entry)

def dropPacketWithDst (q : RequestQueue) (now : ℤ) (dst : Ipv4Address) : RequestQueue :=
  let q := q.purge now
  { q with
    reported := q.reported ++ q.m_queue.filter fun e ↦ e.dst = dst
    m_queue := q.m_queue.filter fun e ↦ ¬ e.dst = dst }

/-- `Dequeue`, with the entry. -/
def dequeue (q : RequestQueue) (now : ℤ) (dst : Ipv4Address) : RequestQueue × Option QueueEntry :=
  let q := q.purge now
  match q.m_queue.find? fun e ↦ e.dst = dst with
  | none => (q, none)
  | some e => ({ q with m_queue := q.m_queue.eraseP fun e ↦ e.dst = dst }, some e)

end RequestQueue

/-! ## The node -/

/-- A call of a forward callback. -/
structure Forwarded where
  entry : QueueEntry
  route : Ipv4Route
  packet : Packet
  header : Ipv4Header
  deriving DecidableEq

/-- What the routing table says of a destination. -/
structure RoutingTableEntry where
  validRoute : Option Ipv4Route
  rreqCnt : ℕ
  inSearch : Bool
  deriving DecidableEq

/-- An AODV node: its queue, the time, the packets that the queue has accepted, and those that were
given to their forward callbacks. -/
structure RoutingProtocol where
  m_queue : RequestQueue
  m_rreqRetries : ℕ
  now : ℤ
  accepted : List QueueEntry
  forwarded : List Forwarded
  deriving DecidableEq

namespace RoutingProtocol

/-- A new node. -/
def create (maxLen : ℕ) (queueTimeout : ℤ) (rreqRetries : ℕ) : RoutingProtocol where
  m_queue := ⟨[], maxLen, queueTimeout, []⟩
  m_rreqRetries := rreqRetries
  now := 0
  accepted := []
  forwarded := []

/-- The packet asked for an output device that is not the route's. -/
def Mismatches (route : Ipv4Route) (e : QueueEntry) : Prop :=
  ∃ oif ∈ e.m_packet.deferredRouteOutputTag, oif ≠ -1 ∧ oif ≠ route.outputInterface

instance (route : Ipv4Route) (e : QueueEntry) : Decidable (Mismatches route e) :=
  inferInstanceAs (Decidable (∃ oif ∈ e.m_packet.deferredRouteOutputTag, _))

/-- A packet is given to its forward callback. -/
def forward (s : RoutingProtocol) (route : Ipv4Route) (e : QueueEntry) : RoutingProtocol :=
  { s with
    forwarded := s.forwarded ++ [{
      entry := e
      route := route
      packet := { e.m_packet with deferredRouteOutputTag := none }
      header := { e.m_header with source := route.source, ttl := (e.m_header.ttl + 1) % 256 } }] }

/-- The loop of `SendPacketFromQueue`, which takes a packet out of the queue in each turn. -/
def sendLoop (dst : Ipv4Address) (route : Ipv4Route) : ℕ → RoutingProtocol → RoutingProtocol
  | 0, s => s
  | fuel + 1, s =>
    match s.m_queue.dequeue s.now dst with
    | (q, none) => { s with m_queue := q }
    | (q, some e) =>
      if Mismatches route e then { s with m_queue := q }
      else sendLoop dst route fuel ({ s with m_queue := q }.forward route e)

def sendPacketFromQueue (s : RoutingProtocol) (dst : Ipv4Address) (route : Ipv4Route) : RoutingProtocol :=
  sendLoop dst route (s.m_queue.m_queue.length + 1) s

/-- `DropPacketWithDst` of the queue. -/
def dropPackets (s : RoutingProtocol) (dst : Ipv4Address) : RoutingProtocol :=
  { s with m_queue := s.m_queue.dropPacketWithDst s.now dst }

/-- `RouteRequestTimerExpire`, by what the routing table says. -/
def routeRequestTimerExpire (s : RoutingProtocol) (dst : Ipv4Address) (toDst : RoutingTableEntry) :
    RoutingProtocol :=
  match toDst.validRoute with
  | some route => s.sendPacketFromQueue dst route
  | none =>
    if toDst.rreqCnt = s.m_rreqRetries then s.dropPackets dst
    else if toDst.inSearch then s
    else s.dropPackets dst

def deferredRouteOutput (s : RoutingProtocol) (p : Packet) (header : Ipv4Header) (ucb ecb : ℕ) :
    Option RoutingProtocol :=
  (s.m_queue.enqueue s.now ⟨p, header, ucb, ecb, s.now + s.now⟩).map fun r ↦
    { s with m_queue := r.1, accepted := s.accepted ++ r.2.toList }

inductive Op
  | deferredRouteOutput (p : Packet) (header : Ipv4Header) (ucb ecb : ℕ)
  | sendPacketFromQueue (dst : Ipv4Address) (route : Ipv4Route)
  | routeRequestTimerExpire (dst : Ipv4Address) (toDst : RoutingTableEntry)
  | getSize
  | setMaxQueueLen (len : ℕ)
  | setMaxQueueTime (t : ℤ)
  | wait (d : ℕ)
  deriving DecidableEq

/-- A step of a node. A route reply ends in `SendPacketFromQueue`. -/
def step (s : RoutingProtocol) : Op → Option RoutingProtocol
  | .deferredRouteOutput p header ucb ecb => s.deferredRouteOutput p header ucb ecb
  | .sendPacketFromQueue dst route => some (s.sendPacketFromQueue dst route)
  | .routeRequestTimerExpire dst toDst => some (s.routeRequestTimerExpire dst toDst)
  | .getSize => some { s with m_queue := (s.m_queue.getSize s.now).1 }
  | .setMaxQueueLen len => some { s with m_queue := { s.m_queue with m_maxLen := len } }
  | .setMaxQueueTime t => some { s with m_queue := { s.m_queue with m_queueTimeout := t } }
  | .wait d => some { s with now := s.now + d }

/-- The runs of a node. -/
def machine (maxLen : ℕ) (queueTimeout : ℤ) (rreqRetries : ℕ) : Machine RoutingProtocol Op :=
  ⟨create maxLen queueTimeout rreqRetries, step⟩

/-! ## Conservation -/

/-- Each packet that was accepted is in the queue, or was given to its forward callback, or to its error
callback, and to one of them only, and once. -/
def Conserved (s : RoutingProtocol) : Prop :=
  s.accepted.Perm
    (s.m_queue.m_queue ++ (s.forwarded.map Forwarded.entry ++ s.m_queue.reported))

instance (s : RoutingProtocol) : Decidable s.Conserved := inferInstanceAs (Decidable (List.Perm _ _))

/-- No packet for `dst` that waits asked for a device other than the route's. -/
def Matches (s : RoutingProtocol) (dst : Ipv4Address) (route : Ipv4Route) : Prop :=
  ∀ e ∈ s.m_queue.m_queue, e.dst = dst → ¬ e.IsExpired s.now → ¬ Mismatches route e

instance (s : RoutingProtocol) (dst : Ipv4Address) (route : Ipv4Route) : Decidable (s.Matches dst route) :=
  inferInstanceAs (Decidable (∀ e ∈ s.m_queue.m_queue, _))

/-- A route that is found is one for all packets that wait for it. -/
def Fitting (s : RoutingProtocol) : Op → Prop
  | .sendPacketFromQueue dst route => s.Matches dst route
  | .routeRequestTimerExpire dst toDst => ∀ route ∈ toDst.validRoute, s.Matches dst route
  | _ => True

instance (s : RoutingProtocol) (o : Op) : Decidable (s.Fitting o) :=
  match o with
  | .sendPacketFromQueue _ _ => inferInstanceAs (Decidable (Matches _ _ _))
  | .routeRequestTimerExpire _ toDst =>
    inferInstanceAs (Decidable (∀ route ∈ toDst.validRoute, _))
  | .deferredRouteOutput .. => inferInstanceAs (Decidable True)
  | .getSize => inferInstanceAs (Decidable True)
  | .setMaxQueueLen _ => inferInstanceAs (Decidable True)
  | .setMaxQueueTime _ => inferInstanceAs (Decidable True)
  | .wait _ => inferInstanceAs (Decidable True)

end RoutingProtocol

/-! ## What an operation of the queue leaves -/

namespace RequestQueue

variable {q q' : RequestQueue} {now : ℤ} {dst : Ipv4Address} {e entry : QueueEntry}

/-- What is in the queue and what has been reported. -/
def contents (q : RequestQueue) : List QueueEntry := q.m_queue ++ q.reported

theorem report_perm (l reported : List QueueEntry) (p : QueueEntry → Prop) [DecidablePred p] :
    (l.filter (fun e ↦ ¬ p e) ++ (reported ++ l.filter fun e ↦ p e)).Perm (l ++ reported) := by
  have hsplit := List.filter_append_perm (fun e ↦ decide (p e)) l
  simp only [← decide_not] at hsplit
  calc (l.filter (fun e ↦ ¬ p e) ++ (reported ++ l.filter fun e ↦ p e)).Perm
        ((reported ++ l.filter fun e ↦ p e) ++ l.filter fun e ↦ ¬ p e) := List.perm_append_comm
    _ = reported ++ ((l.filter fun e ↦ p e) ++ l.filter fun e ↦ ¬ p e) := List.append_assoc _ _ _
    List.Perm _ (reported ++ l) := hsplit.append_left reported
    List.Perm _ (l ++ reported) := List.perm_append_comm

theorem purge_perm (q : RequestQueue) (now : ℤ) : (q.purge now).contents.Perm q.contents :=
  report_perm q.m_queue q.reported (QueueEntry.IsExpired now)

theorem dropPacketWithDst_perm (q : RequestQueue) (now : ℤ) (dst : Ipv4Address) :
    (q.dropPacketWithDst now dst).contents.Perm q.contents :=
  (report_perm (q.purge now).m_queue (q.purge now).reported fun e ↦ e.dst = dst).trans
    (q.purge_perm now)

theorem enqueue_perm {accepted : Option QueueEntry}
    (h : q.enqueue now entry = some (q', accepted)) :
    q'.contents.Perm (q.contents ++ accepted.toList) := by
  have hpurge := q.purge_perm now
  unfold enqueue at h
  dsimp only at h
  split at h
  · rw [Option.some_inj, Prod.mk.injEq] at h
    obtain ⟨rfl, rfl⟩ := h
    rw [Option.toList_none, List.append_nil]
    exact hpurge
  · split at h
    · split at h
      · cases h
      · rename_i front rest hqueue
        rw [Option.some_inj, Prod.mk.injEq] at h
        obtain ⟨rfl, rfl⟩ := h
        rw [contents, hqueue] at hpurge
        refine List.Perm.trans ?_ (hpurge.append_right _)
        rw [contents, Option.toList_some]
        exact List.perm_iff_count.mpr fun x ↦ by
          simp only [List.count_append, List.count_cons, List.count_nil]
          omega
    · rw [Option.some_inj, Prod.mk.injEq] at h
      obtain ⟨rfl, rfl⟩ := h
      refine List.Perm.trans ?_ (hpurge.append_right _)
      rw [contents, contents, Option.toList_some]
      exact List.perm_iff_count.mpr fun x ↦ by
        simp only [List.count_append]
        omega

theorem cons_eraseP_perm {l : List QueueEntry} {p : QueueEntry → Bool} (h : l.find? p = some e) :
    (e :: l.eraseP p).Perm l := by
  induction l with
  | nil => cases h
  | cons x l ih =>
    cases hx : p x with
    | true =>
      rw [List.find?_cons_of_pos hx, Option.some_inj] at h
      rw [List.eraseP_cons_of_pos hx, h]
    | false =>
      have hneg : ¬ p x = true := by
        rw [hx]
        exact Bool.false_ne_true
      rw [List.find?_cons_of_neg hneg] at h
      rw [List.eraseP_cons_of_neg hneg]
      exact (List.Perm.swap x e _).trans ((ih h).cons x)

theorem dequeue_none (h : q.dequeue now dst = (q', none)) :
    q'.contents.Perm q.contents ∧ ∀ e ∈ q'.m_queue, e.dst ≠ dst := by
  unfold dequeue at h
  dsimp only at h
  split at h
  · rename_i hfind
    rw [Prod.mk.injEq] at h
    obtain ⟨rfl, -⟩ := h
    rw [List.find?_eq_none] at hfind
    exact ⟨q.purge_perm now, fun e he ↦ by simpa using hfind e he⟩
  · cases (Prod.mk.inj h).2

theorem dequeue_some (h : q.dequeue now dst = (q', some e)) :
    (e :: q'.contents).Perm q.contents ∧ q'.m_queue.length < q.m_queue.length ∧
      (e ∈ q.m_queue ∧ e.dst = dst ∧ ¬ e.IsExpired now) ∧ ∀ x ∈ q'.m_queue, x ∈ q.m_queue := by
  have hpurge := q.purge_perm now
  unfold dequeue at h
  dsimp only at h
  split at h
  · cases (Prod.mk.inj h).2
  · rename_i e' hfind
    rw [Prod.mk.injEq, Option.some_inj] at h
    obtain ⟨rfl, rfl⟩ := h
    have hperm := cons_eraseP_perm hfind
    have hlength := hperm.length_eq
    have hfilter := List.length_filter_le (fun e ↦ decide ¬ e.IsExpired now) q.m_queue
    have hmem := List.mem_of_find?_eq_some hfind
    have hdst := List.find?_some hfind
    rw [List.length_cons] at hlength
    refine ⟨?_, ?_, ?_, fun x hx ↦ ?_⟩
    · exact (hperm.append_right (q.purge now).reported).trans hpurge
    · change ((q.purge now).m_queue.eraseP _).length < _
      change (q.purge now).m_queue.length ≤ _ at hfilter
      omega
    · rw [purge, List.mem_filter] at hmem
      exact ⟨hmem.1, by simpa using hdst, by simpa using hmem.2⟩
    · exact (List.mem_filter.mp (List.mem_of_mem_eraseP hx)).1

end RequestQueue

/-! ## Conservation through a run -/

namespace RoutingProtocol

variable {s s' : RoutingProtocol} {o : Op} {dst : Ipv4Address} {route : Ipv4Route} {maxLen : ℕ}
  {queueTimeout : ℤ} {rreqRetries : ℕ}

theorem conserved_iff_perm : s.Conserved ↔
    s.accepted.Perm (s.forwarded.map Forwarded.entry ++ s.m_queue.contents) := by
  have h : (s.m_queue.m_queue ++ (s.forwarded.map Forwarded.entry ++ s.m_queue.reported)).Perm
      (s.forwarded.map Forwarded.entry ++ s.m_queue.contents) :=
    List.perm_append_comm_assoc _ _ _
  exact ⟨fun hc ↦ hc.trans h, fun hc ↦ hc.trans h.symm⟩

theorem Conserved.queue (h : s.Conserved) {q : RequestQueue} (hq : q.contents.Perm s.m_queue.contents) :
    Conserved { s with m_queue := q } :=
  conserved_iff_perm.mpr ((conserved_iff_perm.mp h).trans (hq.symm.append_left _))

/-- **All packets for a destination are forwarded**, if the route is one for all of them. -/
theorem sendLoop_conserved {fuel : ℕ} (h : s.Conserved) (hfuel : s.m_queue.m_queue.length < fuel)
    (hmatches : s.Matches dst route) :
    (sendLoop dst route fuel s).Conserved ∧
      ∀ e ∈ (sendLoop dst route fuel s).m_queue.m_queue, e.dst ≠ dst := by
  induction fuel generalizing s with
  | zero => exact absurd hfuel (Nat.not_lt_zero _)
  | succ fuel ih =>
    rw [sendLoop]
    split
    · rename_i q hq
      obtain ⟨hperm, hnone⟩ := RequestQueue.dequeue_none hq
      exact ⟨h.queue hperm, hnone⟩
    · rename_i q e hq
      obtain ⟨hperm, hlength, ⟨hmem, hdst, hexpired⟩, hsub⟩ := RequestQueue.dequeue_some hq
      rw [if_neg (hmatches e hmem hdst hexpired)]
      have hless : q.m_queue.length < fuel := by omega
      refine ih ?_ hless fun x hx ↦ hmatches x (hsub x hx)
      rw [conserved_iff_perm] at h ⊢
      change s.accepted.Perm ((s.forwarded ++ [_]).map Forwarded.entry ++ q.contents)
      rw [List.map_append, List.append_assoc]
      exact h.trans (hperm.symm.append_left _)

theorem sendPacketFromQueue_conserved (h : s.Conserved) (hmatches : s.Matches dst route) :
    (s.sendPacketFromQueue dst route).Conserved ∧
      ∀ e ∈ (s.sendPacketFromQueue dst route).m_queue.m_queue, e.dst ≠ dst :=
  sendLoop_conserved h (Nat.lt_succ_self _) hmatches

theorem dropPackets_conserved (h : s.Conserved) (dst : Ipv4Address) : (s.dropPackets dst).Conserved :=
  h.queue (s.m_queue.dropPacketWithDst_perm s.now dst)

theorem deferredRouteOutput_conserved (h : s.Conserved) {p : Packet} {header : Ipv4Header}
    {ucb ecb : ℕ} (hs : s.deferredRouteOutput p header ucb ecb = some s') : s'.Conserved := by
  rw [deferredRouteOutput, Option.map_eq_some_iff] at hs
  obtain ⟨⟨q, accepted⟩, hq, rfl⟩ := hs
  rw [conserved_iff_perm] at h ⊢
  refine (h.append_right accepted.toList).trans ?_
  rw [List.append_assoc]
  exact (RequestQueue.enqueue_perm hq).symm.append_left _

theorem step_conserved (h : s.Conserved) (hfitting : s.Fitting o) (hs : s.step o = some s') :
    s'.Conserved := by
  cases o with
  | deferredRouteOutput p header ucb ecb => exact deferredRouteOutput_conserved h hs
  | sendPacketFromQueue dst route =>
    rw [step, Option.some_inj] at hs
    rw [← hs]
    exact (sendPacketFromQueue_conserved h hfitting).1
  | routeRequestTimerExpire dst toDst =>
    rw [step, Option.some_inj, routeRequestTimerExpire] at hs
    subst hs
    cases hroute : toDst.validRoute with
    | some route => exact (sendPacketFromQueue_conserved h (hfitting route hroute)).1
    | none =>
      dsimp only
      split_ifs
      · exact dropPackets_conserved h dst
      · exact h
      · exact dropPackets_conserved h dst
  | getSize =>
    rw [step, Option.some_inj] at hs
    rw [← hs]
    exact h.queue (s.m_queue.purge_perm s.now)
  | setMaxQueueLen len =>
    rw [step, Option.some_inj] at hs
    rw [← hs]
    exact h
  | setMaxQueueTime t =>
    rw [step, Option.some_inj] at hs
    rw [← hs]
    exact h
  | wait d =>
    rw [step, Option.some_inj] at hs
    rw [← hs]
    exact h

/-- **Deferred packets are conserved**, and a route that is found empties the queue of the packets for
its destination. -/
theorem conserved_of_run {ops : List Op}
    (hr : (machine maxLen queueTimeout rreqRetries).Run Fitting ops s) :
    s.Conserved ∧ ∀ dst route, s.Matches dst route →
      ∀ e ∈ (s.sendPacketFromQueue dst route).m_queue.m_queue, e.dst ≠ dst := by
  have hconserved : s.Conserved :=
    hr.invariant (I := Conserved) (show Conserved (create _ _ _) from List.Perm.refl [])
      fun _ _ _ h hok hs ↦ step_conserved h hok hs
  exact ⟨hconserved, fun dst route hmatches ↦ (sendPacketFromQueue_conserved hconserved hmatches).2⟩

/-- A queue of two, a packet too many, packets that get too old, and a route. -/
theorem conserved_of_run_four :
    ∃ s : RoutingProtocol,
      (s.accepted.length = 4 ∧ s.forwarded.length = 1 ∧ s.m_queue.reported.length = 3) ∧
      (s.Conserved ∧ ∀ dst route, s.Matches dst route →
        ∀ e ∈ (s.sendPacketFromQueue dst route).m_queue.m_queue, e.dst ≠ dst) := by
  have hrun : ∃ s, (machine 2 30 2).Run Fitting
      [.deferredRouteOutput ⟨0, some (-1)⟩ ⟨9, 1, 64⟩ 0 1,
        .deferredRouteOutput ⟨1, some (-1)⟩ ⟨9, 1, 64⟩ 0 1,
        .deferredRouteOutput ⟨2, some 4⟩ ⟨9, 2, 64⟩ 0 1, .wait 31,
        .deferredRouteOutput ⟨3, some 4⟩ ⟨9, 2, 64⟩ 0 1, .sendPacketFromQueue 2 ⟨9, 4⟩] s ∧
      s.accepted.length = 4 ∧ s.forwarded.length = 1 ∧ s.m_queue.reported.length = 3 :=
    Machine.exists_run_of_exec_allowed (p := fun s : RoutingProtocol ↦
      s.accepted.length = 4 ∧ s.forwarded.length = 1 ∧ s.m_queue.reported.length = 3)
      (by decide +kernel) (by decide +kernel)
  obtain ⟨s, hr, hs⟩ := hrun
  exact ⟨s, hs, conserved_of_run hr⟩

/-- A packet that asked for the device of interface 5 is lost where the route has that of interface 4,
and the one behind it stays in the queue. -/
theorem not_conserved : ∃ s, (machine 64 30 2).Run Machine.unguarded
    [.deferredRouteOutput ⟨0, some 5⟩ ⟨9, 2, 64⟩ 0 1,
      .deferredRouteOutput ⟨1, some (-1)⟩ ⟨9, 2, 64⟩ 0 1, .sendPacketFromQueue 2 ⟨9, 4⟩] s ∧
    ¬ s.Conserved ∧ s.m_queue.m_queue.map QueueEntry.dst = [2] :=
  Machine.exists_run_of_exec (p := fun s : RoutingProtocol ↦
    ¬ s.Conserved ∧ s.m_queue.m_queue.map QueueEntry.dst = [2]) (by decide +kernel)

end RoutingProtocol

end Aodv

end Ns3
