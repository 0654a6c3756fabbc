import Ns3.Library.Machine
import Ns3.Mesh.PathError

/-!
# Path discovery of HWMP

A mesh point that has a packet for a destination to which it has no path asks for a path, and keeps the
packet in a queue. The request is repeated by a timer of the destination, until there is a path or it
has been repeated too often. The frames that are received bring paths, and a path that is brought takes
the packets out of the queue that it can forward.

Left out are broadcasts, which are answered without the queue, what is counted and traced, and the frames
that are sent. An assertion that fails where a path is resolved or a timer runs out gives `none`.
-/

namespace Ns3

namespace Hwmp

/-! ## The state -/

/-- `HwmpTag`, as far as it is set here. -/
structure HwmpTag where
  m_address : Mac48Address := Mac48Address.getBroadcast
  m_ttl : UInt8 := 0
  deriving DecidableEq

/-- A packet, with its tag. -/
structure Packet where
  uid : ℕ
  tag : Option HwmpTag
  deriving DecidableEq

/-- `HwmpProtocol::QueuedPacket`; what its callback is called with is kept in the answers. -/
structure QueuedPacket where
  pkt : Packet
  src : Mac48Address
  dst : Mac48Address
  protocol : UInt16
  inInterface : UInt32
  deriving DecidableEq

/-- The arguments of a `RouteReplyCallback`. -/
structure RouteReply where
  success : Bool
  packet : Packet
  source : Mac48Address
  destination : Mac48Address
  protocolType : UInt16
  outIface : UInt32
  deriving DecidableEq

/-- `HwmpProtocol::PreqEvent`; the event is given by its number. -/
structure PreqEvent where
  preqTimeout : ℕ
  whenScheduled : ℤ
  deriving DecidableEq

/-- A pending call of `RetryPathDiscovery`. -/
structure RetryEvent where
  uid : ℕ
  ts : ℤ
  dst : Mac48Address
  numOfRetry : UInt8
  deriving DecidableEq

/-- What is set once. -/
structure Config where
  m_address : Mac48Address
  ifIndex : UInt32
  m_maxQueueSize : UInt16
  m_dot11MeshHWMPmaxPREQretries : UInt8
  m_dot11MeshHWMPnetDiameterTraversalTime : ℕ

/-- `HwmpProtocol` and the simulator, with the packets that were accepted by `QueuePacket` and the
answers to them. -/
structure HwmpProtocol where
  m_rtable : HwmpRtable
  m_hwmpSeqnoMetricDatabase : List (Mac48Address × UInt32 × UInt32)
  m_preqTimeouts : List (Mac48Address × PreqEvent)
  m_rqueue : List QueuedPacket
  now : ℤ
  events : List RetryEvent
  nextUid : ℕ
  accepted : List QueuedPacket
  answers : List (QueuedPacket × RouteReply)
  deriving DecidableEq

/-- `HwmpProtocol::DestinationAddressUnit`, as far as it is read here. -/
structure DestinationAddressUnit where
  m_do : Bool
  m_destinationAddress : Mac48Address
  m_destSeqNumber : UInt32

/-- `IePreq`, as far as it is read here. -/
structure IePreq where
  m_originatorAddress : Mac48Address
  m_originatorSeqNumber : UInt32
  m_lifetime : UInt32
  m_metric : UInt32
  m_destinations : List DestinationAddressUnit

/-- `IePrep`, as far as it is read here. -/
structure IePrep where
  m_destinationAddress : Mac48Address
  m_destSeqNumber : UInt32
  m_lifetime : UInt32
  m_metric : UInt32
  m_originatorAddress : Mac48Address

/-- A path was found. -/
abbrev LookupResult.Found (r : LookupResult) : Prop := r.retransmitter ≠ Mac48Address.getBroadcast

/-- The reactive path to a destination, or the proactive path; an expired proactive path is deleted. -/
def HwmpRtable.lookup (t : HwmpRtable) (now : ℤ) (dst : Mac48Address) : LookupResult × HwmpRtable :=
  if (t.lookupReactive now dst).Found then (t.lookupReactive now dst, t) else t.lookupProactive now

/-- A lifetime in units of 1024 microseconds, in nanoseconds. -/
def lifetimeOf (lifetime : UInt32) : ℤ := (lifetime * 1024).toNat * 1000

def QueuedPacket.reply (i : QueuedPacket) (success : Bool) (packet : Packet) (ifIndex : UInt32) : RouteReply :=
  ⟨success, packet, i.src, i.dst, i.protocol, ifIndex⟩

namespace HwmpProtocol

/-! ## The queue -/

def queuePacket (c : Config) (s : HwmpProtocol) (packet : QueuedPacket) : HwmpProtocol :=
  if s.m_rqueue.length > c.m_maxQueueSize.toNat then s
  else { s with m_rqueue := s.m_rqueue ++ [packet], accepted := s.accepted ++ [packet] }

/-- `DequeueFirstPacketByDst`, and `DequeueFirstPacket` if every packet is looked for. -/
def dequeueFirst (p : QueuedPacket → Bool) (q : List QueuedPacket) : Option QueuedPacket × List QueuedPacket :=
  (q.find? p, q.eraseP p)

/-- The loops that take packets out and answer them, in at most so many rounds. -/
def answerLoop (p : QueuedPacket → Bool) (reply : QueuedPacket → Option RouteReply) :
    ℕ → HwmpProtocol → Option HwmpProtocol
  | 0, s => some s
  | n + 1, s =>
    match dequeueFirst p s.m_rqueue with
    | (none, _) => some s
    | (some packet, q) => (reply packet).bind fun r ↦
      answerLoop p reply n { s with m_rqueue := q, answers := s.answers ++ [(packet, r)] }

/-- The packets for a destination. -/
def byDst (dst : Mac48Address) (i : QueuedPacket) : Bool := decide (i.dst = dst)

def reactivePathResolved (s : HwmpProtocol) (dst : Mac48Address) : Option HwmpProtocol :=
  let result := s.m_rtable.lookupReactive s.now dst
  if result.Found then
    answerLoop (byDst dst) (fun i ↦
      let tag := { i.pkt.tag.getD {} with m_address := result.retransmitter }
      some (i.reply true { i.pkt with tag := some tag } result.ifIndex)) s.m_rqueue.length s
  else none

def proactivePathResolved (s : HwmpProtocol) : Option HwmpProtocol :=
  let r := s.m_rtable.lookupProactive s.now
  if r.1.Found then
    answerLoop (fun _ ↦ true) (fun i ↦ i.pkt.tag.map fun tag ↦
      i.reply true { i.pkt with tag := some { tag with m_address := r.1.retransmitter } } r.1.ifIndex)
      s.m_rqueue.length { s with m_rtable := r.2 }
  else none

/-! ## Requests -/

/-- A call of `RetryPathDiscovery` is scheduled and recorded. -/
def scheduleRetry (s : HwmpProtocol) (delay : ℕ) (dst : Mac48Address) (numOfRetry : UInt8)
    (whenScheduled : ℤ) : HwmpProtocol :=
  { s with
    events := s.events ++ [⟨s.nextUid, s.now + delay, dst, numOfRetry⟩]
    nextUid := s.nextUid + 1
    m_preqTimeouts := OrderedMap.insert dst ⟨s.nextUid, whenScheduled⟩ s.m_preqTimeouts }

def shouldSendPreq (c : Config) (s : HwmpProtocol) (dst : Mac48Address) : HwmpProtocol :=
  if (OrderedMap.find dst s.m_preqTimeouts).isNone then
    s.scheduleRetry (c.m_dot11MeshHWMPnetDiameterTraversalTime * 2) dst 1 s.now
  else s

def retryPathDiscovery (c : Config) (s : HwmpProtocol) (dst : Mac48Address) (numOfRetry : UInt8) :
    Option HwmpProtocol :=
  let r := s.m_rtable.lookup s.now dst
  let s := { s with m_rtable := r.2 }
  let i := OrderedMap.find dst s.m_preqTimeouts
  if r.1.Found then
    if i.isNone then none else some { s with m_preqTimeouts := OrderedMap.erase dst s.m_preqTimeouts }
  else if numOfRetry > c.m_dot11MeshHWMPmaxPREQretries then
    (answerLoop (byDst dst) (fun i ↦ some (i.reply false i.pkt maxMetric)) s.m_rqueue.length s).bind fun s ↦
      if i.isNone then none else some { s with m_preqTimeouts := OrderedMap.erase dst s.m_preqTimeouts }
  else
    let numOfRetry := numOfRetry + 1
    some (s.scheduleRetry (2 * (numOfRetry.toNat + 1) * c.m_dot11MeshHWMPnetDiameterTraversalTime) dst
      numOfRetry ((i.map PreqEvent.whenScheduled).getD 0))

/-- The paths over a neighbour are deleted, and their precursors are told. -/
def pathError (s : HwmpProtocol) (peerAddress : Mac48Address) : HwmpProtocol :=
  let u := s.m_rtable.getUnreachableDestinations peerAddress
  { s with m_rtable := (u.2.makePathError s.now u.1).2 }

def forwardUnicast (c : Config) (s : HwmpProtocol) (sourceIface : UInt32) (source destination : Mac48Address)
    (packet : Packet) (protocolType : UInt16) (ttl : UInt8) : HwmpProtocol :=
  let r := s.m_rtable.lookup s.now destination
  let s := { s with m_rtable := r.2 }
  let packet := { packet with tag := some ⟨r.1.retransmitter, ttl⟩ }
  if r.1.Found then s
  else if sourceIface ≠ c.ifIndex then
    let reactive := s.m_rtable.lookupReactiveExpired s.now destination
    let result := if reactive.Found then reactive else s.m_rtable.lookupProactiveExpired s.now
    if result.Found then s.pathError result.retransmitter else s
  else (s.shouldSendPreq c destination).queuePacket c ⟨packet, source, destination, protocolType, sourceIface⟩

/-! ## Frames -/

/-- There is no path to a destination, or a worse one. -/
def improves (s : HwmpProtocol) (dst : Mac48Address) (metric : UInt32) : Bool :=
  let result := s.m_rtable.lookupReactive s.now dst
  !decide (result.Found ∧ result.metric ≤ metric)

/-- A reactive path is added if it is fresh or better than the one there is; with it, more may be done to
the table. -/
def addReactive (s : HwmpProtocol) (freshInfo : Bool) (dst sender : Mac48Address) (interface metric lifetime
    seqnum : UInt32) (more : HwmpRtable → HwmpRtable) : Option HwmpProtocol :=
  let t := s.m_rtable.addReactivePath s.now dst sender interface metric (lifetimeOf lifetime) seqnum
  if freshInfo || s.improves dst metric then reactivePathResolved { s with m_rtable := more t } dst else some s

/-- The acceptance criteria of `ReceivePreq`: whether the information is fresh, if it is accepted. -/
def preqFreshInfo (s : HwmpProtocol) (originator : Mac48Address) (seqnum metric : UInt32) : Option Bool :=
  match OrderedMap.find originator s.m_hwmpSeqnoMetricDatabase with
  | none => some true
  | some i =>
    if (i.1 - seqnum).toInt32 > 0 then none
    else if i.1 = seqnum then if i.2 ≤ metric then none else some false
    else some true

/-- The acceptance criteria of `ReceivePrep`. -/
def prepFreshInfo (s : HwmpProtocol) (originator : Mac48Address) (seqnum : UInt32) : Option Bool :=
  match OrderedMap.find originator s.m_hwmpSeqnoMetricDatabase with
  | none => some true
  | some i => if (i.1 - seqnum).toInt32 > 0 then none else some (decide (i.1 ≠ seqnum))

/-- The loop of `ReceivePreq` over the destinations. -/
def preqLoop (c : Config) (preq : IePreq) (sender : Mac48Address) (interface metric : UInt32) :
    List DestinationAddressUnit → HwmpProtocol → Option HwmpProtocol
  | [], s => some s
  | i :: destinations, s =>
    if i.m_destinationAddress = Mac48Address.getBroadcast then
      let r := s.m_rtable.lookupProactive s.now
      let t := r.2.addProactivePath s.now metric preq.m_originatorAddress sender interface
        (lifetimeOf preq.m_lifetime) preq.m_originatorSeqNumber
      if r.1.Found ∧ r.1.metric ≤ metric then some { s with m_rtable := r.2 }
      else proactivePathResolved { s with m_rtable := t }
    else if i.m_destinationAddress = c.m_address then preqLoop c preq sender interface metric destinations s
    else
      let result := s.m_rtable.lookupReactive s.now i.m_destinationAddress
      let lifetime := UInt32.ofInt ((result.lifetime.tdiv 1000).tdiv 1024)
      let t := s.m_rtable.addPrecursor s.now i.m_destinationAddress interface sender (lifetimeOf preq.m_lifetime)
      preqLoop c preq sender interface metric destinations
        (if (¬ i.m_do ∧ result.Found) ∧ lifetime > 0 ∧ (result.seqnum - i.m_destSeqNumber).toInt32 ≥ 0 then
          { s with m_rtable := t } else s)

def receivePreq (c : Config) (s : HwmpProtocol) (preq : IePreq) (sender : Mac48Address) (interface : UInt32)
    (fromMp : Mac48Address) (metric : UInt32) : Option HwmpProtocol :=
  let total := preq.m_metric + metric
  let originator := preq.m_originatorAddress
  let seqnum := preq.m_originatorSeqNumber
  match s.preqFreshInfo originator seqnum total with
  | none => some s
  | some freshInfo =>
    let s := { s with m_hwmpSeqnoMetricDatabase :=
      OrderedMap.insert originator (seqnum, total) s.m_hwmpSeqnoMetricDatabase }
    (s.addReactive freshInfo originator sender interface total preq.m_lifetime seqnum id).bind fun s ↦
      (s.addReactive false fromMp sender interface metric preq.m_lifetime seqnum id).bind fun s ↦
        s.preqLoop c preq sender interface total preq.m_destinations

def receivePrep (s : HwmpProtocol) (prep : IePrep) (sender : Mac48Address) (interface : UInt32)
    (fromMp : Mac48Address) (metric : UInt32) : Option HwmpProtocol :=
  let total := prep.m_metric + metric
  let originator := prep.m_originatorAddress
  let sequence := prep.m_destSeqNumber
  match s.prepFreshInfo originator sequence with
  | none => some s
  | some freshInfo =>
    let s := { s with m_hwmpSeqnoMetricDatabase :=
      OrderedMap.insert originator (sequence, total) s.m_hwmpSeqnoMetricDatabase }
    let result := s.m_rtable.lookupReactive s.now prep.m_destinationAddress
    let addPrecursors (t : HwmpRtable) :=
      let t := t.addPrecursor s.now prep.m_destinationAddress interface sender (lifetimeOf prep.m_lifetime)
      if result.Found then t.addPrecursor s.now originator interface result.retransmitter result.lifetime else t
    (s.addReactive freshInfo originator sender interface total prep.m_lifetime sequence addPrecursors).bind
      fun s ↦ s.addReactive false fromMp sender interface metric prep.m_lifetime sequence id

def receivePerr (s : HwmpProtocol) (destinations : List FailedDestination) (sender : Mac48Address)
    (interface : UInt32) : HwmpProtocol :=
  let retval := destinations.filter fun i ↦
    let result := s.m_rtable.lookupReactiveExpired s.now i.destination
    decide (¬ (result.retransmitter ≠ sender ∨ result.ifIndex ≠ interface ∨
      (result.seqnum - i.seqnum).toInt32 > 0))
  if retval.length = 0 then s else { s with m_rtable := (s.m_rtable.makePathError s.now retval).2 }

def peerLinkStatus (s : HwmpProtocol) (peerAddress : Mac48Address) (status : Bool) : HwmpProtocol :=
  if status then s else s.pathError peerAddress

end HwmpProtocol

/-! ## Runs -/

/-- What can happen: a data request, a frame that is received, a timer that runs out, or time that passes. -/
inductive HwmpOp
  | forwardUnicast (sourceIface : UInt32) (source destination : Mac48Address) (packet : Packet)
      (protocolType : UInt16) (ttl : UInt8)
  | receivePreq (preq : IePreq) (sender : Mac48Address) (interface : UInt32) (fromMp : Mac48Address)
      (metric : UInt32)
  | receivePrep (prep : IePrep) (sender : Mac48Address) (interface : UInt32) (fromMp : Mac48Address)
      (metric : UInt32)
  | receivePerr (destinations : List FailedDestination) (sender : Mac48Address) (interface : UInt32)
  | peerLinkStatus (peerAddress : Mac48Address) (status : Bool)
  | retry (uid : ℕ)
  | wait (delay : ℕ)

namespace HwmpProtocol

/-- The mesh point, from its start on. -/
def machine (c : Config) : Machine HwmpProtocol HwmpOp where
  init :=
    let root := List.Vector.replicate 6 0
    ⟨⟨[], ⟨root, Mac48Address.getBroadcast, interfaceAny, maxMetric, 0, 0⟩⟩, [], [], [], 0, [], 0, [], []⟩
  next s
    | .forwardUnicast sourceIface source destination packet protocolType ttl =>
      some (s.forwardUnicast c sourceIface source destination packet protocolType ttl)
    | .receivePreq preq sender interface fromMp metric => s.receivePreq c preq sender interface fromMp metric
    | .receivePrep prep sender interface fromMp metric => s.receivePrep prep sender interface fromMp metric
    | .receivePerr destinations sender interface => some (s.receivePerr destinations sender interface)
    | .peerLinkStatus peerAddress status => some (s.peerLinkStatus peerAddress status)
    | .retry uid => (s.events.find? fun e ↦ decide (e.uid = uid)).bind fun e ↦
      retryPathDiscovery c { s with events := s.events.filter fun e ↦ decide (e.uid ≠ uid) } e.dst e.numOfRetry
    | .wait delay => some { s with now := s.now + delay }

/-- A request is for one station, a frame comes from one, and an event runs at its time. -/
def Allowed (s : HwmpProtocol) : HwmpOp → Prop
  | .forwardUnicast _ _ destination _ _ _ => destination ≠ Mac48Address.getBroadcast
  | .receivePreq _ sender _ _ _ | .receivePrep _ sender _ _ _ => sender ≠ Mac48Address.getBroadcast
  | .retry uid => ∃ e ∈ s.events, e.uid = uid ∧ e.ts = s.now
  | .wait delay => ∀ e ∈ s.events, s.now + delay ≤ e.ts
  | _ => True

instance (s : HwmpProtocol) : ∀ op, Decidable (Allowed s op)
  | .forwardUnicast _ _ _ _ _ _ | .receivePreq _ _ _ _ _ | .receivePrep _ _ _ _ _ =>
    inferInstanceAs (Decidable (_ ≠ _))
  | .retry _ => inferInstanceAs (Decidable (∃ e ∈ s.events, _))
  | .wait _ => inferInstanceAs (Decidable (∀ e ∈ s.events, _))
  | .receivePerr _ _ _ | .peerLinkStatus _ _ => inferInstanceAs (Decidable True)

/-- No packet is stranded: for the destination of each that is in the queue, a pending event is recorded,
and each that was accepted is in the queue or was answered, once. -/
structure NotStranded (s : HwmpProtocol) : Prop where
  pending : ∀ q ∈ s.m_rqueue, ∃ i, OrderedMap.find q.dst s.m_preqTimeouts = some i ∧
    ∃ e ∈ s.events, e.uid = i.preqTimeout ∧ e.dst = q.dst
  answered : (s.answers.map Prod.fst ++ s.m_rqueue).Perm s.accepted

end HwmpProtocol

/-! ## What is found in the table -/

namespace HwmpRtable

variable {t t' : HwmpRtable} {now later : ℤ} {d dst : Mac48Address}

/-- The next hop of the reactive path to a destination, and when the path expires. -/
def hop (t : HwmpRtable) (dst : Mac48Address) : Option (Mac48Address × ℤ) :=
  (OrderedMap.find dst t.m_routes).map fun i ↦ (i.retransmitter, i.whenExpire)

theorem lookupReactive_found : (t.lookupReactive now dst).Found ↔
    ∃ x, t.hop dst = some x ∧ x.1 ≠ Mac48Address.getBroadcast ∧ (x.2 < now → x.2 = 0) := by
  rw [hop, lookupReactive, lookupReactiveExpired]
  cases OrderedMap.find dst t.m_routes with
  | none => simp
  | some i =>
    by_cases hexp : i.whenExpire < now ∧ i.whenExpire ≠ 0
    · simp [hexp]
    · simpa [hexp] using fun _ hlt ↦ not_not.mp fun hne ↦ hexp ⟨hlt, hne⟩

theorem lookupProactive_found : (t.lookupProactive now).1.Found ↔
    t.m_root.retransmitter ≠ Mac48Address.getBroadcast ∧ now ≤ t.m_root.whenExpire := by
  rw [lookupProactive]
  by_cases hexp : t.m_root.whenExpire < now
  · simp [hexp, lookupProactiveExpired, deleteProactivePath]
  · simpa [hexp, lookupProactiveExpired] using fun _ ↦ not_lt.mp hexp

/-- There is no path to a destination, and there will be none. -/
def PathLost (t : HwmpRtable) (now : ℤ) (dst : Mac48Address) : Prop :=
  ∀ later, now ≤ later → ¬ (t.lookupReactive later dst).Found ∧ ¬ (t.lookupProactive later).1.Found

/-- There are no new paths. -/
structure Shrinks (t t' : HwmpRtable) : Prop where
  reactive : ∀ now dst, (t'.lookupReactive now dst).Found → (t.lookupReactive now dst).Found
  proactive : ∀ now, (t'.lookupProactive now).1.Found → (t.lookupProactive now).1.Found

theorem Shrinks.refl (t : HwmpRtable) : Shrinks t t := ⟨fun _ _ ↦ id, fun _ ↦ id⟩

theorem Shrinks.trans {u : HwmpRtable} (h : Shrinks t t') (h' : Shrinks t' u) : Shrinks t u :=
  ⟨fun _ _ hf ↦ h.reactive _ _ (h'.reactive _ _ hf), fun _ hf ↦ h.proactive _ (h'.proactive _ hf)⟩

theorem PathLost.shrinks (h : t.PathLost now dst) (ht : Shrinks t t') : t'.PathLost now dst :=
  fun later hl ↦ ⟨mt (ht.reactive _ _) (h later hl).1, mt (ht.proactive _) (h later hl).2⟩

theorem Shrinks.of_hop (h : ∀ d, t'.hop d = none ∨ t'.hop d = t.hop d)
    (hroot : t'.m_root = t.m_root ∨ t'.m_root.retransmitter = Mac48Address.getBroadcast) : Shrinks t t' where
  reactive now dst hf := by
    rw [lookupReactive_found] at hf ⊢
    obtain ⟨x, hx, hrest⟩ := hf
    rcases h dst with hd | hd
    · rw [hd] at hx
      exact absurd hx (Option.some_ne_none _).symm
    · exact ⟨x, hd ▸ hx, hrest⟩
  proactive now hf := by
    rw [lookupProactive_found] at hf ⊢
    rcases hroot with hroot | hroot
    · exact hroot ▸ hf
    · exact absurd hroot hf.1

theorem hop_addReactivePath (retransmitter : Mac48Address) (interface metric : UInt32) (lifetime : ℤ)
    (seqnum : UInt32) : (t.addReactivePath now dst retransmitter interface metric lifetime seqnum).hop d =
      if d = dst then some (retransmitter, now + lifetime) else t.hop d := by
  rw [hop, addReactivePath, OrderedMap.find_insert]
  split_ifs <;> rfl

theorem hop_addPrecursor (interface : UInt32) (address : Mac48Address) (lifetime : ℤ) :
    (t.addPrecursor now dst interface address lifetime).hop d = t.hop d := by
  rw [addPrecursor]
  cases hfind : OrderedMap.find dst t.m_routes with
  | none => rfl
  | some i =>
    rw [hop, hop, OrderedMap.find_insert]
    by_cases hd : d = dst
    · rw [if_pos hd, hd, hfind]
      rfl
    · rw [if_neg hd]

theorem addPrecursor_root (interface : UInt32) (address : Mac48Address) (lifetime : ℤ) :
    (t.addPrecursor now dst interface address lifetime).m_root = t.m_root := by
  rw [addPrecursor]
  split <;> rfl

theorem hop_unreachable (peerAddress : Mac48Address) :
    (t.getUnreachableDestinations peerAddress).2.hop d = t.hop d := by
  rw [hop, hop, getUnreachableDestinations]
  induction t.m_routes with
  | nil => rfl
  | cons i routes ih =>
    rw [unreachableLoop]
    by_cases hi : i.2.retransmitter = peerAddress
    · rw [if_pos hi, OrderedMap.find_cons, OrderedMap.find_cons]
      split_ifs
      · rfl
      · exact ih
    · rw [if_neg hi, OrderedMap.find_cons, OrderedMap.find_cons]
      split_ifs
      · rfl
      · exact ih

theorem deleteReactivePath_shrinks : Shrinks t (t.deleteReactivePath dst) := by
  refine .of_hop (fun d ↦ ?_) (Or.inl rfl)
  rw [hop, deleteReactivePath, OrderedMap.find_erase]
  by_cases hd : d = dst
  · rw [if_pos hd]
    exact Or.inl rfl
  · rw [if_neg hd]
    exact Or.inr rfl

theorem deleteProactivePathTo_shrinks : Shrinks t (t.deleteProactivePathTo now dst) := by
  rw [deleteProactivePathTo]
  split_ifs
  · exact .of_hop (fun _ ↦ Or.inr rfl) (Or.inr rfl)
  · exact .refl t

theorem lookupProactive_shrinks : Shrinks t (t.lookupProactive now).2 := by
  rw [lookupProactive]
  refine .of_hop (fun _ ↦ Or.inr ?_) ?_
  · split_ifs <;> rfl
  · split_ifs
    · exact Or.inr rfl
    · exact Or.inl rfl

theorem makePathError_shrinks (destinations : List FailedDestination) :
    Shrinks t (t.makePathError now destinations).2 := by
  have hloop : ∀ t : HwmpRtable, Shrinks t (perrLoop now destinations t).2 := by
    induction destinations with
    | nil => exact .refl
    | cons failed destinations ih =>
      exact fun t ↦ (deleteReactivePath_shrinks.trans deleteProactivePathTo_shrinks).trans (ih _)
  rw [makePathError]
  split_ifs
  · exact hloop t
  · exact List.foldlRecOn destinations _ (hloop t) fun _ h _ _ ↦ h.trans deleteReactivePath_shrinks

theorem lookup_shrinks : Shrinks t (t.lookup now dst).2 := by
  rw [lookup]
  split_ifs
  · exact .refl t
  · exact lookupProactive_shrinks

theorem pathLost_of_lookup (h : ¬ (t.lookup now dst).1.Found) : (t.lookup now dst).2.PathLost now dst := by
  rw [lookup] at h ⊢
  by_cases hr : (t.lookupReactive now dst).Found
  · rw [if_pos hr] at h
    exact absurd hr h
  rw [if_neg hr] at h ⊢
  refine PathLost.shrinks (fun later hl ↦ ⟨fun hf ↦ hr ?_, fun hf ↦ h ?_⟩) lookupProactive_shrinks
  · rw [lookupReactive_found] at hf ⊢
    obtain ⟨x, hx, hne, hexp⟩ := hf
    exact ⟨x, hx, hne, fun hlt ↦ hexp (hlt.trans_le hl)⟩
  · rw [lookupProactive_found] at hf ⊢
    exact ⟨hf.1, hl.trans hf.2⟩

theorem PathLost.not_found (h : t.PathLost now dst) : ¬ (t.lookup now dst).1.Found := by
  obtain ⟨hr, hp⟩ := h now (le_refl _)
  rwa [lookup, if_neg hr]

end HwmpRtable

namespace HwmpProtocol

/-! ## The invariant -/

/-- The pending events are those that are recorded, one for each destination, and a packet in the queue
is for a destination with a record and without a path. -/
structure Sound (s : HwmpProtocol) : Prop where
  unique : ∀ e ∈ s.events, ∀ e' ∈ s.events, e.uid = e'.uid → e = e'
  fresh : ∀ e ∈ s.events, e.uid < s.nextUid
  pending : ∀ dst i, OrderedMap.find dst s.m_preqTimeouts = some i →
    ∃ e ∈ s.events, e.uid = i.preqTimeout ∧ e.dst = dst
  recorded : ∀ e ∈ s.events, ∃ i, OrderedMap.find e.dst s.m_preqTimeouts = some i ∧ i.preqTimeout = e.uid
  lost : ∀ q ∈ s.m_rqueue, s.m_rtable.PathLost s.now q.dst
  waits : ∀ q ∈ s.m_rqueue, ∃ i, OrderedMap.find q.dst s.m_preqTimeouts = some i
  tagged : ∀ q ∈ s.m_rqueue, q.pkt.tag.isSome
  answered : (s.answers.map Prod.fst ++ s.m_rqueue).Perm s.accepted

variable {s : HwmpProtocol} {t : HwmpRtable} {c : Config} {p : QueuedPacket → Bool} {dst sender : Mac48Address}
  {interface metric lifetime seqnum : UInt32}

/-- No assertion fails, and the invariant holds. -/
def Continues (o : Option HwmpProtocol) : Prop := ∃ s, o = some s ∧ Sound s

theorem Continues.bind {o : Option HwmpProtocol} {f : HwmpProtocol → Option HwmpProtocol} (h : Continues o)
    (hf : ∀ s, Sound s → Continues (f s)) : Continues (o.bind f) := by
  obtain ⟨s, rfl, hs⟩ := h
  exact hf s hs

theorem Sound.continues (h : Sound s) : Continues (some s) := ⟨s, rfl, h⟩

theorem Sound.setTable (h : Sound s) (ht : s.m_rtable.Shrinks t) : Sound { s with m_rtable := t } :=
  { h with lost := fun q hq ↦ (h.lost q hq).shrinks ht }

theorem Sound.setDatabase (h : Sound s) (database : List (Mac48Address × UInt32 × UInt32)) :
    Sound { s with m_hwmpSeqnoMetricDatabase := database } := { h with }

theorem Sound.pathError (h : Sound s) (peerAddress : Mac48Address) : Sound (s.pathError peerAddress) :=
  h.setTable ((HwmpRtable.Shrinks.of_hop (fun _ ↦ Or.inr (HwmpRtable.hop_unreachable _)) (Or.inl rfl)).trans
    (HwmpRtable.makePathError_shrinks _))

/-! ## Answers -/

/-- The loop takes out the packets that it looks for, and answers each. -/
theorem answerLoop_eq {reply : QueuedPacket → Option RouteReply} {n : ℕ}
    (hreply : ∀ i ∈ s.m_rqueue, (reply i).isSome) (hn : s.m_rqueue.length ≤ n) :
    ∃ l, answerLoop p reply n s =
        some { s with m_rqueue := s.m_rqueue.filter fun i ↦ !p i, answers := s.answers ++ l } ∧
      l.map Prod.fst = s.m_rqueue.filter p := by
  induction n generalizing s with
  | zero =>
    have hnil := List.eq_nil_of_length_eq_zero (Nat.le_zero.mp hn)
    refine ⟨[], ?_, by rw [hnil]; rfl⟩
    rw [hnil, List.append_nil, List.filter_nil, ← hnil]
    rfl
  | succ n ih =>
    rw [answerLoop, dequeueFirst]
    cases hfind : s.m_rqueue.find? p with
    | none =>
      have hnone := List.find?_eq_none.mp hfind
      refine ⟨[], ?_, (List.filter_eq_nil_iff.mpr hnone).symm⟩
      rw [List.append_nil, List.filter_eq_self.mpr fun i hi ↦ by simpa using hnone i hi]
    | some i =>
      obtain ⟨hp, as, bs, hsplit, hnot⟩ := List.find?_eq_some_iff_append.mp hfind
      have has : ∀ a ∈ as, ¬ p a = true := fun a ha ↦ by simpa using hnot a ha
      have herase : s.m_rqueue.eraseP p = as ++ bs := by
        rw [hsplit, List.eraseP_append_right _ has, List.eraseP_cons_of_pos hp]
      obtain ⟨r, hr⟩ := Option.isSome_iff_exists.mp (hreply i (List.mem_of_find?_eq_some hfind))
      have hlen : (as ++ bs).length ≤ n := by
        rw [hsplit, List.length_append, List.length_cons] at hn
        rw [List.length_append]
        omega
      obtain ⟨l, hl, hfst⟩ := ih (s := { s with m_rqueue := as ++ bs, answers := s.answers ++ [(i, r)] })
        (fun j hj ↦ hreply j (List.mem_of_mem_eraseP (herase ▸ hj))) hlen
      refine ⟨(i, r) :: l, ?_, ?_⟩
      · dsimp only
        rw [herase, hr, Option.bind_some, hl, hsplit, List.append_assoc, List.singleton_append,
          List.filter_append, List.filter_append, List.filter_cons_of_neg (by rw [hp]; decide)]
      · rw [List.map_cons, hfst, hsplit, List.filter_append, List.filter_append,
          List.filter_cons_of_pos hp, List.filter_eq_nil_iff.mpr has, List.nil_append, List.nil_append]

theorem Sound.answer (h : Sound s) {l : List (QueuedPacket × RouteReply)}
    (hl : l.map Prod.fst = s.m_rqueue.filter p)
    (ht : ∀ q ∈ s.m_rqueue, p q = false → t.PathLost s.now q.dst) :
    Sound { s with m_rtable := t, m_rqueue := s.m_rqueue.filter fun i ↦ !p i, answers := s.answers ++ l } := by
  have hmem : ∀ q ∈ s.m_rqueue.filter fun i ↦ !p i, q ∈ s.m_rqueue ∧ p q = false := fun q hq ↦
    ⟨List.mem_of_mem_filter hq, by simpa using List.of_mem_filter hq⟩
  refine { h with
    lost := fun q hq ↦ ht q (hmem q hq).1 (hmem q hq).2
    waits := fun q hq ↦ h.waits q (hmem q hq).1
    tagged := fun q hq ↦ h.tagged q (hmem q hq).1
    answered := ?_ }
  rw [List.map_append, hl, List.append_assoc]
  exact ((List.filter_append_perm p s.m_rqueue).append_left _).trans h.answered

theorem Sound.answerLoop (h : Sound s) {reply : QueuedPacket → Option RouteReply}
    (hreply : ∀ i ∈ s.m_rqueue, (reply i).isSome)
    (ht : ∀ q ∈ s.m_rqueue, p q = false → t.PathLost s.now q.dst) :
    Continues (answerLoop p reply s.m_rqueue.length { s with m_rtable := t }) := by
  obtain ⟨l, hl, hfst⟩ := answerLoop_eq (s := { s with m_rtable := t }) (p := p) hreply (le_refl _)
  exact ⟨_, hl, h.answer hfst ht⟩

/-- A new reactive path is found, and the packets for its destination leave the queue. -/
theorem Sound.addReactive (h : Sound s) (hsender : sender ≠ Mac48Address.getBroadcast) (freshInfo : Bool)
    {more : HwmpRtable → HwmpRtable} (hhop : ∀ t d, (more t).hop d = t.hop d)
    (hroot : ∀ t, (more t).m_root = t.m_root) :
    Continues (s.addReactive freshInfo dst sender interface metric lifetime seqnum more) := by
  rw [HwmpProtocol.addReactive]
  split_ifs
  swap
  · exact h.continues
  set t := more (s.m_rtable.addReactivePath s.now dst sender interface metric (lifetimeOf lifetime) seqnum)
    with ht
  have hop : ∀ d, t.hop d = if d = dst then some (sender, s.now + lifetimeOf lifetime) else s.m_rtable.hop d :=
    fun d ↦ by rw [ht, hhop, HwmpRtable.hop_addReactivePath]
  have hfound : (t.lookupReactive s.now dst).Found := by
    have hlife : 0 ≤ lifetimeOf lifetime := by
      rw [lifetimeOf]
      positivity
    refine HwmpRtable.lookupReactive_found.mpr ⟨_, (hop dst).trans (if_pos rfl), hsender, fun hlt ↦ ?_⟩
    exact absurd hlt (by dsimp only; omega)
  rw [reactivePathResolved]
  dsimp only
  rw [if_pos hfound]
  refine h.answerLoop (fun _ _ ↦ rfl) fun q hq hne later hl ↦ ?_
  have hne : q.dst ≠ dst := of_decide_eq_false hne
  obtain ⟨hr, hp⟩ := h.lost q hq later hl
  rw [HwmpRtable.lookupReactive_found] at hr
  rw [HwmpRtable.lookupProactive_found] at hp
  rw [HwmpRtable.lookupReactive_found, HwmpRtable.lookupProactive_found, hop, if_neg hne, ht, hroot]
  exact ⟨hr, hp⟩

theorem Sound.addProactive (h : Sound s) (hsender : sender ≠ Mac48Address.getBroadcast) {root : Mac48Address}
    (ht : t.m_root = ⟨root, sender, interface, metric, s.now + lifetimeOf lifetime, seqnum⟩) :
    Continues (proactivePathResolved { s with m_rtable := t }) := by
  have hlife : 0 ≤ lifetimeOf lifetime := by
    rw [lifetimeOf]
    positivity
  have hfound : (t.lookupProactive s.now).1.Found := by
    rw [HwmpRtable.lookupProactive_found, ht]
    exact ⟨hsender, by dsimp only; omega⟩
  rw [proactivePathResolved]
  dsimp only
  rw [if_pos hfound]
  exact h.answerLoop (fun i hi ↦ by rw [Option.isSome_map]; exact h.tagged i hi) fun _ _ hp ↦ absurd hp (by decide)

/-! ## Timers -/

/-- A timer of a destination is set; a timer that it had has run out. -/
theorem Sound.scheduleRetry (h : Sound s) {events : List RetryEvent} (delay : ℕ) (numOfRetry : UInt8)
    (whenScheduled : ℤ) (hev : ∀ e, e ∈ events ↔ e ∈ s.events ∧ e.dst ≠ dst) :
    Sound (scheduleRetry { s with events := events } delay dst numOfRetry whenScheduled) := by
  have hmem : ∀ e ∈ events ++ [⟨s.nextUid, s.now + delay, dst, numOfRetry⟩],
      (e ∈ s.events ∧ e.dst ≠ dst) ∨ e = ⟨s.nextUid, s.now + delay, dst, numOfRetry⟩ := by
    intro e he
    rcases List.mem_append.mp he with he | he
    · exact Or.inl ((hev e).mp he)
    · exact Or.inr (List.mem_singleton.mp he)
  refine { h with unique := ?_, fresh := ?_, pending := ?_, recorded := ?_, waits := ?_ }
  · intro e he e' he' heq
    rcases hmem e he with ⟨he, -⟩ | rfl <;> rcases hmem e' he' with ⟨he', -⟩ | rfl
    · exact h.unique e he e' he' heq
    · exact absurd heq (h.fresh e he).ne
    · exact absurd heq (h.fresh e' he').ne'
    · rfl
  · intro e he
    rcases hmem e he with ⟨he, -⟩ | rfl
    · exact Nat.lt_succ_of_lt (h.fresh e he)
    · exact Nat.lt_succ_self _
  · intro d i hi
    rw [HwmpProtocol.scheduleRetry, OrderedMap.find_insert] at hi
    by_cases hd : d = dst
    · rw [if_pos hd, Option.some_inj] at hi
      exact ⟨_, List.mem_append_right _ (List.mem_singleton_self _), hi ▸ rfl, hd.symm⟩
    · rw [if_neg hd] at hi
      obtain ⟨e, he, huid, rfl⟩ := h.pending d i hi
      exact ⟨e, List.mem_append_left _ ((hev e).mpr ⟨he, hd⟩), huid, rfl⟩
  · intro e he
    rw [HwmpProtocol.scheduleRetry, OrderedMap.find_insert]
    rcases hmem e he with ⟨he, hd⟩ | rfl
    · rw [if_neg hd]
      exact h.recorded e he
    · exact ⟨_, if_pos rfl, rfl⟩
  · intro q hq
    rw [HwmpProtocol.scheduleRetry, OrderedMap.find_insert]
    split_ifs
    · exact ⟨_, rfl⟩
    · exact h.waits q hq

theorem Sound.eraseTimeout (h : Sound s) {events : List RetryEvent}
    (hev : ∀ e, e ∈ events ↔ e ∈ s.events ∧ e.dst ≠ dst) (hq : ∀ q ∈ s.m_rqueue, q.dst ≠ dst) :
    Sound { s with events := events, m_preqTimeouts := OrderedMap.erase dst s.m_preqTimeouts } := by
  refine { h with unique := ?_, fresh := ?_, pending := ?_, recorded := ?_, waits := ?_ }
  · exact fun e he e' he' ↦ h.unique e ((hev e).mp he).1 e' ((hev e').mp he').1
  · exact fun e he ↦ h.fresh e ((hev e).mp he).1
  · intro d i hi
    rw [OrderedMap.find_erase] at hi
    split_ifs at hi with hd
    obtain ⟨e, he, huid, rfl⟩ := h.pending d i hi
    exact ⟨e, (hev e).mpr ⟨he, hd⟩, huid, rfl⟩
  · intro e he
    rw [OrderedMap.find_erase, if_neg ((hev e).mp he).2]
    exact h.recorded e ((hev e).mp he).1
  · intro q hmem
    rw [OrderedMap.find_erase, if_neg (hq q hmem)]
    exact h.waits q hmem

/-- **A timer that runs out** finds its record; with the record go the packets, if there is no path. -/
theorem Sound.retryPathDiscovery (h : Sound s) {e : RetryEvent} (he : e ∈ s.events) :
    Continues (retryPathDiscovery c { s with events := s.events.filter fun e' ↦ decide (e'.uid ≠ e.uid) } e.dst
      e.numOfRetry) := by
  have hev : ∀ e', e' ∈ (s.events.filter fun e' ↦ decide (e'.uid ≠ e.uid)) ↔ e' ∈ s.events ∧ e'.dst ≠ e.dst := by
    intro e'
    rw [List.mem_filter, decide_eq_true_iff]
    refine and_congr_right fun he' ↦ not_congr ⟨fun heq ↦ (h.unique e' he' e he heq) ▸ rfl, fun heq ↦ ?_⟩
    obtain ⟨i, hi, huid⟩ := h.recorded e he
    obtain ⟨i', hi', huid'⟩ := h.recorded e' he'
    rw [heq, hi, Option.some_inj] at hi'
    rw [← huid', ← huid, hi']
  obtain ⟨i, hi, -⟩ := h.recorded e he
  have hshrinks : s.m_rtable.Shrinks (s.m_rtable.lookup s.now e.dst).2 := HwmpRtable.lookup_shrinks
  have hs := h.setTable hshrinks
  rw [HwmpProtocol.retryPathDiscovery]
  dsimp only
  rw [hi, Option.isNone_some, if_neg Bool.false_ne_true]
  simp only [if_neg Bool.false_ne_true]
  split_ifs with hfound hretry
  · refine Sound.continues (hs.eraseTimeout hev fun q hq heq ↦ ?_)
    exact (h.lost q hq).not_found (heq ▸ hfound)
  · have hreply : ∀ i ∈ s.m_rqueue, (some (i.reply false i.pkt maxMetric)).isSome :=
      fun _ _ ↦ rfl
    obtain ⟨l, hl, hfst⟩ := answerLoop_eq (s := { s with
      events := s.events.filter fun e' ↦ decide (e'.uid ≠ e.uid), m_rtable := (s.m_rtable.lookup s.now e.dst).2 })
      (p := byDst e.dst) hreply (le_refl _)
    rw [hl]
    refine Sound.continues ((hs.answer hfst fun q hq _ ↦ hs.lost q hq).eraseTimeout hev fun q hq ↦ ?_)
    simpa [byDst] using List.of_mem_filter hq
  · exact Sound.continues (hs.scheduleRetry _ _ _ hev)

/-! ## Requests and frames -/

theorem Sound.shouldSendPreq (h : Sound s) (dst : Mac48Address) : Sound (s.shouldSendPreq c dst) ∧
    ∃ i, OrderedMap.find dst (s.shouldSendPreq c dst).m_preqTimeouts = some i := by
  rw [HwmpProtocol.shouldSendPreq]
  cases hfind : OrderedMap.find dst s.m_preqTimeouts with
  | some i => exact ⟨h, i, hfind⟩
  | none =>
    refine ⟨h.scheduleRetry _ _ _ fun e ↦ (and_iff_left_of_imp fun he heq ↦ ?_).symm, _,
      (OrderedMap.find_insert _ _ _ _).trans (if_pos rfl)⟩
    obtain ⟨i, hi, -⟩ := h.recorded e he
    rw [heq, hfind] at hi
    exact Option.some_ne_none _ hi.symm

theorem Sound.queuePacket (h : Sound s) {packet : QueuedPacket} (hlost : s.m_rtable.PathLost s.now packet.dst)
    (hwaits : ∃ i, OrderedMap.find packet.dst s.m_preqTimeouts = some i) (htag : packet.pkt.tag.isSome) :
    Sound (s.queuePacket c packet) := by
  rw [HwmpProtocol.queuePacket]
  split_ifs
  · exact h
  have hall : ∀ {P : QueuedPacket → Prop}, (∀ q ∈ s.m_rqueue, P q) → P packet →
      ∀ q ∈ s.m_rqueue ++ [packet], P q := fun hs hp ↦
    List.forall_mem_append.mpr ⟨hs, fun q hq ↦ (List.mem_singleton.mp hq) ▸ hp⟩
  refine { h with
    lost := hall h.lost hlost
    waits := hall h.waits hwaits
    tagged := hall h.tagged htag
    answered := ?_ }
  rw [← List.append_assoc]
  exact h.answered.append_right _

theorem Sound.forwardUnicast (h : Sound s) (sourceIface : UInt32) (source destination : Mac48Address)
    (packet : Packet) (protocolType : UInt16) (ttl : UInt8) :
    Sound (s.forwardUnicast c sourceIface source destination packet protocolType ttl) := by
  have hshrinks : s.m_rtable.Shrinks (s.m_rtable.lookup s.now destination).2 := HwmpRtable.lookup_shrinks
  have hs := h.setTable hshrinks
  rw [HwmpProtocol.forwardUnicast]
  dsimp only
  by_cases hfound : (s.m_rtable.lookup s.now destination).1.Found
  · rw [if_pos hfound]
    exact hs
  rw [if_neg hfound]
  by_cases hi : sourceIface ≠ c.ifIndex
  · rw [if_pos hi]
    split_ifs <;> first | exact hs | exact hs.pathError _
  · rw [if_neg hi]
    obtain ⟨hs', hwaits⟩ := hs.shouldSendPreq (c := c) destination
    refine hs'.queuePacket ?_ hwaits rfl
    rw [HwmpProtocol.shouldSendPreq]
    split_ifs <;> exact HwmpRtable.pathLost_of_lookup hfound

theorem Sound.preqLoop (h : Sound s) (hsender : sender ≠ Mac48Address.getBroadcast) (preq : IePreq)
    (destinations : List DestinationAddressUnit) :
    Continues (preqLoop c preq sender interface metric destinations s) := by
  induction destinations generalizing s with
  | nil => exact h.continues
  | cons i destinations ih =>
    rw [HwmpProtocol.preqLoop]
    dsimp only
    by_cases hb : i.m_destinationAddress = Mac48Address.getBroadcast
    · rw [if_pos hb]
      split_ifs
      · exact Sound.continues (h.setTable HwmpRtable.lookupProactive_shrinks)
      · exact h.addProactive hsender rfl
    rw [if_neg hb]
    split_ifs
    · exact ih h
    · exact ih (h.setTable (.of_hop (fun _ ↦ Or.inr (HwmpRtable.hop_addPrecursor ..))
        (Or.inl (HwmpRtable.addPrecursor_root ..))))
    · exact ih h

theorem Sound.receivePreq (h : Sound s) (hsender : sender ≠ Mac48Address.getBroadcast) (preq : IePreq)
    (fromMp : Mac48Address) : Continues (s.receivePreq c preq sender interface fromMp metric) := by
  rw [HwmpProtocol.receivePreq]
  cases s.preqFreshInfo preq.m_originatorAddress preq.m_originatorSeqNumber (preq.m_metric + metric) with
  | none => exact h.continues
  | some freshInfo =>
    refine ((h.setDatabase _).addReactive hsender freshInfo (fun _ _ ↦ rfl) fun _ ↦ rfl).bind fun s hs ↦ ?_
    exact (hs.addReactive hsender false (fun _ _ ↦ rfl) fun _ ↦ rfl).bind fun s hs ↦ hs.preqLoop hsender preq _

theorem Sound.receivePrep (h : Sound s) (hsender : sender ≠ Mac48Address.getBroadcast) (prep : IePrep)
    (fromMp : Mac48Address) : Continues (s.receivePrep prep sender interface fromMp metric) := by
  rw [HwmpProtocol.receivePrep]
  cases s.prepFreshInfo prep.m_originatorAddress prep.m_destSeqNumber with
  | none => exact h.continues
  | some freshInfo =>
    refine ((h.setDatabase _).addReactive hsender freshInfo (fun t d ↦ ?_) fun t ↦ ?_).bind fun s hs ↦
      hs.addReactive hsender false (fun _ _ ↦ rfl) fun _ ↦ rfl
    · dsimp only
      split_ifs
      · rw [HwmpRtable.hop_addPrecursor, HwmpRtable.hop_addPrecursor]
      · rw [HwmpRtable.hop_addPrecursor]
    · dsimp only
      split_ifs
      · rw [HwmpRtable.addPrecursor_root, HwmpRtable.addPrecursor_root]
      · rw [HwmpRtable.addPrecursor_root]

/-- Every step that is allowed can be taken, and keeps the invariant. -/
theorem Sound.step (h : Sound s) {op : HwmpOp} (hok : Allowed s op) : Continues ((machine c).next s op) := by
  cases op with
  | forwardUnicast => exact Sound.continues (h.forwardUnicast ..)
  | receivePreq => exact h.receivePreq hok ..
  | receivePrep => exact h.receivePrep hok ..
  | receivePerr =>
    refine Sound.continues ?_
    rw [receivePerr]
    split_ifs
    · exact h
    · exact h.setTable (HwmpRtable.makePathError_shrinks _)
  | peerLinkStatus =>
    refine Sound.continues ?_
    rw [peerLinkStatus]
    split_ifs
    · exact h
    · exact h.pathError _
  | retry uid =>
    obtain ⟨e, he, huid, -⟩ := hok
    obtain ⟨e', hfind⟩ := Option.isSome_iff_exists.mp ((List.find?_isSome (p := fun e ↦ decide (e.uid = uid))).mpr
      ⟨e, he, decide_eq_true huid⟩)
    obtain rfl : e'.uid = uid := by simpa using List.find?_some hfind
    exact (congrArg Continues (congrArg (Option.bind · _) hfind)).mpr
      (h.retryPathDiscovery (List.mem_of_find?_eq_some hfind))
  | wait delay =>
    refine Sound.continues { h with lost := fun q hq later hl ↦ h.lost q hq later (le_trans ?_ hl) }
    exact le_add_of_nonneg_right (Nat.cast_nonneg _)

/-- **No packet is stranded in the queue**, and no lookup that is asserted fails. -/
theorem notStranded_of_run (c : Config) {ops : List HwmpOp} (hr : (machine c).Run Allowed ops s) :
    NotStranded s ∧ ∀ op, Allowed s op → ((machine c).next s op).isSome := by
  have h : Sound s := hr.invariant
    (by constructor <;> simp [machine])
    fun s op s' hs hok hstep ↦ by
      obtain ⟨s'', hs'', h⟩ := hs.step (c := c) hok
      exact Option.some_inj.mp (hs''.symm.trans hstep) ▸ h
  refine ⟨⟨fun q hq ↦ ?_, h.answered⟩, fun op hok ↦ ?_⟩
  · obtain ⟨i, hi⟩ := h.waits q hq
    exact ⟨i, hi, h.pending _ i hi⟩
  · obtain ⟨s', hs', -⟩ := h.step (c := c) hok
    rw [hs', Option.isSome_some]

/-- A request is repeated once, and answered; then its timer runs out. -/
def requestOps : List HwmpOp :=
  let station (n : UInt8) : Mac48Address := ⟨[n, 0, 0, 0, 0, 0], rfl⟩
  [.forwardUnicast 0 (station 1) (station 2) ⟨7, none⟩ 0x0800 32, .wait 20, .retry 0,
    .receivePrep ⟨station 1, 1, 1, 10, station 2⟩ (station 3) 1 (station 3) 5, .wait 60, .retry 1]

theorem notStranded_of_run_request : ∃ s, (machine ⟨⟨[1, 0, 0, 0, 0, 0], rfl⟩, 0, 255, 3, 10⟩).Run Allowed
    requestOps s ∧ s.answers.length = 1 ∧ s.events = [] ∧ NotStranded s := by
  refine Machine.exists_run_and_allowed (p := fun s ↦ s.answers.length = 1 ∧ s.events = []) (by decide +kernel)
    (by decide +kernel) fun s hr hs ↦ ⟨hs.1, hs.2, (notStranded_of_run _ hr).1⟩

end HwmpProtocol

end Hwmp

end Ns3
