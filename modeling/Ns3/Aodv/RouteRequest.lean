import Ns3.Aodv.RouteError

/-!
# The reverse route of a route request

A node that receives a route request from a neighbour keeps a route back to the originator over that
neighbour. The route is entered or updated first; then the route to the neighbour is, the neighbour is
recorded as one, and the request is answered or passed on.

An entry that is updated keeps its flag: a route that was invalid, or searched for, stays so. Three more
things come between the update and the return. The hop count of the request may overflow; the lifetime of
a new entry may be negative, so that the next lookup invalidates it; and recording a new neighbour reports
the links to the neighbours that were lost, the originator perhaps among them.
-/

namespace Ns3

namespace Aodv

namespace Routing

/-! ## Messages -/

/-- A `RreqHeader`, with its flags apart. -/
structure RreqHeader where
  gratuitousRrep : Bool
  destinationOnly : Bool
  unknownSeqno : Bool
  m_hopCount : UInt8
  m_requestID : UInt32
  m_dst : Ipv4Address
  m_dstSeqNo : UInt32
  m_origin : Ipv4Address
  m_originSeqNo : UInt32
  deriving DecidableEq

/-- A `RrepHeader`. The lifetime is in the units of the simulator. -/
structure RrepHeader where
  m_prefixSize : UInt8
  m_hopCount : UInt8
  m_dst : Ipv4Address
  m_dstSeqNo : UInt32
  m_origin : Ipv4Address
  lifeTime : ℤ
  ackRequired : Bool
  deriving DecidableEq

/-- A message, with its time to live, on which interface and to which address. -/
inductive Sent where
  | rerr (m : SentRerr)
  | rrep (h : RrepHeader) (ttl : UInt8) (iface : Ipv4InterfaceAddress) (destination : Ipv4Address)
  | rreq (h : RreqHeader) (ttl : UInt8) (iface : Ipv4InterfaceAddress) (destination : Ipv4Address)

/-! ## The state -/

/-- A `UniqueId` of the cache of requests. -/
structure UniqueId where
  m_context : Ipv4Address
  m_id : UInt32
  m_expire : ℤ
  deriving DecidableEq

/-- A `Neighbor`. Its hardware address is not used here. -/
structure Neighbor where
  m_neighborAddress : Ipv4Address
  m_expireTime : ℤ
  close : Bool
  deriving DecidableEq

/-- `CloseNeighbor`. -/
def Neighbor.Closed (now : ℤ) (n : Neighbor) : Prop := n.m_expireTime < now ∨ n.close = true

instance (now : ℤ) : DecidablePred (Neighbor.Closed now) := fun _ ↦ inferInstanceAs (Decidable (_ ∨ _))

/-- The attributes. -/
structure Attributes where
  m_netTraversalTime : ℤ
  m_nodeTraversalTime : ℤ
  m_activeRouteTimeout : ℤ
  m_myRouteTimeout : ℤ
  m_helloInterval : ℤ
  m_allowedHelloLoss : UInt32
  /-- The lifetime in the cache of requests. -/
  m_lifetime : ℤ

/-- The protocol, as far as it handles requests. -/
structure RoutingProtocol extends RerrSender where
  m_seqNo : UInt32
  m_rreqIdCache : List UniqueId
  m_nb : List Neighbor

/-- Where a request came from: the neighbour, the interface with its device, and the time to live. -/
structure Arrival where
  src : Ipv4Address
  dev : ℕ
  iface : Ipv4InterfaceAddress
  ttl : UInt8

/-- `IsDuplicate`: the cache afterwards, and the answer. -/
def isDuplicate (c : Attributes) (now : ℤ) (m_idCache : List UniqueId) (addr : Ipv4Address) (id : UInt32) :
    List UniqueId × Bool :=
  let cache := m_idCache.filter fun u ↦ ¬ u.m_expire < now
  if cache.any fun u ↦ u.m_context = addr ∧ u.m_id = id then (cache, true)
  else (cache ++ [⟨addr, id, c.m_lifetime + now⟩], false)

/-! ## Neighbours -/

/-- The expiry time of the first neighbour with the address is put off. -/
def updateExpire (now : ℤ) (addr : Ipv4Address) (expire : ℤ) : List Neighbor → List Neighbor
  | [] => []
  | n :: l =>
    if n.m_neighborAddress = addr then { n with m_expireTime := max (expire + now) n.m_expireTime } :: l
    else n :: updateExpire now addr expire l

/-- The links to these neighbours are reported broken. -/
def reportLinks (now : ℤ) : List Neighbor → RerrSender → Option (RerrSender × List SentRerr)
  | [], s => some (s, [])
  | n :: l, s => do
    let o ← sendRerrWhenBreaksLinkToNextHop now s n.m_neighborAddress
    let r ← reportLinks now l o.sender
    return (r.1, o.sent ++ r.2)

/-- `Neighbors::Purge`. -/
def purgeNeighbors (now : ℤ) (s : RoutingProtocol) : Option (RoutingProtocol × List SentRerr) := do
  let r ← reportLinks now (s.m_nb.filter fun n ↦ n.Closed now) s.toRerrSender
  return ({ s with toRerrSender := r.1, m_nb := s.m_nb.filter fun n ↦ ¬ n.Closed now }, r.2)

/-- `Neighbors::Update`. -/
def updateNeighbors (now : ℤ) (s : RoutingProtocol) (addr : Ipv4Address) (expire : ℤ) :
    Option (RoutingProtocol × List SentRerr) :=
  if addr ∈ s.m_nb.map Neighbor.m_neighborAddress then
    some ({ s with m_nb := updateExpire now addr expire s.m_nb }, [])
  else purgeNeighbors now { s with m_nb := s.m_nb ++ [⟨addr, expire + now, false⟩] }

/-! ## The routes back -/

section Routes

variable (c : Attributes) (now : ℤ) (a : Arrival)

/-- The lifetime that a request gives to the reverse route. -/
def reverseLifeTime (hop : UInt8) : ℤ :=
  2 * c.m_netTraversalTime - 2 * (hop.toNat : ℤ) * c.m_nodeTraversalTime

/-- The difference of two sequence numbers as signed numbers does not overflow. Where it does, it is
undefined. -/
def Comparable (m n : UInt32) : Prop :=
  (m.toInt32 - n.toInt32).toInt = m.toInt32.toInt - n.toInt32.toInt

instance (m n : UInt32) : Decidable (Comparable m n) := inferInstanceAs (Decidable (_ = _))

/-- Whether a sequence number is newer: the difference is positive as a signed number. -/
def Newer (m n : UInt32) : Prop := 0 < m.toInt32 - n.toInt32

instance (m n : UInt32) : Decidable (Newer m n) := inferInstanceAs (Decidable (_ < _))

/-- The sequence number of the request is compared with a valid one of the entry there was. -/
def RreqHeader.ComparableWith (rreqHeader : RreqHeader) : Option RoutingTableEntry → Prop
  | none => True
  | some toOrigin => toOrigin.m_validSeqNo → Comparable rreqHeader.m_originSeqNo toOrigin.m_seqNo

instance (rreqHeader : RreqHeader) : DecidablePred rreqHeader.ComparableWith
  | none => isTrue trivial
  | some _ => inferInstanceAs (Decidable (_ → _))

/-- The entry of the originator, from the one there was. -/
def reverseEntry (rreqHeader : RreqHeader) : Option RoutingTableEntry → RoutingTableEntry
  | none => .new a.dev rreqHeader.m_origin true rreqHeader.m_originSeqNo a.iface
      rreqHeader.m_hopCount.toUInt16 a.src (reverseLifeTime c rreqHeader.m_hopCount) now
  | some toOrigin => { toOrigin with
      m_seqNo :=
        if toOrigin.m_validSeqNo ∧ ¬ Newer rreqHeader.m_originSeqNo toOrigin.m_seqNo then toOrigin.m_seqNo
        else rreqHeader.m_originSeqNo
      m_validSeqNo := true
      m_ipv4Route := { toOrigin.m_ipv4Route with m_gateway := a.src, m_outputDevice := a.dev }
      m_iface := a.iface
      m_hops := rreqHeader.m_hopCount.toUInt16
      m_lifeTime := max (reverseLifeTime c rreqHeader.m_hopCount) (toOrigin.getLifeTime now) + now }

/-- The route to the originator is entered or updated; also the variable `toOrigin`. -/
def reverseRoute (t : RoutingTable) (rreqHeader : RreqHeader) : RoutingTable × Option RoutingTableEntry :=
  let r := t.lookupRoute rreqHeader.m_origin now
  let entry := reverseEntry c now a rreqHeader r.2
  match r.2 with
  | none => ((r.1.addRoute entry now).1, none)
  | some _ => ((r.1.update entry).1, some entry)

/-- The entry of the neighbour, from the one there was. -/
def neighborEntry (rreqHeader : RreqHeader) : Option RoutingTableEntry → RoutingTableEntry
  | none => .new a.dev a.src false rreqHeader.m_originSeqNo a.iface 1 a.src c.m_activeRouteTimeout now
  | some toNeighbor => { toNeighbor with
      m_lifeTime := c.m_activeRouteTimeout + now
      m_validSeqNo := false
      m_seqNo := rreqHeader.m_originSeqNo
      m_flag := .VALID
      m_iface := a.iface
      m_hops := 1
      m_ipv4Route := { toNeighbor.m_ipv4Route with m_gateway := a.src, m_outputDevice := a.dev } }

/-- The route to the neighbour is entered or updated. -/
def routeToNeighbor (t : RoutingTable) (rreqHeader : RreqHeader) : RoutingTable :=
  let r := t.lookupRoute a.src now
  let entry := neighborEntry c now a rreqHeader r.2
  match r.2 with
  | none => (r.1.addRoute entry now).1
  | some _ => (r.1.update entry).1

end Routes

/-! ## The answer -/

/-- The entry of the constructor without arguments. Its addresses are not initialized. -/
def defaultEntry (now : ℤ) : RoutingTableEntry :=
  .new 0 0x66666666 false 0 ⟨0x66666666, 0x66666666, 0x66666666⟩ 0 0x66666666 now now

def isMyOwnAddress (s : RerrSender) (src : Ipv4Address) : Bool :=
  s.m_socketAddresses.any fun iface ↦ src = iface.m_local

def sendReply (c : Attributes) (s : RoutingProtocol) (rreqHeader : RreqHeader)
    (toOrigin : RoutingTableEntry) : Option (RoutingProtocol × List Sent) :=
  let seqNo :=
    if ¬ rreqHeader.unknownSeqno ∧ rreqHeader.m_dstSeqNo = s.m_seqNo + 1 then s.m_seqNo + 1 else s.m_seqNo
  if toOrigin.m_iface ∈ s.m_socketAddresses then
    some ({ s with m_seqNo := seqNo },
      [.rrep ⟨0, 0, rreqHeader.m_dst, seqNo, toOrigin.getDestination, c.m_myRouteTimeout, false⟩
        toOrigin.m_hops.toUInt8 toOrigin.m_iface toOrigin.getNextHop])
  else none

def sendReplyByIntermediateNode (now : ℤ) (s : RoutingProtocol) (toDst toOrigin : RoutingTableEntry)
    (gratRep : Bool) : Option (RoutingProtocol × List Sent) :=
  -- the acknowledgement timer is set in a copy of the entry, after a lookup
  let t := if toDst.m_hops = 1 then (s.m_routingTable.lookupRoute toOrigin.getNextHop now).1
    else s.m_routingTable
  let toDst' := toDst.insertPrecursor toOrigin.getNextHop
  let toOrigin' := toOrigin.insertPrecursor toDst.getNextHop
  if toOrigin.m_iface ∈ s.m_socketAddresses ∧ (gratRep → toDst.m_iface ∈ s.m_socketAddresses) then
    some ({ s with m_routingTable := ((t.update toDst').1.update toOrigin').1 },
      .rrep ⟨0, toDst.m_hops.toUInt8, toDst.getDestination, toDst.m_seqNo, toOrigin.getDestination,
          toDst.getLifeTime now, toDst.m_hops = 1⟩
        toOrigin.m_hops.toUInt8 toOrigin.m_iface toOrigin.getNextHop ::
      if gratRep then
        [.rrep ⟨0, toOrigin.m_hops.toUInt8, toOrigin.getDestination, toOrigin.m_seqNo, toDst.getDestination,
            toOrigin.getLifeTime now, false⟩
          toDst.m_hops.toUInt8 toDst.m_iface toDst.getNextHop]
      else [])
  else none

/-- The request is passed on, on each interface. -/
def forwardRequest (s : RerrSender) (rreqHeader : RreqHeader) (ttl : UInt8) : List Sent :=
  if ttl < 2 then []
  else s.m_socketAddresses.map fun iface ↦
    .rreq rreqHeader (ttl - 1) iface iface.broadcastDestination

/-- The request is answered, dropped or passed on. -/
def answerRequest (c : Attributes) (now : ℤ) (a : Arrival) (s : RoutingProtocol) (rreqHeader : RreqHeader)
    (toOrigin : RoutingTableEntry) : Option (RoutingProtocol × List Sent) :=
  if isMyOwnAddress s.toRerrSender rreqHeader.m_dst then
    let r := s.m_routingTable.lookupRoute rreqHeader.m_origin now
    sendReply c { s with m_routingTable := r.1 } rreqHeader (r.2.getD toOrigin)
  else
    let d := s.m_routingTable.lookupRoute rreqHeader.m_dst now
    let s := { s with m_routingTable := d.1 }
    match d.2 with
    | none => some (s, forwardRequest s.toRerrSender rreqHeader a.ttl)
    | some toDst =>
      if toDst.getNextHop = a.src then some (s, [])
      else if ¬ rreqHeader.unknownSeqno ∧ ¬ Comparable toDst.m_seqNo rreqHeader.m_dstSeqNo then none
      else if (rreqHeader.unknownSeqno ∨ 0 ≤ toDst.m_seqNo.toInt32 - rreqHeader.m_dstSeqNo.toInt32) ∧
          toDst.m_validSeqNo then
        if ¬ rreqHeader.destinationOnly ∧ toDst.m_flag = .VALID then
          let r := s.m_routingTable.lookupRoute rreqHeader.m_origin now
          sendReplyByIntermediateNode now { s with m_routingTable := r.1 } toDst (r.2.getD toOrigin)
            rreqHeader.gratuitousRrep
        else
          let rreqHeader := { rreqHeader with m_dstSeqNo := toDst.m_seqNo, unknownSeqno := false }
          some (s, forwardRequest s.toRerrSender rreqHeader a.ttl)
      else some (s, forwardRequest s.toRerrSender rreqHeader a.ttl)

/-! ## The whole handler -/

/-- The state when `RecvRequest` returns, whether the request was discarded, and what was sent. -/
structure Received where
  node : RoutingProtocol
  discarded : Bool
  sent : List Sent

/-- `RecvRequest`, unless an assertion fails or sequence numbers are compared that are not comparable. -/
def recvRequest (c : Attributes) (now : ℤ) (a : Arrival) (s : RoutingProtocol) (rreqHeader : RreqHeader) :
    Option Received :=
  let toPrev := s.m_routingTable.lookupRoute a.src now
  let s := { s with m_routingTable := toPrev.1 }
  -- a node in the blacklist is ignored
  if toPrev.2.any RoutingTableEntry.m_blackListState then some ⟨s, true, []⟩
  else
    let duplicate := isDuplicate c now s.m_rreqIdCache rreqHeader.m_origin rreqHeader.m_requestID
    let s := { s with m_rreqIdCache := duplicate.1 }
    if duplicate.2 then some ⟨s, true, []⟩
    else if ¬ rreqHeader.ComparableWith (s.m_routingTable.lookupRoute rreqHeader.m_origin now).2 then none
    else
      let rreqHeader := { rreqHeader with m_hopCount := rreqHeader.m_hopCount + 1 }
      let back := reverseRoute c now a s.m_routingTable rreqHeader
      let s := { s with m_routingTable := routeToNeighbor c now a back.1 rreqHeader }
      do
        let n ← updateNeighbors now s a.src (c.m_allowedHelloLoss.toNat * c.m_helloInterval)
        let r ← answerRequest c now a n.1 rreqHeader (back.2.getD (defaultEntry now))
        return ⟨r.1, false, n.2.map .rerr ++ r.2⟩

end Routing

end Aodv

end Ns3
