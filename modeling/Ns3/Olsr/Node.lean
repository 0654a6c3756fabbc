import Ns3.Library.Machine
import Ns3.Olsr.MprComputation
import Ns3.Olsr.RoutingTable

/-!
# An OLSR node

What a node does with the HELLO, TC and MID messages that it receives, and with the events that it has
scheduled. A tuple that is to be removed at some time has an event a microsecond later, which schedules itself
again where the tuple has been renewed.

A message is processed where the node receives it, and an event is handled at its time: time does not pass
while an event is due (`step`). Times are nanoseconds.
-/

namespace Ns3

namespace Olsr

/-! ## Messages -/

/-- A `LinkMessage` of a HELLO. -/
structure LinkMessage where
  linkCode : ℕ
  neighborInterfaceAddresses : List Ipv4Address
  deriving DecidableEq, Repr

/-- A `Hello`. -/
structure Hello where
  willingness : ℕ
  linkMessages : List LinkMessage
  deriving DecidableEq, Repr

/-- A `Tc`. -/
structure Tc where
  neighborAddresses : List Ipv4Address
  ansn : ℕ
  deriving DecidableEq, Repr

/-- What is used of a `MessageHeader`, around a message. -/
structure MessageHeader where
  originatorAddress : Ipv4Address
  vTime : ℤ
  deriving DecidableEq, Repr

/-- The link types of a link code. -/
inductive LinkType
  | OLSR_UNSPEC_LINK
  | OLSR_ASYM_LINK
  | OLSR_SYM_LINK
  | OLSR_LOST_LINK
  deriving DecidableEq

/-- The link type, `linkCode & 0x03`. -/
def LinkMessage.linkType (m : LinkMessage) : LinkType :=
  match m.linkCode % 4 with
  | 0 => .OLSR_UNSPEC_LINK
  | 1 => .OLSR_ASYM_LINK
  | 2 => .OLSR_SYM_LINK
  | _ => .OLSR_LOST_LINK

/-- `OLSR_NOT_NEIGH`. -/
def notNeigh : ℕ := 0

/-- `OLSR_SYM_NEIGH`. -/
def symNeigh : ℕ := 1

/-- `OLSR_MPR_NEIGH`. -/
def mprNeigh : ℕ := 2

/-- The neighbor type, `(linkCode >> 2) & 0x03`. -/
def LinkMessage.neighborType (m : LinkMessage) : ℕ := m.linkCode / 4 % 4

/-- A link message that is passed over. -/
def LinkMessage.Invalid (m : LinkMessage) : Prop :=
  (m.linkType = .OLSR_SYM_LINK ∧ m.neighborType = notNeigh) ∨
    (m.neighborType ≠ symNeigh ∧ m.neighborType ≠ mprNeigh ∧ m.neighborType ≠ notNeigh)

instance (m : LinkMessage) : Decidable m.Invalid := inferInstanceAs (Decidable (_ ∨ _))

/-! ## The node -/

/-- What is called at the time of an event. -/
inductive Timer
  | linkTupleTimerExpire (neighborIfaceAddr : Ipv4Address)
  | nb2hopTupleTimerExpire (neighborMainAddr twoHopNeighborAddr : Ipv4Address)
  | mprSelTupleTimerExpire (mainAddr : Ipv4Address)
  | topologyTupleTimerExpire (destAddr lastAddr : Ipv4Address)
  | ifaceAssocTupleTimerExpire (ifaceAddr : Ipv4Address)
  deriving DecidableEq, Repr

/-- A scheduled event. -/
structure Event where
  time : ℤ
  timer : Timer
  deriving DecidableEq, Repr

/-- `Seconds (1)`. -/
def oneSecond : ℤ := 1000000000

/-- `Seconds (0.000001)`. -/
def oneMicrosecond : ℤ := 1000

/-- A node with its clock and its events; it is also counted how often the ANSN has been incremented. -/
structure Node extends RoutingProtocol where
  now : ℤ
  m_helloInterval : ℤ
  m_ansn : ℕ
  m_linkTupleTimerFirstTime : Bool
  m_events : List Event
  ansnIncrements : ℕ

namespace Node

/-- A new node. -/
def create (mainAddress : Ipv4Address) (ipv4 : List (List Ipv4Address)) (helloInterval : ℤ) : Node where
  m_mainAddress := mainAddress
  m_ipv4 := ipv4
  m_state := OlsrState.empty
  m_table := fun _ ↦ none
  m_hnaRoutingTable := []
  now := 0
  m_helloInterval := helloInterval
  m_ansn := 65535
  m_linkTupleTimerFirstTime := true
  m_events := []
  ansnIncrements := 0

/-- `OLSR_NEIGHB_HOLD_TIME`. -/
def neighbHoldTime (n : Node) : ℤ := 3 * n.m_helloInterval

def getMainAddress (n : Node) (ifaceAddr : Ipv4Address) : Ipv4Address :=
  n.m_state.getMainAddress ifaceAddr

/-- The information bases are changed. -/
def modifyState (n : Node) (f : OlsrState → OlsrState) : Node :=
  { n with m_state := f n.m_state }

/-- `Simulator::Schedule (DELAY (time), timer)`. -/
def schedule (n : Node) (time : ℤ) (timer : Timer) : Node :=
  { n with m_events := n.m_events ++
      [⟨if time < n.now then n.now + oneMicrosecond else time + oneMicrosecond, timer⟩] }

def incrementAnsn (n : Node) : Node :=
  { n with m_ansn := (n.m_ansn + 1) % 65536, ansnIncrements := n.ansnIncrements + 1 }

def mprComputation (n : Node) : Node :=
  n.modifyState fun s ↦ { s with
    m_mprSet := ((s.mprComputation n.m_mainAddress s.m_twoHopNeighborSet.length).elim ∅
      OlsrState.m_mprSet) }

def routingTableComputation (n : Node) : Node :=
  let p := (n.toRoutingProtocol.routingTableComputation n.now
    (n.m_state.m_topologySet.length + 1)).getD n.toRoutingProtocol
  { n with m_table := p.m_table, m_hnaRoutingTable := p.m_hnaRoutingTable }

/-! ## Neighbor tuples and links -/

def addNeighborTuple (n : Node) (tuple : NeighborTuple) : Node :=
  (n.modifyState fun s ↦ s.insertNeighborTuple tuple).incrementAnsn

def linkTupleAdded (n : Node) (tuple : LinkTuple) (willingness : ℕ) : Node :=
  n.addNeighborTuple ⟨n.getMainAddress tuple.neighborIfaceAddr,
    if tuple.symTime ≥ n.now then .STATUS_SYM else .STATUS_NOT_SYM, willingness⟩

/-- A link of the neighbor is symmetric. -/
def HasSymmetricLink (n : Node) (mainAddr : Ipv4Address) : Prop :=
  ∃ l ∈ n.m_state.m_linkSet, n.getMainAddress l.neighborIfaceAddr = mainAddr ∧ l.symTime ≥ n.now

instance (n : Node) (a : Ipv4Address) : Decidable (n.HasSymmetricLink a) :=
  inferInstanceAs (Decidable (∃ l ∈ n.m_state.m_linkSet, _))

/-- The status of a neighbor is set. -/
def setStatus (n : Node) (mainAddr : Ipv4Address) (status : Status) : Node :=
  n.modifyState fun s ↦ { s with
    m_neighborSet := updateFirst (fun t ↦ t.neighborMainAddr = mainAddr)
      (fun t ↦ { t with status := status }) s.m_neighborSet }

/-- The neighbor tuple of a link is added where there is none. -/
def withNeighborTuple (n : Node) (tuple : LinkTuple) (willingness : ℕ) : Node :=
  match n.m_state.findNeighborTuple (n.getMainAddress tuple.neighborIfaceAddr) with
  | none => n.linkTupleAdded tuple willingness
  | some _ => n

/-- The status of a neighbor is computed anew. -/
def updateStatus (n : Node) (mainAddr : Ipv4Address) : Node :=
  n.setStatus mainAddr (if n.HasSymmetricLink mainAddr then .STATUS_SYM else .STATUS_NOT_SYM)

def linkTupleUpdated (n : Node) (tuple : LinkTuple) (willingness : ℕ) : Node :=
  (n.withNeighborTuple tuple willingness).updateStatus (n.getMainAddress tuple.neighborIfaceAddr)

def removeLinkTuple (n : Node) (tuple : LinkTuple) : Node :=
  n.modifyState fun s ↦
    (s.eraseNeighborTuple (n.getMainAddress tuple.neighborIfaceAddr)).eraseLinkTuple tuple

def neighborLoss (n : Node) (tuple : LinkTuple) : Node :=
  let n := n.linkTupleUpdated tuple willDefault
  let mainAddr := n.getMainAddress tuple.neighborIfaceAddr
  let n := n.modifyState fun s ↦
    (s.eraseTwoHopNeighborTuples mainAddr).eraseMprSelectorTuples mainAddr
  n.mprComputation.routingTableComputation

/-! ## HELLO messages -/

/-- What the link messages of a HELLO say of the link to its sender, and whether they say something; `none`
for a fatal error. -/
def senseLink (n : Node) (vTime : ℤ) (receiverIface : Ipv4Address) :
    List LinkMessage → LinkTuple × Bool → Option (LinkTuple × Bool)
  | [], r => some r
  | m :: ms, (l, updated) =>
    if m.Invalid ∨ receiverIface ∉ m.neighborInterfaceAddresses then
      senseLink n vTime receiverIface ms (l, updated)
    else
      match m.linkType with
      | .OLSR_UNSPEC_LINK => none
      | .OLSR_LOST_LINK =>
        senseLink n vTime receiverIface ms ({ l with symTime := n.now - oneSecond }, true)
      | _ => senseLink n vTime receiverIface ms
          ({ l with symTime := n.now + vTime, time := n.now + vTime + n.neighbHoldTime }, true)

/-- The link tuple of a HELLO before its link messages are looked at. -/
def helloLinkTuple (n : Node) (vTime : ℤ) (receiverIface senderIface : Ipv4Address) : LinkTuple :=
  { (n.m_state.findLinkTuple senderIface).getD
      ⟨receiverIface, senderIface, n.now - oneSecond, n.now + vTime, n.now + vTime⟩ with
    asymTime := n.now + vTime }

/-- A link tuple is inserted, or takes the place of the first one with its address. -/
def putLinkTuple (n : Node) (created : Bool) (l : LinkTuple) : Node :=
  if created then n.modifyState fun s ↦ { s with m_linkSet := s.m_linkSet ++ [l] }
  else n.modifyState fun s ↦ { s with
    m_linkSet := updateFirst (fun l' ↦ l'.neighborIfaceAddr = l.neighborIfaceAddr) (fun _ ↦ l) s.m_linkSet }

def linkSensing (n : Node) (msg : MessageHeader) (hello : Hello)
    (receiverIface senderIface : Ipv4Address) : Option Node :=
  if msg.vTime ≤ 0 then none
  else
    let created := (n.m_state.findLinkTuple senderIface).isNone
    (n.senseLink msg.vTime receiverIface hello.linkMessages
        (n.helloLinkTuple msg.vTime receiverIface senderIface, !created)).map fun (l, updated) ↦
      let l := { l with time := max l.time l.asymTime }
      let n := n.putLinkTuple created l
      let n := if updated then n.linkTupleUpdated l hello.willingness else n
      if created then
        (n.linkTupleAdded l hello.willingness).schedule (min l.time l.symTime)
          (.linkTupleTimerExpire l.neighborIfaceAddr)
      else n

def populateNeighborSet (n : Node) (msg : MessageHeader) (hello : Hello) : Node :=
  n.modifyState fun s ↦ { s with
    m_neighborSet := updateFirst (fun t ↦ t.neighborMainAddr = msg.originatorAddress)
      (fun t ↦ { t with willingness := hello.willingness }) s.m_neighborSet }

/-- An address of a link message in `PopulateTwoHopNeighborSet`. -/
def populateTwoHopNeighbor (n : Node) (msg : MessageHeader) (neighborType : ℕ) (addr : Ipv4Address) :
    Node :=
  let nb2hopAddr := n.getMainAddress addr
  if neighborType = symNeigh ∨ neighborType = mprNeigh then
    if nb2hopAddr = n.m_mainAddress then n
    else
      match n.m_state.findTwoHopNeighborTuple msg.originatorAddress nb2hopAddr with
      | none =>
        (n.modifyState fun s ↦ { s with
          m_twoHopNeighborSet := s.m_twoHopNeighborSet ++ [⟨msg.originatorAddress, nb2hopAddr, n.now + msg.vTime⟩] }).schedule (n.now + msg.vTime)
            (.nb2hopTupleTimerExpire msg.originatorAddress nb2hopAddr)
      | some _ =>
        n.modifyState fun s ↦ { s with
          m_twoHopNeighborSet := updateFirst
            (fun t ↦ t.neighborMainAddr = msg.originatorAddress ∧ t.twoHopNeighborAddr = nb2hopAddr)
            (fun t ↦ { t with expirationTime := n.now + msg.vTime }) s.m_twoHopNeighborSet }
  else if neighborType = notNeigh then
    n.modifyState fun s ↦ s.eraseTwoHopNeighborTuplesOf msg.originatorAddress nb2hopAddr
  else n

def populateTwoHopNeighborSet (n : Node) (msg : MessageHeader) (hello : Hello) : Node :=
  n.m_state.m_linkSet.foldl (fun n l ↦
    if n.getMainAddress l.neighborIfaceAddr ≠ msg.originatorAddress ∨ l.symTime < n.now then n
    else hello.linkMessages.foldl (fun n m ↦
      m.neighborInterfaceAddresses.foldl
        (fun n a ↦ n.populateTwoHopNeighbor msg m.neighborType a) n) n) n

/-- An address of a link message in `PopulateMprSelectorSet`. -/
def populateMprSelector (n : Node) (msg : MessageHeader) (addr : Ipv4Address) : Node :=
  if n.getMainAddress addr = n.m_mainAddress then
    match n.m_state.findMprSelectorTuple msg.originatorAddress with
    | none =>
      (n.modifyState fun s ↦ { s with
        m_mprSelectorSet := s.m_mprSelectorSet ++ [⟨msg.originatorAddress, n.now + msg.vTime⟩] }).incrementAnsn.schedule (n.now + msg.vTime)
          (.mprSelTupleTimerExpire msg.originatorAddress)
    | some _ =>
      n.modifyState fun s ↦ { s with
        m_mprSelectorSet := updateFirst (fun t ↦ t.mainAddr = msg.originatorAddress)
          (fun t ↦ { t with expirationTime := n.now + msg.vTime }) s.m_mprSelectorSet }
  else n

/-- `PopulateMprSelectorSet`; here the link code is not masked. -/
def populateMprSelectorSet (n : Node) (msg : MessageHeader) (hello : Hello) : Node :=
  hello.linkMessages.foldl (fun n m ↦
    if m.linkCode / 4 = mprNeigh then
      m.neighborInterfaceAddresses.foldl (fun n a ↦ n.populateMprSelector msg a) n
    else n) n

def processHello (n : Node) (msg : MessageHeader) (hello : Hello)
    (receiverIface senderIface : Ipv4Address) : Option Node :=
  (n.linkSensing msg hello receiverIface senderIface).map fun n ↦
    (((n.populateNeighborSet msg hello).populateTwoHopNeighborSet msg hello).mprComputation).populateMprSelectorSet
      msg hello

/-! ## TC and MID messages -/

/-- An address of a TC message. -/
def processTcAddress (n : Node) (msg : MessageHeader) (ansn : ℕ) (addr : Ipv4Address) : Node :=
  match n.m_state.findTopologyTuple addr msg.originatorAddress with
  | some _ =>
    n.modifyState fun s ↦ { s with
      m_topologySet := updateFirst (fun t ↦ t.destAddr = addr ∧ t.lastAddr = msg.originatorAddress)
        (fun t ↦ { t with expirationTime := n.now + msg.vTime }) s.m_topologySet }
  | none =>
    (n.modifyState fun s ↦ { s with
      m_topologySet := s.m_topologySet ++ [⟨addr, msg.originatorAddress, ansn, n.now + msg.vTime⟩] }).schedule (n.now + msg.vTime)
        (.topologyTupleTimerExpire addr msg.originatorAddress)

def processTc (n : Node) (msg : MessageHeader) (tc : Tc) (senderIface : Ipv4Address) : Node :=
  if (n.m_state.findSymLinkTuple senderIface n.now).isNone then n
  else if (n.m_state.findNewerTopologyTuple msg.originatorAddress tc.ansn).isSome then n
  else tc.neighborAddresses.foldl (fun n a ↦ n.processTcAddress msg tc.ansn a)
    (n.modifyState fun s ↦ s.eraseOlderTopologyTuples msg.originatorAddress tc.ansn)

/-- An interface address of a MID message. -/
def processMidAddress (n : Node) (msg : MessageHeader) (addr : Ipv4Address) : Node :=
  if ∃ t ∈ n.m_state.m_ifaceAssocSet, t.ifaceAddr = addr ∧ t.mainAddr = msg.originatorAddress then
    n.modifyState fun s ↦ { s with
      m_ifaceAssocSet := s.m_ifaceAssocSet.map fun t ↦
        if t.ifaceAddr = addr ∧ t.mainAddr = msg.originatorAddress then
          { t with time := n.now + msg.vTime }
        else t }
  else
    (n.modifyState fun s ↦ { s with
      m_ifaceAssocSet := s.m_ifaceAssocSet ++ [⟨addr, msg.originatorAddress, n.now + msg.vTime⟩] }).schedule (n.now + msg.vTime)
        (.ifaceAssocTupleTimerExpire addr)

/-- The neighbor and two-hop tuples get main addresses. -/
def renameTuples (n : Node) : Node :=
  n.modifyState fun s ↦ { s with
    m_neighborSet := s.m_neighborSet.map fun t ↦
      { t with neighborMainAddr := s.getMainAddress t.neighborMainAddr }
    m_twoHopNeighborSet := s.m_twoHopNeighborSet.map fun t ↦ { t with
      neighborMainAddr := s.getMainAddress t.neighborMainAddr
      twoHopNeighborAddr := s.getMainAddress t.twoHopNeighborAddr } }

def processMid (n : Node) (msg : MessageHeader) (interfaceAddresses : List Ipv4Address)
    (senderIface : Ipv4Address) : Node :=
  if (n.m_state.findSymLinkTuple senderIface n.now).isNone then n
  else (interfaceAddresses.foldl (fun n a ↦ n.processMidAddress msg a) n).renameTuples

/-! ## Events -/

def linkTupleTimerExpire (n : Node) (neighborIfaceAddr : Ipv4Address) : Node :=
  match n.m_state.findLinkTuple neighborIfaceAddr with
  | none => n
  | some tuple =>
    if tuple.time < n.now then n.removeLinkTuple tuple
    else if tuple.symTime < n.now then
      (if n.m_linkTupleTimerFirstTime then { n with m_linkTupleTimerFirstTime := false }
        else n.neighborLoss tuple).schedule tuple.time (.linkTupleTimerExpire neighborIfaceAddr)
    else n.schedule (min tuple.time tuple.symTime) (.linkTupleTimerExpire neighborIfaceAddr)

def nb2hopTupleTimerExpire (n : Node) (neighborMainAddr twoHopNeighborAddr : Ipv4Address) : Node :=
  match n.m_state.findTwoHopNeighborTuple neighborMainAddr twoHopNeighborAddr with
  | none => n
  | some tuple =>
    if tuple.expirationTime < n.now then n.modifyState fun s ↦ s.eraseTwoHopNeighborTuple tuple
    else n.schedule tuple.expirationTime
      (.nb2hopTupleTimerExpire neighborMainAddr twoHopNeighborAddr)

/-- `MprSelTupleTimerExpire`, which ends in `RemoveMprSelectorTuple`. -/
def mprSelTupleTimerExpire (n : Node) (mainAddr : Ipv4Address) : Node :=
  match n.m_state.findMprSelectorTuple mainAddr with
  | none => n
  | some tuple =>
    if tuple.expirationTime < n.now then
      (n.modifyState fun s ↦ s.eraseMprSelectorTuple tuple).incrementAnsn
    else n.schedule tuple.expirationTime (.mprSelTupleTimerExpire mainAddr)

def topologyTupleTimerExpire (n : Node) (destAddr lastAddr : Ipv4Address) : Node :=
  match n.m_state.findTopologyTuple destAddr lastAddr with
  | none => n
  | some tuple =>
    if tuple.expirationTime < n.now then n.modifyState fun s ↦ s.eraseTopologyTuple tuple
    else n.schedule tuple.expirationTime (.topologyTupleTimerExpire tuple.destAddr tuple.lastAddr)

def ifaceAssocTupleTimerExpire (n : Node) (ifaceAddr : Ipv4Address) : Node :=
  match n.m_state.findIfaceAssocTuple ifaceAddr with
  | none => n
  | some tuple =>
    if tuple.time < n.now then n.modifyState fun s ↦ s.eraseIfaceAssocTuple tuple
    else n.schedule tuple.time (.ifaceAssocTupleTimerExpire ifaceAddr)

/-- The function of an event is called. -/
def expire (n : Node) : Timer → Node
  | .linkTupleTimerExpire a => n.linkTupleTimerExpire a
  | .nb2hopTupleTimerExpire a b => n.nb2hopTupleTimerExpire a b
  | .mprSelTupleTimerExpire a => n.mprSelTupleTimerExpire a
  | .topologyTupleTimerExpire a b => n.topologyTupleTimerExpire a b
  | .ifaceAssocTupleTimerExpire a => n.ifaceAssocTupleTimerExpire a

/-- `SendTc`: the message that is queued. -/
def sendTc (n : Node) : Tc where
  neighborAddresses := n.m_state.m_mprSelectorSet.map MprSelectorTuple.mainAddr
  ansn := n.m_ansn

/-! ## Runs -/

inductive Op
  | hello (msg : MessageHeader) (hello : Hello) (receiverIface senderIface : Ipv4Address)
  | tc (msg : MessageHeader) (tc : Tc) (senderIface : Ipv4Address)
  | mid (msg : MessageHeader) (interfaceAddresses : List Ipv4Address) (senderIface : Ipv4Address)
  | expire (e : Event)
  | wait (d : ℕ)
  deriving DecidableEq

/-- A message that is not the node's own is processed, as in `RecvOlsr`. -/
def recv (n : Node) (msg : MessageHeader) (process : Node → Option Node) : Option Node :=
  if msg.originatorAddress = n.m_mainAddress then some n
  else (process n).map routingTableComputation

/-- A step of a node. -/
def step (n : Node) : Op → Option Node
  | .hello msg hello receiverIface senderIface =>
    n.recv msg fun n ↦ n.processHello msg hello receiverIface senderIface
  | .tc msg tc senderIface => n.recv msg fun n ↦ some (n.processTc msg tc senderIface)
  | .mid msg interfaceAddresses senderIface =>
    n.recv msg fun n ↦ some (n.processMid msg interfaceAddresses senderIface)
  | .expire e =>
    if e ∈ n.m_events ∧ e.time ≤ n.now then
      some (expire { n with m_events := n.m_events.erase e } e.timer)
    else none
  | .wait d => if ∀ e ∈ n.m_events, n.now + d ≤ e.time then some { n with now := n.now + d } else none

/-- The runs of a node. -/
def machine (mainAddress : Ipv4Address) (ipv4 : List (List Ipv4Address)) (helloInterval : ℤ) :
    Machine Node Op :=
  ⟨create mainAddress ipv4 helloInterval, step⟩

/-! ## What is left alone -/

@[simp] theorem modifyState_m_state (n : Node) (f : OlsrState → OlsrState) :
    (n.modifyState f).m_state = f n.m_state := rfl

@[simp] theorem modifyState_now (n : Node) (f : OlsrState → OlsrState) :
    (n.modifyState f).now = n.now := rfl

@[simp] theorem schedule_m_state (n : Node) (time : ℤ) (timer : Timer) :
    (n.schedule time timer).m_state = n.m_state := rfl

@[simp] theorem schedule_now (n : Node) (time : ℤ) (timer : Timer) :
    (n.schedule time timer).now = n.now := rfl

@[simp] theorem incrementAnsn_m_state (n : Node) : n.incrementAnsn.m_state = n.m_state := rfl

@[simp] theorem incrementAnsn_now (n : Node) : n.incrementAnsn.now = n.now := rfl

@[simp] theorem routingTableComputation_m_state (n : Node) :
    n.routingTableComputation.m_state = n.m_state := rfl

/-- Only the neighbor set is changed. -/
def OnlyNeighbors (s s' : OlsrState) : Prop := s' = { s with m_neighborSet := s'.m_neighborSet }

theorem OnlyNeighbors.refl (s : OlsrState) : OnlyNeighbors s s := rfl

theorem OnlyNeighbors.trans {s s' s'' : OlsrState} (h : OnlyNeighbors s s')
    (h' : OnlyNeighbors s' s'') : OnlyNeighbors s s'' := by
  unfold OnlyNeighbors at *
  rw [h', h]

theorem OnlyNeighbors.getMainAddress {s s' : OlsrState} (h : OnlyNeighbors s s') (a : Ipv4Address) :
    s'.getMainAddress a = s.getMainAddress a := by
  rw [h]
  rfl

theorem OnlyNeighbors.m_linkSet {s s' : OlsrState} (h : OnlyNeighbors s s') :
    s'.m_linkSet = s.m_linkSet := by
  rw [h]

theorem OnlyNeighbors.m_twoHopNeighborSet {s s' : OlsrState} (h : OnlyNeighbors s s') :
    s'.m_twoHopNeighborSet = s.m_twoHopNeighborSet := by
  rw [h]

theorem OnlyNeighbors.m_mprSelectorSet {s s' : OlsrState} (h : OnlyNeighbors s s') :
    s'.m_mprSelectorSet = s.m_mprSelectorSet := by
  rw [h]

theorem OnlyNeighbors.m_topologySet {s s' : OlsrState} (h : OnlyNeighbors s s') :
    s'.m_topologySet = s.m_topologySet := by
  rw [h]

theorem insertNeighborTuple_onlyNeighbors (s : OlsrState) (tuple : NeighborTuple) :
    OnlyNeighbors s (s.insertNeighborTuple tuple) := by
  unfold OlsrState.insertNeighborTuple
  split_ifs <;> rfl

theorem withNeighborTuple_onlyNeighbors (n : Node) (tuple : LinkTuple) (willingness : ℕ) :
    OnlyNeighbors n.m_state (n.withNeighborTuple tuple willingness).m_state := by
  unfold withNeighborTuple
  split
  · exact insertNeighborTuple_onlyNeighbors _ _
  · exact .refl _

/-- **An update of a link only changes the neighbor set.** -/
theorem linkTupleUpdated_onlyNeighbors (n : Node) (tuple : LinkTuple) (willingness : ℕ) :
    OnlyNeighbors n.m_state (n.linkTupleUpdated tuple willingness).m_state :=
  (n.withNeighborTuple_onlyNeighbors tuple willingness).trans rfl

end Node

end Olsr

end Ns3
