import Mathlib
import Ns3.Library.Machine
import Ns3.Network.Ipv4Address

/-!
# Demultiplexing of IPv4

`Allocate` refuses an endpoint when there is one with the same local address and port, and with the
same device or none. `Lookup` sorts the endpoints that take a packet into four classes and gives up if
the most specific one that is not empty has more than one. Two gaps lie between the two. An endpoint
without a device may be allocated beside one that is bound to a device, and then both take what that
device receives. And a packet may match two different local addresses by wildcard.
-/

namespace Ns3

/-- An `Ipv4EndPoint`. -/
structure Ipv4EndPoint where
  /-- The pointer. -/
  id : ℕ
  m_localAddr : Ipv4Address
  m_localPort : UInt16
  m_peerAddr : Ipv4Address
  m_peerPort : UInt16
  m_boundnetdevice : Option ℕ
  m_rxEnabled : Bool
  deriving DecidableEq, Repr

/-- An `Ipv4InterfaceAddress`. -/
structure Ipv4InterfaceAddress where
  m_local : Ipv4Address
  m_mask : Ipv4Mask
  deriving DecidableEq, Repr

/-- An `Ipv4Interface`. -/
structure Ipv4Interface where
  m_device : ℕ
  m_ifaddrs : List Ipv4InterfaceAddress
  deriving DecidableEq, Repr

/-- An `Ipv4EndPointDemux`. -/
structure Ipv4EndPointDemux where
  m_ephemeral : UInt16
  m_portLast : UInt16
  m_portFirst : UInt16
  m_endPoints : List Ipv4EndPoint
  nextId : ℕ
  deriving DecidableEq, Repr

namespace Ipv4EndPointDemux

/-- `Ipv4Address::GetAny`. -/
def any : Ipv4Address := 0

/-! ## Allocation -/

def lookupPortLocal (s : Ipv4EndPointDemux) (port : UInt16) : Bool :=
  s.m_endPoints.any fun i ↦ i.m_localPort = port

def lookupLocal (s : Ipv4EndPointDemux) (boundNetDevice : Option ℕ) (addr : Ipv4Address)
    (port : UInt16) : Bool :=
  s.m_endPoints.any fun i ↦
    i.m_localPort = port && i.m_localAddr = addr && i.m_boundnetdevice = boundNetDevice

/-- The loop of `AllocateEphemeralPort`, with the turns that are left. -/
def ephemeralLoop (s : Ipv4EndPointDemux) : ℕ → UInt16 → UInt16
  | 0, _ => 0
  | count + 1, port =>
    let port := port + 1
    let port := if port < s.m_portFirst ∨ s.m_portLast < port then s.m_portFirst else port
    if s.lookupPortLocal port then s.ephemeralLoop count port else port

/-- `AllocateEphemeralPort`; 0 if there is none left. -/
def allocateEphemeralPort (s : Ipv4EndPointDemux) : Ipv4EndPointDemux × UInt16 :=
  let port := s.ephemeralLoop (s.m_portLast.toNat + 1 - s.m_portFirst.toNat) s.m_ephemeral
  (if port = 0 then s else { s with m_ephemeral := port }, port)

/-- `push_back` of a new endpoint, which is bound to the device afterwards. -/
def pushBack (s : Ipv4EndPointDemux) (boundNetDevice : Option ℕ) (localAddress : Ipv4Address)
    (localPort : UInt16) (peerAddress : Ipv4Address) (peerPort : UInt16) : Ipv4EndPointDemux :=
  { s with
    m_endPoints := s.m_endPoints ++
      [⟨s.nextId, localAddress, localPort, peerAddress, peerPort, boundNetDevice, true⟩]
    nextId := s.nextId + 1 }

/-- `Allocate (address)`. -/
def allocateAddress (s : Ipv4EndPointDemux) (address : Ipv4Address) : Ipv4EndPointDemux :=
  let (s, port) := s.allocateEphemeralPort
  if port = 0 then s else s.pushBack none address port any 0

/-- `Allocate ()`. -/
def allocate (s : Ipv4EndPointDemux) : Ipv4EndPointDemux := s.allocateAddress any

/-- `Allocate (boundNetDevice, address, port)`. -/
def allocateAddressPort (s : Ipv4EndPointDemux) (boundNetDevice : Option ℕ) (address : Ipv4Address)
    (port : UInt16) : Ipv4EndPointDemux :=
  if s.lookupLocal boundNetDevice address port || s.lookupLocal none address port then s
  else s.pushBack boundNetDevice address port any 0

/-- `Allocate (boundNetDevice, port)`. -/
def allocatePort (s : Ipv4EndPointDemux) (boundNetDevice : Option ℕ) (port : UInt16) :
    Ipv4EndPointDemux :=
  s.allocateAddressPort boundNetDevice any port

/-- The test for a duplicate in `allocatePeer`. -/
def lookupPeer (s : Ipv4EndPointDemux) (boundNetDevice : Option ℕ) (localAddress : Ipv4Address)
    (localPort : UInt16) (peerAddress : Ipv4Address) (peerPort : UInt16) : Bool :=
  s.m_endPoints.any fun i ↦
    i.m_localPort = localPort && i.m_localAddr = localAddress && i.m_peerPort = peerPort &&
      i.m_peerAddr = peerAddress &&
        (i.m_boundnetdevice = boundNetDevice || i.m_boundnetdevice = none)

/-- `Allocate (boundNetDevice, localAddress, localPort, peerAddress, peerPort)`. -/
def allocatePeer (s : Ipv4EndPointDemux) (boundNetDevice : Option ℕ) (localAddress : Ipv4Address)
    (localPort : UInt16) (peerAddress : Ipv4Address) (peerPort : UInt16) : Ipv4EndPointDemux :=
  if s.lookupPeer boundNetDevice localAddress localPort peerAddress peerPort then s
  else s.pushBack boundNetDevice localAddress localPort peerAddress peerPort

def deAllocate (s : Ipv4EndPointDemux) (endPoint : ℕ) : Ipv4EndPointDemux :=
  { s with m_endPoints := s.m_endPoints.eraseP fun i ↦ i.id = endPoint }

/-- `SetRxEnabled` of an endpoint. -/
def setRxEnabled (s : Ipv4EndPointDemux) (endPoint : ℕ) (enabled : Bool) : Ipv4EndPointDemux :=
  { s with
    m_endPoints := s.m_endPoints.map fun i ↦
      if i.id = endPoint then { i with m_rxEnabled := enabled } else i }

/-! ## Lookup -/

/-- The addresses and ports of a packet, and the interface it comes from. -/
structure Query where
  daddr : Ipv4Address
  dport : UInt16
  saddr : Ipv4Address
  sport : UInt16
  incomingInterface : Ipv4Interface
  deriving DecidableEq, Repr

/-- The first tests of the loop of `Lookup`. -/
def listens (q : Query) (endP : Ipv4EndPoint) : Bool :=
  endP.m_rxEnabled && endP.m_localPort = q.dport &&
    (endP.m_boundnetdevice = none || endP.m_boundnetdevice = some q.incomingInterface.m_device)

def localAddressMatchesExact (q : Query) (endP : Ipv4EndPoint) : Bool := endP.m_localAddr = q.daddr

def localAddressIsAny (q : Query) (endP : Ipv4EndPoint) : Bool :=
  !localAddressMatchesExact q endP && endP.m_localAddr = any

def localAddressIsSubnetAny (q : Query) (endP : Ipv4EndPoint) : Bool :=
  !localAddressMatchesExact q endP && !localAddressIsAny q endP &&
    q.incomingInterface.m_ifaddrs.any fun addr ↦
      endP.m_localAddr = addr.m_local &&& addr.m_mask &&
        addr.m_local &&& addr.m_mask = q.daddr &&& addr.m_mask

def localAddressMatchesWildCard (q : Query) (endP : Ipv4EndPoint) : Bool :=
  localAddressIsAny q endP || localAddressIsSubnetAny q endP

/-- `remotePortMatchesExact` and `remoteAddressMatchesExact`. -/
def remoteMatchesExact (q : Query) (endP : Ipv4EndPoint) : Bool :=
  endP.m_peerAddr = q.saddr && endP.m_peerPort = q.sport

/-- `remotePortMatchesWildCard` and `remoteAddressMatchesWildCard`. -/
def remoteMatchesWildCard (endP : Ipv4EndPoint) : Bool :=
  endP.m_peerAddr = any && endP.m_peerPort = 0

/-- Whether the loop puts the endpoint into `retval4`, …, `retval1`. -/
def inRetval (q : Query) (endP : Ipv4EndPoint) : ℕ → Bool
  | 4 => listens q endP && localAddressMatchesExact q endP && remoteMatchesExact q endP
  | 3 => listens q endP && localAddressMatchesWildCard q endP && remoteMatchesExact q endP
  | 2 => listens q endP && localAddressMatchesExact q endP && remoteMatchesWildCard endP
  | 1 => listens q endP && localAddressMatchesWildCard q endP && remoteMatchesWildCard endP
  | _ => false

/-- `retval1`, …, `retval4`. -/
def retval (s : Ipv4EndPointDemux) (q : Query) (c : ℕ) : List Ipv4EndPoint :=
  s.m_endPoints.filter fun endP ↦ inRetval q endP c

/-- `Lookup`; `none` if it aborts. -/
def lookup (s : Ipv4EndPointDemux) (q : Query) : Option (List Ipv4EndPoint) :=
  let retval :=
    if s.retval q 4 ≠ [] then s.retval q 4
    else if s.retval q 3 ≠ [] then s.retval q 3
    else if s.retval q 2 ≠ [] then s.retval q 2
    else s.retval q 1
  if 1 < retval.length then none else some retval

/-! ## The machine -/

/-- The calls that change the endpoints. -/
inductive Op
  | allocate
  | allocateAddress (address : Ipv4Address)
  | allocatePort (boundNetDevice : Option ℕ) (port : UInt16)
  | allocateAddressPort (boundNetDevice : Option ℕ) (address : Ipv4Address) (port : UInt16)
  | allocatePeer (boundNetDevice : Option ℕ) (localAddress : Ipv4Address) (localPort : UInt16)
      (peerAddress : Ipv4Address) (peerPort : UInt16)
  | deAllocate (endPoint : ℕ)
  | setRxEnabled (endPoint : ℕ) (enabled : Bool)
  deriving DecidableEq, Repr

/-- The step of a call. -/
def next (s : Ipv4EndPointDemux) : Op → Ipv4EndPointDemux
  | .allocate => s.allocate
  | .allocateAddress address => s.allocateAddress address
  | .allocatePort boundNetDevice port => s.allocatePort boundNetDevice port
  | .allocateAddressPort boundNetDevice address port =>
    s.allocateAddressPort boundNetDevice address port
  | .allocatePeer boundNetDevice localAddress localPort peerAddress peerPort =>
    s.allocatePeer boundNetDevice localAddress localPort peerAddress peerPort
  | .deAllocate endPoint => s.deAllocate endPoint
  | .setRxEnabled endPoint enabled => s.setRxEnabled endPoint enabled

/-- A demux as it is constructed. -/
def machine : Machine Ipv4EndPointDemux Op where
  init := ⟨49152, 65535, 49152, [], 0⟩
  next s op := some (s.next op)

variable {s s' : Ipv4EndPointDemux} {q : Query} {e e' : Ipv4EndPoint}

/-! ## Endpoints with the same addresses and ports -/

/-- The same local address and port, and the same peer. -/
def SameEnds (e e' : Ipv4EndPoint) : Prop :=
  e.m_localAddr = e'.m_localAddr ∧ e.m_localPort = e'.m_localPort ∧ e.m_peerAddr = e'.m_peerAddr ∧
    e.m_peerPort = e'.m_peerPort

/-- No device gives its packets to both endpoints. -/
def OtherDevice (e e' : Ipv4EndPoint) : Prop :=
  e.m_boundnetdevice ≠ none ∧ e'.m_boundnetdevice ≠ none ∧
    e.m_boundnetdevice ≠ e'.m_boundnetdevice

/-- Two endpoints with the same ends are bound to different devices. -/
def Apart (e e' : Ipv4EndPoint) : Prop := SameEnds e e' → OtherDevice e e'

/-- An endpoint that is not bound to a device is not allocated beside one with the same ends that
is. -/
def AllocatesApart (s : Ipv4EndPointDemux) : Op → Prop
  | .allocatePort boundNetDevice port => boundNetDevice = none →
    ∀ e ∈ s.m_endPoints, e.m_boundnetdevice ≠ none →
      ¬ (e.m_localAddr = any ∧ e.m_localPort = port ∧ e.m_peerAddr = any ∧ e.m_peerPort = 0)
  | .allocateAddressPort boundNetDevice address port => boundNetDevice = none →
    ∀ e ∈ s.m_endPoints, e.m_boundnetdevice ≠ none →
      ¬ (e.m_localAddr = address ∧ e.m_localPort = port ∧ e.m_peerAddr = any ∧ e.m_peerPort = 0)
  | .allocatePeer boundNetDevice localAddress localPort peerAddress peerPort =>
    boundNetDevice = none → ∀ e ∈ s.m_endPoints, e.m_boundnetdevice ≠ none →
      ¬ (e.m_localAddr = localAddress ∧ e.m_localPort = localPort ∧ e.m_peerAddr = peerAddress ∧
        e.m_peerPort = peerPort)
  | _ => True

instance : DecidableRel SameEnds := fun _ _ ↦ inferInstanceAs (Decidable (_ ∧ _))

instance (s : Ipv4EndPointDemux) : ∀ op, Decidable (AllocatesApart s op)
  | .allocatePort _ _ => inferInstanceAs (Decidable (_ → _))
  | .allocateAddressPort _ _ _ => inferInstanceAs (Decidable (_ → _))
  | .allocatePeer _ _ _ _ _ => inferInstanceAs (Decidable (_ → _))
  | .allocate => .isTrue trivial
  | .allocateAddress _ => .isTrue trivial
  | .deAllocate _ => .isTrue trivial
  | .setRxEnabled _ _ => .isTrue trivial

/-! ## The endpoints of a run -/

theorem pushBack_pairwise (h : s.m_endPoints.Pairwise Apart) {boundNetDevice : Option ℕ}
    {localAddress peerAddress : Ipv4Address} {localPort peerPort : UInt16}
    (hnew : ∀ e ∈ s.m_endPoints, e.m_localAddr = localAddress → e.m_localPort = localPort →
      e.m_peerAddr = peerAddress → e.m_peerPort = peerPort →
        e.m_boundnetdevice ≠ none ∧ boundNetDevice ≠ none ∧ e.m_boundnetdevice ≠ boundNetDevice) :
    (s.pushBack boundNetDevice localAddress localPort peerAddress peerPort).m_endPoints.Pairwise
      Apart := by
  refine List.pairwise_append.mpr ⟨h, List.pairwise_singleton _ _, ?_⟩
  intro e he e' he'
  rw [List.mem_singleton.mp he']
  rintro ⟨haddr, hport, hpeer, hpeerPort⟩
  exact hnew e he haddr hport hpeer hpeerPort

theorem ephemeralLoop_spec (s : Ipv4EndPointDemux) (count : ℕ) (port : UInt16) :
    s.ephemeralLoop count port = 0 ∨ s.lookupPortLocal (s.ephemeralLoop count port) = false := by
  induction count generalizing port with
  | zero => exact .inl rfl
  | succ count ih =>
    rw [ephemeralLoop]
    generalize (if port + 1 < s.m_portFirst ∨ s.m_portLast < port + 1 then s.m_portFirst
      else port + 1) = next
    cases hused : s.lookupPortLocal next with
    | true => exact ih next
    | false => exact .inr hused

theorem allocateAddress_pairwise (h : s.m_endPoints.Pairwise Apart) (address : Ipv4Address) :
    (s.allocateAddress address).m_endPoints.Pairwise Apart := by
  rw [allocateAddress, allocateEphemeralPort]
  dsimp only
  have hspec := ephemeralLoop_spec s (s.m_portLast.toNat + 1 - s.m_portFirst.toNat) s.m_ephemeral
  generalize s.ephemeralLoop (s.m_portLast.toNat + 1 - s.m_portFirst.toNat) s.m_ephemeral = port
    at hspec
  by_cases hzero : port = 0
  · rw [if_pos hzero, if_pos hzero]
    exact h
  · rw [if_neg hzero, if_neg hzero]
    refine pushBack_pairwise h ?_
    intro e he _ hport
    have hfree := hspec.resolve_left hzero
    rw [lookupPortLocal, List.any_eq_false] at hfree
    exact absurd (decide_eq_true hport) (hfree e he)

theorem allocateAddressPort_pairwise (h : s.m_endPoints.Pairwise Apart)
    {boundNetDevice : Option ℕ} {address : Ipv4Address} {port : UInt16}
    (hok : AllocatesApart s (.allocateAddressPort boundNetDevice address port)) :
    (s.allocateAddressPort boundNetDevice address port).m_endPoints.Pairwise Apart := by
  rw [allocateAddressPort]
  split_ifs with hlookup
  · exact h
  · rw [Bool.or_eq_true, not_or, Bool.not_eq_true, Bool.not_eq_true] at hlookup
    obtain ⟨hdevice, hnone⟩ := hlookup
    refine pushBack_pairwise h ?_
    intro e he haddr hport hpeer hpeerPort
    rw [lookupLocal, List.any_eq_false] at hdevice hnone
    have hne : e.m_boundnetdevice ≠ boundNetDevice := by
      rintro rfl
      exact hdevice e he (by simp [haddr, hport])
    have hbound : e.m_boundnetdevice ≠ none := by
      intro hnull
      exact hnone e he (by simp [haddr, hport, hnull])
    exact ⟨hbound, fun hnull ↦ hok hnull e he hbound ⟨haddr, hport, hpeer, hpeerPort⟩, hne⟩

theorem allocatePeer_pairwise (h : s.m_endPoints.Pairwise Apart) {boundNetDevice : Option ℕ}
    {localAddress peerAddress : Ipv4Address} {localPort peerPort : UInt16}
    (hok : AllocatesApart s
      (.allocatePeer boundNetDevice localAddress localPort peerAddress peerPort)) :
    (s.allocatePeer boundNetDevice localAddress localPort peerAddress
      peerPort).m_endPoints.Pairwise Apart := by
  rw [allocatePeer]
  split_ifs with hlookup
  · exact h
  · rw [Bool.not_eq_true, lookupPeer, List.any_eq_false] at hlookup
    refine pushBack_pairwise h ?_
    intro e he haddr hport hpeer hpeerPort
    have hne : e.m_boundnetdevice ≠ boundNetDevice := by
      rintro rfl
      exact hlookup e he (by simp [haddr, hport, hpeer, hpeerPort])
    have hbound : e.m_boundnetdevice ≠ none := by
      intro hnull
      exact hlookup e he (by simp [haddr, hport, hpeer, hpeerPort, hnull])
    exact ⟨hbound, fun hnull ↦ hok hnull e he hbound ⟨haddr, hport, hpeer, hpeerPort⟩, hne⟩

theorem setRxEnabled_pairwise (h : s.m_endPoints.Pairwise Apart) (endPoint : ℕ) (enabled : Bool) :
    (s.setRxEnabled endPoint enabled).m_endPoints.Pairwise Apart := by
  rw [setRxEnabled, List.pairwise_map]
  refine h.imp ?_
  intro e e' hapart
  split_ifs <;> exact hapart

/-- **Endpoints are kept apart.** -/
theorem pairwise_of_run {as : List Op} (hr : machine.Run AllocatesApart as s) :
    s.m_endPoints.Pairwise Apart := by
  refine hr.invariant (I := fun s ↦ s.m_endPoints.Pairwise Apart) List.Pairwise.nil ?_
  intro s op s' h hok hs
  obtain rfl := Option.some.inj hs
  cases op with
  | allocate => exact allocateAddress_pairwise h any
  | allocateAddress address => exact allocateAddress_pairwise h address
  | allocatePort boundNetDevice port => exact allocateAddressPort_pairwise h hok
  | allocateAddressPort boundNetDevice address port => exact allocateAddressPort_pairwise h hok
  | allocatePeer boundNetDevice localAddress localPort peerAddress peerPort =>
    exact allocatePeer_pairwise h hok
  | deAllocate endPoint => exact h.sublist List.eraseP_sublist
  | setRxEnabled endPoint enabled => exact setRxEnabled_pairwise h endPoint enabled

/-! ## What a lookup finds -/

/-- No endpoint is in a more specific class than `c`. -/
def MostSpecific (s : Ipv4EndPointDemux) (q : Query) (c : ℕ) : Prop :=
  ∀ e ∈ s.m_endPoints, ∀ c', inRetval q e c' = true → c' ≤ c

/-- The result of `Lookup` is as it should be: at most one endpoint, in the most specific class that is
not empty, and none only if all classes are empty. -/
def Unambiguous (s : Ipv4EndPointDemux) (q : Query) : Prop :=
  ∃ retval, s.lookup q = some retval ∧ retval.length ≤ 1 ∧
    (∀ e ∈ retval, e ∈ s.m_endPoints ∧ ∃ c, inRetval q e c = true ∧ MostSpecific s q c) ∧
    (retval = [] → ∀ e ∈ s.m_endPoints, ∀ c, inRetval q e c = false)

/-- All endpoints of the most specific class have one local address. -/
def OneLocalAddress (s : Ipv4EndPointDemux) (q : Query) : Prop :=
  ∀ c, MostSpecific s q c → ∀ e ∈ s.m_endPoints, ∀ e' ∈ s.m_endPoints,
    inRetval q e c = true → inRetval q e' c = true → e.m_localAddr = e'.m_localAddr

theorem mem_retval {c : ℕ} : e ∈ s.retval q c ↔ e ∈ s.m_endPoints ∧ inRetval q e c = true :=
  List.mem_filter

theorem inRetval_range {c : ℕ} (h : inRetval q e c = true) : 1 ≤ c ∧ c ≤ 4 := by
  by_contra hrange
  have hfalse : inRetval q e c = false := by
    rw [inRetval]
    all_goals
      rintro rfl
      exact hrange (by decide)
  exact Bool.false_ne_true (hfalse.symm.trans h)

theorem mostSpecific_of_empty {c : ℕ} (h : ∀ c', c < c' → c' ≤ 4 → s.retval q c' = []) :
    MostSpecific s q c := by
  intro e he c' hc'
  by_contra hlt
  have hmem : e ∈ s.retval q c' := mem_retval.mpr ⟨he, hc'⟩
  rw [h c' (not_le.mp hlt) (inRetval_range hc').2] at hmem
  exact List.not_mem_nil hmem

/-- `Lookup` takes the most specific class that is not empty, or the last one. -/
theorem lookup_eq (s : Ipv4EndPointDemux) (q : Query) :
    ∃ c, MostSpecific s q c ∧ (s.retval q c = [] → c = 1) ∧
      s.lookup q = if 1 < (s.retval q c).length then none else some (s.retval q c) := by
  rw [lookup]
  by_cases h4 : s.retval q 4 = []
  · rw [if_neg (not_not.mpr h4)]
    by_cases h3 : s.retval q 3 = []
    · rw [if_neg (not_not.mpr h3)]
      by_cases h2 : s.retval q 2 = []
      · rw [if_neg (not_not.mpr h2)]
        refine ⟨1, mostSpecific_of_empty ?_, fun _ ↦ rfl, rfl⟩
        intro c hlt hle
        interval_cases c <;> assumption
      · rw [if_pos h2]
        refine ⟨2, mostSpecific_of_empty ?_, fun hnil ↦ absurd hnil h2, rfl⟩
        intro c hlt hle
        interval_cases c <;> assumption
    · rw [if_pos h3]
      refine ⟨3, mostSpecific_of_empty ?_, fun hnil ↦ absurd hnil h3, rfl⟩
      intro c hlt hle
      interval_cases c
      assumption
  · rw [if_pos h4]
    refine ⟨4, mostSpecific_of_empty ?_, fun hnil ↦ absurd hnil h4, rfl⟩
    intro c hlt hle
    exact absurd hlt hle.not_gt

theorem inRetval_common {c : ℕ} (h : inRetval q e c = true) (h' : inRetval q e' c = true) :
    listens q e = true ∧ listens q e' = true ∧ e.m_peerAddr = e'.m_peerAddr ∧
      e.m_peerPort = e'.m_peerPort := by
  have hexact : ∀ {e}, remoteMatchesExact q e = true →
      e.m_peerAddr = q.saddr ∧ e.m_peerPort = q.sport := by
    intro e he
    simpa only [remoteMatchesExact, Bool.and_eq_true, decide_eq_true_iff] using he
  have hwild : ∀ {e}, remoteMatchesWildCard e = true → e.m_peerAddr = any ∧ e.m_peerPort = 0 := by
    intro e he
    simpa only [remoteMatchesWildCard, Bool.and_eq_true, decide_eq_true_iff] using he
  have hrange := inRetval_range h
  obtain ⟨hlow, hhigh⟩ := hrange
  interval_cases c
  all_goals
    rw [inRetval, Bool.and_eq_true, Bool.and_eq_true] at h h'
    refine ⟨h.1.1, h'.1.1, ?_⟩
  · rw [(hwild h.2).1, (hwild h.2).2, (hwild h'.2).1, (hwild h'.2).2]
    exact ⟨rfl, rfl⟩
  · rw [(hwild h.2).1, (hwild h.2).2, (hwild h'.2).1, (hwild h'.2).2]
    exact ⟨rfl, rfl⟩
  · rw [(hexact h.2).1, (hexact h.2).2, (hexact h'.2).1, (hexact h'.2).2]
    exact ⟨rfl, rfl⟩
  · rw [(hexact h.2).1, (hexact h.2).2, (hexact h'.2).1, (hexact h'.2).2]
    exact ⟨rfl, rfl⟩

theorem listens_iff : listens q e = true ↔ e.m_rxEnabled = true ∧ e.m_localPort = q.dport ∧
    (e.m_boundnetdevice = none ∨ e.m_boundnetdevice = some q.incomingInterface.m_device) := by
  simp only [listens, Bool.and_eq_true, Bool.or_eq_true, decide_eq_true_iff, and_assoc]

theorem Apart.not_sameEnds (h : Apart e e') (he : listens q e = true) (he' : listens q e' = true) :
    ¬ SameEnds e e' := by
  intro hsame
  obtain ⟨hbound, hbound', hne⟩ := h hsame
  rw [((listens_iff.mp he).2.2).resolve_left hbound,
    ((listens_iff.mp he').2.2).resolve_left hbound'] at hne
  exact hne rfl

theorem sameEnds_of_inRetval {c : ℕ} (h : inRetval q e c = true) (h' : inRetval q e' c = true)
    (haddr : e.m_localAddr = e'.m_localAddr) : SameEnds e e' := by
  obtain ⟨hl, hl', hpeer, hport⟩ := inRetval_common h h'
  exact ⟨haddr, (listens_iff.mp hl).2.1.trans (listens_iff.mp hl').2.1.symm, hpeer, hport⟩

theorem retval_length_le (h : s.m_endPoints.Pairwise Apart) {c : ℕ}
    (hone : ∀ e ∈ s.retval q c, ∀ e' ∈ s.retval q c, e.m_localAddr = e'.m_localAddr) :
    (s.retval q c).length ≤ 1 := by
  have hapart : (s.retval q c).Pairwise Apart := h.sublist List.filter_sublist
  cases hcons : s.retval q c with
  | nil => exact Nat.zero_le _
  | cons e rest =>
    cases rest with
    | nil => exact le_rfl
    | cons e' rest =>
      rw [hcons] at hapart hone
      have he : e ∈ s.retval q c := hcons ▸ List.mem_cons_self
      have he' : e' ∈ s.retval q c := hcons ▸ List.mem_cons_of_mem _ List.mem_cons_self
      have hin := (mem_retval.mp he).2
      have hin' := (mem_retval.mp he').2
      obtain ⟨hl, hl', -, -⟩ := inRetval_common hin hin'
      have haddr := hone e List.mem_cons_self e' (List.mem_cons_of_mem _ List.mem_cons_self)
      have hne := (List.pairwise_cons.mp hapart).1 e' List.mem_cons_self
      exact absurd (sameEnds_of_inRetval hin hin' haddr) (hne.not_sameEnds hl hl')

theorem unambiguous_iff (h : s.m_endPoints.Pairwise Apart) (q : Query) :
    Unambiguous s q ↔ OneLocalAddress s q := by
  obtain ⟨c, hspecific, hlast, hlookup⟩ := lookup_eq s q
  constructor
  · rintro ⟨retval, hretval, hlength, -⟩ c' hspecific' e he e' he' hin hin'
    rw [hlookup, Option.ite_none_left_eq_some, Option.some_inj] at hretval
    obtain ⟨-, rfl⟩ := hretval
    -- a class with an endpoint is the one that has been looked at
    have hc : c' = c := by
      refine le_antisymm (hspecific e he c' hin) ?_
      by_cases hnil : s.retval q c = []
      · rw [hlast hnil]
        exact (inRetval_range hin).1
      · obtain ⟨a, ha⟩ := List.exists_mem_of_ne_nil _ hnil
        exact hspecific' a (mem_retval.mp ha).1 c (mem_retval.mp ha).2
    subst hc
    have hmem : e ∈ s.retval q c' := mem_retval.mpr ⟨he, hin⟩
    have hmem' : e' ∈ s.retval q c' := mem_retval.mpr ⟨he', hin'⟩
    obtain ⟨a, ha⟩ := List.length_eq_one_iff.mp
      (le_antisymm hlength (List.length_pos_of_mem hmem))
    rw [ha] at hmem hmem'
    rw [List.mem_singleton.mp hmem, List.mem_singleton.mp hmem']
  · intro hone
    have hlength := retval_length_le h (c := c) fun e he e' he' ↦
      hone c hspecific e (mem_retval.mp he).1 e' (mem_retval.mp he').1 (mem_retval.mp he).2
        (mem_retval.mp he').2
    refine ⟨s.retval q c, ?_, hlength, ?_, ?_⟩
    · rw [hlookup, if_neg (not_lt.mpr hlength)]
    · intro e he
      exact ⟨(mem_retval.mp he).1, c, (mem_retval.mp he).2, hspecific⟩
    · intro hnil e he c'
      by_contra hin
      rw [Bool.not_eq_false] at hin
      have hle := hspecific e he c' hin
      rw [hlast hnil] at hle
      have hc : c' = c := (le_antisymm hle (inRetval_range hin).1).trans (hlast hnil).symm
      exact List.not_mem_nil (hnil ▸ mem_retval.mpr ⟨he, hc ▸ hin⟩)

/-- **Demultiplexing is unambiguous just when the classes have one local address.** In all runs in
which no endpoint without a device is allocated beside one with the same ends that is bound to a
device, `Lookup` finds at most one endpoint, and that in the most specific class, if and only if the
endpoints of this class have one local address. -/
theorem lookup_unambiguous_iff {as : List Op} (hr : machine.Run AllocatesApart as s) (q : Query) :
    Unambiguous s q ↔ OneLocalAddress s q :=
  unambiguous_iff (pairwise_of_run hr) q

/-- Two servers on the same port, each bound to a device. -/
theorem lookup_unambiguous_iff_two : ∃ s, machine.Run AllocatesApart
    [.allocatePort (some 0) 80, .allocatePort (some 1) 80] s ∧
      Unambiguous s ⟨0x0a000001, 80, 0x0a000002, 1000, ⟨1, []⟩⟩ := by
  refine Machine.exists_run_and_allowed
    (p := fun s ↦ s.m_endPoints = [⟨0, 0, 80, 0, 0, some 0, true⟩, ⟨1, 0, 80, 0, 0, some 1, true⟩])
    (by decide +kernel) (by decide +kernel) fun s hr hs ↦ ?_
  have hany : ∀ e ∈ s.m_endPoints, e.m_localAddr = 0 := by
    rw [hs]
    decide +kernel
  refine (lookup_unambiguous_iff hr _).mpr ?_
  intro c _ e he e' he' _ _
  rw [hany e he, hany e' he']

/-- A server on the same port of one device, and then one that is not bound to a device. -/
theorem lookup_ambiguous : ∃ s, machine.Run Machine.unguarded
    [.allocatePort (some 0) 80, .allocatePort none 80] s ∧
      ¬ Unambiguous s ⟨0x0a000001, 80, 0x0a000002, 1000, ⟨0, []⟩⟩ := by
  refine Machine.exists_run_and
    (p := fun s ↦ s.lookup ⟨0x0a000001, 80, 0x0a000002, 1000, ⟨0, []⟩⟩ = none) (by decide +kernel)
    fun s hr hs ↦ ?_
  rintro ⟨retval, hlookup, -⟩
  exact Option.some_ne_none _ (hlookup.symm.trans hs)

end Ipv4EndPointDemux

end Ns3
