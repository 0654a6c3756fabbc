import Ns3.Library.OrderedMap
import Ns3.Network.Mac48Address

/-!
# The routing table of HWMP

A mesh point finds a path to a destination on demand, or it knows a path to the root of the mesh, over
which every destination is reached. Each path has a next hop and expires. The neighbours that use a path
on demand are its precursors.

A path to the broadcast address stands for no path.
-/

namespace Ns3

namespace Mac48Address

/-- The bytes of an address, as numbers. -/
def octets (address : Mac48Address) : List ℕ := address.toList.map UInt8.toNat

theorem octets_injective : Function.Injective octets := fun _ _ h ↦
  Subtype.ext (List.map_injective_iff.mpr (fun _ _ ↦ UInt8.toNat_inj.mp) h)

/-- `operator <`: the addresses are compared byte by byte. -/
instance : LinearOrder Mac48Address where
  __ := PartialOrder.lift octets octets_injective
  le_total a b := le_total a.octets b.octets
  toDecidableLE a b := inferInstanceAs (Decidable (a.octets ≤ b.octets))
  toDecidableLT a b := inferInstanceAs (Decidable (a.octets < b.octets))
  toDecidableEq := inferInstance

end Mac48Address

namespace Hwmp

/-- `HwmpRtable::INTERFACE_ANY`. -/
def interfaceAny : UInt32 := 0xffffffff

/-- `HwmpRtable::MAX_METRIC`. -/
def maxMetric : UInt32 := 0xffffffff

/-- `HwmpRtable::LookupResult`. -/
structure LookupResult where
  retransmitter : Mac48Address := Mac48Address.getBroadcast
  ifIndex : UInt32 := interfaceAny
  metric : UInt32 := maxMetric
  seqnum : UInt32 := 0
  lifetime : ℤ := 0
  deriving DecidableEq

/-- `LookupResult::IsValid`. -/
def LookupResult.isValid (r : LookupResult) : Bool :=
  !(decide (r.retransmitter = Mac48Address.getBroadcast) && decide (r.ifIndex = interfaceAny) &&
    decide (r.metric = maxMetric) && decide (r.seqnum = 0))

/-- `HwmpRtable::Precursor`. -/
structure Precursor where
  address : Mac48Address
  interface : UInt32
  whenExpire : ℤ
  deriving DecidableEq

/-- `HwmpRtable::ReactiveRoute`. -/
structure ReactiveRoute where
  retransmitter : Mac48Address
  interface : UInt32
  metric : UInt32
  whenExpire : ℤ
  seqnum : UInt32
  precursors : List Precursor
  deriving DecidableEq

/-- `HwmpRtable::ProactiveRoute`. -/
structure ProactiveRoute where
  root : Mac48Address
  retransmitter : Mac48Address
  interface : UInt32
  metric : UInt32
  whenExpire : ℤ
  seqnum : UInt32
  deriving DecidableEq

/-- `HwmpProtocol::FailedDestination`. -/
structure FailedDestination where
  destination : Mac48Address
  seqnum : UInt32
  deriving DecidableEq

/-- `HwmpRtable::PrecursorList`. -/
abbrev PrecursorList := List (UInt32 × Mac48Address)

/-- `HwmpRtable`. -/
structure HwmpRtable where
  m_routes : List (Mac48Address × ReactiveRoute)
  m_root : ProactiveRoute
  deriving DecidableEq

namespace HwmpRtable

/-! ## Paths -/

def addReactivePath (t : HwmpRtable) (now : ℤ) (destination retransmitter : Mac48Address)
    (interface metric : UInt32) (lifetime : ℤ) (seqnum : UInt32) : HwmpRtable :=
  let precursors := ((OrderedMap.find destination t.m_routes).map (·.precursors)).getD []
  let route := ⟨retransmitter, interface, metric, now + lifetime, seqnum, precursors⟩
  { t with m_routes := OrderedMap.insert destination route t.m_routes }

def addProactivePath (t : HwmpRtable) (now : ℤ) (metric : UInt32) (root retransmitter : Mac48Address)
    (interface : UInt32) (lifetime : ℤ) (seqnum : UInt32) : HwmpRtable :=
  { t with m_root := ⟨root, retransmitter, interface, metric, now + lifetime, seqnum⟩ }

/-- The loop of `AddPrecursor`: the entry of the address is renewed, or a new one is added. -/
def addPrecursorLoop (precursor : Precursor) : List Precursor → List Precursor
  | [] => [precursor]
  | p :: precursors =>
    if p.address = precursor.address then { p with whenExpire := precursor.whenExpire } :: precursors
    else p :: addPrecursorLoop precursor precursors

def addPrecursor (t : HwmpRtable) (now : ℤ) (destination : Mac48Address) (precursorInterface : UInt32)
    (precursorAddress : Mac48Address) (lifetime : ℤ) : HwmpRtable :=
  match OrderedMap.find destination t.m_routes with
  | none => t
  | some i =>
    let precursors := addPrecursorLoop ⟨precursorAddress, precursorInterface, now + lifetime⟩ i.precursors
    { t with m_routes := OrderedMap.insert destination { i with precursors := precursors } t.m_routes }

/-- `DeleteProactivePath`; the address of the root stays. -/
def deleteProactivePath (t : HwmpRtable) (now : ℤ) : HwmpRtable :=
  { t with m_root := ⟨t.m_root.root, Mac48Address.getBroadcast, interfaceAny, maxMetric, now, 0⟩ }

/-- `DeleteProactivePath` of a root. -/
def deleteProactivePathTo (t : HwmpRtable) (now : ℤ) (root : Mac48Address) : HwmpRtable :=
  if t.m_root.root = root then t.deleteProactivePath now else t

def deleteReactivePath (t : HwmpRtable) (destination : Mac48Address) : HwmpRtable :=
  { t with m_routes := OrderedMap.erase destination t.m_routes }

/-! ## Lookups -/

def lookupReactiveExpired (t : HwmpRtable) (now : ℤ) (destination : Mac48Address) : LookupResult :=
  match OrderedMap.find destination t.m_routes with
  | none => {}
  | some i => ⟨i.retransmitter, i.interface, i.metric, i.seqnum, i.whenExpire - now⟩

def lookupReactive (t : HwmpRtable) (now : ℤ) (destination : Mac48Address) : LookupResult :=
  match OrderedMap.find destination t.m_routes with
  | none => {}
  | some i => if i.whenExpire < now ∧ i.whenExpire ≠ 0 then {} else t.lookupReactiveExpired now destination

def lookupProactiveExpired (t : HwmpRtable) (now : ℤ) : LookupResult :=
  ⟨t.m_root.retransmitter, t.m_root.interface, t.m_root.metric, t.m_root.seqnum, t.m_root.whenExpire - now⟩

/-- `LookupProactive`; an expired path is deleted. -/
def lookupProactive (t : HwmpRtable) (now : ℤ) : LookupResult × HwmpRtable :=
  let t := if t.m_root.whenExpire < now then t.deleteProactivePath now else t
  (t.lookupProactiveExpired now, t)

/-- The loop of `GetUnreachableDestinations`, with the routes that it leaves. -/
def unreachableLoop (peerAddress : Mac48Address) : List (Mac48Address × ReactiveRoute) →
    List FailedDestination × List (Mac48Address × ReactiveRoute)
  | [] => ([], [])
  | i :: routes =>
    let r := unreachableLoop peerAddress routes
    if i.2.retransmitter = peerAddress then
      (⟨i.1, i.2.seqnum + 1⟩ :: r.1, (i.1, { i.2 with seqnum := i.2.seqnum + 1 }) :: r.2)
    else (r.1, i :: r.2)

def getUnreachableDestinations (t : HwmpRtable) (peerAddress : Mac48Address) :
    List FailedDestination × HwmpRtable :=
  let r := unreachableLoop peerAddress t.m_routes
  (r.1 ++ if t.m_root.retransmitter = peerAddress then [⟨t.m_root.root, t.m_root.seqnum⟩] else [],
    { t with m_routes := r.2 })

def getPrecursors (t : HwmpRtable) (now : ℤ) (destination : Mac48Address) : PrecursorList :=
  match OrderedMap.find destination t.m_routes with
  | none => []
  | some route => (route.precursors.filter fun i ↦ i.whenExpire > now).map fun i ↦ (i.interface, i.address)

end HwmpRtable

end Hwmp

end Ns3
