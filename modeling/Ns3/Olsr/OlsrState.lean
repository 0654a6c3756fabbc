import Mathlib
import Ns3.Network.Ipv4Address

/-!
# The information bases of an OLSR node

The tuples that a node keeps about its links, its neighbors, those that are two hops away, those that
selected it as a relay and the topology, and how they are found, inserted and erased. The sets are vectors:
what is found is the first tuple that matches, and nothing keeps a second one out.
-/

namespace Ns3

namespace Olsr

/-! ## Willingness -/

/-- `OLSR_WILL_NEVER`. -/
def willNever : ℕ := 0

/-- `OLSR_WILL_DEFAULT`. -/
def willDefault : ℕ := 3

/-- `OLSR_WILL_ALWAYS`. -/
def willAlways : ℕ := 7

/-! ## The tuples -/

/-- An `IfaceAssocTuple`. -/
structure IfaceAssocTuple where
  ifaceAddr : Ipv4Address
  mainAddr : Ipv4Address
  time : ℤ
  deriving DecidableEq, Repr

/-- A `LinkTuple`. -/
structure LinkTuple where
  localIfaceAddr : Ipv4Address
  neighborIfaceAddr : Ipv4Address
  symTime : ℤ
  asymTime : ℤ
  time : ℤ
  deriving DecidableEq, Repr

/-- The status of a neighbor. -/
inductive Status
  | STATUS_NOT_SYM
  | STATUS_SYM
  deriving DecidableEq, Repr

/-- A `NeighborTuple`. -/
structure NeighborTuple where
  neighborMainAddr : Ipv4Address
  status : Status
  willingness : ℕ
  deriving DecidableEq, Repr

/-- A `TwoHopNeighborTuple`. -/
structure TwoHopNeighborTuple where
  neighborMainAddr : Ipv4Address
  twoHopNeighborAddr : Ipv4Address
  expirationTime : ℤ
  deriving DecidableEq, Repr

/-- A `MprSelectorTuple`. -/
structure MprSelectorTuple where
  mainAddr : Ipv4Address
  expirationTime : ℤ
  deriving DecidableEq, Repr

/-- A `TopologyTuple`. -/
structure TopologyTuple where
  destAddr : Ipv4Address
  lastAddr : Ipv4Address
  sequenceNumber : ℕ
  expirationTime : ℤ
  deriving DecidableEq, Repr

/-- An `Association`: a network that is announced. -/
structure Association where
  networkAddr : Ipv4Address
  netmask : Ipv4Mask
  deriving DecidableEq, Repr

/-- An `AssociationTuple`. -/
structure AssociationTuple where
  gatewayAddr : Ipv4Address
  networkAddr : Ipv4Address
  netmask : Ipv4Mask
  expirationTime : ℤ
  deriving DecidableEq, Repr

/-- The neighbor is symmetric. -/
def NeighborTuple.Sym (n : NeighborTuple) : Prop := n.status = .STATUS_SYM

instance (n : NeighborTuple) : Decidable n.Sym := inferInstanceAs (Decidable (_ = _))

/-! ## The state -/

/-- An `OlsrState`. -/
structure OlsrState where
  m_linkSet : List LinkTuple
  m_neighborSet : List NeighborTuple
  m_twoHopNeighborSet : List TwoHopNeighborTuple
  m_topologySet : List TopologyTuple
  m_mprSet : Finset Ipv4Address
  m_mprSelectorSet : List MprSelectorTuple
  m_ifaceAssocSet : List IfaceAssocTuple
  m_associationSet : List AssociationTuple
  m_associations : List Association
  deriving DecidableEq

/-- The first element that passes a test is changed. -/
def updateFirst {α : Type*} (p : α → Prop) [DecidablePred p] (f : α → α) : List α → List α
  | [] => []
  | x :: xs => if p x then f x :: xs else x :: updateFirst p f xs

theorem map_updateFirst {α β : Type*} {p : α → Prop} [DecidablePred p] {f : α → α} {g : α → β}
    (h : ∀ x, p x → g (f x) = g x) (l : List α) : (updateFirst p f l).map g = l.map g := by
  induction l with
  | nil => rfl
  | cons x l ih =>
    rw [updateFirst]
    split_ifs with hx
    · rw [List.map_cons, List.map_cons, h x hx]
    · rw [List.map_cons, List.map_cons, ih]

/-- What is found by its key in a list whose element of the key `k` has been changed. -/
theorem find?_updateFirst {α β : Type*} [DecidableEq β] {key : α → β} {k : β} {f : α → α}
    (h : ∀ x, key x = k → key (f x) = k) (l : List α) (a : β) :
    (updateFirst (fun x ↦ key x = k) f l).find? (fun x ↦ key x = a) =
      if a = k then (l.find? fun x ↦ key x = a).map f else l.find? fun x ↦ key x = a := by
  induction l with
  | nil => simp [updateFirst]
  | cons x l ih =>
    rw [updateFirst]
    by_cases hx : key x = k
    · rw [if_pos hx, List.find?_cons, List.find?_cons, h x hx, hx]
      by_cases ha : a = k
      · simp [ha]
      · simp [Ne.symm ha, ha]
    · rw [if_neg hx, List.find?_cons, List.find?_cons, ih]
      by_cases ha : a = k
      · simp [ha, hx]
      · simp only [if_neg ha]

namespace OlsrState

/-- A new state. -/
def empty : OlsrState := ⟨[], [], [], [], ∅, [], [], [], []⟩

def findNeighborTuple (s : OlsrState) (mainAddr : Ipv4Address) : Option NeighborTuple :=
  s.m_neighborSet.find? fun n ↦ n.neighborMainAddr = mainAddr

def findSymNeighborTuple (s : OlsrState) (mainAddr : Ipv4Address) : Option NeighborTuple :=
  s.m_neighborSet.find? fun n ↦ n.neighborMainAddr = mainAddr ∧ n.Sym

/-- `InsertNeighborTuple`: the first tuple with the address is overwritten. -/
def insertNeighborTuple (s : OlsrState) (tuple : NeighborTuple) : OlsrState :=
  if ∃ n ∈ s.m_neighborSet, n.neighborMainAddr = tuple.neighborMainAddr then
    { s with
      m_neighborSet := updateFirst (fun n ↦ n.neighborMainAddr = tuple.neighborMainAddr)
        (fun _ ↦ tuple) s.m_neighborSet }
  else { s with m_neighborSet := s.m_neighborSet ++ [tuple] }

def eraseNeighborTuple (s : OlsrState) (mainAddr : Ipv4Address) : OlsrState :=
  { s with m_neighborSet := s.m_neighborSet.eraseP fun n ↦ n.neighborMainAddr = mainAddr }

def findTwoHopNeighborTuple (s : OlsrState) (neighborMainAddr twoHopNeighborAddr : Ipv4Address) :
    Option TwoHopNeighborTuple :=
  s.m_twoHopNeighborSet.find? fun t ↦
    t.neighborMainAddr = neighborMainAddr ∧ t.twoHopNeighborAddr = twoHopNeighborAddr

def eraseTwoHopNeighborTuple (s : OlsrState) (tuple : TwoHopNeighborTuple) : OlsrState :=
  { s with m_twoHopNeighborSet := s.m_twoHopNeighborSet.eraseP fun t ↦
      t.neighborMainAddr = tuple.neighborMainAddr ∧
        t.twoHopNeighborAddr = tuple.twoHopNeighborAddr }

/-- `EraseTwoHopNeighborTuples` of a neighbor and a two-hop neighbor. -/
def eraseTwoHopNeighborTuplesOf (s : OlsrState) (neighborMainAddr twoHopNeighborAddr : Ipv4Address) :
    OlsrState :=
  { s with m_twoHopNeighborSet := s.m_twoHopNeighborSet.filter fun t ↦
      ¬ (t.neighborMainAddr = neighborMainAddr ∧ t.twoHopNeighborAddr = twoHopNeighborAddr) }

/-- `EraseTwoHopNeighborTuples` of a neighbor. -/
def eraseTwoHopNeighborTuples (s : OlsrState) (neighborMainAddr : Ipv4Address) : OlsrState :=
  { s with m_twoHopNeighborSet :=
      s.m_twoHopNeighborSet.filter fun t ↦ t.neighborMainAddr ≠ neighborMainAddr }

def findMprSelectorTuple (s : OlsrState) (mainAddr : Ipv4Address) : Option MprSelectorTuple :=
  s.m_mprSelectorSet.find? fun t ↦ t.mainAddr = mainAddr

def eraseMprSelectorTuple (s : OlsrState) (tuple : MprSelectorTuple) : OlsrState :=
  { s with m_mprSelectorSet := s.m_mprSelectorSet.eraseP fun t ↦ t.mainAddr = tuple.mainAddr }

def eraseMprSelectorTuples (s : OlsrState) (mainAddr : Ipv4Address) : OlsrState :=
  { s with m_mprSelectorSet := s.m_mprSelectorSet.filter fun t ↦ t.mainAddr ≠ mainAddr }

def findLinkTuple (s : OlsrState) (ifaceAddr : Ipv4Address) : Option LinkTuple :=
  s.m_linkSet.find? fun l ↦ l.neighborIfaceAddr = ifaceAddr

/-- `FindSymLinkTuple`: only the first tuple with the address is looked at. -/
def findSymLinkTuple (s : OlsrState) (ifaceAddr : Ipv4Address) (now : ℤ) : Option LinkTuple :=
  (s.findLinkTuple ifaceAddr).filter fun l ↦ l.symTime > now

def eraseLinkTuple (s : OlsrState) (tuple : LinkTuple) : OlsrState :=
  { s with m_linkSet := s.m_linkSet.eraseP fun l ↦
      l.localIfaceAddr = tuple.localIfaceAddr ∧ l.neighborIfaceAddr = tuple.neighborIfaceAddr }

def findTopologyTuple (s : OlsrState) (destAddr lastAddr : Ipv4Address) : Option TopologyTuple :=
  s.m_topologySet.find? fun t ↦ t.destAddr = destAddr ∧ t.lastAddr = lastAddr

/-- `FindNewerTopologyTuple`: sequence numbers are compared as numbers. -/
def findNewerTopologyTuple (s : OlsrState) (lastAddr : Ipv4Address) (ansn : ℕ) :
    Option TopologyTuple :=
  s.m_topologySet.find? fun t ↦ t.lastAddr = lastAddr ∧ t.sequenceNumber > ansn

def eraseTopologyTuple (s : OlsrState) (tuple : TopologyTuple) : OlsrState :=
  { s with m_topologySet := s.m_topologySet.eraseP fun t ↦ t.destAddr = tuple.destAddr ∧
      t.lastAddr = tuple.lastAddr ∧ t.sequenceNumber = tuple.sequenceNumber }

def eraseOlderTopologyTuples (s : OlsrState) (lastAddr : Ipv4Address) (ansn : ℕ) : OlsrState :=
  { s with m_topologySet := s.m_topologySet.filter fun t ↦
      ¬ (t.lastAddr = lastAddr ∧ t.sequenceNumber < ansn) }

def eraseIfaceAssocTuple (s : OlsrState) (tuple : IfaceAssocTuple) : OlsrState :=
  { s with m_ifaceAssocSet := s.m_ifaceAssocSet.eraseP fun t ↦
      t.ifaceAddr = tuple.ifaceAddr ∧ t.mainAddr = tuple.mainAddr }

def findIfaceAssocTuple (s : OlsrState) (ifaceAddr : Ipv4Address) : Option IfaceAssocTuple :=
  s.m_ifaceAssocSet.find? fun t ↦ t.ifaceAddr = ifaceAddr

def getMainAddress (s : OlsrState) (ifaceAddr : Ipv4Address) : Ipv4Address :=
  match s.findIfaceAssocTuple ifaceAddr with
  | some t => t.mainAddr
  | none => ifaceAddr

/-! ## Finding -/

theorem findSymNeighborTuple_isSome {s : OlsrState} {a : Ipv4Address} :
    (s.findSymNeighborTuple a).isSome ↔
      ∃ n ∈ s.m_neighborSet, n.neighborMainAddr = a ∧ n.Sym := by
  simp [findSymNeighborTuple, List.find?_isSome]

end OlsrState

end Olsr

end Ns3
