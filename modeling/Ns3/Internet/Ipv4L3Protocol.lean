import Ns3.Library.Machine
import Ns3.Library.Piece
import Ns3.Library.Span
import Ns3.Network.Ipv4Address

/-!
# Fragments of IPv4

`DoFragmentation` splits a packet, which may itself be a fragment, for the MTU of an interface. The
fragments of a datagram are collected under a key, in a list that is sorted by their offsets, until
`IsEntire` finds that no more fragments are to be expected and that there is no gap, or until the
timeout of the key. One list holds the timeouts of all keys, and one event, which looks at the front
of that list, serves them all.
-/

namespace Ns3

/-- The parts of an `Ipv4Header` that have to do with fragments. -/
structure Ipv4Header where
  m_source : Ipv4Address
  m_destination : Ipv4Address
  m_identification : UInt16
  m_protocol : UInt8
  m_payloadSize : ℕ
  m_fragmentOffset : ℕ
  /-- `MORE_FRAGMENTS` in `m_flags`. -/
  moreFragments : Bool
  deriving DecidableEq, Repr

def Ipv4Header.isLastFragment (h : Ipv4Header) : Bool := !h.moreFragments

/-- `GetSerializedSize`: there are no options. -/
def Ipv4Header.serializedSize : ℕ := 5 * 4

/-- `SetFragmentOffset`, which aborts if the offset is not a multiple of 8. -/
def Ipv4Header.setFragmentOffset (h : Ipv4Header) (offsetBytes : ℕ) : Option Ipv4Header :=
  if offsetBytes % 8 = 0 then some { h with m_fragmentOffset := offsetBytes } else none

/-- `FragmentKey_t`. -/
abbrev FragmentKey := ℕ × ℕ

/-- The key under which `ProcessFragment` collects a fragment. -/
def Ipv4Header.key (h : Ipv4Header) : FragmentKey :=
  (h.m_source.toNat * 2 ^ 32 + h.m_destination.toNat,
    h.m_identification.toNat * 2 ^ 16 + h.m_protocol.toNat)

namespace Ipv4L3Protocol

/-! ## Fragmentation -/

/-- The size of all fragments but the last: `(outIfaceMtu - GetSerializedSize ()) & ~uint32_t (0x7)`. -/
def fragmentSize (outIfaceMtu : ℕ) : ℕ := sub32 outIfaceMtu Ipv4Header.serializedSize / 8 * 8

/-- A turn of the loop of `DoFragmentation`: the fragment at `offset`. -/
def fragmentAt (p : List UInt8) (ipv4Header : Ipv4Header) (fragmentSize offset : ℕ) :
    Option (List UInt8 × Ipv4Header) := do
  let more := decide (add32 offset fragmentSize < p.length)
  let currentFragmentablePartSize := if more then fragmentSize else p.length - offset
  let fragmentHeader := { ipv4Header with
    moreFragments := more || !ipv4Header.isLastFragment
    m_payloadSize := currentFragmentablePartSize % 2 ^ 16 }
  let fragmentHeader ← fragmentHeader.setFragmentOffset
    ((offset + ipv4Header.m_fragmentOffset) % 2 ^ 16)
  return ((p.drop offset).take currentFragmentablePartSize, fragmentHeader)

/-- The loop of `DoFragmentation` from `offset` on. -/
def doFragmentationLoop (p : List UInt8) (ipv4Header : Ipv4Header) (fragmentSize : ℕ) :
    ℕ → ℕ → Option (List (List UInt8 × Ipv4Header))
  | 0, _ => none
  | fuel + 1, offset => do
    let fragment ← fragmentAt p ipv4Header fragmentSize offset
    if add32 offset fragmentSize < p.length then do
      let listFragments ← doFragmentationLoop p ipv4Header fragmentSize fuel
        ((offset + fragmentSize) % 2 ^ 16)
      return fragment :: listFragments
    else return [fragment]

/-- `DoFragmentation`; `none` if it aborts or does not end. -/
def doFragmentation (packet : List UInt8) (ipv4Header : Ipv4Header) (outIfaceMtu : ℕ) :
    Option (List (List UInt8 × Ipv4Header)) :=
  doFragmentationLoop packet ipv4Header (fragmentSize outIfaceMtu) (packet.length + 1) 0

/-! ## Fragments of one datagram -/

/-- `Fragments`; an iterator of the list of timeouts is the number of its entry. -/
structure Fragments where
  m_moreFragment : Bool
  m_fragments : List (Piece UInt8)
  m_timeoutIter : ℕ
  deriving DecidableEq, Repr

namespace Fragments

def addFragment (f : Fragments) (fragment : List UInt8) (fragmentOffset : ℕ) (moreFragment : Bool) :
    Fragments :=
  { f with
    m_moreFragment := if ∀ it ∈ f.m_fragments, it.offset ≤ fragmentOffset then moreFragment
      else f.m_moreFragment
    m_fragments := Piece.place ⟨fragmentOffset, fragment⟩ f.m_fragments }

/-- The loop of `IsEntire`. -/
def noGap : ℕ → List (Piece UInt8) → Bool
  | _, [] => true
  | lastEndOffset, it :: rest =>
    if lastEndOffset < it.offset then false
    else noGap (max lastEndOffset ((it.data.length + it.offset) % 2 ^ 16)) rest

def isEntire (f : Fragments) : Bool :=
  !f.m_moreFragment && decide (0 < f.m_fragments.length) && noGap 0 f.m_fragments

/-- The loop of `GetPacket`. -/
def appendFragments : List UInt8 → List (Piece UInt8) → List UInt8
  | p, [] => p
  | p, it :: rest =>
    let lastEndOffset := p.length % 2 ^ 16
    if it.offset < lastEndOffset then
      let newStart := lastEndOffset - it.offset
      if newStart < it.data.length then
        appendFragments (p ++ (it.data.drop newStart).take (it.data.length - newStart)) rest
      else appendFragments p rest
    else appendFragments (p ++ it.data) rest

/-- `GetPacket`; `none` if there is no fragment. -/
def getPacket (f : Fragments) : Option (List UInt8) :=
  match f.m_fragments with
  | [] => none
  | it :: rest => some (appendFragments it.data rest)

/-- The loop of `GetPartialPacket`. -/
def appendPartial : List UInt8 → ℕ → List (Piece UInt8) → List UInt8
  | p, _, [] => p
  | p, lastEndOffset, it :: rest =>
    let p :=
      if it.offset < lastEndOffset then
        let newStart := lastEndOffset - it.offset
        p ++ (it.data.drop newStart).take (sub32 it.data.length newStart)
      else if lastEndOffset = it.offset then p ++ it.data
      else p
    appendPartial p (p.length % 2 ^ 16) rest

/-- `GetPartialPacket`; `none` if there is no fragment. -/
def getPartialPacket (f : Fragments) : Option (List UInt8) :=
  match f.m_fragments with
  | [] => none
  | it :: _ => some (if 0 < it.offset then [] else appendPartial [] 0 f.m_fragments)

end Fragments

/-! ## Timeouts -/

/-- An entry of `m_timeoutEventList`. -/
structure Timeout where
  /-- The identity of the list node. -/
  iter : ℕ
  time : ℕ
  key : FragmentKey
  ipHeader : Ipv4Header
  iif : ℕ
  deriving DecidableEq, Repr

/-- What `HandleFragmentsTimeout` reports. -/
structure Drop where
  time : ℕ
  key : FragmentKey
  ipHeader : Ipv4Header
  packet : List UInt8
  iif : ℕ
  /-- Whether an ICMP message is sent. -/
  timeExceeded : Bool
  deriving DecidableEq, Repr

end Ipv4L3Protocol

/-- The members of `Ipv4L3Protocol` for fragments, the time, and the times of the events that will
call `HandleTimeout`. -/
structure Ipv4L3Protocol where
  now : ℕ
  events : List ℕ
  m_fragmentExpirationTimeout : ℕ
  m_fragments : FragmentKey → Option Ipv4L3Protocol.Fragments
  m_timeoutEventList : List Ipv4L3Protocol.Timeout
  nextIter : ℕ
  m_dropTrace : List Ipv4L3Protocol.Drop

namespace Ipv4L3Protocol

/-- `SetTimeout`: the iterator is that of the entry that is appended. -/
def setTimeout (s : Ipv4L3Protocol) (key : FragmentKey) (ipHeader : Ipv4Header) (iif : ℕ) :
    Ipv4L3Protocol :=
  { s with
    events := if s.m_timeoutEventList = [] then (s.now + s.m_fragmentExpirationTimeout) :: s.events
      else s.events
    m_timeoutEventList := s.m_timeoutEventList ++
      [⟨s.nextIter, s.now + s.m_fragmentExpirationTimeout, key, ipHeader, iif⟩]
    nextIter := s.nextIter + 1 }

/-- `ProcessFragment` up to the fragments under the key of the packet. -/
def findFragments (s : Ipv4L3Protocol) (ipHeader : Ipv4Header) (iif : ℕ) :
    Ipv4L3Protocol × Fragments :=
  match s.m_fragments ipHeader.key with
  | some fragments => (s, fragments)
  | none => (s.setTimeout ipHeader.key ipHeader iif, ⟨false, [], s.nextIter⟩)

/-- `ProcessFragment`: the state, and the packet if it is entire. -/
def processFragment (s : Ipv4L3Protocol) (packet : List UInt8) (ipHeader : Ipv4Header) (iif : ℕ) :
    Ipv4L3Protocol × Option (List UInt8) :=
  let (s, fragments) := s.findFragments ipHeader iif
  let fragments := fragments.addFragment packet ipHeader.m_fragmentOffset (!ipHeader.isLastFragment)
  if fragments.isEntire then
    ({ s with
      m_timeoutEventList := s.m_timeoutEventList.filter (·.iter ≠ fragments.m_timeoutIter)
      m_fragments := Function.update s.m_fragments ipHeader.key none }, fragments.getPacket)
  else ({ s with m_fragments := Function.update s.m_fragments ipHeader.key (some fragments) }, none)

/-- `HandleFragmentsTimeout`; `none` if there are no fragments under the key. -/
def handleFragmentsTimeout (s : Ipv4L3Protocol) (t : Timeout) : Option Ipv4L3Protocol := do
  let fragments ← s.m_fragments t.key
  let packet ← fragments.getPartialPacket
  return { s with
    m_fragments := Function.update s.m_fragments t.key none
    m_dropTrace := s.m_dropTrace ++
      [⟨s.now, t.key, t.ipHeader, packet, t.iif, decide (8 < packet.length)⟩] }

/-- The loop of `HandleTimeout`. -/
def expire (s : Ipv4L3Protocol) : List Timeout → Option Ipv4L3Protocol
  | [] => some { s with m_timeoutEventList := [] }
  | t :: rest =>
    if t.time = s.now then do
      let s ← s.handleFragmentsTimeout t
      s.expire rest
    else some { s with m_timeoutEventList := t :: rest }

/-- `HandleTimeout`; `none` if the next event is to be scheduled in the past. -/
def handleTimeout (s : Ipv4L3Protocol) : Option Ipv4L3Protocol := do
  let s ← s.expire s.m_timeoutEventList
  match s.m_timeoutEventList with
  | [] => return s
  | t :: _ => if t.time < s.now then none else return { s with events := t.time :: s.events }

/-! ## The machine -/

/-- A fragment is received, an event of `HandleTimeout` is due, or the time goes on. -/
inductive Op
  | processFragment (packet : List UInt8) (ipHeader : Ipv4Header) (iif : ℕ)
  | handleTimeout
  | wait (time : ℕ)
  deriving DecidableEq, Repr

/-- The step of an operation. The time does not go on beyond an event that is due. -/
def next (s : Ipv4L3Protocol) : Op → Option Ipv4L3Protocol
  | .processFragment packet ipHeader iif => some (s.processFragment packet ipHeader iif).1
  | .handleTimeout =>
    if s.now ∈ s.events then handleTimeout { s with events := s.events.erase s.now } else none
  | .wait time =>
    if s.now ≤ time ∧ ∀ event ∈ s.events, time ≤ event then some { s with now := time } else none

/-- No fragment has been received. -/
def machine (m_fragmentExpirationTimeout : ℕ) : Machine Ipv4L3Protocol Op where
  init := ⟨0, [], m_fragmentExpirationTimeout, fun _ ↦ none, [], 0, []⟩
  next := next

end Ipv4L3Protocol

end Ns3
