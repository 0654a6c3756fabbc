import Ns3.Library.Piece
import Ns3.Network.BufferIterator

/-!
# The fragment extension of IPv6

`GetFragments` takes the extension headers of the unfragmentable part off a packet, splits the rest,
and puts the headers in front of each fragment. `Process` takes a fragment apart again and keeps what
it finds under the source and the identification, until `IsEntire`. The timeouts are kept as in
`Ipv4L3Protocol`; they are left out here, and the fragments under a key may be dropped at any time.
-/

namespace Ns3

open Buffer

/-- The parts of an `Ipv6Header` that have to do with fragments. -/
structure Ipv6Header where
  m_sourceAddress : ℕ
  m_nextHeader : UInt8
  m_payloadLength : UInt16
  deriving DecidableEq, Repr

namespace Ipv6Header

/-- `GetSerializedSize`. -/
def serializedSize : ℕ := 10 * 4

def IPV6_EXT_HOP_BY_HOP : UInt8 := 0

def IPV6_EXT_ROUTING : UInt8 := 43

def IPV6_EXT_FRAGMENTATION : UInt8 := 44

def IPV6_EXT_DESTINATION : UInt8 := 60

end Ipv6Header

/-! ## Extension headers -/

/-- What an extension header carries: the options of `Ipv6ExtensionHopByHopHeader` and
`Ipv6ExtensionDestinationHeader`, or the addresses of `Ipv6ExtensionLooseRoutingHeader`. -/
inductive Ipv6ExtensionContent
  | options (m_optionData : List UInt8)
  | routing (m_typeRouting m_segmentsLeft : UInt8) (m_routersAddress : List (List UInt8))
  deriving DecidableEq, Repr

/-- `Ipv6ExtensionHeader`. -/
structure Ipv6ExtensionHeader where
  m_nextHeader : UInt8
  m_length : UInt8
  content : Ipv6ExtensionContent
  deriving DecidableEq, Repr

namespace Ipv6ExtensionHeader

def getLength (h : Ipv6ExtensionHeader) : ℕ := (h.m_length.toNat + 1) * 8

/-- `CalculatePad` of an `OptionField` that starts behind two bytes. -/
def calculatePad (m_optionData : List UInt8) : ℕ := sub32 0 (add32 m_optionData.length 2) % 8

/-- The padding that `OptionField::Serialize` appends: `Pad1` or `PadN`. -/
def padding : ℕ → List UInt8
  | 0 => []
  | 1 => [0]
  | n + 2 => 1 :: UInt8.ofNat n :: List.replicate n 0

def getSerializedSize (h : Ipv6ExtensionHeader) : ℕ :=
  match h.content with
  | .options m_optionData => 2 + (m_optionData.length + calculatePad m_optionData)
  | .routing _ _ m_routersAddress => 8 + m_routersAddress.length * 16

def serialize (h : Ipv6ExtensionHeader) : List UInt8 :=
  match h.content with
  | .options m_optionData =>
    [h.m_nextHeader, UInt8.ofNat (sub32 (h.getSerializedSize >>> 3) 1)] ++
      (m_optionData ++ padding (calculatePad m_optionData))
  | .routing m_typeRouting m_segmentsLeft m_routersAddress =>
    [h.m_nextHeader, UInt8.ofNat (m_routersAddress.length * 2), m_typeRouting, m_segmentsLeft,
      0, 0, 0, 0] ++ m_routersAddress.flatten

/-- `Deserialize` of a header with options. -/
def deserializeOptions (start : List UInt8) : Except Failure Ipv6ExtensionHeader := do
  let (m_nextHeader, i) ← readU8 start
  let (m_length, i) ← readU8 i
  let (m_optionData, _) ← read ((m_length.toNat + 1) * 8 - 2) i
  return ⟨m_nextHeader, m_length, .options m_optionData⟩

/-- The loop of `Ipv6ExtensionLooseRoutingHeader::Deserialize`. -/
def readAddresses : ℕ → List UInt8 → Except Failure (List (List UInt8))
  | 0, _ => .ok []
  | n + 1, i => do
    let (buff, i) ← read 16 i
    let m_routersAddress ← readAddresses n i
    return buff :: m_routersAddress

/-- `Deserialize` of a routing header. -/
def deserializeRouting (start : List UInt8) : Except Failure Ipv6ExtensionHeader := do
  let (m_nextHeader, i) ← readU8 start
  let (m_length, i) ← readU8 i
  let (m_typeRouting, i) ← readU8 i
  let (m_segmentsLeft, i) ← readU8 i
  let (_, i) ← read 4 i
  let m_routersAddress ← readAddresses (m_length.toNat / 2) i
  return ⟨m_nextHeader, m_length, .routing m_typeRouting m_segmentsLeft m_routersAddress⟩

end Ipv6ExtensionHeader

/-- `Ipv6ExtensionFragmentHeader`. -/
structure Ipv6ExtensionFragmentHeader where
  m_nextHeader : UInt8
  m_offset : UInt16
  m_identification : UInt32
  deriving DecidableEq, Repr

namespace Ipv6ExtensionFragmentHeader

def setOffset (h : Ipv6ExtensionFragmentHeader) (offset : UInt16) : Ipv6ExtensionFragmentHeader :=
  { h with m_offset := (h.m_offset &&& 1) ||| (offset &&& ~~~7) }

def getOffset (h : Ipv6ExtensionFragmentHeader) : UInt16 := h.m_offset &&& ~~~1

def setMoreFragment (h : Ipv6ExtensionFragmentHeader) (moreFragment : Bool) :
    Ipv6ExtensionFragmentHeader :=
  { h with m_offset := if moreFragment then h.m_offset ||| 1 else h.m_offset &&& ~~~1 }

def getMoreFragment (h : Ipv6ExtensionFragmentHeader) : Bool := h.m_offset &&& 1 ≠ 0

/-- `GetSerializedSize`. -/
def serializedSize : ℕ := 8

def serialize (h : Ipv6ExtensionFragmentHeader) : List UInt8 :=
  [h.m_nextHeader, 0] ++ ((Writer.writeHtonU16 h.m_offset).bytes ++
    (Writer.writeHtonU32 h.m_identification).bytes)

/-- `Deserialize`, and the bytes that follow. -/
def deserialize (start : List UInt8) :
    Except Failure (Ipv6ExtensionFragmentHeader × List UInt8) := do
  let (m_nextHeader, i) ← readU8 start
  let (_, i) ← readU8 i
  let (m_offset, i) ← readNtohU16 i
  let (m_identification, i) ← readNtohU32 i
  return (⟨m_nextHeader, m_offset, m_identification⟩, i)

end Ipv6ExtensionFragmentHeader

namespace Ipv6ExtensionFragment

open Ipv6Header

/-! ## Fragmentation -/

/-- Whether a header belongs to the unfragmentable part: `p` starts with it, and so with `type`. -/
def moreHeader (nextHeader : UInt8) (p : List UInt8) : Bool :=
  nextHeader = IPV6_EXT_HOP_BY_HOP || nextHeader = IPV6_EXT_ROUTING ||
    (nextHeader = IPV6_EXT_DESTINATION && p.head? = some IPV6_EXT_ROUTING)

/-- What the first half of `GetFragments` finds. -/
structure Parts where
  unfragmentablePart : List Ipv6ExtensionHeader
  unfragmentablePartSize : ℕ
  /-- The type of what `p` starts with. -/
  nextHeader : UInt8
  /-- The fragmentable part. -/
  p : List UInt8
  deriving DecidableEq, Repr

/-- `RemoveHeader` of a header of the given type. -/
def deserializeHeader (nextHeader : UInt8) (p : List UInt8) : Except Failure Ipv6ExtensionHeader :=
  if nextHeader = IPV6_EXT_ROUTING then Ipv6ExtensionHeader.deserializeRouting p
  else Ipv6ExtensionHeader.deserializeOptions p

/-- The loop over the extension headers. -/
def removeHeaders : ℕ → Parts → Except Failure Parts
  | 0, _ => .error .outOfFuel
  | fuel + 1, parts => do
    let header ← deserializeHeader parts.nextHeader parts.p
    let p := parts.p.drop header.getSerializedSize
    -- `extensionHeaderLength` has 8 bits
    let unfragmentablePartSize := add32 parts.unfragmentablePartSize (header.getLength % 2 ^ 8)
    if moreHeader header.m_nextHeader p then
      removeHeaders fuel ⟨parts.unfragmentablePart ++ [header], unfragmentablePartSize,
        header.m_nextHeader, p⟩
    else
      return ⟨parts.unfragmentablePart ++ [{ header with m_nextHeader := IPV6_EXT_FRAGMENTATION }],
        unfragmentablePartSize, header.m_nextHeader, p⟩

/-- The first half of `GetFragments`. -/
def parts (packet : List UInt8) (ipv6Header : Ipv6Header) : Except Failure Parts :=
  if moreHeader ipv6Header.m_nextHeader packet then
    removeHeaders (packet.length + 1) ⟨[], 0, ipv6Header.m_nextHeader, packet⟩
  else .ok ⟨[], 0, ipv6Header.m_nextHeader, packet⟩

/-- The fragment with some data: each header is added in front of those before it. -/
def addHeaders (parts : Parts) (identification : UInt32) (offset : ℕ) (moreFragment : Bool)
    (fragment : List UInt8) : List UInt8 :=
  let fragmentHeader : Ipv6ExtensionFragmentHeader := ⟨parts.nextHeader, 0, identification⟩
  let fragmentHeader := (fragmentHeader.setOffset (UInt16.ofNat offset)).setMoreFragment moreFragment
  parts.unfragmentablePart.foldl (fun fragment header ↦ header.serialize ++ fragment)
    (fragmentHeader.serialize ++ fragment)

/-- The loop of `GetFragments` from `offset` on. -/
def fragmentLoop (parts : Parts) (identification : UInt32) (maxFragmentablePartSize : ℕ) :
    ℕ → ℕ → Except Failure (List (List UInt8))
  | 0, _ => .error .outOfFuel
  | fuel + 1, offset =>
    if add32 offset maxFragmentablePartSize < parts.p.length then do
      let currentFragmentablePartSize := maxFragmentablePartSize - maxFragmentablePartSize % 8
      let listFragments ← fragmentLoop parts identification maxFragmentablePartSize fuel
        ((offset + currentFragmentablePartSize) % 2 ^ 16)
      return addHeaders parts identification offset true
        ((parts.p.drop offset).take currentFragmentablePartSize) :: listFragments
    else
      return [addHeaders parts identification offset false
        ((parts.p.drop offset).take (parts.p.length - offset))]

/-- `GetFragments` for an identification; the fragments come with their headers. -/
def getFragments (packet : List UInt8) (ipv6Header : Ipv6Header) (maxFragmentSize : ℕ)
    (identification : UInt32) : Except Failure (List (List UInt8 × Ipv6Header)) := do
  let parts ← parts packet ipv6Header
  let m_nextHeader := if moreHeader ipv6Header.m_nextHeader packet then ipv6Header.m_nextHeader
    else IPV6_EXT_FRAGMENTATION
  let maxFragmentablePartSize := sub32 (sub32 (sub32 maxFragmentSize serializedSize)
    parts.unfragmentablePartSize) Ipv6ExtensionFragmentHeader.serializedSize
  let listFragments ← fragmentLoop parts identification maxFragmentablePartSize
    (parts.p.length + 1) 0
  return listFragments.map fun fragment ↦
    (fragment, { ipv6Header with
      m_nextHeader := m_nextHeader
      m_payloadLength := UInt16.ofNat fragment.length })

/-! ## Fragments of one packet -/

/-- `Fragments`. -/
structure Fragments where
  m_moreFragment : Bool
  m_packetFragments : List (Piece UInt8)
  m_unfragmentable : Option (List UInt8)
  deriving DecidableEq, Repr

namespace Fragments

def addFragment (f : Fragments) (fragment : List UInt8) (fragmentOffset : ℕ) (moreFragment : Bool) :
    Fragments :=
  { f with
    m_moreFragment := if ∀ it ∈ f.m_packetFragments, it.offset ≤ fragmentOffset then moreFragment
      else f.m_moreFragment
    m_packetFragments := Piece.place ⟨fragmentOffset, fragment⟩ f.m_packetFragments }

def setUnfragmentablePart (f : Fragments) (unfragmentablePart : List UInt8) : Fragments :=
  { f with m_unfragmentable := some unfragmentablePart }

/-- The loop of `IsEntire`. -/
def follows : ℕ → List (Piece UInt8) → Bool
  | _, [] => true
  | lastEndOffset, it :: rest =>
    if lastEndOffset ≠ it.offset then false
    else follows ((lastEndOffset + it.data.length) % 2 ^ 16) rest

def isEntire (f : Fragments) : Bool :=
  !f.m_moreFragment && decide (0 < f.m_packetFragments.length) && follows 0 f.m_packetFragments

/-- `GetPacket`; `none` if there is no unfragmentable part. -/
def getPacket (f : Fragments) : Option (List UInt8) :=
  f.m_unfragmentable.map fun p ↦ f.m_packetFragments.foldl (fun p it ↦ p ++ it.data) p

end Fragments

end Ipv6ExtensionFragment

/-- `FragmentKey_t`: the source and the identification. -/
abbrev Ipv6FragmentKey := ℕ × UInt32

/-- The member of `Ipv6ExtensionFragment` for the fragments. -/
structure Ipv6ExtensionFragment where
  m_fragments : Ipv6FragmentKey → Option Ipv6ExtensionFragment.Fragments

namespace Ipv6ExtensionFragment

/-! ## Receiving fragments -/

/-- A packet with a fragment header at `offset`. -/
@[ext] structure Arrival where
  packet : List UInt8
  offset : UInt8
  deriving DecidableEq, Repr

/-- What `Process` reads from a packet. -/
structure Received where
  unfragmentablePart : List UInt8
  fragmentHeader : Ipv6ExtensionFragmentHeader
  p : List UInt8
  deriving DecidableEq, Repr

/-- The first part of `Process`; `none` if the packet ends before the fragment header does. -/
def receive (a : Arrival) : Option Received :=
  match Ipv6ExtensionFragmentHeader.deserialize (a.packet.drop a.offset.toNat) with
  | .ok (fragmentHeader, p) => some ⟨a.packet.take a.offset.toNat, fragmentHeader, p⟩
  | .error _ => none

/-- What `Process` does to the fragments. -/
def Fragments.update (f : Fragments) (r : Received) : Fragments :=
  let fragmentOffset := r.fragmentHeader.getOffset.toNat
  let f := if fragmentOffset = 0 then f.setUnfragmentablePart r.unfragmentablePart else f
  f.addFragment r.p fragmentOffset r.fragmentHeader.getMoreFragment

/-- `Process`: the state, and the packet if it is entire. -/
def process (s : Ipv6ExtensionFragment) (a : Arrival) (ipv6Header : Ipv6Header) :
    Option (Ipv6ExtensionFragment × Option (List UInt8)) := do
  let r ← receive a
  let fragmentKey := (ipv6Header.m_sourceAddress, r.fragmentHeader.m_identification)
  let fragments := ((s.m_fragments fragmentKey).getD ⟨false, [], none⟩).update r
  if fragments.isEntire then do
    let packet ← fragments.getPacket
    return (⟨Function.update s.m_fragments fragmentKey none⟩, some packet)
  else return (⟨Function.update s.m_fragments fragmentKey (some fragments)⟩, none)

/-- A fragment arrives, or the fragments under a key are dropped. -/
inductive Op
  | process (a : Arrival) (ipv6Header : Ipv6Header)
  | handleFragmentsTimeout (fragmentKey : Ipv6FragmentKey)
  deriving DecidableEq, Repr

/-- The step of an operation. -/
def next (s : Ipv6ExtensionFragment) : Op → Option Ipv6ExtensionFragment
  | .process a ipv6Header => (s.process a ipv6Header).map Prod.fst
  | .handleFragmentsTimeout fragmentKey =>
    if (s.m_fragments fragmentKey).isSome then
      some ⟨Function.update s.m_fragments fragmentKey none⟩
    else none

end Ipv6ExtensionFragment

end Ns3
