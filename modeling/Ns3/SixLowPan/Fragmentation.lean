import Ns3.Library.Piece
import Ns3.SixLowPan.SixLowPanHc1

/-!
# Fragmentation of compressed packets

A compressed packet that does not fit into a frame is cut into fragments. Their places count the bytes
of the packet before its compression, so the first fragment, which starts with the compressed header,
covers more than it carries; the receiver uncompresses a copy of it to learn how much.

The loop that cuts looks for the last fragment with a strict comparison. If the rest of the packet
fills its fragments exactly, one more is made, with nothing in it, and the receiver does not wait for
that one.
-/

namespace Ns3

namespace SixLowPan

open Buffer (Failure readU8 readU8_cons)

/-! ## Fragment headers -/

def writeU16 (data : UInt16) : List UInt8 := [(data &&& 0xff).toUInt8, ((data >>> 8) &&& 0xff).toUInt8]

def readU16 (i : List UInt8) : Except Failure (UInt16 × List UInt8) := do
  let (byte0, i) ← readU8 i
  let (byte1, i) ← readU8 i
  return ((byte1.toUInt16 <<< 8) ||| byte0.toUInt16, i)

def LOWPAN_FRAG1 : UInt16 := 0xC0

def LOWPAN_FRAGN : UInt16 := 0xE0

/-- The dispatch and the datagram size, as both headers write them. -/
def writeSize (dispatch m_datagramSize : UInt16) : List UInt8 :=
  let temp := m_datagramSize ||| (dispatch <<< 8)
  [(temp >>> 8).toUInt8, (temp &&& 0xff).toUInt8]

/-- The datagram size, as both headers read it. -/
def readSize (i : List UInt8) : Except Failure (UInt16 × List UInt8) := do
  let (temp, i) ← readU8 i
  let (low, i) ← readU8 i
  return (((temp.toUInt16 <<< 8) ||| low.toUInt16) &&& 0x7FF, i)

/-- `SixLowPanFrag1`. -/
structure SixLowPanFrag1 where
  m_datagramSize : UInt16
  m_datagramTag : UInt16
  deriving DecidableEq, Repr

namespace SixLowPanFrag1

/-- `GetSerializedSize`. -/
def serializedSize : ℕ := 4

def setDatagramSize (h : SixLowPanFrag1) (datagramSize : UInt16) : SixLowPanFrag1 :=
  { h with m_datagramSize := datagramSize &&& 0x7FF }

def getDatagramSize (h : SixLowPanFrag1) : UInt16 := h.m_datagramSize &&& 0x7FF

def serialize (h : SixLowPanFrag1) : List UInt8 :=
  writeSize LOWPAN_FRAG1 h.m_datagramSize ++ writeU16 h.m_datagramTag

/-- `Deserialize`, and the bytes that follow. -/
def deserialize (start : List UInt8) : Except Failure (SixLowPanFrag1 × List UInt8) := do
  let (m_datagramSize, i) ← readSize start
  let (m_datagramTag, i) ← readU16 i
  return (⟨m_datagramSize, m_datagramTag⟩, i)

end SixLowPanFrag1

/-- `SixLowPanFragN`. -/
structure SixLowPanFragN where
  m_datagramSize : UInt16
  m_datagramTag : UInt16
  m_datagramOffset : UInt8
  deriving DecidableEq, Repr

namespace SixLowPanFragN

/-- `GetSerializedSize`. -/
def serializedSize : ℕ := 5

def setDatagramSize (h : SixLowPanFragN) (datagramSize : UInt16) : SixLowPanFragN :=
  { h with m_datagramSize := datagramSize &&& 0x7FF }

def getDatagramSize (h : SixLowPanFragN) : UInt16 := h.m_datagramSize &&& 0x7FF

def serialize (h : SixLowPanFragN) : List UInt8 :=
  writeSize LOWPAN_FRAGN h.m_datagramSize ++ writeU16 h.m_datagramTag ++ [h.m_datagramOffset]

/-- `Deserialize`, and the bytes that follow. -/
def deserialize (start : List UInt8) : Except Failure (SixLowPanFragN × List UInt8) := do
  let (m_datagramSize, i) ← readSize start
  let (m_datagramTag, i) ← readU16 i
  let (m_datagramOffset, i) ← readU8 i
  return (⟨m_datagramSize, m_datagramTag, m_datagramOffset⟩, i)

end SixLowPanFragN

/-! ## Cutting a packet -/

def createFragment (p : List UInt8) (start length : ℕ) : Except Failure (List UInt8) :=
  if add32 start length ≤ p.length then .ok ((p.drop start).take length) else .error .aborted

/-- A fragment behind the first one. -/
def fragN (tag : UInt16) (origPacketSize offset : ℕ) (fragment : List UInt8) : List UInt8 :=
  let fragNHdr : SixLowPanFragN := ⟨0, tag, 0⟩
  let fragNHdr := fragNHdr.setDatagramSize (UInt16.ofNat origPacketSize)
  { fragNHdr with m_datagramOffset := UInt8.ofNat (offset >>> 3) }.serialize ++ fragment

/-- The first fragment. -/
def frag1 (tag : UInt16) (origPacketSize : ℕ) (fragment1 : List UInt8) : List UInt8 :=
  let frag1Hdr : SixLowPanFrag1 := ⟨0, tag⟩
  (frag1Hdr.setDatagramSize (UInt16.ofNat origPacketSize)).serialize ++ fragment1

/-- The loop of `DoFragmentation`. -/
def fragmentLoop (l2Mtu : ℕ) (tag : UInt16) (origPacketSize : ℕ) (p : List UInt8) :
    ℕ → ℕ → ℕ → Except Failure (List (List UInt8))
  | 0, _, _ => .error .outOfFuel
  | fuel + 1, offset, offsetData => do
    let size := sub32 l2Mtu SixLowPanFragN.serializedSize
    let size := size - size % 8
    if p.length < add32 offsetData size then
      let fragment ← createFragment p offsetData (sub32 p.length offsetData)
      return [fragN tag origPacketSize offset fragment]
    else
      let fragment ← createFragment p offsetData size
      let listFragments ← fragmentLoop l2Mtu tag origPacketSize p fuel ((offset + size) % 2 ^ 16)
        ((offsetData + size) % 2 ^ 16)
      return fragN tag origPacketSize offset fragment :: listFragments

/-- `DoFragmentation`: the list of fragments. -/
def doFragmentation (l2Mtu : ℕ) (tag : UInt16) (packet : List UInt8) (origPacketSize origHdrSize : ℕ) :
    Except Failure (List (List UInt8)) := do
  let compressedHeaderSize := sub32 packet.length (sub32 origPacketSize origHdrSize)
  if l2Mtu ≤ SixLowPanFrag1.serializedSize then throw .aborted
  let size := sub32 (sub32 l2Mtu SixLowPanFrag1.serializedSize) compressedHeaderSize
  let size := size - size % 8
  let size := add32 size compressedHeaderSize
  let fragment1 ← createFragment packet 0 size
  let offset := sub32 (add32 size origHdrSize) compressedHeaderSize % 2 ^ 16
  let listFragments ← fragmentLoop l2Mtu tag origPacketSize packet (packet.length + 1) offset
    (size % 2 ^ 16)
  return frag1 tag origPacketSize fragment1 :: listFragments

/-! ## Fragments of one packet -/

/-- `Fragments`. -/
structure Fragments where
  m_packetSize : ℕ
  m_fragments : List (Piece UInt8)
  m_firstFragment : Option (List UInt8)
  deriving DecidableEq, Repr

namespace Fragments

/-- The loop of `AddFragment`. -/
def insert (fragment : List UInt8) (fragmentOffset : ℕ) :
    List (Piece UInt8) → Except Failure (List (Piece UInt8))
  | [] => .ok [⟨fragmentOffset, fragment⟩]
  | it :: rest =>
    if fragmentOffset < it.offset then .ok (⟨fragmentOffset, fragment⟩ :: it :: rest)
    else if it.offset = fragmentOffset then
      if fragment.length = it.data.length then .ok (it :: rest) else .error .aborted
    else do
      let rest ← insert fragment fragmentOffset rest
      return it :: rest

def addFragment (f : Fragments) (fragment : List UInt8) (fragmentOffset : ℕ) :
    Except Failure Fragments := do
  let m_fragments ← insert fragment fragmentOffset f.m_fragments
  return { f with m_fragments := m_fragments }

def addFirstFragment (f : Fragments) (fragment : List UInt8) : Fragments :=
  { f with m_firstFragment := some fragment }

/-- The loop of `IsEntire`: where the fragments end if there is no gap. -/
def lastEnd : ℕ → List (Piece UInt8) → Option ℕ
  | lastEndOffset, [] => some lastEndOffset
  | lastEndOffset, it :: rest =>
    if lastEndOffset < it.offset then none
    else lastEnd (max lastEndOffset ((it.data.length + it.offset) % 2 ^ 16)) rest

def isEntire (f : Fragments) : Bool :=
  decide (0 < f.m_fragments.length) && decide (lastEnd 0 f.m_fragments = some f.m_packetSize)

/-- The loop of `GetPacket`. -/
def addAtEnd : ℕ → List (Piece UInt8) → Except Failure (List UInt8)
  | _, [] => .ok []
  | lastEndOffset, it :: rest =>
    if it.offset < lastEndOffset then .error .aborted
    else do
      let p ← addAtEnd ((lastEndOffset + it.data.length) % 2 ^ 16) rest
      return it.data ++ p

/-- `GetPacket`: the first fragment as it has come, and the others. -/
def getPacket (f : Fragments) : Except Failure (List UInt8) :=
  match f.m_firstFragment, f.m_fragments with
  | some m_firstFragment, it :: rest => do
    let p ← addAtEnd (it.data.length % 2 ^ 16) rest
    return m_firstFragment ++ p
  | _, _ => .error .aborted

end Fragments

/-! ## Receiving fragments -/

/-- `FragmentKey_t`: the addresses, and the size and the tag of the datagram. -/
abbrev FragmentKey := (LinkAddress × LinkAddress) × (UInt16 × UInt16)

/-- `DecompressLowPanHc1` and `DecompressLowPanIphc`. Of what they make of a first fragment only the
size is used. -/
structure Decompression where
  decompressLowPanHc1 : List UInt8 → LinkAddress → LinkAddress → Except Failure (List UInt8)
  decompressLowPanIphc : List UInt8 → LinkAddress → LinkAddress → Except Failure (List UInt8)

def LOWPAN_IPv6 : UInt8 := 0x41

def LOWPAN_IPHC : UInt8 := 0x60

def LOWPAN_IPHC_N : UInt8 := 0x7F

/-- How `ProcessFragment` uncompresses a first fragment by its dispatch. -/
def Decompression.apply (d : Decompression) (p : List UInt8) (src dst : LinkAddress) :
    Except Failure (List UInt8) :=
  let dispatchRawValFrag1 := p.headD 0
  if dispatchRawValFrag1 = LOWPAN_IPv6 then .ok (p.drop 1)
  else if dispatchRawValFrag1 = LOWPAN_HC1 then d.decompressLowPanHc1 p src dst
  else if LOWPAN_IPHC ≤ dispatchRawValFrag1 ∧ dispatchRawValFrag1 ≤ LOWPAN_IPHC_N then
    d.decompressLowPanIphc p src dst
  else .error .aborted

/-- A packet as `ProcessFragment` gets it. -/
structure Arrival where
  packet : List UInt8
  src : LinkAddress
  dst : LinkAddress
  isFirst : Bool
  deriving DecidableEq, Repr

/-- What `ProcessFragment` reads from a packet. -/
structure Received where
  key : FragmentKey
  packetSize : ℕ
  p : List UInt8
  offset : ℕ
  deriving DecidableEq, Repr

/-- The first part of `ProcessFragment`. -/
def receive (d : Decompression) (a : Arrival) : Except Failure Received :=
  if a.isFirst then do
    let (frag1Header, p) ← SixLowPanFrag1.deserialize a.packet
    let p ← d.apply p a.src a.dst
    return ⟨((a.src, a.dst), (frag1Header.getDatagramSize, frag1Header.m_datagramTag)),
      frag1Header.getDatagramSize.toNat, p, 0⟩
  else do
    let (fragNHeader, p) ← SixLowPanFragN.deserialize a.packet
    return ⟨((a.src, a.dst), (fragNHeader.getDatagramSize, fragNHeader.m_datagramTag)),
      fragNHeader.getDatagramSize.toNat, p, fragNHeader.m_datagramOffset.toNat <<< 3⟩

/-- The members of `SixLowPanNetDevice` for the fragments. -/
structure SixLowPanNetDevice where
  m_fragments : List (FragmentKey × Fragments)
  m_timeoutEventList : List FragmentKey
  m_fragmentReassemblyListSize : ℕ
  deriving DecidableEq, Repr

namespace SixLowPanNetDevice

/-- The fragments under a key. -/
def find (s : SixLowPanNetDevice) (key : FragmentKey) : Option Fragments :=
  (s.m_fragments.find? fun e ↦ e.1 = key).map Prod.snd

/-- The entry and the timeout of a key are erased. -/
def erase (s : SixLowPanNetDevice) (key : FragmentKey) : SixLowPanNetDevice :=
  { s with
    m_fragments := s.m_fragments.filter fun e ↦ e.1 ≠ key
    m_timeoutEventList := s.m_timeoutEventList.filter fun k ↦ k ≠ key }

/-- There is no place for an entry of a new key. -/
def Full (s : SixLowPanNetDevice) : Prop :=
  s.m_fragmentReassemblyListSize ≠ 0 ∧ s.m_fragmentReassemblyListSize ≤ s.m_fragments.length

instance (s : SixLowPanNetDevice) : Decidable s.Full := inferInstanceAs (Decidable (_ ∧ _))

/-- The oldest packet is erased. -/
def evict (s : SixLowPanNetDevice) : Except Failure SixLowPanNetDevice :=
  match s.m_timeoutEventList with
  | [] => .error .aborted
  | oldestKey :: _ => if (s.find oldestKey).isSome then .ok (s.erase oldestKey) else .error .aborted

/-- The fragments that a packet belongs to; `SetTimeout` for new ones. -/
def obtainFragments (s : SixLowPanNetDevice) (key : FragmentKey) (packetSize : ℕ) :
    Except Failure (SixLowPanNetDevice × Fragments) :=
  match s.find key with
  | some fragments => .ok (s, fragments)
  | none => do
    let s ← if s.Full then s.evict else .ok s
    return ({ s with
      m_fragments := s.m_fragments ++ [(key, ⟨packetSize, [], none⟩)]
      m_timeoutEventList := s.m_timeoutEventList ++ [key] }, ⟨packetSize, [], none⟩)

/-- The fragments of an entry have changed. -/
def store (s : SixLowPanNetDevice) (key : FragmentKey) (fragments : Fragments) : SixLowPanNetDevice :=
  { s with m_fragments := s.m_fragments.map fun e ↦ if e.1 = key then (key, fragments) else e }

/-- What `ProcessFragment` does to the fragments of a packet. -/
def update (fragments : Fragments) (a : Arrival) (r : Received) : Except Failure Fragments := do
  let fragments ← fragments.addFragment r.p r.offset
  return if a.isFirst then fragments.addFirstFragment a.packet else fragments

/-- The end of `ProcessFragment`: the state, and the packet if it returns true. -/
def complete (s : SixLowPanNetDevice) (key : FragmentKey) (fragments : Fragments) :
    Except Failure (SixLowPanNetDevice × Option (List UInt8)) :=
  if fragments.isEntire then do
    let packet ← fragments.getPacket
    let (_, packet) ← SixLowPanFrag1.deserialize packet
    return (s.erase key, some packet)
  else .ok (s.store key fragments, none)

/-- `ProcessFragment`: the state, and the packet if it returns true. -/
def processFragment (d : Decompression) (s : SixLowPanNetDevice) (a : Arrival) :
    Except Failure (SixLowPanNetDevice × Option (List UInt8)) := do
  let r ← receive d a
  let (s, fragments) ← s.obtainFragments r.key r.packetSize
  let fragments ← update fragments a r
  s.complete r.key fragments

/-- `HandleTimeout` for the first of the timeouts, with `HandleFragmentsTimeout`. -/
def handleTimeout (s : SixLowPanNetDevice) : Option SixLowPanNetDevice :=
  match s.m_timeoutEventList with
  | [] => none
  | key :: rest =>
    if (s.find key).isSome then
      some { s with
        m_fragments := s.m_fragments.filter fun e ↦ e.1 ≠ key
        m_timeoutEventList := rest }
    else none

end SixLowPanNetDevice

end SixLowPan

end Ns3
