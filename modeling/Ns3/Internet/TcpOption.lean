import Ns3.Network.BufferIterator
import Ns3.Network.SequenceNumber

/-!
# TCP options

The options of a TCP header, with their codecs. `GetSerializedSize` of a SACK option is computed in 32
bits from the number of its blocks; its length byte, and the number of blocks that is read back, are
computed in 8 bits.
-/

namespace Ns3

open Buffer (Failure Writer readU8 readNtohU16 readNtohU32)

/-- `TcpOptionSack::SackBlock`. -/
abbrev SackBlock := SequenceNumber32 × SequenceNumber32

/-- The classes derived from `TcpOption`, with their members. -/
inductive TcpOption
  | opEnd
  | nop
  | mss (m_mss : UInt16)
  | winScale (m_scale : UInt8)
  | sackPermitted
  | sack (m_sackList : List SackBlock)
  | ts (m_timestamp m_echo : UInt32)
  | unknown (m_kind m_size : UInt8) (m_content : List UInt8)
  deriving DecidableEq, Repr

namespace TcpOption

def getKind : TcpOption → UInt8
  | opEnd => 0
  | nop => 1
  | mss _ => 2
  | winScale _ => 3
  | sackPermitted => 4
  | sack _ => 5
  | ts _ _ => 8
  | unknown m_kind _ _ => m_kind

def isKindKnown (kind : UInt8) : Bool := decide (kind ∈ ([0, 1, 2, 3, 4, 5, 8] : List UInt8))

def createOption (kind : UInt8) : TcpOption :=
  if kind = 0 then opEnd
  else if kind = 2 then mss 1460
  else if kind = 1 then nop
  else if kind = 8 then ts 0 0
  else if kind = 3 then winScale 0
  else if kind = 4 then sackPermitted
  else if kind = 5 then sack []
  else unknown 255 0 []

def getSerializedSize : TcpOption → ℕ
  | opEnd => 1
  | nop => 1
  | mss _ => 4
  | winScale _ => 3
  | sackPermitted => 2
  | sack m_sackList => (2 + m_sackList.length * 8) % 2 ^ 32
  | ts _ _ => 10
  | unknown _ m_size _ => m_size.toNat

/-- The edges of a block, as they are written. -/
def blockBytes (block : SackBlock) : List UInt8 :=
  (Writer.writeHtonU32 ⟨block.1.m_value⟩).bytes ++ (Writer.writeHtonU32 ⟨block.2.m_value⟩).bytes

/-- The bytes that `Serialize` writes. -/
def serialize : TcpOption → List UInt8
  | opEnd => [0]
  | nop => [1]
  | mss m_mss => [2, 4] ++ (Writer.writeHtonU16 m_mss).bytes
  | winScale m_scale => [3, 3, m_scale]
  | sackPermitted => [4, 2]
  | sack m_sackList =>
    [5, UInt8.ofNat (m_sackList.length * 8 + 2)] ++ m_sackList.flatMap blockBytes
  | ts m_timestamp m_echo =>
    [8, 10] ++ (Writer.writeHtonU32 m_timestamp).bytes ++ (Writer.writeHtonU32 m_echo).bytes
  | unknown m_kind m_size m_content =>
    if m_size = 0 then [] else [m_kind, m_size] ++ m_content.take (m_size.toNat - 2)

/-- The loop over the blocks of a SACK option. -/
def readBlocks : ℕ → List UInt8 → Except Failure (List SackBlock)
  | 0, _ => .ok []
  | sackCount + 1, i => do
    let (leftEdge, i) ← readNtohU32 i
    let (rightEdge, i) ← readNtohU32 i
    let blocks ← readBlocks sackCount i
    return (⟨leftEdge.toBitVec⟩, ⟨rightEdge.toBitVec⟩) :: blocks

/-- `Deserialize`: the size it returns, which is zero for a malformed option, and the option. -/
def deserialize : TcpOption → List UInt8 → Except Failure (ℕ × TcpOption)
  | opEnd, i => do
    let (readKind, _) ← readU8 i
    return if readKind ≠ 0 then (0, opEnd) else (opEnd.getSerializedSize, opEnd)
  | nop, i => do
    let (readKind, _) ← readU8 i
    return if readKind ≠ 1 then (0, nop) else (nop.getSerializedSize, nop)
  | mss m_mss, i => do
    let (readKind, i) ← readU8 i
    if readKind ≠ 2 then return (0, mss m_mss)
    let (size, i) ← readU8 i
    if size ≠ 4 then throw .aborted
    let (m_mss, _) ← readNtohU16 i
    return ((mss m_mss).getSerializedSize, mss m_mss)
  | winScale m_scale, i => do
    let (readKind, i) ← readU8 i
    if readKind ≠ 3 then return (0, winScale m_scale)
    let (size, i) ← readU8 i
    if size ≠ 3 then return (0, winScale m_scale)
    let (m_scale, _) ← readU8 i
    return ((winScale m_scale).getSerializedSize, winScale m_scale)
  | sackPermitted, i => do
    let (readKind, i) ← readU8 i
    if readKind ≠ 4 then return (0, sackPermitted)
    let (size, _) ← readU8 i
    return if size ≠ 2 then (0, sackPermitted) else (sackPermitted.getSerializedSize, sackPermitted)
  | sack m_sackList, i => do
    let (readKind, i) ← readU8 i
    if readKind ≠ 5 then return (0, sack m_sackList)
    let (size, i) ← readU8 i
    let m_sackList ← readBlocks ((size.toNat - 2) / 8) i
    return ((sack m_sackList).getSerializedSize, sack m_sackList)
  | ts m_timestamp m_echo, i => do
    let (readKind, i) ← readU8 i
    if readKind ≠ 8 then return (0, ts m_timestamp m_echo)
    let (size, i) ← readU8 i
    if size ≠ 10 then return (0, ts m_timestamp m_echo)
    let (m_timestamp, i) ← readNtohU32 i
    let (m_echo, _) ← readNtohU32 i
    return ((ts m_timestamp m_echo).getSerializedSize, ts m_timestamp m_echo)
  | unknown _ _ m_content, i => do
    let (m_kind, i) ← readU8 i
    let (m_size, i) ← readU8 i
    if m_size < 2 ∨ 40 < m_size then return (0, unknown m_kind m_size m_content)
    let (m_content, _) ← Buffer.read (m_size.toNat - 2) i
    return (m_size.toNat, unknown m_kind m_size m_content)

/-! ## Each option is read back -/

/-- The options that have a kind of their own, with a size that fits their length byte. -/
def Fits : TcpOption → Prop
  | sack m_sackList => m_sackList.length ≤ 4
  | unknown _ _ _ => False
  | _ => True

theorem length_blockBytes (block : SackBlock) : (blockBytes block).length = 8 := rfl

theorem length_flatMap_blockBytes (blocks : List SackBlock) :
    (blocks.flatMap blockBytes).length = blocks.length * 8 := by
  induction blocks with
  | nil => rfl
  | cons block blocks ih =>
    rw [List.flatMap_cons, List.length_append, ih, length_blockBytes, List.length_cons]
    ring

theorem readBlocks_append (blocks : List SackBlock) (i : List UInt8) :
    readBlocks blocks.length (blocks.flatMap blockBytes ++ i) = .ok blocks := by
  induction blocks with
  | nil => rfl
  | cons block blocks ih =>
    rw [List.length_cons, readBlocks, List.flatMap_cons, blockBytes, List.append_assoc,
      List.append_assoc, Buffer.readNtohU32_append]
    simp only [bind, Except.bind]
    rw [Buffer.readNtohU32_append]
    simp only [ih]
    rfl

theorem length_serialize {o : TcpOption} (ho : o.Fits) : o.serialize.length = o.getSerializedSize := by
  cases o with
  | sack m_sackList =>
    have hle : m_sackList.length ≤ 4 := ho
    rw [serialize, getSerializedSize, List.length_append, length_flatMap_blockBytes]
    simp only [List.length_cons, List.length_nil]
    omega
  | unknown => exact ho.elim
  | _ => rfl

theorem deserialize_serialize {o : TcpOption} (ho : o.Fits) (i : List UInt8) :
    (createOption o.getKind).deserialize (o.serialize ++ i) = .ok (o.getSerializedSize, o) := by
  cases o with
  | opEnd => rfl
  | nop => rfl
  | mss m_mss =>
    simp [createOption, getKind, deserialize, serialize, bind, Except.bind, pure, Except.pure]
  | winScale m_scale => rfl
  | sackPermitted => rfl
  | sack m_sackList =>
    have hle : m_sackList.length ≤ 4 := ho
    have hsize : (UInt8.ofNat (m_sackList.length * 8 + 2)).toNat = m_sackList.length * 8 + 2 :=
      UInt8.toNat_ofNat_of_lt' (show _ < 256 by omega)
    have hcount : (m_sackList.length * 8 + 2 - 2) / 8 = m_sackList.length := by omega
    have hread := readBlocks_append m_sackList i
    change (sack []).deserialize (5 :: UInt8.ofNat (m_sackList.length * 8 + 2) ::
      (m_sackList.flatMap blockBytes ++ i)) = _
    simp only [deserialize, Buffer.readU8_cons, bind, Except.bind, hsize, hcount, hread]
    rfl
  | ts m_timestamp m_echo =>
    simp [createOption, getKind, deserialize, serialize, bind, Except.bind, pure, Except.pure]
  | unknown => exact ho.elim

theorem isKindKnown_of_fits {o : TcpOption} (ho : o.Fits) : isKindKnown o.getKind = true := by
  cases o with
  | unknown => exact ho.elim
  | _ => rfl

theorem serialize_eq_cons {o : TcpOption} (ho : o.Fits) :
    ∃ rest, o.serialize = o.getKind :: rest := by
  cases o with
  | unknown => exact ho.elim
  | _ => exact ⟨_, rfl⟩

end TcpOption

end Ns3
