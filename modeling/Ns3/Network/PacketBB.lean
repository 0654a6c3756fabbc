import Ns3.Network.BufferIterator

/-!
# Packets of RFC 5444

A packet holds TLVs and messages, a message holds TLVs and address blocks, and an address block holds
addresses of one family with their prefix lengths and TLVs. The addresses of a block are written without
the head and the tail that they have in common, as far as `GetHeadTail` finds out.
-/

namespace Ns3

namespace PacketBB

open Buffer (Failure Writer readU8 readNtohU16 read)

/-! ## Reading -/

/-- What is only there if a flag says so. -/
def readIf {α : Type} (c : Bool) (r : List UInt8 → Except Failure (α × List UInt8))
    (i : List UInt8) : Except Failure (Option α × List UInt8) :=
  if c then do
    let (a, i) ← r i
    return (some a, i)
  else .ok (none, i)

/-- `while (start.GetDistanceFrom (front) < size)`; `front` is how much there is to read at the front. -/
def readWhile {α : Type} (r : List UInt8 → Except Failure (α × List UInt8)) (size front : ℕ) :
    ℕ → List UInt8 → Except Failure (List α × List UInt8)
  | 0, _ => .error .outOfFuel
  | fuel + 1, i =>
    if front - i.length < size then do
      let (a, i) ← r i
      let (l, i) ← readWhile r size front fuel i
      return (a :: l, i)
    else .ok ([], i)

/-! ## TLVs -/

def THAS_TYPE_EXT : UInt8 := 0x80

def THAS_SINGLE_INDEX : UInt8 := 0x40

def THAS_MULTI_INDEX : UInt8 := 0x20

def THAS_VALUE : UInt8 := 0x10

def THAS_EXT_LEN : UInt8 := 0x08

def TIS_MULTIVALUE : UInt8 := 0x04

/-- `PbbTlv`, and `PbbAddressTlv`. -/
structure PbbTlv where
  m_type : UInt8
  m_typeExt : Option UInt8
  m_indexStart : Option UInt8
  m_indexStop : Option UInt8
  m_isMultivalue : Bool
  m_value : Option (List UInt8)
  deriving DecidableEq, Repr

namespace PbbTlv

def getSerializedSize (t : PbbTlv) : UInt32 :=
  2 + (if t.m_typeExt.isSome then 1 else 0) + (if t.m_indexStart.isSome then 1 else 0) +
    (if t.m_indexStop.isSome then 1 else 0) +
    t.m_value.elim 0 fun value ↦ (if 255 < value.length then 2 else 1) + UInt32.ofNat value.length

/-- The flags of the index. -/
def indexFlags (t : PbbTlv) : UInt8 :=
  match t.m_indexStart, t.m_indexStop with
  | none, _ => 0
  | some _, some _ => THAS_MULTI_INDEX
  | some _, none => THAS_SINGLE_INDEX

/-- The flags of the value. -/
def valueFlags (t : PbbTlv) : UInt8 :=
  t.m_value.elim 0 fun value ↦ THAS_VALUE ||| (if 255 < value.length then THAS_EXT_LEN else 0) |||
    if t.m_isMultivalue then TIS_MULTIVALUE else 0

/-- The flags. -/
def flags (t : PbbTlv) : UInt8 :=
  (if t.m_typeExt.isSome then THAS_TYPE_EXT else 0) ||| t.indexFlags ||| t.valueFlags

/-- The index as it is written. -/
def serializeIndex (t : PbbTlv) : List UInt8 :=
  match t.m_indexStart with
  | none => []
  | some indexStart => indexStart :: t.m_indexStop.toList

/-- The value as it is written. -/
def serializeValue (value : List UInt8) : List UInt8 :=
  (if 255 < value.length then (Writer.writeHtonU16 (UInt16.ofNat value.length)).bytes
    else [UInt8.ofNat value.length]) ++ value

def serialize (t : PbbTlv) : List UInt8 :=
  [t.m_type, t.flags] ++ t.m_typeExt.toList ++ t.serializeIndex ++ t.m_value.elim [] serializeValue

/-- The length of the value, in one byte or in two. -/
def readLength (extLen : Bool) (i : List UInt8) : Except Failure (ℕ × List UInt8) :=
  if extLen then do
    let (len, i) ← readNtohU16 i
    return (len.toNat, i)
  else do
    let (len, i) ← readU8 i
    return (len.toNat, i)

/-- The value, with its length before it. -/
def deserializeValue (extLen : Bool) (i : List UInt8) : Except Failure (List UInt8 × List UInt8) := do
  let (len, i) ← readLength extLen i
  read len i

/-- `Deserialize`; the multivalue flag is not read. -/
def deserialize (start : List UInt8) : Except Failure (PbbTlv × List UInt8) := do
  let (m_type, i) ← readU8 start
  let (flags, i) ← readU8 i
  let (m_typeExt, i) ← readIf (flags &&& THAS_TYPE_EXT ≠ 0) readU8 i
  let (m_indexStart, i) ← readIf
    (flags &&& THAS_MULTI_INDEX ≠ 0 || flags &&& THAS_SINGLE_INDEX ≠ 0) readU8 i
  let (m_indexStop, i) ← readIf (flags &&& THAS_MULTI_INDEX ≠ 0) readU8 i
  let (m_value, i) ← readIf (flags &&& THAS_VALUE ≠ 0)
    (deserializeValue (flags &&& THAS_EXT_LEN ≠ 0)) i
  return (⟨m_type, m_typeExt, m_indexStart, m_indexStop, false, m_value⟩, i)

/-- `operator==`. -/
def Equal (t o : PbbTlv) : Prop :=
  t.m_type = o.m_type ∧ t.m_typeExt = o.m_typeExt ∧ t.m_value = o.m_value

instance (t o : PbbTlv) : Decidable (t.Equal o) := inferInstanceAs (Decidable (_ ∧ _ ∧ _))

end PbbTlv

/-! ## TLV blocks -/

/-- `PbbTlvBlock`, and `PbbAddressTlvBlock`. -/
abbrev PbbTlvBlock := List PbbTlv

namespace PbbTlvBlock

def getSerializedSize (m_tlvList : PbbTlvBlock) : UInt32 :=
  m_tlvList.foldl (fun size tlv ↦ size + tlv.getSerializedSize) 2

/-- The TLVs as they are written. -/
def body (m_tlvList : PbbTlvBlock) : List UInt8 := m_tlvList.flatMap PbbTlv.serialize

def serialize (m_tlvList : PbbTlvBlock) : List UInt8 :=
  if m_tlvList = [] then (Writer.writeHtonU16 0).bytes
  else (Writer.writeHtonU16 (UInt16.ofNat (body m_tlvList).length)).bytes ++ body m_tlvList

def deserialize (start : List UInt8) : Except Failure (PbbTlvBlock × List UInt8) := do
  let (size, i) ← readNtohU16 start
  if 0 < size.toNat then
    readWhile PbbTlv.deserialize size.toNat i.length (i.length + 1) i
  else return ([], i)

/-- `operator==`. -/
def Equal (t o : PbbTlvBlock) : Prop := List.Forall₂ PbbTlv.Equal t o

instance (t o : PbbTlvBlock) : Decidable (Equal t o) :=
  inferInstanceAs (Decidable (List.Forall₂ _ _ _))

end PbbTlvBlock

/-! ## Address blocks -/

/-- The two families of addresses. -/
inductive PbbAddressLength
  | IPV4
  | IPV6
  deriving DecidableEq, Repr

namespace PbbAddressLength

/-- The number that stands for a family. -/
def toUInt8 : PbbAddressLength → UInt8
  | IPV4 => 3
  | IPV6 => 15

/-- `GetAddressLength` of the address blocks of a family. -/
def bytes : PbbAddressLength → ℕ
  | IPV4 => 4
  | IPV6 => 16

end PbbAddressLength

def AHAS_HEAD : UInt8 := 0x80

def AHAS_FULL_TAIL : UInt8 := 0x40

def AHAS_ZERO_TAIL : UInt8 := 0x20

def AHAS_SINGLE_PRE_LEN : UInt8 := 0x10

def AHAS_MULTI_PRE_LEN : UInt8 := 0x08

/-- `PbbAddressBlockIpv4` and `PbbAddressBlockIpv6`; an address is the array that `SerializeAddress`
makes of it. -/
structure PbbAddressBlock (f : PbbAddressLength) where
  m_addressList : List (List.Vector UInt8 f.bytes)
  m_prefixList : List UInt8
  m_addressTlvList : PbbTlvBlock
  deriving DecidableEq

namespace PbbAddressBlock

variable {f : PbbAddressLength}

/-- How many of the first `n` bytes are the same, up to the first difference. -/
def same : ℕ → List UInt8 → List UInt8 → ℕ
  | n + 1, x :: xs, y :: ys => if x ≠ y then 0 else same n xs ys + 1
  | _, _, _ => 0

/-- The loop of `GetHeadTail`: the lengths of head and tail, and what `bufcur` is at the end. The scan
for the tail runs backwards while it is at most one byte longer than the tail before it. -/
def headTailLoop : ℕ → ℕ → List.Vector UInt8 f.bytes → List.Vector UInt8 f.bytes →
    List (List.Vector UInt8 f.bytes) → ℕ × ℕ × List.Vector UInt8 f.bytes
  | headlen, taillen, _, bufcur, [] => (headlen, taillen, bufcur)
  | headlen, taillen, buflast, _, iter :: rest =>
    let headlen := same headlen buflast.toList iter.toList
    if 0 < f.bytes - headlen then
      let taillen := same (min (taillen + 1) (f.bytes - 1 - headlen)) buflast.toList.reverse
        iter.toList.reverse
      headTailLoop headlen taillen iter buflast rest
    else if headlen = 0 then (headlen, 0, iter)
    else headTailLoop headlen taillen iter buflast rest

/-- `GetHeadTail`: head and tail of addresses. `AddressBegin ()++` does not skip the first one. -/
def getHeadTail (addresses : List (List.Vector UInt8 f.bytes)) : List UInt8 × List UInt8 :=
  match addresses with
  | [] => ([], [])
  | first :: rest =>
    let (headlen, taillen, bufcur) := headTailLoop f.bytes f.bytes first first (first :: rest)
    (bufcur.toList.take headlen, bufcur.toList.drop (f.bytes - taillen))

def hasZeroTail (tail : List UInt8) : Bool := tail.all fun b ↦ b = 0

def getPrefixFlags (b : PbbAddressBlock f) : UInt8 :=
  match b.m_prefixList.length with
  | 0 => 0
  | 1 => AHAS_SINGLE_PRE_LEN
  | _ => AHAS_MULTI_PRE_LEN

/-- `GetSerializedSize`; the size of the part between head and tail can be negative. -/
def getSerializedSize (b : PbbAddressBlock f) : UInt32 :=
  let size : UInt32 := 2
  let size := match b.m_addressList with
    | [] => size
    | [_] => size + (UInt32.ofNat f.bytes + UInt32.ofNat b.m_prefixList.length)
    | addresses =>
      let (head, tail) := getHeadTail addresses
      let size := if 0 < head.length then size + (1 + UInt32.ofNat head.length) else size
      let size := if 0 < tail.length then
          size + 1 + (if hasZeroTail tail then 0 else UInt32.ofNat tail.length) else size
      let size := size + (UInt32.ofNat f.bytes - UInt32.ofNat head.length - UInt32.ofNat tail.length) *
        UInt32.ofNat addresses.length
      size + UInt32.ofNat b.m_prefixList.length
  size + PbbTlvBlock.getSerializedSize b.m_addressTlvList

/-- The flags and the bytes for the addresses and their prefix lengths. -/
def serializeAddresses (b : PbbAddressBlock f) : UInt8 × List UInt8 :=
  match b.m_addressList with
  | [] => (0, [])
  | [address] =>
    match b.m_prefixList with
    | [prefixLength] => (AHAS_SINGLE_PRE_LEN, address.toList ++ [prefixLength])
    | _ => (0, address.toList)
  | addresses =>
    let (head, tail) := getHeadTail addresses
    let (flags, bytes) : UInt8 × List UInt8 :=
      if 0 < head.length then (AHAS_HEAD, UInt8.ofNat head.length :: head) else (0, [])
    let (flags, bytes) :=
      if 0 < tail.length then
        if hasZeroTail tail then (flags ||| AHAS_ZERO_TAIL, bytes ++ [UInt8.ofNat tail.length])
        else (flags ||| AHAS_FULL_TAIL, bytes ++ UInt8.ofNat tail.length :: tail)
      else (flags, bytes)
    let mid := if head.length + tail.length < f.bytes then
        addresses.flatMap fun mid ↦
          (mid.toList.drop head.length).take (f.bytes - head.length - tail.length)
      else []
    (flags ||| b.getPrefixFlags, bytes ++ mid ++ b.m_prefixList)

def serialize (b : PbbAddressBlock f) : List UInt8 :=
  [UInt8.ofNat b.m_addressList.length, b.serializeAddresses.1] ++ b.serializeAddresses.2 ++
    PbbTlvBlock.serialize b.m_addressTlvList

def deserializeAddress (addrtmp : List UInt8) : Except Failure (List.Vector UInt8 f.bytes) :=
  if h : addrtmp.length = f.bytes then .ok ⟨addrtmp, h⟩ else .error .aborted

/-- The loop that reads `n` addresses; what is read goes between `head` and `tail`. A negative size
reaches `Read` as a large one. -/
def readAddresses (head tail : List UInt8) :
    ℕ → List UInt8 → Except Failure (List (List.Vector UInt8 f.bytes) × List UInt8)
  | 0, i => .ok ([], i)
  | n + 1, i => do
    if f.bytes < head.length + tail.length then throw .readBeyondEnd
    let (mid, i) ← read (f.bytes - head.length - tail.length) i
    let address ← deserializeAddress (head ++ mid ++ tail)
    let (addresses, i) ← readAddresses head tail n i
    return (address :: addresses, i)

/-- The head, with its length before it; it has to fit into the array. -/
def readHead (f : PbbAddressLength) (i : List UInt8) : Except Failure (List UInt8 × List UInt8) := do
  let (headlen, i) ← readU8 i
  if f.bytes < headlen.toNat then throw .aborted
  read headlen.toNat i

/-- The tail, with its length before it; without `AHAS_FULL_TAIL` the array keeps its zeros. -/
def readTail (f : PbbAddressLength) (fullTail : Bool) (i : List UInt8) :
    Except Failure (List UInt8 × List UInt8) := do
  let (taillen, i) ← readU8 i
  if fullTail then
    if f.bytes < taillen.toNat then throw .aborted
    read taillen.toNat i
  else return (List.replicate taillen.toNat 0, i)

/-- The prefix lengths. -/
def readPrefixes (flags : UInt8) (numaddr : ℕ) (i : List UInt8) :
    Except Failure (List UInt8 × List UInt8) :=
  if flags &&& AHAS_SINGLE_PRE_LEN ≠ 0 then read 1 i
  else if flags &&& AHAS_MULTI_PRE_LEN ≠ 0 then read numaddr i
  else .ok ([], i)

def deserialize (start : List UInt8) : Except Failure (PbbAddressBlock f × List UInt8) := do
  let (numaddr, i) ← readU8 start
  let (flags, i) ← readU8 i
  if 0 < numaddr.toNat then
    let (head, i) ← readIf (flags &&& AHAS_HEAD ≠ 0) (readHead f) i
    let (tail, i) ← readIf ((flags &&& AHAS_FULL_TAIL) ^^^ (flags &&& AHAS_ZERO_TAIL) ≠ 0)
      (readTail f (flags &&& AHAS_FULL_TAIL ≠ 0)) i
    let (m_addressList, i) ← readAddresses (head.getD []) (tail.getD []) numaddr.toNat i
    let (m_prefixList, i) ← readPrefixes flags numaddr.toNat i
    let (m_addressTlvList, i) ← PbbTlvBlock.deserialize i
    return (⟨m_addressList, m_prefixList, m_addressTlvList⟩, i)
  else
    let (m_addressTlvList, i) ← PbbTlvBlock.deserialize i
    return (⟨[], [], m_addressTlvList⟩, i)

/-- `operator==`. -/
def Equal (b o : PbbAddressBlock f) : Prop :=
  b.m_addressList = o.m_addressList ∧ b.m_prefixList = o.m_prefixList ∧
    PbbTlvBlock.Equal b.m_addressTlvList o.m_addressTlvList

instance (b o : PbbAddressBlock f) : Decidable (b.Equal o) :=
  inferInstanceAs (Decidable (_ ∧ _ ∧ _))

end PbbAddressBlock

/-! ## Messages -/

def MHAS_ORIG : UInt8 := 0x80

def MHAS_HOP_LIMIT : UInt8 := 0x40

def MHAS_HOP_COUNT : UInt8 := 0x20

def MHAS_SEQ_NUM : UInt8 := 0x10

/-- `PbbMessageIpv4` and `PbbMessageIpv6`. -/
structure PbbMessage (f : PbbAddressLength) where
  m_type : UInt8
  m_originatorAddress : Option (List.Vector UInt8 f.bytes)
  m_hopLimit : Option UInt8
  m_hopCount : Option UInt8
  m_sequenceNumber : Option UInt16
  m_tlvList : PbbTlvBlock
  m_addressBlockList : List (PbbAddressBlock f)
  deriving DecidableEq

namespace PbbMessage

variable {f : PbbAddressLength}

def getSerializedSize (m : PbbMessage f) : UInt32 :=
  let size : UInt32 := 4 + (if m.m_originatorAddress.isSome then f.toUInt8.toUInt32 + 1 else 0) +
    (if m.m_hopLimit.isSome then 1 else 0) + (if m.m_hopCount.isSome then 1 else 0) +
    (if m.m_sequenceNumber.isSome then 2 else 0) + PbbTlvBlock.getSerializedSize m.m_tlvList
  m.m_addressBlockList.foldl (fun size block ↦ size + block.getSerializedSize) size

/-- The flags, with the length of the addresses in the last four bits. -/
def flags (m : PbbMessage f) : UInt8 :=
  f.toUInt8 ||| (if m.m_originatorAddress.isSome then MHAS_ORIG else 0) |||
    (if m.m_hopLimit.isSome then MHAS_HOP_LIMIT else 0) |||
    (if m.m_hopCount.isSome then MHAS_HOP_COUNT else 0) |||
    if m.m_sequenceNumber.isSome then MHAS_SEQ_NUM else 0

/-- What `Serialize` writes behind the size. -/
def body (m : PbbMessage f) : List UInt8 :=
  m.m_originatorAddress.elim [] List.Vector.toList ++ m.m_hopLimit.toList ++ m.m_hopCount.toList ++
    (m.m_sequenceNumber.elim [] fun n ↦ (Writer.writeHtonU16 n).bytes) ++
    PbbTlvBlock.serialize m.m_tlvList ++ m.m_addressBlockList.flatMap PbbAddressBlock.serialize

def serialize (m : PbbMessage f) : List UInt8 :=
  [m.m_type, m.flags] ++ (Writer.writeHtonU16 (UInt16.ofNat (4 + m.body.length))).bytes ++ m.body

def deserializeOriginatorAddress (i : List UInt8) :
    Except Failure (List.Vector UInt8 f.bytes × List UInt8) := do
  let (buffer, i) ← read f.bytes i
  let address ← PbbAddressBlock.deserializeAddress buffer
  return (address, i)

def deserialize (start : List UInt8) : Except Failure (PbbMessage f × List UInt8) := do
  let (m_type, i) ← readU8 start
  let (flags, i) ← readU8 i
  let (size, i) ← readNtohU16 i
  let (m_originatorAddress, i) ← readIf (flags &&& MHAS_ORIG ≠ 0) deserializeOriginatorAddress i
  let (m_hopLimit, i) ← readIf (flags &&& MHAS_HOP_LIMIT ≠ 0) readU8 i
  let (m_hopCount, i) ← readIf (flags &&& MHAS_HOP_COUNT ≠ 0) readU8 i
  let (m_sequenceNumber, i) ← readIf (flags &&& MHAS_SEQ_NUM ≠ 0) readNtohU16 i
  let (m_tlvList, i) ← PbbTlvBlock.deserialize i
  let (m_addressBlockList, i) ←
    if 0 < size.toNat then
      readWhile PbbAddressBlock.deserialize size.toNat start.length (start.length + 1) i
    else .ok ([], i)
  return (⟨m_type, m_originatorAddress, m_hopLimit, m_hopCount, m_sequenceNumber, m_tlvList,
    m_addressBlockList⟩, i)

/-- `operator==` for messages of one family. -/
def Same (m o : PbbMessage f) : Prop :=
  m.m_type = o.m_type ∧ m.m_originatorAddress = o.m_originatorAddress ∧
    m.m_hopLimit = o.m_hopLimit ∧ m.m_hopCount = o.m_hopCount ∧
    m.m_sequenceNumber = o.m_sequenceNumber ∧ PbbTlvBlock.Equal m.m_tlvList o.m_tlvList ∧
    List.Forall₂ PbbAddressBlock.Equal m.m_addressBlockList o.m_addressBlockList

instance (m o : PbbMessage f) : Decidable (m.Same o) :=
  inferInstanceAs (Decidable (_ ∧ _ ∧ _ ∧ _ ∧ _ ∧ _ ∧ _))

/-- A message of either family. -/
abbrev Any := Σ f, PbbMessage f

/-- `DeserializeMessage`; `none` for a family that is not known. -/
def deserializeMessage (start : List UInt8) : Except Failure (Option Any × List UInt8) := do
  let (_, i) ← readU8 start
  let (addrlen, _) ← readU8 i
  let addrlen := addrlen &&& 0xf
  if addrlen = 0 ∨ addrlen = PbbAddressLength.IPV4.toUInt8 then
    let (newmsg, i) ← deserialize start
    return (some ⟨.IPV4, newmsg⟩, i)
  else if addrlen = PbbAddressLength.IPV6.toUInt8 then
    let (newmsg, i) ← deserialize start
    return (some ⟨.IPV6, newmsg⟩, i)
  else return (none, start)

/-- `operator==`. -/
def Equal : Any → Any → Prop
  | ⟨.IPV4, m⟩, ⟨.IPV4, o⟩ => m.Same o
  | ⟨.IPV6, m⟩, ⟨.IPV6, o⟩ => m.Same o
  | _, _ => False

instance : ∀ m o : Any, Decidable (Equal m o)
  | ⟨.IPV4, m⟩, ⟨.IPV4, o⟩ => inferInstanceAs (Decidable (m.Same o))
  | ⟨.IPV6, m⟩, ⟨.IPV6, o⟩ => inferInstanceAs (Decidable (m.Same o))
  | ⟨.IPV4, _⟩, ⟨.IPV6, _⟩ => .isFalse id
  | ⟨.IPV6, _⟩, ⟨.IPV4, _⟩ => .isFalse id

end PbbMessage

/-! ## Packets -/

def VERSION : UInt8 := 0

def PHAS_SEQ_NUM : UInt8 := 0x8

def PHAS_TLV : UInt8 := 0x4

/-- `PbbPacket`. -/
structure PbbPacket where
  m_version : UInt8
  m_seqnum : Option UInt16
  m_tlvList : PbbTlvBlock
  m_messageList : List PbbMessage.Any
  deriving DecidableEq

namespace PbbPacket

def getSerializedSize (p : PbbPacket) : UInt32 :=
  let size : UInt32 := 1 + (if p.m_seqnum.isSome then 2 else 0) +
    if p.m_tlvList = [] then 0 else PbbTlvBlock.getSerializedSize p.m_tlvList
  p.m_messageList.foldl (fun size message ↦ size + message.2.getSerializedSize) size

/-- The flags, with the version in the first four bits. -/
def flags (p : PbbPacket) : UInt8 :=
  (VERSION <<< 4) ||| (if p.m_seqnum.isSome then PHAS_SEQ_NUM else 0) |||
    if p.m_tlvList = [] then 0 else PHAS_TLV

def serialize (p : PbbPacket) : List UInt8 :=
  [p.flags] ++ (p.m_seqnum.elim [] fun n ↦ (Writer.writeHtonU16 n).bytes) ++
    (if p.m_tlvList = [] then [] else PbbTlvBlock.serialize p.m_tlvList) ++
    p.m_messageList.flatMap fun message ↦ message.2.serialize

/-- `while (!start.IsEnd ())`; also whether the loop has come to the end. -/
def readMessages : ℕ → List UInt8 → Except Failure (List PbbMessage.Any × Bool × List UInt8)
  | 0, _ => .error .outOfFuel
  | fuel + 1, i =>
    if i = [] then .ok ([], true, i)
    else do
      let (newmsg, i) ← PbbMessage.deserializeMessage i
      match newmsg with
      | none => return ([], false, i)
      | some newmsg =>
        let (messages, complete, i) ← readMessages fuel i
        return (newmsg :: messages, complete, i)

/-- `Deserialize` of a new packet, and how much it has read. -/
def deserialize (start : List UInt8) : Except Failure (PbbPacket × ℕ) := do
  let (flags, i) ← readU8 start
  let (m_seqnum, i) ← readIf (flags &&& PHAS_SEQ_NUM ≠ 0) readNtohU16 i
  let (m_tlvList, i) ← readIf (flags &&& PHAS_TLV ≠ 0) PbbTlvBlock.deserialize i
  let (m_messageList, complete, i) ← readMessages (i.length + 1) i
  return (⟨if complete then flags >>> 4 else VERSION, m_seqnum, m_tlvList.getD [], m_messageList⟩,
    start.length - i.length)

/-- `operator==`. -/
def Equal (p o : PbbPacket) : Prop :=
  p.m_version = o.m_version ∧ p.m_seqnum = o.m_seqnum ∧ PbbTlvBlock.Equal p.m_tlvList o.m_tlvList ∧
    List.Forall₂ PbbMessage.Equal p.m_messageList o.m_messageList

instance (p o : PbbPacket) : Decidable (p.Equal o) :=
  inferInstanceAs (Decidable (_ ∧ _ ∧ _ ∧ _))

end PbbPacket

end PacketBB

end Ns3
