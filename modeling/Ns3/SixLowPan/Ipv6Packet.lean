import Ns3.Library.Partial
import Ns3.Network.BufferIterator

/-!
# IPv6 packets over short links

An IPv6 packet as the octets that an adaptation layer finds and leaves: addresses, the interface
identifiers that a node makes from its link-layer address, and the fixed header. An array of the source is a
list that carries its length.
-/

namespace Ns3

namespace SixLowPan

open Buffer (Failure Writer readU8 readNtohU16 readNtohU32 readU8_cons readNtohU16_append
  readNtohU32_append)

/-! ## Arrays of octets -/

/-- An array of `n` octets. -/
abbrev Octets (n : ℕ) := { l : List UInt8 // l.length = n }

/-- An array that is all zero. -/
def zeros (n : ℕ) : Octets n := ⟨List.replicate n 0, List.length_replicate⟩

/-- `n` octets are read. -/
def readOctets (n : ℕ) (i : List UInt8) : Except Failure (Octets n × List UInt8) :=
  if h : n ≤ i.length then .ok (⟨i.take n, List.length_take_of_le h⟩, i.drop n)
  else .error .readBeyondEnd

@[simp] theorem readOctets_append {n : ℕ} (o : Octets n) (i : List UInt8) :
    readOctets n (o.1 ++ i) = .ok (o, i) := by
  have hlen : n ≤ (o.1 ++ i).length := by
    rw [List.length_append, o.2]
    exact Nat.le_add_right n i.length
  rw [readOctets, dif_pos hlen]
  congr
  · exact List.take_left' o.2
  · exact List.drop_left' o.2

/-! ## Addresses -/

/-- An `Ipv6Address`. -/
abbrev Ipv6Address := Octets 16

namespace Ipv6Address

/-- The first eight octets. -/
def networkPart (a : Ipv6Address) : Octets 8 := ⟨a.1.take 8, by rw [List.length_take, a.2]; rfl⟩

/-- The last eight octets. -/
def interfacePart (a : Ipv6Address) : Octets 8 := ⟨a.1.drop 8, by rw [List.length_drop, a.2]⟩

/-- An address of two halves. -/
def ofParts (p i : Octets 8) : Ipv6Address := ⟨p.1 ++ i.1, by rw [List.length_append, p.2, i.2]⟩

def getAny : Ipv6Address := zeros 16

/-- The eight octets of `fe80::/64`. -/
def linkLocalPrefix : Octets 8 := ⟨[0xfe, 0x80, 0, 0, 0, 0, 0, 0], rfl⟩

def IsMulticast (a : Ipv6Address) : Prop := a.1.head? = some 0xff

instance (a : Ipv6Address) : Decidable a.IsMulticast := inferInstanceAs (Decidable (_ = _))

/-- `IsLinkLocal`: an address that is not a multicast address and is `fe80::` behind the mask of
64 bits. -/
def IsLinkLocal (a : Ipv6Address) : Prop :=
  ¬ a.IsMulticast ∧ ofParts a.networkPart (zeros 8) = ofParts linkLocalPrefix (zeros 8)

instance (a : Ipv6Address) : Decidable a.IsLinkLocal := inferInstanceAs (Decidable (_ ∧ _))

@[simp] theorem ofParts_parts (a : Ipv6Address) : ofParts a.networkPart a.interfacePart = a :=
  Subtype.ext (List.take_append_drop 8 a.1)

@[simp] theorem networkPart_ofParts (p i : Octets 8) : (ofParts p i).networkPart = p :=
  Subtype.ext (List.take_left' p.2)

@[simp] theorem interfacePart_ofParts (p i : Octets 8) : (ofParts p i).interfacePart = i :=
  Subtype.ext (List.drop_left' p.2)

theorem ofParts_inj {p i p' i' : Octets 8} : ofParts p i = ofParts p' i' ↔ p = p' ∧ i = i' := by
  constructor
  · intro h
    have hp := congrArg networkPart h
    have hi := congrArg interfacePart h
    simp only [networkPart_ofParts, interfacePart_ofParts] at hp hi
    exact ⟨hp, hi⟩
  · rintro ⟨rfl, rfl⟩
    rfl

/-- An address is link-local if its first half is that of `fe80::/64`. -/
theorem isLinkLocal_iff {a : Ipv6Address} : a.IsLinkLocal ↔ a.networkPart = linkLocalPrefix := by
  rw [IsLinkLocal, ofParts_inj]
  constructor
  · exact fun h ↦ h.2.1
  · intro h
    refine ⟨fun hmulti ↦ ?_, h, rfl⟩
    have hhead : a.1.head? = (a.1.take 8).head? := by
      rw [List.head?_take]
      rfl
    rw [IsMulticast, hhead, show a.1.take 8 = linkLocalPrefix.1 from congrArg Subtype.val h] at hmulti
    exact absurd hmulti (by decide)

end Ipv6Address

/-- The link-layer addresses that an interface identifier can be made from. -/
inductive LinkAddress
  | mac8 (b : UInt8)
  | mac16 (b₀ b₁ : UInt8)
  | mac48 (b₀ b₁ b₂ b₃ b₄ b₅ : UInt8)
  | mac64 (b₀ b₁ b₂ b₃ b₄ b₅ b₆ b₇ : UInt8)
  deriving DecidableEq, Repr

namespace LinkAddress

/-- The last eight octets of an autoconfigured address. -/
def interfacePart : LinkAddress → Octets 8
  | mac8 b => ⟨[0, 0, 0, 0xff, 0xfe, 0, 0, b], rfl⟩
  | mac16 b₀ b₁ => ⟨[0, 0, 0, 0xff, 0xfe, 0, b₀, b₁], rfl⟩
  | mac48 b₀ b₁ b₂ b₃ b₄ b₅ => ⟨[b₀ ^^^ 0x02, b₁, b₂, 0xff, 0xfe, b₃, b₄, b₅], rfl⟩
  | mac64 b₀ b₁ b₂ b₃ b₄ b₅ b₆ b₇ => ⟨[b₀, b₁, b₂, b₃, b₄, b₅, b₆, b₇], rfl⟩

/-- `MakeAutoconfiguredAddress`, which takes the address `::` for one of an unknown type. -/
def makeAutoconfiguredAddress (addr : LinkAddress) (prefixAddr : Ipv6Address) :
    Except Failure Ipv6Address :=
  let ipv6Addr := Ipv6Address.ofParts prefixAddr.networkPart addr.interfacePart
  if ipv6Addr = Ipv6Address.getAny then .error .aborted else .ok ipv6Addr

def makeAutoconfiguredLinkLocalAddress (addr : LinkAddress) : Except Failure Ipv6Address :=
  let ipv6Addr := Ipv6Address.ofParts Ipv6Address.linkLocalPrefix addr.interfacePart
  if ipv6Addr = Ipv6Address.getAny then .error .aborted else .ok ipv6Addr

@[simp] theorem makeAutoconfiguredLinkLocalAddress_eq (addr : LinkAddress) :
    addr.makeAutoconfiguredLinkLocalAddress =
      .ok (Ipv6Address.ofParts Ipv6Address.linkLocalPrefix addr.interfacePart) := by
  unfold makeAutoconfiguredLinkLocalAddress
  refine if_neg fun h ↦ ?_
  have := congrArg Ipv6Address.networkPart h
  rw [Ipv6Address.networkPart_ofParts] at this
  exact absurd this (by decide)

end LinkAddress

/-! ## The fixed header -/

/-- An `Ipv6Header`; the flow label is a bit-field. -/
structure Ipv6Header where
  m_trafficClass : UInt8
  m_flowLabel : BitVec 20
  m_payloadLength : UInt16
  m_nextHeader : UInt8
  m_hopLimit : UInt8
  m_sourceAddress : Ipv6Address
  m_destinationAddress : Ipv6Address
  deriving DecidableEq

namespace Ipv6Header

def getSerializedSize : ℕ := 10 * 4

/-- The first word: version, traffic class and flow label. -/
def vTcFl (h : Ipv6Header) : UInt32 :=
  ((6 : UInt32) <<< 28) ||| (h.m_trafficClass.toUInt32 <<< 20) ||| ⟨h.m_flowLabel.setWidth 32⟩

def serialize (h : Ipv6Header) : List UInt8 :=
  (Writer.writeHtonU32 h.vTcFl).bytes ++ ((Writer.writeHtonU16 h.m_payloadLength).bytes ++
    (h.m_nextHeader :: h.m_hopLimit :: (h.m_sourceAddress.1 ++ h.m_destinationAddress.1)))

/-- `Deserialize`, and the size that it returns; `none` where it returns zero. The mask of the flow label is
that of the other bits. -/
def deserialize (start : List UInt8) : Except Failure (Option (Ipv6Header × ℕ)) := do
  let (vTcFl, i) ← readNtohU32 start
  if vTcFl >>> 28 ≠ 6 then return none
  let (m_payloadLength, i) ← readNtohU16 i
  let (m_nextHeader, i) ← readU8 i
  let (m_hopLimit, i) ← readU8 i
  let (m_sourceAddress, i) ← readOctets 16 i
  let (m_destinationAddress, _) ← readOctets 16 i
  return some (⟨((vTcFl >>> 20) &&& 0xff).toUInt8, (vTcFl &&& 0xfff00000).toBitVec.setWidth 20,
    m_payloadLength, m_nextHeader, m_hopLimit, m_sourceAddress, m_destinationAddress⟩, getSerializedSize)

@[simp] theorem length_serialize (h : Ipv6Header) : h.serialize.length = getSerializedSize := by
  simp [serialize, Writer.bytes, h.m_sourceAddress.2, h.m_destinationAddress.2, getSerializedSize]

theorem toNat_vTcFl (h : Ipv6Header) :
    h.vTcFl.toNat = 6 * 2 ^ 28 + h.m_trafficClass.toNat * 2 ^ 20 + h.m_flowLabel.toNat := by
  have htc := h.m_trafficClass.toNat_lt
  have hfl := h.m_flowLabel.isLt
  have hversion : ((6 : UInt32) <<< 28).toNat = 6 * 2 ^ 28 := by decide
  have hclass : (h.m_trafficClass.toUInt32 <<< 20).toNat = h.m_trafficClass.toNat <<< 20 := by
    rw [UInt32.toNat_shiftLeft, UInt8.toNat_toUInt32]
    refine Nat.mod_eq_of_lt ?_
    rw [Nat.shiftLeft_eq]
    change h.m_trafficClass.toNat * 2 ^ 20 < 2 ^ 32
    omega
  have hlabel : (⟨h.m_flowLabel.setWidth 32⟩ : UInt32).toNat = h.m_flowLabel.toNat := by
    change (h.m_flowLabel.setWidth 32).toNat = _
    rw [BitVec.toNat_setWidth]
    omega
  rw [vTcFl, UInt32.toNat_or, UInt32.toNat_or, hversion, hclass, hlabel,
    show 6 * 2 ^ 28 = (6 * 2 ^ 8) <<< 20 by decide, ← Nat.shiftLeft_or_distrib,
    ← Nat.shiftLeft_add_eq_or_of_lt hfl, show 6 * 2 ^ 8 = 6 <<< 8 by decide,
    ← Nat.shiftLeft_add_eq_or_of_lt htc, Nat.shiftLeft_eq, Nat.shiftLeft_eq]
  omega

theorem vTcFl_version (h : Ipv6Header) : h.vTcFl >>> 28 = 6 := by
  have htc := h.m_trafficClass.toNat_lt
  have hfl := h.m_flowLabel.isLt
  apply UInt32.toNat_inj.mp
  rw [UInt32.toNat_shiftRight, h.toNat_vTcFl, Nat.shiftRight_eq_div_pow]
  change _ / 2 ^ 28 = 6
  omega

theorem vTcFl_trafficClass (h : Ipv6Header) :
    ((h.vTcFl >>> 20) &&& 0xff).toUInt8 = h.m_trafficClass := by
  have htc := h.m_trafficClass.toNat_lt
  have hfl := h.m_flowLabel.isLt
  apply UInt8.toNat_inj.mp
  rw [UInt32.toNat_toUInt8, UInt32.toNat_and, UInt32.toNat_shiftRight, h.toNat_vTcFl,
    Nat.shiftRight_eq_div_pow]
  change ((_ / 2 ^ 20) &&& (2 ^ 8 - 1)) % 2 ^ 8 = _
  rw [Nat.and_two_pow_sub_one_eq_mod]
  omega

theorem flowLabel_mask (v : UInt32) : (v &&& 0xfff00000).toBitVec.setWidth 20 = 0#20 := by
  have hmask : ∀ i < 20, (0xfff00000#32).getLsbD i = false := by decide
  ext i hi
  have hbit : ((v &&& 0xfff00000).toBitVec.setWidth 20).getLsbD i =
      (decide (i < 20) && (v.toBitVec.getLsbD i && (0xfff00000#32).getLsbD i)) := by
    rw [BitVec.getLsbD_setWidth, UInt32.toBitVec_and, BitVec.getLsbD_and]
    rfl
  rw [← BitVec.getLsbD_eq_getElem, hbit, hmask i hi]
  simp

/-- **A header is read without its flow label.** -/
theorem deserialize_serialize (h : Ipv6Header) (i : List UInt8) :
    deserialize (h.serialize ++ i) =
      .ok (some ({ h with m_flowLabel := 0 }, getSerializedSize)) := by
  have hclass := h.vTcFl_trafficClass
  rw [deserialize, serialize]
  simp only [List.append_assoc, List.cons_append, readU8_cons, readNtohU16_append, readNtohU32_append,
    readOctets_append, Except.ok_bind, vTcFl_version, ne_eq, not_true_eq_false, if_false, hclass,
    flowLabel_mask]
  rfl

theorem serialize_inj {h h' : Ipv6Header} : h.serialize = h'.serialize ↔ h = h' := by
  refine ⟨fun heq ↦ ?_, fun heq ↦ heq ▸ rfl⟩
  have hread : deserialize (h.serialize ++ []) = deserialize (h'.serialize ++ []) := by rw [heq]
  rw [deserialize_serialize, deserialize_serialize, Except.ok_inj, Option.some_inj, Prod.mk.injEq] at hread
  have hword : readNtohU32 (h.serialize ++ []) = readNtohU32 (h'.serialize ++ []) := by rw [heq]
  simp only [serialize, List.append_assoc, readNtohU32_append, Except.ok_inj, Prod.mk.injEq] at hword
  obtain ⟨m_trafficClass, m_flowLabel, _, _, _, _, _⟩ := h
  obtain ⟨m_trafficClass', m_flowLabel', _, _, _, _, _⟩ := h'
  simp only [Ipv6Header.mk.injEq] at hread
  obtain ⟨⟨rfl, -, rfl, rfl, rfl, rfl, rfl⟩, -⟩ := hread
  have hnat := congrArg UInt32.toNat hword.1
  rw [toNat_vTcFl, toNat_vTcFl] at hnat
  have hlabel : m_flowLabel = m_flowLabel' := BitVec.eq_of_toNat_eq (Nat.add_left_cancel hnat)
  rw [hlabel]

end Ipv6Header

end SixLowPan

end Ns3
