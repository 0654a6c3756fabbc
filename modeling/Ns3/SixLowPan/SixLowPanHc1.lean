import Ns3.SixLowPan.Ipv6Packet

/-!
# HC1 compression

The header `SixLowPanHc1` and the two directions of HC1 compression. Each half of an address is sent or left
out; what is left out is the prefix `fe80::/64` or the interface identifier that the link-layer address gives.

Decompression sets two of the first eight octets of an address whose prefix has been left out. The other six
are what the array on the stack happens to hold, and stand here as arguments.
-/

namespace Ns3

namespace SixLowPan

open Buffer (Failure Writer readU8 readU8_cons)

/-! ## The header -/

/-- How an address is sent: the prefix and the interface identifier, inline or compressed. -/
inductive LowPanHc1Addr
  | HC1_PIII
  | HC1_PIIC
  | HC1_PCII
  | HC1_PCIC
  deriving DecidableEq, Repr

/-- How the next header is sent. -/
inductive LowPanHc1NextHeader
  | HC1_NC
  | HC1_UDP
  | HC1_ICMP
  | HC1_TCP
  deriving DecidableEq, Repr

/-- The value of an enumerator. -/
def LowPanHc1Addr.toUInt8 : LowPanHc1Addr → UInt8
  | HC1_PIII => 0
  | HC1_PIIC => 1
  | HC1_PCII => 2
  | HC1_PCIC => 3

/-- The enumerator of two bits. -/
def LowPanHc1Addr.ofUInt8 (b : UInt8) : LowPanHc1Addr :=
  if b = 0 then HC1_PIII else if b = 1 then HC1_PIIC else if b = 2 then HC1_PCII else HC1_PCIC

/-- The value of an enumerator. -/
def LowPanHc1NextHeader.toUInt8 : LowPanHc1NextHeader → UInt8
  | HC1_NC => 0
  | HC1_UDP => 1
  | HC1_ICMP => 2
  | HC1_TCP => 3

/-- The enumerator of two bits. -/
def LowPanHc1NextHeader.ofUInt8 (b : UInt8) : LowPanHc1NextHeader :=
  if b = 0 then HC1_NC else if b = 1 then HC1_UDP else if b = 2 then HC1_ICMP else HC1_TCP

/-- `m_srcCompression`, `m_srcPrefix` and `m_srcInterface`, or those of the destination. -/
structure Hc1Address where
  compression : LowPanHc1Addr
  prefixPart : Octets 8
  interfacePart : Octets 8
  deriving DecidableEq

/-- A `SixLowPanHc1` header. -/
structure SixLowPanHc1 where
  m_hopLimit : UInt8
  m_src : Hc1Address
  m_dst : Hc1Address
  m_tcflCompression : Bool
  m_trafficClass : UInt8
  m_flowLabel : UInt32
  m_nextHeader : UInt8
  m_nextHeaderCompression : LowPanHc1NextHeader
  m_hc2HeaderPresent : Bool
  deriving DecidableEq

def IPV6_TCP : UInt8 := 6

def IPV6_UDP : UInt8 := 17

def IPV6_ICMPV6 : UInt8 := 58

/-- `SixLowPanDispatch::LOWPAN_HC1`. -/
def LOWPAN_HC1 : UInt8 := 0x42

namespace Hc1Address

/-- The octets of an address in `GetSerializedSize`. -/
def getSerializedSize (a : Hc1Address) : ℕ :=
  match a.compression with
  | .HC1_PIII => 16
  | .HC1_PIIC => 8
  | .HC1_PCII => 8
  | .HC1_PCIC => 0

/-- An address in `Serialize`. -/
def serialize (a : Hc1Address) : List UInt8 :=
  match a.compression with
  | .HC1_PIII => a.prefixPart.1 ++ a.interfacePart.1
  | .HC1_PIIC => a.prefixPart.1
  | .HC1_PCII => a.interfacePart.1
  | .HC1_PCIC => []

/-- An address in `Deserialize`. -/
def deserialize (a : Hc1Address) (i : List UInt8) : Except Failure (Hc1Address × List UInt8) :=
  match a.compression with
  | .HC1_PIII => do
    let (p, i) ← readOctets 8 i
    let (iid, i) ← readOctets 8 i
    return ({ a with prefixPart := p, interfacePart := iid }, i)
  | .HC1_PIIC => do
    let (p, i) ← readOctets 8 i
    return ({ a with prefixPart := p }, i)
  | .HC1_PCII => do
    let (iid, i) ← readOctets 8 i
    return ({ a with interfacePart := iid }, i)
  | .HC1_PCIC => return (a, i)

/-- The parts that are sent are those of another address. -/
def Agrees (a b : Hc1Address) : Prop :=
  a.compression = b.compression ∧
    match a.compression with
    | .HC1_PIII => a.prefixPart = b.prefixPart ∧ a.interfacePart = b.interfacePart
    | .HC1_PIIC => a.prefixPart = b.prefixPart
    | .HC1_PCII => a.interfacePart = b.interfacePart
    | .HC1_PCIC => True

theorem length_serialize (a : Hc1Address) : a.serialize.length = a.getSerializedSize := by
  unfold serialize getSerializedSize
  cases a.compression <;> simp [a.prefixPart.2, a.interfacePart.2]

/-- **What is read of an address agrees with what was written.** -/
theorem deserialize_serialize (a b : Hc1Address) (h : b.compression = a.compression) (i : List UInt8) :
    ∃ c, b.deserialize (a.serialize ++ i) = .ok (c, i) ∧ a.Agrees c := by
  obtain ⟨compression, p, iid⟩ := a
  obtain ⟨compression', p', iid'⟩ := b
  change compression' = compression at h
  subst h
  cases compression' with
  | HC1_PIII =>
    refine ⟨⟨.HC1_PIII, p, iid⟩, ?_, rfl, rfl, rfl⟩
    simp only [deserialize, serialize, List.append_assoc, readOctets_append, Except.ok_bind]
    rfl
  | HC1_PIIC =>
    refine ⟨⟨.HC1_PIIC, p, iid'⟩, ?_, rfl, rfl⟩
    simp only [deserialize, serialize, readOctets_append, Except.ok_bind]
    rfl
  | HC1_PCII =>
    refine ⟨⟨.HC1_PCII, p', iid⟩, ?_, rfl, rfl⟩
    simp only [deserialize, serialize, readOctets_append, Except.ok_bind]
    rfl
  | HC1_PCIC => exact ⟨⟨.HC1_PCIC, p', iid'⟩, rfl, rfl, trivial⟩

end Hc1Address

namespace SixLowPanHc1

/-- A new header. The constructor only sets the hop limit, and what it leaves is set before it is used. -/
def create : SixLowPanHc1 :=
  ⟨0, ⟨.HC1_PIII, zeros 8, zeros 8⟩, ⟨.HC1_PIII, zeros 8, zeros 8⟩, false, 0, 0, 0, .HC1_NC, false⟩

def setNextHeader (h : SixLowPanHc1) (nextHeader : UInt8) : SixLowPanHc1 :=
  { h with
    m_nextHeader := nextHeader
    m_nextHeaderCompression :=
      if nextHeader = IPV6_UDP then .HC1_UDP
      else if nextHeader = IPV6_TCP then .HC1_TCP
      else if nextHeader = IPV6_ICMPV6 then .HC1_ICMP
      else .HC1_NC }

def getSerializedSize (h : SixLowPanHc1) : ℕ :=
  3 + h.m_src.getSerializedSize + h.m_dst.getSerializedSize +
    (if h.m_tcflCompression then 0 else 4) +
    (if h.m_nextHeaderCompression = .HC1_NC then 1 else 0)

/-- The octet of the encoding. -/
def encoding (h : SixLowPanHc1) : UInt8 :=
  (((((((h.m_src.compression.toUInt8 <<< 2) ||| h.m_dst.compression.toUInt8) <<< 1) |||
    h.m_tcflCompression.toUInt8) <<< 2) ||| h.m_nextHeaderCompression.toUInt8) <<< 1) |||
      h.m_hc2HeaderPresent.toUInt8

/-- The traffic class and the flow label in `Serialize`. -/
def serializeTcfl (h : SixLowPanHc1) : List UInt8 :=
  if h.m_tcflCompression then []
  else [h.m_trafficClass, (h.m_flowLabel &&& 0xff).toUInt8, ((h.m_flowLabel >>> 8) &&& 0xff).toUInt8,
    ((h.m_flowLabel >>> 16) &&& 0xff).toUInt8]

/-- The next header in `Serialize`. -/
def serializeNextHeader (h : SixLowPanHc1) : List UInt8 :=
  if h.m_nextHeaderCompression = .HC1_NC then [h.m_nextHeader] else []

/-- `Serialize`, with its assertion. -/
def serialize (h : SixLowPanHc1) : Except Failure (List UInt8) :=
  if h.m_hc2HeaderPresent then .error .aborted
  else .ok ([LOWPAN_HC1, h.encoding, h.m_hopLimit] ++
    (h.m_src.serialize ++ (h.m_dst.serialize ++ (h.serializeTcfl ++ h.serializeNextHeader))))

/-- The traffic class and the flow label in `Deserialize`. -/
def deserializeTcfl (h : SixLowPanHc1) (i : List UInt8) : Except Failure (SixLowPanHc1 × List UInt8) :=
  if h.m_tcflCompression then return (h, i)
  else do
    let (m_trafficClass, i) ← readU8 i
    let (t₀, i) ← readU8 i
    let (t₁, i) ← readU8 i
    let (t₂, i) ← readU8 i
    return ({ h with
      m_trafficClass := m_trafficClass
      m_flowLabel := (((t₂.toUInt32 <<< 8) ||| t₁.toUInt32) <<< 8) ||| t₀.toUInt32 }, i)

/-- The next header in `Deserialize`. -/
def deserializeNextHeader (h : SixLowPanHc1) (i : List UInt8) :
    Except Failure (SixLowPanHc1 × List UInt8) :=
  match h.m_nextHeaderCompression with
  | .HC1_NC => do
    let (m_nextHeader, i) ← readU8 i
    return ({ h with m_nextHeader := m_nextHeader }, i)
  | .HC1_TCP => return ({ h with m_nextHeader := IPV6_TCP }, i)
  | .HC1_UDP => return ({ h with m_nextHeader := IPV6_UDP }, i)
  | .HC1_ICMP => return ({ h with m_nextHeader := IPV6_ICMPV6 }, i)

/-- `Deserialize`, and the size that it returns. -/
def deserialize (h : SixLowPanHc1) (start : List UInt8) : Except Failure (SixLowPanHc1 × ℕ) := do
  let (dispatch, i) ← readU8 start
  if dispatch ≠ LOWPAN_HC1 then return (h, 0)
  let (encoding, i) ← readU8 i
  let (m_hopLimit, i) ← readU8 i
  let m_src := { h.m_src with compression := .ofUInt8 (encoding >>> 6) }
  let m_dst := { h.m_dst with compression := .ofUInt8 ((encoding >>> 4) &&& 0x3) }
  let (m_src, i) ← m_src.deserialize i
  let (m_dst, i) ← m_dst.deserialize i
  let h := { h with
    m_hopLimit := m_hopLimit
    m_src := m_src
    m_dst := m_dst
    m_tcflCompression := (encoding >>> 3) &&& 0x1 ≠ 0
    m_nextHeaderCompression := .ofUInt8 ((encoding >>> 1) &&& 0x3)
    m_hc2HeaderPresent := encoding &&& 0x1 ≠ 0 }
  let (h, i) ← h.deserializeTcfl i
  let (h, _) ← h.deserializeNextHeader i
  if h.m_hc2HeaderPresent then throw .aborted
  return (h, h.getSerializedSize)

/-! ### What is read is what was written -/

theorem encoding_fields (h : SixLowPanHc1) :
    LowPanHc1Addr.ofUInt8 (h.encoding >>> 6) = h.m_src.compression ∧
      LowPanHc1Addr.ofUInt8 ((h.encoding >>> 4) &&& 0x3) = h.m_dst.compression ∧
      decide ((h.encoding >>> 3) &&& 0x1 ≠ 0) = h.m_tcflCompression ∧
      LowPanHc1NextHeader.ofUInt8 ((h.encoding >>> 1) &&& 0x3) = h.m_nextHeaderCompression ∧
      decide (h.encoding &&& 0x1 ≠ 0) = h.m_hc2HeaderPresent := by
  unfold encoding
  cases h.m_src.compression <;> cases h.m_dst.compression <;> cases h.m_tcflCompression <;>
    cases h.m_nextHeaderCompression <;> cases h.m_hc2HeaderPresent <;> decide

theorem flowLabel_octets {v : UInt32} (hv : v.toNat < 2 ^ 24) :
    (((((v >>> 16) &&& 0xff).toUInt8.toUInt32 <<< 8) ||| ((v >>> 8) &&& 0xff).toUInt8.toUInt32) <<< 8) |||
      (v &&& 0xff).toUInt8.toUInt32 = v := by
  have hbyte : ∀ w : UInt32, (w &&& 0xff).toUInt8.toNat = w.toNat % 256 := by
    intro w
    rw [UInt32.toNat_toUInt8, UInt32.toNat_and]
    change (w.toNat &&& (2 ^ 8 - 1)) % 2 ^ 8 = _
    rw [Nat.and_two_pow_sub_one_eq_mod]
    omega
  have h16 : (v >>> 16).toNat = v.toNat / 65536 := by
    rw [UInt32.toNat_shiftRight, Nat.shiftRight_eq_div_pow]
    rfl
  have h8 : (v >>> 8).toNat = v.toNat / 256 := by
    rw [UInt32.toNat_shiftRight, Nat.shiftRight_eq_div_pow]
    rfl
  apply UInt32.toNat_inj.mp
  have hfirst := Buffer.toNat_shiftLeft_or32 (a := ((v >>> 16) &&& 0xff).toUInt8.toUInt32)
    (by rw [UInt8.toNat_toUInt32, hbyte]; omega) ((v >>> 8) &&& 0xff).toUInt8
  rw [UInt8.toNat_toUInt32, hbyte, hbyte, h16, h8] at hfirst
  rw [Buffer.toNat_shiftLeft_or32 (by rw [hfirst]; omega), hfirst, hbyte]
  omega

/-- What of a header is read again, where it was written. -/
structure Agrees (h h' : SixLowPanHc1) : Prop where
  hopLimit : h'.m_hopLimit = h.m_hopLimit
  src : h.m_src.Agrees h'.m_src
  dst : h.m_dst.Agrees h'.m_dst
  tcflCompression : h'.m_tcflCompression = h.m_tcflCompression
  tcfl : h.m_tcflCompression = false →
    h'.m_trafficClass = h.m_trafficClass ∧ h'.m_flowLabel = h.m_flowLabel
  nextHeader : h'.m_nextHeader = h.m_nextHeader
  nextHeaderCompression : h'.m_nextHeaderCompression = h.m_nextHeaderCompression
  hc2HeaderPresent : h'.m_hc2HeaderPresent = false

theorem Agrees.getSerializedSize {h h' : SixLowPanHc1} (ha : h.Agrees h') :
    h'.getSerializedSize = h.getSerializedSize := by
  have hsize : ∀ {a b : Hc1Address}, a.Agrees b → b.getSerializedSize = a.getSerializedSize := by
    intro a b hab
    rw [Hc1Address.getSerializedSize, Hc1Address.getSerializedSize, hab.1]
  rw [SixLowPanHc1.getSerializedSize, SixLowPanHc1.getSerializedSize, hsize ha.src, hsize ha.dst,
    ha.tcflCompression, ha.nextHeaderCompression]

/-- The next header is that of its compression, as `SetNextHeader` leaves it. -/
def NextHeaderSet (h : SixLowPanHc1) : Prop := h.setNextHeader h.m_nextHeader = h

theorem length_serialize {h : SixLowPanHc1} {bytes : List UInt8} (hs : h.serialize = .ok bytes) :
    bytes.length = h.getSerializedSize := by
  rw [serialize] at hs
  split_ifs at hs
  rw [← Except.ok.inj hs, getSerializedSize, serializeTcfl, serializeNextHeader]
  simp only [List.length_append, List.length_cons, List.length_nil, Hc1Address.length_serialize]
  split_ifs <;> simp only [List.length_cons, List.length_nil] <;> omega

theorem deserializeTcfl_serializeTcfl (h h' : SixLowPanHc1) (i : List UInt8)
    (heq : h'.m_tcflCompression = h.m_tcflCompression) (hlabel : h.m_flowLabel.toNat < 2 ^ 24) :
    ∃ tc fl, h'.deserializeTcfl (h.serializeTcfl ++ i) =
        .ok ({ h' with m_trafficClass := tc, m_flowLabel := fl }, i) ∧
      (h.m_tcflCompression = false → tc = h.m_trafficClass ∧ fl = h.m_flowLabel) := by
  by_cases hc : h.m_tcflCompression = true
  · refine ⟨h'.m_trafficClass, h'.m_flowLabel, ?_, fun hf ↦ absurd (hc.symm.trans hf) (by decide)⟩
    rw [deserializeTcfl, if_pos (heq.trans hc), serializeTcfl, if_pos hc]
    rfl
  · refine ⟨h.m_trafficClass, h.m_flowLabel, ?_, fun _ ↦ ⟨rfl, rfl⟩⟩
    rw [deserializeTcfl, if_neg (heq ▸ hc), serializeTcfl, if_neg hc]
    simp only [List.cons_append, List.nil_append, readU8_cons, Except.ok_bind, flowLabel_octets hlabel]
    rfl

theorem deserializeNextHeader_serializeNextHeader (h h' : SixLowPanHc1) (i : List UInt8)
    (hset : h.NextHeaderSet) (heq : h'.m_nextHeaderCompression = h.m_nextHeaderCompression) :
    ∃ j, h'.deserializeNextHeader (h.serializeNextHeader ++ i) =
      .ok ({ h' with m_nextHeader := h.m_nextHeader }, j) := by
  have hcomp := congrArg m_nextHeaderCompression hset
  rw [deserializeNextHeader, serializeNextHeader, heq]
  rw [setNextHeader] at hcomp
  dsimp only at hcomp
  split_ifs at hcomp with hudp htcp hicmp
  · rw [← hcomp, hudp]
    exact ⟨_, rfl⟩
  · rw [← hcomp, htcp]
    exact ⟨_, rfl⟩
  · rw [← hcomp, hicmp]
    exact ⟨_, rfl⟩
  · rw [← hcomp]
    exact ⟨_, rfl⟩

/-- **What is read of a header is what was written.** -/
theorem deserialize_serialize (h h₀ : SixLowPanHc1) (hset : h.NextHeaderSet)
    (hlabel : h.m_flowLabel.toNat < 2 ^ 24) (hhc2 : h.m_hc2HeaderPresent = false) {bytes : List UInt8}
    (hs : h.serialize = .ok bytes) (i : List UInt8) :
    ∃ h', h₀.deserialize (bytes ++ i) = .ok (h', bytes.length) ∧ h.Agrees h' := by
  have hlen := length_serialize hs
  obtain ⟨hsrc, hdst, htcfl, hnh, hhc2'⟩ := h.encoding_fields
  rw [serialize, hhc2, if_neg Bool.false_ne_true] at hs
  obtain rfl := Except.ok.inj hs
  obtain ⟨src, hreadSrc, hsrcAgrees⟩ := h.m_src.deserialize_serialize
    { h₀.m_src with compression := .ofUInt8 (h.encoding >>> 6) } hsrc
    (h.m_dst.serialize ++ (h.serializeTcfl ++ (h.serializeNextHeader ++ i)))
  obtain ⟨dst, hreadDst, hdstAgrees⟩ := h.m_dst.deserialize_serialize
    { h₀.m_dst with compression := .ofUInt8 ((h.encoding >>> 4) &&& 0x3) } hdst
    (h.serializeTcfl ++ (h.serializeNextHeader ++ i))
  set h₁ : SixLowPanHc1 := { h₀ with
    m_hopLimit := h.m_hopLimit
    m_src := src
    m_dst := dst
    m_tcflCompression := decide ((h.encoding >>> 3) &&& 0x1 ≠ 0)
    m_nextHeaderCompression := .ofUInt8 ((h.encoding >>> 1) &&& 0x3)
    m_hc2HeaderPresent := decide (h.encoding &&& 0x1 ≠ 0) } with h₁def
  obtain ⟨tc, fl, hreadTcfl, htcflAgrees⟩ := deserializeTcfl_serializeTcfl h h₁
    (h.serializeNextHeader ++ i) htcfl hlabel
  obtain ⟨j, hreadNext⟩ := deserializeNextHeader_serializeNextHeader h
    { h₁ with m_trafficClass := tc, m_flowLabel := fl } i hset hnh
  have hagrees : h.Agrees { h₁ with
      m_trafficClass := tc, m_flowLabel := fl, m_nextHeader := h.m_nextHeader } :=
    ⟨rfl, hsrcAgrees, hdstAgrees, htcfl, htcflAgrees, rfl, hnh, hhc2'.trans hhc2⟩
  refine ⟨_, ?_, hagrees⟩
  rw [deserialize]
  simp only [List.cons_append, List.nil_append, List.append_assoc, readU8_cons, Except.ok_bind,
    ne_eq, not_true_eq_false, if_false]
  rw [hreadSrc, Except.ok_bind]
  dsimp only
  rw [hreadDst, Except.ok_bind]
  dsimp only
  rw [← h₁def, hreadTcfl, Except.ok_bind]
  dsimp only
  rw [hreadNext, Except.ok_bind]
  have hlast : h₁.m_hc2HeaderPresent = false := hhc2'.trans hhc2
  have hsize := hagrees.getSerializedSize.trans hlen.symm
  dsimp only
  rw [if_neg (by rw [hlast]; exact Bool.false_ne_true)]
  exact congrArg (fun k ↦ Except.ok (_, k)) hsize

end SixLowPanHc1

/-! ## Compression -/

/-- How `CompressLowPanHc1` sends an address whose owner has a link-layer address. -/
def compressAddress (h : Hc1Address) (link : LinkAddress) (a : Ipv6Address) :
    Except Failure Hc1Address := do
  let mine ← link.makeAutoconfiguredLinkLocalAddress
  if a.IsLinkLocal ∧ a.interfacePart = mine.interfacePart then
    return { h with compression := .HC1_PCIC }
  else if a.IsLinkLocal then
    return { h with compression := .HC1_PCII, interfacePart := a.interfacePart }
  else if a.interfacePart = mine.interfacePart then
    return { h with compression := .HC1_PIIC, prefixPart := a.networkPart }
  else
    return { h with
      compression := .HC1_PIII, interfacePart := a.interfacePart, prefixPart := a.networkPart }

/-- The traffic class and the flow label in `CompressLowPanHc1`. -/
def compressTcfl (h : SixLowPanHc1) (ipHeader : Ipv6Header) : SixLowPanHc1 :=
  if ipHeader.m_flowLabel = 0 ∧ ipHeader.m_trafficClass = 0 then { h with m_tcflCompression := true }
  else { h with
    m_tcflCompression := false
    m_trafficClass := ipHeader.m_trafficClass
    m_flowLabel := ⟨ipHeader.m_flowLabel.setWidth 32⟩ }

/-- `CompressLowPanHc1`: the packet, and the size of the header that has been compressed. -/
def compressLowPanHc1 (packet : List UInt8) (src dst : LinkAddress) :
    Except Failure (List UInt8 × ℕ) := do
  match ← Ipv6Header.deserialize packet with
  | none => return (packet, 0)
  | some (ipHeader, removed) =>
    let hc1Header := { SixLowPanHc1.create with m_hopLimit := ipHeader.m_hopLimit }
    let m_src ← compressAddress hc1Header.m_src src ipHeader.m_sourceAddress
    let m_dst ← compressAddress hc1Header.m_dst dst ipHeader.m_destinationAddress
    let hc1Header := { (compressTcfl { hc1Header with m_src := m_src, m_dst := m_dst } ipHeader).setNextHeader
      ipHeader.m_nextHeader with m_hc2HeaderPresent := false }
    let bytes ← hc1Header.serialize
    return (bytes ++ packet.drop removed, Ipv6Header.getSerializedSize)

/-- How `DecompressLowPanHc1` makes an address; `stack` are the octets of the array that it does not set. -/
def decompressAddress (stack : Octets 6) (link : LinkAddress) (a : Hc1Address) :
    Except Failure Ipv6Address :=
  match a.compression with
  | .HC1_PIII => .ok (.ofParts a.prefixPart a.interfacePart)
  | .HC1_PIIC => link.makeAutoconfiguredAddress (.ofParts a.prefixPart (zeros 8))
  | .HC1_PCII => .ok (.ofParts ⟨[0xfe, 0x80] ++ stack.1, by rw [List.length_append, stack.2]; rfl⟩
      a.interfacePart)
  | .HC1_PCIC => link.makeAutoconfiguredLinkLocalAddress

def decompressLowPanHc1 (stackSrc stackDst : Octets 6) (packet : List UInt8) (src dst : LinkAddress) :
    Except Failure (List UInt8) := do
  let (encoding, ret) ← SixLowPanHc1.create.deserialize packet
  let packet := packet.drop ret
  let m_sourceAddress ← decompressAddress stackSrc src encoding.m_src
  let m_destinationAddress ← decompressAddress stackDst dst encoding.m_dst
  let ipHeader : Ipv6Header :=
    { m_trafficClass := if encoding.m_tcflCompression then 0 else encoding.m_trafficClass
      m_flowLabel := if encoding.m_tcflCompression then 0 else encoding.m_flowLabel.toBitVec.setWidth 20
      m_payloadLength := UInt16.ofNat packet.length
      m_nextHeader := encoding.m_nextHeader
      m_hopLimit := encoding.m_hopLimit
      m_sourceAddress := m_sourceAddress
      m_destinationAddress := m_destinationAddress }
  if encoding.m_hc2HeaderPresent then throw .aborted
  return ipHeader.serialize ++ packet

/-- **A packet is recovered** whatever the stack holds. -/
def Recovered (h : Ipv6Header) (payload : List UInt8) (src dst : LinkAddress) : Prop :=
  ∀ stackSrc stackDst, (do
    let (packet, _) ← compressLowPanHc1 (h.serialize ++ payload) src dst
    decompressLowPanHc1 stackSrc stackDst packet src dst) = .ok (h.serialize ++ payload)

/-- A link-local address has the interface identifier of its owner, and `::` does not. -/
def Elidable (link : LinkAddress) (a : Ipv6Address) : Prop :=
  (a.IsLinkLocal → a.interfacePart = link.interfacePart) ∧
    (a = Ipv6Address.getAny → a.interfacePart ≠ link.interfacePart)

instance (link : LinkAddress) (a : Ipv6Address) : Decidable (Elidable link a) :=
  inferInstanceAs (Decidable (_ ∧ _))

/-! ### Addresses -/

/-- What an address is sent as. -/
def encodeAddress (h : Hc1Address) (link : LinkAddress) (a : Ipv6Address) : Hc1Address :=
  if a.IsLinkLocal ∧ a.interfacePart = link.interfacePart then { h with compression := .HC1_PCIC }
  else if a.IsLinkLocal then { h with compression := .HC1_PCII, interfacePart := a.interfacePart }
  else if a.interfacePart = link.interfacePart then
    { h with compression := .HC1_PIIC, prefixPart := a.networkPart }
  else { h with
    compression := .HC1_PIII, interfacePart := a.interfacePart, prefixPart := a.networkPart }

theorem compressAddress_eq (h : Hc1Address) (link : LinkAddress) (a : Ipv6Address) :
    compressAddress h link a = .ok (encodeAddress h link a) := by
  rw [compressAddress, LinkAddress.makeAutoconfiguredLinkLocalAddress_eq, Except.ok_bind,
    Ipv6Address.interfacePart_ofParts, encodeAddress]
  split_ifs <;> rfl

theorem decompressAddress_agrees {stack : Octets 6} {link : LinkAddress} {a b : Hc1Address}
    (h : a.Agrees b) : decompressAddress stack link b = decompressAddress stack link a := by
  obtain ⟨compression, p, iid⟩ := a
  obtain ⟨compression', p', iid'⟩ := b
  obtain ⟨hc, hparts⟩ := h
  change compression = compression' at hc
  subst hc
  cases compression with
  | HC1_PIII =>
    obtain ⟨rfl, rfl⟩ : p = p' ∧ iid = iid' := hparts
    rfl
  | HC1_PIIC =>
    obtain rfl : p = p' := hparts
    rfl
  | HC1_PCII =>
    obtain rfl : iid = iid' := hparts
    rfl
  | HC1_PCIC => rfl

theorem ofParts_networkPart (a : Ipv6Address) {i : Octets 8} (h : a.interfacePart = i) :
    Ipv6Address.ofParts a.networkPart i = a := by
  rw [← h, Ipv6Address.ofParts_parts]

theorem ofParts_eq_iff {p i : Octets 8} {a : Ipv6Address} :
    Ipv6Address.ofParts p i = a ↔ p = a.networkPart ∧ i = a.interfacePart := by
  rw [← Ipv6Address.ofParts_inj, Ipv6Address.ofParts_parts]

/-- **An address is recovered** where the octets that are not set do not matter or are zero, and `::` does
not look like an address of an unknown type. -/
theorem decompressAddress_encodeAddress {stack : Octets 6} {h : Hc1Address} {link : LinkAddress}
    {a : Ipv6Address} : decompressAddress stack link (encodeAddress h link a) = .ok a ↔
      (a.IsLinkLocal → a.interfacePart ≠ link.interfacePart → stack = zeros 6) ∧
        (a = Ipv6Address.getAny → a.interfacePart ≠ link.interfacePart) := by
  have hany : a = Ipv6Address.getAny → ¬ a.IsLinkLocal := by
    rintro rfl
    decide
  rw [encodeAddress]
  split_ifs with hboth hlocal hsame
  · have heq : decompressAddress stack link { h with compression := .HC1_PCIC } = .ok a := by
      rw [decompressAddress]
      dsimp only
      rw [LinkAddress.makeAutoconfiguredLinkLocalAddress_eq, ← Ipv6Address.isLinkLocal_iff.mp hboth.1,
        ofParts_networkPart a hboth.2]
    exact iff_of_true heq ⟨fun _ hne ↦ absurd hboth.2 hne, fun ha ↦ absurd hboth.1 (hany ha)⟩
  · have hne : a.interfacePart ≠ link.interfacePart := fun hsame ↦ hboth ⟨hlocal, hsame⟩
    have hprefix := Ipv6Address.isLinkLocal_iff.mp hlocal
    rw [decompressAddress]
    dsimp only
    rw [Except.ok_inj, ofParts_eq_iff, hprefix]
    constructor
    · rintro ⟨hstack, -⟩
      have htail := congrArg (fun o : Octets 8 ↦ o.1.drop 2) hstack
      exact ⟨fun _ _ ↦ Subtype.ext htail, fun ha ↦ absurd hlocal (hany ha)⟩
    · rintro ⟨hstack, -⟩
      rw [hstack hlocal hne]
      exact ⟨rfl, rfl⟩
  · rw [decompressAddress]
    dsimp only
    rw [LinkAddress.makeAutoconfiguredAddress, Ipv6Address.networkPart_ofParts,
      ofParts_networkPart a hsame]
    by_cases ha : a = Ipv6Address.getAny
    · rw [if_pos ha]
      exact iff_of_false Except.error_ne_ok fun h ↦ h.2 ha hsame
    · rw [if_neg ha]
      exact iff_of_true rfl ⟨fun hl ↦ absurd hl hlocal, fun h ↦ absurd h ha⟩
  · have heq : decompressAddress stack link { h with
        compression := .HC1_PIII, interfacePart := a.interfacePart, prefixPart := a.networkPart } =
        .ok a := by
      rw [decompressAddress]
      dsimp only
      rw [Ipv6Address.ofParts_parts]
    exact iff_of_true heq ⟨fun hl ↦ absurd hl hlocal, fun _ ↦ hsame⟩

/-! ### Packets -/

/-- The header that a packet is sent with. -/
def hc1HeaderOf (h : Ipv6Header) (src dst : LinkAddress) : SixLowPanHc1 :=
  { (compressTcfl { SixLowPanHc1.create with
      m_hopLimit := h.m_hopLimit
      m_src := encodeAddress SixLowPanHc1.create.m_src src h.m_sourceAddress
      m_dst := encodeAddress SixLowPanHc1.create.m_dst dst h.m_destinationAddress } h).setNextHeader
      h.m_nextHeader with m_hc2HeaderPresent := false }

theorem hc1HeaderOf_nextHeaderSet (h : Ipv6Header) (src dst : LinkAddress) :
    (hc1HeaderOf h src dst).NextHeaderSet := rfl

theorem hc1HeaderOf_fields (h : Ipv6Header) (src dst : LinkAddress) :
    (hc1HeaderOf h src dst).m_hopLimit = h.m_hopLimit ∧
      (hc1HeaderOf h src dst).m_src =
        encodeAddress SixLowPanHc1.create.m_src src h.m_sourceAddress ∧
      (hc1HeaderOf h src dst).m_dst =
        encodeAddress SixLowPanHc1.create.m_dst dst h.m_destinationAddress := by
  change (compressTcfl _ h).m_hopLimit = _ ∧ (compressTcfl _ h).m_src = _ ∧
    (compressTcfl _ h).m_dst = _
  rw [compressTcfl]
  split_ifs
  · exact ⟨rfl, rfl, rfl⟩
  · exact ⟨rfl, rfl, rfl⟩

theorem hc1HeaderOf_flowLabel (h : Ipv6Header) (src dst : LinkAddress) :
    (hc1HeaderOf h src dst).m_flowLabel.toNat < 2 ^ 24 := by
  have hlt := h.m_flowLabel.isLt
  have hlabel : (⟨h.m_flowLabel.setWidth 32⟩ : UInt32).toNat = h.m_flowLabel.toNat := by
    change (h.m_flowLabel.setWidth 32).toNat = _
    rw [BitVec.toNat_setWidth]
    omega
  change (compressTcfl _ h).m_flowLabel.toNat < 2 ^ 24
  rw [compressTcfl]
  split_ifs
  · change (0 : UInt32).toNat < 2 ^ 24
    decide
  · change (⟨h.m_flowLabel.setWidth 32⟩ : UInt32).toNat < 2 ^ 24
    omega

theorem compressLowPanHc1_serialize (h : Ipv6Header) (payload : List UInt8) (src dst : LinkAddress) :
    ∃ bytes, (hc1HeaderOf { h with m_flowLabel := 0 } src dst).serialize = .ok bytes ∧
      compressLowPanHc1 (h.serialize ++ payload) src dst =
        .ok (bytes ++ payload, Ipv6Header.getSerializedSize) := by
  refine ⟨_, if_neg Bool.false_ne_true, ?_⟩
  rw [compressLowPanHc1, Ipv6Header.deserialize_serialize, Except.ok_bind]
  dsimp only
  rw [compressAddress_eq, Except.ok_bind, compressAddress_eq, Except.ok_bind,
    List.drop_left' h.length_serialize]
  rfl

theorem tcfl_of_agrees {h : Ipv6Header} {src dst : LinkAddress} {h' : SixLowPanHc1}
    (hagrees : (hc1HeaderOf h src dst).Agrees h') :
    (if h'.m_tcflCompression then 0 else h'.m_trafficClass) = h.m_trafficClass ∧
      (if h'.m_tcflCompression then 0 else h'.m_flowLabel.toBitVec.setWidth 20) = h.m_flowLabel := by
  by_cases hzero : h.m_flowLabel = 0 ∧ h.m_trafficClass = 0
  · have hc : (hc1HeaderOf h src dst).m_tcflCompression = true := by
      change (compressTcfl _ h).m_tcflCompression = true
      rw [compressTcfl, if_pos hzero]
    rw [hagrees.tcflCompression, hc, if_pos rfl, if_pos rfl]
    exact ⟨hzero.2.symm, hzero.1.symm⟩
  · have hc : (hc1HeaderOf h src dst).m_tcflCompression = false := by
      change (compressTcfl _ h).m_tcflCompression = false
      rw [compressTcfl, if_neg hzero]
    have htc : (hc1HeaderOf h src dst).m_trafficClass = h.m_trafficClass := by
      change (compressTcfl _ h).m_trafficClass = _
      rw [compressTcfl, if_neg hzero]
    have hfl : (hc1HeaderOf h src dst).m_flowLabel = ⟨h.m_flowLabel.setWidth 32⟩ := by
      change (compressTcfl _ h).m_flowLabel = _
      rw [compressTcfl, if_neg hzero]
    obtain ⟨htc', hfl'⟩ := hagrees.tcfl hc
    rw [hagrees.tcflCompression, hc, if_neg Bool.false_ne_true, if_neg Bool.false_ne_true, htc', hfl',
      htc, hfl]
    exact ⟨rfl, BitVec.setWidth_setWidth_of_le _ (by decide)⟩

/-- **What is made of a compressed packet**: a packet without its flow label, if both addresses are made. -/
theorem decompress_compress (h : Ipv6Header) {payload : List UInt8}
    (hlen : payload.length = h.m_payloadLength.toNat) (src dst : LinkAddress)
    (stackSrc stackDst : Octets 6) :
    (do
      let (packet, _) ← compressLowPanHc1 (h.serialize ++ payload) src dst
      decompressLowPanHc1 stackSrc stackDst packet src dst) = (do
    let s ← decompressAddress stackSrc src (encodeAddress SixLowPanHc1.create.m_src src h.m_sourceAddress)
    let d ← decompressAddress stackDst dst
      (encodeAddress SixLowPanHc1.create.m_dst dst h.m_destinationAddress)
    return { h with m_flowLabel := 0, m_sourceAddress := s, m_destinationAddress := d }.serialize ++
      payload) := by
  obtain ⟨bytes, hbytes, hcompress⟩ := compressLowPanHc1_serialize h payload src dst
  obtain ⟨h', hread, hagrees⟩ := SixLowPanHc1.deserialize_serialize _ SixLowPanHc1.create
    (hc1HeaderOf_nextHeaderSet _ src dst) (hc1HeaderOf_flowLabel _ src dst) rfl hbytes payload
  obtain ⟨htc, hfl⟩ := tcfl_of_agrees hagrees
  rw [hcompress, Except.ok_bind]
  dsimp only
  rw [decompressLowPanHc1, hread, Except.ok_bind]
  dsimp only
  rw [List.drop_left, decompressAddress_agrees hagrees.src, decompressAddress_agrees hagrees.dst]
  have hpayload : UInt16.ofNat payload.length = h.m_payloadLength := by
    rw [hlen, UInt16.ofNat_toNat]
  have hnext : h'.m_nextHeader = h.m_nextHeader := hagrees.nextHeader
  obtain ⟨hhop, hsrc, hdst⟩ := hc1HeaderOf_fields { h with m_flowLabel := 0 } src dst
  rw [htc, hfl, hpayload, hnext, hagrees.hopLimit, hagrees.hc2HeaderPresent, hhop, hsrc, hdst]
  rfl

theorem exists_decompressAddress (stack : Octets 6) (h : Hc1Address) {link : LinkAddress}
    {a : Ipv6Address} (hany : a = Ipv6Address.getAny → a.interfacePart ≠ link.interfacePart) :
    ∃ b, decompressAddress stack link (encodeAddress h link a) = .ok b := by
  by_cases hlocal : a.IsLinkLocal ∧ a.interfacePart ≠ link.interfacePart
  · rw [encodeAddress, if_neg fun hboth ↦ hlocal.2 hboth.2, if_pos hlocal.1]
    exact ⟨_, rfl⟩
  · refine ⟨a, decompressAddress_encodeAddress.mpr ⟨fun hl hne ↦ ?_, hany⟩⟩
    exact absurd ⟨hl, hne⟩ hlocal

/-- **The compressed header gives a whole header**, whatever part of the payload comes with it. -/
theorem length_decompress {h : Ipv6Header} {src dst : LinkAddress}
    (hsrc : h.m_sourceAddress = Ipv6Address.getAny →
      h.m_sourceAddress.interfacePart ≠ src.interfacePart)
    (hdst : h.m_destinationAddress = Ipv6Address.getAny →
      h.m_destinationAddress.interfacePart ≠ dst.interfacePart)
    (stackSrc stackDst : Octets 6) {bytes : List UInt8}
    (hbytes : (hc1HeaderOf { h with m_flowLabel := 0 } src dst).serialize = .ok bytes)
    (payload : List UInt8) :
    (decompressLowPanHc1 stackSrc stackDst (bytes ++ payload) src dst).map List.length =
      .ok (Ipv6Header.getSerializedSize + payload.length) := by
  obtain ⟨h', hread, hagrees⟩ := SixLowPanHc1.deserialize_serialize _ SixLowPanHc1.create
    (hc1HeaderOf_nextHeaderSet _ src dst) (hc1HeaderOf_flowLabel _ src dst) rfl hbytes payload
  obtain ⟨-, hencodeSrc, hencodeDst⟩ := hc1HeaderOf_fields { h with m_flowLabel := 0 } src dst
  obtain ⟨s, hs⟩ := exists_decompressAddress stackSrc SixLowPanHc1.create.m_src hsrc
  obtain ⟨d, hd⟩ := exists_decompressAddress stackDst SixLowPanHc1.create.m_dst hdst
  rw [decompressLowPanHc1, hread, Except.ok_bind]
  dsimp only
  rw [List.drop_left, decompressAddress_agrees hagrees.src, decompressAddress_agrees hagrees.dst,
    hencodeSrc, hencodeDst, hs, Except.ok_bind, hd, Except.ok_bind, hagrees.hc2HeaderPresent]
  refine congrArg Except.ok ?_
  rw [List.length_append, Ipv6Header.length_serialize]

/-- **A packet is recovered exactly where its flow label is zero and both addresses can be left out.** -/
theorem recovered_iff {h : Ipv6Header} {payload : List UInt8}
    (hlen : payload.length = h.m_payloadLength.toNat) (src dst : LinkAddress) :
    Recovered h payload src dst ↔
      h.m_flowLabel = 0 ∧ Elidable src h.m_sourceAddress ∧ Elidable dst h.m_destinationAddress := by
  have hone : (⟨[1, 0, 0, 0, 0, 0], rfl⟩ : Octets 6) ≠ zeros 6 := by decide
  have helidable : ∀ (link : LinkAddress) (a : Ipv6Address),
      (∀ stack : Octets 6, (a.IsLinkLocal → a.interfacePart ≠ link.interfacePart → stack = zeros 6) ∧
        (a = Ipv6Address.getAny → a.interfacePart ≠ link.interfacePart)) ↔ Elidable link a := by
    intro link a
    constructor
    · intro hall
      refine ⟨fun hlocal ↦ ?_, (hall (zeros 6)).2⟩
      by_contra hne
      exact hone ((hall _).1 hlocal hne)
    · rintro ⟨hlocal, hany⟩ stack
      exact ⟨fun hl hne ↦ absurd (hlocal hl) hne, hany⟩
  have hresult : ∀ stackSrc stackDst, (do
      let (packet, _) ← compressLowPanHc1 (h.serialize ++ payload) src dst
      decompressLowPanHc1 stackSrc stackDst packet src dst) = .ok (h.serialize ++ payload) ↔
      decompressAddress stackSrc src (encodeAddress SixLowPanHc1.create.m_src src h.m_sourceAddress) =
          .ok h.m_sourceAddress ∧
        decompressAddress stackDst dst
          (encodeAddress SixLowPanHc1.create.m_dst dst h.m_destinationAddress) =
          .ok h.m_destinationAddress ∧ h.m_flowLabel = 0 := by
    intro stackSrc stackDst
    rw [decompress_compress h hlen, Except.bind_eq_ok]
    constructor
    · rintro ⟨s, hs, hrest⟩
      obtain ⟨d, hd, heq⟩ := Except.bind_eq_ok.mp hrest
      rw [Except.pure_eq_ok, List.append_left_inj, Ipv6Header.serialize_inj] at heq
      rw [hs, hd]
      rw [← heq]
      exact ⟨rfl, rfl, rfl⟩
    · rintro ⟨hs, hd, hzero⟩
      refine ⟨_, hs, ?_⟩
      rw [hd, Except.ok_bind, ← hzero]
      rfl
  rw [Recovered, ← helidable, ← helidable]
  simp only [hresult, decompressAddress_encodeAddress]
  constructor
  · intro hall
    exact ⟨(hall (zeros 6) (zeros 6)).2.2, fun stack ↦ (hall stack (zeros 6)).1,
      fun stack ↦ (hall (zeros 6) stack).2.1⟩
  · rintro ⟨hzero, hsrc, hdst⟩ stackSrc stackDst
    exact ⟨hsrc stackSrc, hdst stackDst, hzero⟩

/-- A header between a link-local address and a global one. -/
def sampleHeader : Ipv6Header where
  m_trafficClass := 3
  m_flowLabel := 0
  m_payloadLength := 3
  m_nextHeader := 17
  m_hopLimit := 64
  m_sourceAddress := .ofParts Ipv6Address.linkLocalPrefix (LinkAddress.mac16 0 5).interfacePart
  m_destinationAddress := .ofParts ⟨[0x20, 1, 0, 0, 0, 0, 0, 1], rfl⟩ ⟨[0, 0, 0, 0, 0, 0, 0, 9], rfl⟩

theorem recovered_iff_sample : Recovered sampleHeader [7, 8, 9] (.mac16 0 5) (.mac48 1 2 3 4 5 6) :=
  (recovered_iff rfl _ _).mpr (by decide)

/-- A flow label is lost. -/
theorem not_recovered : ¬ Recovered { sampleHeader with m_flowLabel := 1 } [7, 8, 9] (.mac16 0 5)
    (.mac48 1 2 3 4 5 6) := by
  intro h
  exact absurd (h (zeros 6) (zeros 6)) (by decide +kernel)

end SixLowPan

end Ns3
