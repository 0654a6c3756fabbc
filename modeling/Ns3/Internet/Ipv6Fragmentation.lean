import Ns3.Internet.Ipv6Reassembly

/-!
# The extension headers in IPv6 fragments

`GetFragments` takes the extension headers of the unfragmentable part off one by one, into a list, and
puts each one in front of every fragment, from the first of the list on. So they come out in the wrong
order as soon as there are two of them: the header that names the fragment header as the next one is
then the first of all.

A single header may come out different, too.

* `Ipv6ExtensionLooseRoutingHeader` writes zeros for the reserved bytes of a routing header, and takes
  an odd length for the even one below it.
* The length of a header is added to the size of the unfragmentable part as a byte. With a header of
  256 bytes or more the fragments are larger than they may be, unless one is enough.

These are all ways in which the headers are not kept (`fragmented_iff`).
-/

namespace Ns3

open Buffer (Failure readU8 readU8_cons)
open Ipv6Header

/-- An extension header as it stands in a packet. -/
structure WireHeader where
  type : UInt8
  nextHeader : UInt8
  length : UInt8
  data : List UInt8
  deriving DecidableEq, Repr

namespace WireHeader

/-- The bytes of the header. -/
def bytes (h : WireHeader) : List UInt8 := h.nextHeader :: h.length :: h.data

/-- The header is of a type for the unfragmentable part, and as long as its length octet says. -/
structure WellFormed (h : WireHeader) : Prop where
  type : h.type = IPV6_EXT_HOP_BY_HOP ∨ h.type = IPV6_EXT_ROUTING ∨ h.type = IPV6_EXT_DESTINATION
  length : h.data.length = h.length.toNat * 8 + 6

/-- Each header names the type of what follows it. -/
def Linked : UInt8 → List WireHeader → UInt8 → Prop
  | type, [], last => type = last
  | type, h :: hs, last => h.type = type ∧ h.WellFormed ∧ Linked h.nextHeader hs last

/-- The headers before a fragment header. -/
def relinked : List WireHeader → List UInt8
  | [] => []
  | [h] => bytes { h with nextHeader := IPV6_EXT_FRAGMENTATION }
  | h :: h' :: hs => h.bytes ++ relinked (h' :: hs)

theorem length_bytes {h : WireHeader} (hh : h.WellFormed) : h.bytes.length = (h.length.toNat + 1) * 8 := by
  rw [bytes, List.length_cons, List.length_cons, hh.length]
  ring

end WireHeader

namespace Ipv6ExtensionFragment

open WireHeader (Linked relinked)

/-! ## What fragments should be -/

/-- A packet with the unfragmentable part `hs`: the last of its headers has to be looked at on the way,
and none that has follows. -/
structure Layout (packet : List UInt8) (ipv6Header : Ipv6Header) (hs : List WireHeader)
    (nextHeader : UInt8) (p : List UInt8) : Prop where
  packet_eq : packet = hs.flatMap WireHeader.bytes ++ p
  linked : Linked ipv6Header.m_nextHeader hs nextHeader
  last : ∀ h ∈ hs.getLast?, h.type ≠ IPV6_EXT_DESTINATION
  hopByHop : nextHeader ≠ IPV6_EXT_HOP_BY_HOP
  routing : nextHeader ≠ IPV6_EXT_ROUTING
  destination : nextHeader = IPV6_EXT_DESTINATION → ∃ b rest, p = b :: rest ∧ b ≠ IPV6_EXT_ROUTING
  lt : packet.length < 2 ^ 16

/-- The fragment with a piece of the fragmentable part `p`, of the type `nextHeader`. -/
def IsFragment (ipv6Header : Ipv6Header) (hs : List WireHeader) (nextHeader : UInt8) (p : List UInt8)
    (maxFragmentSize : ℕ) (identification : UInt32) (fragment : List UInt8 × Ipv6Header)
    (q : Piece UInt8) : Prop :=
  ∃ header : Ipv6ExtensionFragmentHeader,
    fragment.1 = relinked hs ++ (header.serialize ++ q.data) ∧
    header.m_nextHeader = nextHeader ∧ header.getOffset.toNat = q.offset ∧
    header.getMoreFragment = decide (q.stop < p.length) ∧
    header.m_identification = identification ∧
    serializedSize + fragment.1.length ≤ maxFragmentSize ∧
    fragment.2 = { ipv6Header with
      m_nextHeader := if hs = [] then IPV6_EXT_FRAGMENTATION else ipv6Header.m_nextHeader
      m_payloadLength := UInt16.ofNat fragment.1.length }

/-- `GetFragments` returns, and what it returns are the fragments with consecutive pieces of the
fragmentable part. -/
def Fragmented (packet : List UInt8) (ipv6Header : Ipv6Header) (hs : List WireHeader)
    (nextHeader : UInt8) (p : List UInt8) (maxFragmentSize : ℕ) (identification : UInt32) : Prop :=
  ∃ l, getFragments packet ipv6Header maxFragmentSize identification = .ok l ∧
    ∃ pieces : List (Piece UInt8), Piece.Consecutive 0 pieces ∧ pieces.flatMap Piece.data = p ∧
      pieces ≠ [] ∧ (∀ q ∈ pieces.dropLast, 0 < q.data.length ∧ q.data.length % 8 = 0) ∧
      List.Forall₂ (IsFragment ipv6Header hs nextHeader p maxFragmentSize identification) l pieces

/-- The header is written as it was read. -/
def Rewritten (h : WireHeader) : Prop :=
  h.type = IPV6_EXT_ROUTING → h.length.toNat % 2 = 0 ∧ (h.data.drop 2).take 4 = [0, 0, 0, 0]

/-- There is at most one extension header. It is written as it was read, and its size is less than 256
unless one fragment is enough. -/
def HeadersKept (maxFragmentSize : ℕ) (p : List UInt8) : List WireHeader → Prop
  | [] => True
  | [h] => Rewritten h ∧
      (h.bytes.length < 256 ∨ serializedSize + (h.bytes.length + (8 + p.length)) ≤ maxFragmentSize)
  | _ :: _ :: _ => False

/-! ## Reading one header -/

theorem deserializeOptions_bytes {h : WireHeader} (hh : h.WellFormed) (p : List UInt8) :
    Ipv6ExtensionHeader.deserializeOptions (h.bytes ++ p) =
      .ok ⟨h.nextHeader, h.length, .options h.data⟩ := by
  have hlen : (h.length.toNat + 1) * 8 - 2 = h.data.length := by
    rw [hh.length]
    omega
  rw [WireHeader.bytes, List.cons_append, List.cons_append, Ipv6ExtensionHeader.deserializeOptions,
    readU8_cons, Except.ok_bind]
  dsimp only
  rw [readU8_cons, Except.ok_bind]
  dsimp only
  rw [hlen, Buffer.read, if_pos (by rw [List.length_append]; exact Nat.le_add_right _ _),
    List.take_left]
  rfl

theorem readAddresses_eq {n : ℕ} {i : List UInt8} (h : n * 16 ≤ i.length) :
    ∃ addresses, Ipv6ExtensionHeader.readAddresses n i = .ok addresses ∧ addresses.length = n ∧
      addresses.flatten = i.take (n * 16) := by
  induction n generalizing i with
  | zero => exact ⟨[], rfl, rfl, by rw [zero_mul, List.take_zero]; rfl⟩
  | succ n ih =>
    obtain ⟨addresses, hread, hlen, hflatten⟩ := @ih (i.drop 16) (by rw [List.length_drop]; omega)
    refine ⟨i.take 16 :: addresses, ?_, congrArg (· + 1) hlen, ?_⟩
    · rw [Ipv6ExtensionHeader.readAddresses, Buffer.read, if_pos (by omega), Except.ok_bind]
      dsimp only
      rw [hread]
      rfl
    · rw [List.flatten_cons, hflatten, show (n + 1) * 16 = 16 + n * 16 by ring, List.take_add]

/-- The header that is put in front of a fragment has an even length octet if it has been read as a
routing header. -/
theorem serialize_deserializeRouting {start : List UInt8} {header : Ipv6ExtensionHeader}
    (h : Ipv6ExtensionHeader.deserializeRouting start = .ok header) (nextHeader : UInt8) :
    ∃ length rest, Ipv6ExtensionHeader.serialize { header with m_nextHeader := nextHeader } =
      nextHeader :: length :: rest ∧ length.toNat % 2 = 0 := by
  rw [Ipv6ExtensionHeader.deserializeRouting] at h
  obtain ⟨⟨next, i₁⟩, -, h⟩ := Except.bind_eq_ok.mp h
  obtain ⟨⟨length, i₂⟩, -, h⟩ := Except.bind_eq_ok.mp h
  obtain ⟨⟨typeRouting, i₃⟩, -, h⟩ := Except.bind_eq_ok.mp h
  obtain ⟨⟨segmentsLeft, i₄⟩, -, h⟩ := Except.bind_eq_ok.mp h
  obtain ⟨⟨reserved, i₅⟩, -, h⟩ := Except.bind_eq_ok.mp h
  obtain ⟨addresses, -, h⟩ := Except.bind_eq_ok.mp h
  obtain rfl := Except.ok.inj h
  refine ⟨_, _, rfl, ?_⟩
  rw [UInt8.toNat_ofNat']
  omega

/-- A header with options is put in front of a fragment as it was read, with the length that its length
octet says. -/
theorem serialize_deserializeOptions {start : List UInt8} {header : Ipv6ExtensionHeader}
    (h : Ipv6ExtensionHeader.deserializeOptions start = .ok header) (nextHeader : UInt8) :
    ∃ data, header.content = .options data ∧ data.length = header.m_length.toNat * 8 + 6 ∧
      header.getSerializedSize = (header.m_length.toNat + 1) * 8 ∧
      Ipv6ExtensionHeader.serialize { header with m_nextHeader := nextHeader } =
        nextHeader :: header.m_length :: data := by
  rw [Ipv6ExtensionHeader.deserializeOptions] at h
  obtain ⟨⟨next, i₁⟩, -, h⟩ := Except.bind_eq_ok.mp h
  obtain ⟨⟨length, i₂⟩, -, h⟩ := Except.bind_eq_ok.mp h
  obtain ⟨⟨data, i₃⟩, hread, h⟩ := Except.bind_eq_ok.mp h
  obtain rfl := Except.ok.inj h
  have hlt := length.toNat_lt
  have hlen : data.length = length.toNat * 8 + 6 := by
    rw [Buffer.read] at hread
    split_ifs at hread with hle
    obtain ⟨rfl, -⟩ := Prod.mk.inj (Except.ok.inj hread)
    rw [List.length_take_of_le hle]
    omega
  have hpad : Ipv6ExtensionHeader.calculatePad data = 0 := by
    rw [Ipv6ExtensionHeader.calculatePad, hlen, add32_eq (by omega), sub32]
    omega
  have hsize : (⟨next, length, .options data⟩ : Ipv6ExtensionHeader).getSerializedSize =
      (length.toNat + 1) * 8 := by
    rw [Ipv6ExtensionHeader.getSerializedSize]
    dsimp only
    rw [hpad, hlen]
    ring
  refine ⟨data, rfl, hlen, hsize, ?_⟩
  have hoctet : UInt8.ofNat (sub32
      ((⟨nextHeader, length, .options data⟩ : Ipv6ExtensionHeader).getSerializedSize >>> 3) 1) =
      length := by
    apply UInt8.toNat_inj.mp
    change (UInt8.ofNat (sub32
      ((⟨next, length, .options data⟩ : Ipv6ExtensionHeader).getSerializedSize >>> 3) 1)).toNat = _
    rw [hsize, Nat.shiftRight_eq_div_pow, Nat.mul_div_cancel _ (by decide), sub32_eq (by omega)
      (by omega), UInt8.toNat_ofNat', Nat.add_sub_cancel]
    exact Nat.mod_eq_of_lt hlt
  rw [Ipv6ExtensionHeader.serialize]
  dsimp only
  rw [hoctet, hpad]
  exact congrArg (_ :: _ :: ·) (List.append_nil data)

theorem deserializeRouting_bytes {h : WireHeader} (hh : h.WellFormed) (heven : h.length.toNat % 2 = 0)
    (p : List UInt8) : ∃ header,
    Ipv6ExtensionHeader.deserializeRouting (h.bytes ++ p) = .ok header ∧
      header.m_nextHeader = h.nextHeader ∧ header.m_length = h.length ∧
      header.getSerializedSize = (h.length.toNat + 1) * 8 ∧
      ∀ nextHeader, Ipv6ExtensionHeader.serialize { header with m_nextHeader := nextHeader } =
        nextHeader :: h.length :: (h.data.take 2 ++ ([0, 0, 0, 0] ++ h.data.drop 6)) := by
  obtain ⟨type, next, length, data⟩ := h
  have hlen : data.length = length.toNat * 8 + 6 := hh.length
  have hlt := length.toNat_lt
  dsimp only at heven
  obtain ⟨typeRouting, segmentsLeft, r₀, r₁, r₂, r₃, addresses, rfl⟩ :
      ∃ b₀ b₁ b₂ b₃ b₄ b₅ rest, data = b₀ :: b₁ :: b₂ :: b₃ :: b₄ :: b₅ :: rest := by
    obtain _ | ⟨b₀, _ | ⟨b₁, _ | ⟨b₂, _ | ⟨b₃, _ | ⟨b₄, _ | ⟨b₅, rest⟩⟩⟩⟩⟩⟩ := data
    case cons.cons.cons.cons.cons.cons => exact ⟨b₀, b₁, b₂, b₃, b₄, b₅, rest, rfl⟩
    all_goals simp only [List.length_cons, List.length_nil] at hlen; omega
  have haddr : addresses.length = length.toNat / 2 * 16 := by
    simp only [List.length_cons] at hlen
    omega
  obtain ⟨l, hread, hl, hflatten⟩ := @readAddresses_eq (length.toNat / 2) (addresses ++ p) (by
    rw [List.length_append]
    omega)
  rw [← haddr, List.take_left] at hflatten
  refine ⟨⟨next, length, .routing typeRouting segmentsLeft l⟩, ?_, rfl, rfl, ?_, fun nextHeader ↦ ?_⟩
  · change (Ipv6ExtensionHeader.readAddresses (length.toNat / 2) (addresses ++ p) >>= fun l ↦ _) = _
    rw [hread]
    rfl
  · rw [Ipv6ExtensionHeader.getSerializedSize]
    dsimp only
    rw [hl]
    omega
  · have hoctet : UInt8.ofNat (l.length * 2) = length := by
      apply UInt8.toNat_inj.mp
      rw [UInt8.toNat_ofNat', hl]
      omega
    rw [Ipv6ExtensionHeader.serialize]
    dsimp only
    rw [hoctet, hflatten]
    rfl

theorem serialize_eq_cons (h : Ipv6ExtensionHeader) : ∃ rest, h.serialize = h.m_nextHeader :: rest := by
  rw [Ipv6ExtensionHeader.serialize]
  cases h.content with
  | options => exact ⟨_, rfl⟩
  | routing => exact ⟨_, rfl⟩

/-! ## The loop over the headers -/

theorem moreHeader_cases {nextHeader : UInt8} {p : List UInt8} (h : moreHeader nextHeader p = true) :
    nextHeader = IPV6_EXT_HOP_BY_HOP ∨ nextHeader = IPV6_EXT_ROUTING ∨
      (nextHeader = IPV6_EXT_DESTINATION ∧ p.head? = some IPV6_EXT_ROUTING) := by
  simpa [moreHeader, or_assoc] using h

theorem removeHeaders_spec (fuel : ℕ) : ∀ {ps ps' : Parts}, moreHeader ps.nextHeader ps.p = true →
    removeHeaders fuel ps = .ok ps' → ∃ before z type p,
      ps'.unfragmentablePart = ps.unfragmentablePart ++
        (before ++ [{ z with m_nextHeader := IPV6_EXT_FRAGMENTATION }]) ∧
      moreHeader type p = true ∧ deserializeHeader type p = .ok z ∧
      moreHeader z.m_nextHeader (p.drop z.getSerializedSize) = false ∧
      (before = [] → type = ps.nextHeader) ∧ ∀ y ∈ before.getLast?, y.m_nextHeader = type := by
  induction fuel with
  | zero => exact fun _ h ↦ absurd h Except.error_ne_ok
  | succ fuel ih =>
    intro ps ps' hfirst h
    rw [removeHeaders] at h
    obtain ⟨header, hread, h⟩ := Except.bind_eq_ok.mp h
    dsimp only at h
    split_ifs at h with hmore
    · obtain ⟨before, z, type, p, hparts, hz, hdeserialize, hlast, hnil, hbefore⟩ := ih hmore h
      refine ⟨header :: before, z, type, p, ?_, hz, hdeserialize, hlast, ?_, ?_⟩
      · rw [hparts, List.append_assoc]
        rfl
      · exact fun heq ↦ absurd heq (List.cons_ne_nil _ _)
      · intro y hy
        rcases List.eq_nil_or_concat before with rfl | ⟨before, y', rfl⟩
        · obtain rfl := Option.some.inj hy
          exact (hnil rfl).symm
        · apply hbefore y
          rw [List.concat_eq_append] at hy ⊢
          rw [← List.cons_append, List.getLast?_concat] at hy
          rw [List.getLast?_concat]
          exact hy
    · obtain rfl := Except.ok.inj h
      refine ⟨[], header, ps.nextHeader, ps.p, rfl, hfirst, hread, ?_, fun _ ↦ rfl, ?_⟩
      · exact Bool.eq_false_iff.mpr hmore
      · exact fun y hy ↦ absurd hy (by simp)

theorem carried_of_parts {packet : List UInt8} {ipv6Header : Ipv6Header} {ps : Parts}
    (hmore : moreHeader ipv6Header.m_nextHeader packet = true)
    (h : parts packet ipv6Header = .ok ps) : ∃ before z type p,
      carried ps = Ipv6ExtensionHeader.serialize { z with m_nextHeader := IPV6_EXT_FRAGMENTATION } ++
        before.reverse.flatMap Ipv6ExtensionHeader.serialize ∧
      moreHeader type p = true ∧ deserializeHeader type p = .ok z ∧
      moreHeader z.m_nextHeader (p.drop z.getSerializedSize) = false ∧
      (before = [] → type = ipv6Header.m_nextHeader) ∧
      ∀ y ∈ before.getLast?, y.m_nextHeader = type := by
  rw [parts, if_pos hmore] at h
  obtain ⟨before, z, type, p, hparts, hspec⟩ := removeHeaders_spec _ hmore h
  refine ⟨before, z, type, p, ?_, hspec⟩
  rw [carried, hparts, List.nil_append, List.reverse_append]
  rfl

/-! ## The loop over the fragments -/

section Fragments

variable {ps : Parts} {identification : UInt32} {m : ℕ}

theorem length_addHeaders (ps : Parts) (identification : UInt32) (offset : ℕ) (moreFragment : Bool)
    (data : List UInt8) : (addHeaders ps identification offset moreFragment data).length =
      (carried ps).length + (8 + data.length) := by
  rw [addHeaders, foldl_serialize, List.length_append, List.length_append]
  rfl

theorem exists_fragmentLoop (hm : 8 ≤ m) (hlt : m < 2 ^ 32) (hlen : ps.p.length < 2 ^ 16) (fuel : ℕ)
    {offset : ℕ} (hoffset : offset ≤ ps.p.length) (hstart : offset = 0 ∨ m < ps.p.length)
    (hfuel : ps.p.length - offset < fuel) :
    ∃ l, fragmentLoop ps identification m fuel offset = .ok l := by
  induction fuel generalizing offset with
  | zero => exact absurd hfuel (Nat.not_lt_zero _)
  | succ fuel ih =>
    rw [fragmentLoop, add32_eq (by omega)]
    split_ifs with hmore
    · have hle : offset + (m - m % 8) ≤ ps.p.length := by omega
      obtain ⟨l, hl⟩ := ih hle (.inr (by omega)) (by omega)
      dsimp only
      rw [Nat.mod_eq_of_lt (hle.trans_lt hlen), hl]
      exact ⟨_, rfl⟩
    · exact ⟨_, rfl⟩

theorem length_fragmentLoop_le (hlt : m < 2 ^ 32) (hlen : ps.p.length < 2 ^ 16) (fuel : ℕ) :
    ∀ {offset : ℕ} {l : List (List UInt8)}, offset ≤ ps.p.length →
      (offset = 0 ∨ m < ps.p.length) →
      fragmentLoop ps identification m fuel offset = .ok l →
      ∀ f ∈ l, f.length ≤ (carried ps).length + (8 + m) := by
  induction fuel with
  | zero => exact fun _ _ h ↦ absurd h Except.error_ne_ok
  | succ fuel ih =>
    intro offset l hoffset hstart h
    rw [fragmentLoop, add32_eq (by omega)] at h
    split_ifs at h with hmore
    · obtain ⟨rest, hrest, h⟩ := Except.bind_eq_ok.mp h
      obtain rfl := Except.ok.inj h
      have hnext : (offset + (m - m % 8)) % 2 ^ 16 ≤ ps.p.length :=
        (Nat.mod_le _ _).trans (by omega)
      rw [List.forall_mem_cons]
      refine ⟨?_, ih hnext (.inr (by omega)) hrest⟩
      rw [length_addHeaders, List.length_take]
      omega
    · obtain rfl := Except.ok.inj h
      rw [List.forall_mem_singleton, length_addHeaders, List.length_take]
      omega

theorem exists_length_fragmentLoop {fuel : ℕ} {l : List (List UInt8)}
    (hlt : m < 2 ^ 32) (h : fragmentLoop ps identification m fuel 0 = .ok l) :
    ∃ f ∈ l, f.length = (carried ps).length +
      (8 + if m < ps.p.length then m - m % 8 else ps.p.length) := by
  cases fuel with
  | zero => exact absurd h Except.error_ne_ok
  | succ fuel =>
    rw [fragmentLoop, add32_eq (by omega), Nat.zero_add] at h
    split_ifs at h ⊢ with hmore
    · obtain ⟨rest, -, h⟩ := Except.bind_eq_ok.mp h
      obtain rfl := Except.ok.inj h
      refine ⟨_, List.mem_cons_self, ?_⟩
      rw [length_addHeaders, List.length_take, List.drop_zero]
      omega
    · obtain rfl := Except.ok.inj h
      refine ⟨_, List.mem_cons_self, ?_⟩
      rw [length_addHeaders, List.length_take, List.drop_zero]
      omega

end Fragments

/-! ## The fragments of a packet -/

/-- The number of bytes that `GetFragments` leaves for the data of a fragment. -/
def room (ps : Parts) (maxFragmentSize : ℕ) : ℕ :=
  sub32 (sub32 (sub32 maxFragmentSize serializedSize) ps.unfragmentablePartSize)
    Ipv6ExtensionFragmentHeader.serializedSize

theorem room_lt (ps : Parts) (maxFragmentSize : ℕ) : room ps maxFragmentSize < 2 ^ 32 :=
  sub32_lt _ _

/-- A fragment with its IPv6 header. -/
def withHeader (packet : List UInt8) (ipv6Header : Ipv6Header) (fragment : List UInt8) :
    List UInt8 × Ipv6Header :=
  (fragment, { ipv6Header with
    m_nextHeader := if moreHeader ipv6Header.m_nextHeader packet then ipv6Header.m_nextHeader
      else IPV6_EXT_FRAGMENTATION
    m_payloadLength := UInt16.ofNat fragment.length })

section Packet

variable {packet p : List UInt8} {ipv6Header : Ipv6Header} {hs : List WireHeader} {h : WireHeader}
  {nextHeader : UInt8} {maxFragmentSize : ℕ} {identification : UInt32} {ps : Parts}

theorem getFragments_eq_ok_iff {l : List (List UInt8 × Ipv6Header)} :
    getFragments packet ipv6Header maxFragmentSize identification = .ok l ↔
      ∃ ps listFragments, parts packet ipv6Header = .ok ps ∧
        fragmentLoop ps identification (room ps maxFragmentSize) (ps.p.length + 1) 0 =
          .ok listFragments ∧ l = listFragments.map (withHeader packet ipv6Header) := by
  rw [getFragments]
  constructor
  · intro h
    obtain ⟨ps, hps, h⟩ := Except.bind_eq_ok.mp h
    obtain ⟨listFragments, hloop, h⟩ := Except.bind_eq_ok.mp h
    exact ⟨ps, listFragments, hps, hloop, (Except.ok.inj h).symm⟩
  · rintro ⟨ps, listFragments, hps, hloop, rfl⟩
    rw [hps, Except.ok_bind]
    dsimp only
    rw [room] at hloop
    rw [hloop]
    rfl

theorem isFragmentType_ne {type : UInt8} (h : type = IPV6_EXT_HOP_BY_HOP ∨ type = IPV6_EXT_ROUTING ∨
    type = IPV6_EXT_DESTINATION) : type ≠ IPV6_EXT_FRAGMENTATION := by
  rcases h with rfl | rfl | rfl <;> decide

theorem Fragmented.spec (hl : Layout packet ipv6Header hs nextHeader p)
    (hf : Fragmented packet ipv6Header hs nextHeader p maxFragmentSize identification) :
    ∃ ps listFragments, parts packet ipv6Header = .ok ps ∧
      fragmentLoop ps identification (room ps maxFragmentSize) (ps.p.length + 1) 0 =
        .ok listFragments ∧
      (∀ fragment ∈ listFragments, serializedSize + fragment.length ≤ maxFragmentSize) ∧
      (hs ≠ [] → moreHeader ipv6Header.m_nextHeader packet = true) ∧
      ∃ (header header' : Ipv6ExtensionFragmentHeader) (data data' : List UInt8),
        carried ps ++ (header.serialize ++ data) = relinked hs ++ (header'.serialize ++ data') ∧
          header'.m_nextHeader = nextHeader := by
  obtain ⟨l, hget, pieces, -, -, hne, -, hall⟩ := hf
  obtain ⟨ps, listFragments, hps, hloop, rfl⟩ := getFragments_eq_ok_iff.mp hget
  have hlen : ps.p.length < 2 ^ 16 := (parts_length_le hps).trans_lt hl.lt
  obtain ⟨built, rfl, -⟩ := fragmentLoop_eq_ok (room_lt ps _) hlen _ rfl (Nat.zero_le _)
    (.inl rfl) hloop
  refine ⟨ps, _, hps, hloop, ?_, ?_, ?_⟩
  · intro fragment hfragment
    obtain ⟨i, hi, rfl⟩ := List.getElem_of_mem hfragment
    rw [List.forall₂_iff_get] at hall
    obtain ⟨hlength, hget⟩ := hall
    have hi' : i < ((built.map (build ps identification)).map
        (withHeader packet ipv6Header)).length := by
      rw [List.length_map]
      exact hi
    obtain ⟨-, -, -, -, -, -, hle, -⟩ := hget i hi' (hlength ▸ hi')
    rw [List.get_eq_getElem, List.getElem_map] at hle
    exact hle
  · intro hnil
    obtain ⟨q, rest, rfl⟩ := List.exists_cons_of_ne_nil hne
    obtain ⟨fragment, l, hfirst, -, heq⟩ := List.forall₂_cons_right_iff.mp hall
    obtain ⟨data, listFragments, -, rfl, -⟩ := List.map_eq_cons_iff.mp heq
    obtain ⟨h, hs, rfl⟩ := List.exists_cons_of_ne_nil hnil
    obtain ⟨htype, hwell, -⟩ := hl.linked
    obtain ⟨-, -, -, -, -, -, -, hheader⟩ := hfirst
    have hnext := congrArg Ipv6Header.m_nextHeader hheader
    rw [withHeader, if_neg hnil] at hnext
    dsimp only at hnext
    split_ifs at hnext with hmore
    · exact hmore
    · exact absurd (htype.trans hnext.symm) (isFragmentType_ne hwell.type)
  · obtain ⟨q, rest, rfl⟩ := List.exists_cons_of_ne_nil hne
    obtain ⟨fragment, l, hfirst, -, heq⟩ := List.forall₂_cons_right_iff.mp hall
    obtain ⟨data, listFragments, hbuilt, rfl, -⟩ := List.map_eq_cons_iff.mp heq
    obtain ⟨q', built', -, rfl, -⟩ := List.map_eq_cons_iff.mp hbuilt
    obtain ⟨header', hbytes, hnext, -⟩ := hfirst
    rw [withHeader, build_eq] at hbytes
    exact ⟨_, header', _, _, hbytes, hnext⟩

theorem not_fragmented_of_two {h' : WireHeader}
    (hl : Layout packet ipv6Header (h :: h' :: hs) nextHeader p) :
    ¬ Fragmented packet ipv6Header (h :: h' :: hs) nextHeader p maxFragmentSize identification := by
  intro hf
  obtain ⟨ps, -, hps, -, -, hmore, header, header', data, data', heq, -⟩ := hf.spec hl
  obtain ⟨before, z, -, -, hcarried, -⟩ := carried_of_parts (hmore (List.cons_ne_nil _ _)) hps
  obtain ⟨rest, hserialize⟩ :=
    serialize_eq_cons { z with m_nextHeader := IPV6_EXT_FRAGMENTATION }
  obtain ⟨-, -, hnext, hwell, -⟩ := hl.linked
  rw [hcarried, hserialize] at heq
  have hfirst : IPV6_EXT_FRAGMENTATION = h.nextHeader := (List.cons.inj heq).1
  exact isFragmentType_ne hwell.type (hnext.trans hfirst.symm)

/-! ### One extension header -/

theorem even_length (hl : Layout packet ipv6Header [h] nextHeader p)
    (hmore : moreHeader ipv6Header.m_nextHeader packet = true)
    (hps : parts packet ipv6Header = .ok ps) (htype : h.type = IPV6_EXT_ROUTING)
    {header header' : Ipv6ExtensionFragmentHeader} {data data' : List UInt8}
    (heq : carried ps ++ (header.serialize ++ data) = relinked [h] ++ (header'.serialize ++ data'))
    (hnext : header'.m_nextHeader = nextHeader) : h.length.toNat % 2 = 0 := by
  obtain ⟨hfirst, hwell, -⟩ := hl.linked
  obtain ⟨before, z, type, q, hcarried, hz, hread, hlast, hnil, hbefore⟩ :=
    carried_of_parts hmore hps
  rw [hcarried] at heq
  by_cases hrouting : type = IPV6_EXT_ROUTING
  · rw [deserializeHeader, if_pos hrouting] at hread
    obtain ⟨length, rest, hserialize, heven⟩ :=
      serialize_deserializeRouting hread IPV6_EXT_FRAGMENTATION
    rw [hserialize] at heq
    have hlength : length = h.length := (List.cons.inj (List.cons.inj heq).2).1
    rw [← hlength]
    exact heven
  · -- a header with options came last, and there is one before it
    exfalso
    rw [deserializeHeader, if_neg hrouting] at hread
    obtain ⟨rest, -, hrest, hsize, hserialize⟩ :=
      serialize_deserializeOptions hread IPV6_EXT_FRAGMENTATION
    rcases List.eq_nil_or_concat before with rfl | ⟨before, y, rfl⟩
    · exact hrouting ((hnil rfl).trans (hfirst.symm.trans htype))
    rw [List.concat_eq_append] at heq hbefore
    obtain hy : y.m_nextHeader = type := hbefore y (by rw [List.getLast?_concat]; rfl)
    obtain ⟨rest', hserialize'⟩ := serialize_eq_cons y
    rw [hserialize, List.reverse_append, List.reverse_singleton, List.singleton_append,
      List.flatMap_cons, hserialize', List.append_assoc] at heq
    have hlength : z.m_length = h.length := (List.cons.inj (List.cons.inj heq).2).1
    have hsame : (IPV6_EXT_FRAGMENTATION :: z.m_length :: rest).length = (relinked [h]).length := by
      change rest.length + 1 + 1 = h.data.length + 1 + 1
      rw [hrest, hwell.length, hlength]
    have hbehind := (List.append_inj heq hsame).2
    have hbyte : y.m_nextHeader = header'.m_nextHeader := (List.cons.inj hbehind).1
    rw [hy, hnext] at hbyte
    rcases moreHeader_cases hz with htype | htype | ⟨htype, hhead⟩
    · exact hl.hopByHop (hbyte.symm.trans htype)
    · exact hrouting htype
    · -- a destination header is only taken off if a routing header follows it
      have hznext : z.m_nextHeader = IPV6_EXT_ROUTING := by
        obtain _ | ⟨b, q⟩ := q
        · exact absurd hhead (by decide)
        rw [Ipv6ExtensionHeader.deserializeOptions, readU8_cons, Except.ok_bind] at hread
        obtain ⟨⟨length, i⟩, -, hread⟩ := Except.bind_eq_ok.mp hread
        obtain ⟨⟨options, i'⟩, -, hread⟩ := Except.bind_eq_ok.mp hread
        obtain rfl := Except.ok.inj hread
        exact Option.some.inj hhead
      rw [hznext] at hlast
      exact absurd hlast (by simp [moreHeader])

/-- A routing header without what it may lose. -/
def kept (h : WireHeader) : List UInt8 :=
  if h.type = IPV6_EXT_ROUTING then h.data.take 2 ++ ([0, 0, 0, 0] ++ h.data.drop 6) else h.data

theorem exists_deserializeHeader (hh : h.WellFormed)
    (heven : h.type = IPV6_EXT_ROUTING → h.length.toNat % 2 = 0) (p : List UInt8) :
    ∃ header, deserializeHeader h.type (h.bytes ++ p) = .ok header ∧
      header.m_nextHeader = h.nextHeader ∧ header.getLength = h.bytes.length ∧
      header.getSerializedSize = h.bytes.length ∧
      Ipv6ExtensionHeader.serialize { header with m_nextHeader := IPV6_EXT_FRAGMENTATION } =
        IPV6_EXT_FRAGMENTATION :: h.length :: kept h := by
  rw [WireHeader.length_bytes hh, deserializeHeader, kept]
  split_ifs with hrouting
  · obtain ⟨header, hread, hnext, hlength, hsize, hserialize⟩ :=
      deserializeRouting_bytes hh (heven hrouting) p
    refine ⟨header, hread, hnext, ?_, hsize, hserialize _⟩
    rw [Ipv6ExtensionHeader.getLength, hlength]
  · have hread := deserializeOptions_bytes hh p
    obtain ⟨data, hcontent, -, hsize, hserialize⟩ :=
      serialize_deserializeOptions hread IPV6_EXT_FRAGMENTATION
    obtain rfl : h.data = data := Ipv6ExtensionContent.options.inj hcontent
    exact ⟨_, hread, rfl, rfl, hsize, hserialize⟩

theorem kept_eq_iff (hh : h.WellFormed)
    (heven : h.type = IPV6_EXT_ROUTING → h.length.toNat % 2 = 0) :
    kept h = h.data ↔ Rewritten h := by
  rw [kept, Rewritten]
  split_ifs with hrouting
  · have hlen : 6 ≤ h.data.length := by
      rw [hh.length]
      omega
    have htake : (h.data.take 2).length = 2 := List.length_take_of_le (by omega)
    have hsplit : h.data = h.data.take 2 ++ ((h.data.drop 2).take 4 ++ h.data.drop 6) := by
      conv_lhs => rw [← List.take_append_drop 2 h.data, ← List.take_append_drop 4 (h.data.drop 2),
        List.drop_drop]
    have hreserved : ((h.data.drop 2).take 4).length = 4 := by
      rw [List.length_take, List.length_drop]
      omega
    constructor
    · intro heq _
      rw [hsplit] at heq
      have hrest := (List.append_inj heq (by
        rw [← hsplit])).2
      refine ⟨heven hrouting, ?_⟩
      rw [← hsplit] at hrest
      exact (List.append_inj hrest hreserved.symm).1.symm
    · intro hrewritten
      conv_rhs => rw [hsplit]
      rw [(hrewritten hrouting).2]
  · exact iff_of_true rfl fun hrouting' ↦ absurd hrouting' hrouting

theorem Layout.moreHeader_eq_false (hl : Layout packet ipv6Header hs nextHeader p) :
    moreHeader nextHeader p = false := by
  rw [moreHeader, decide_eq_false hl.hopByHop, decide_eq_false hl.routing, Bool.false_or,
    Bool.false_or]
  by_cases heq : nextHeader = IPV6_EXT_DESTINATION
  · obtain ⟨b, rest, rfl, hb⟩ := hl.destination heq
    have hhead : ¬ (b :: rest).head? = some IPV6_EXT_ROUTING := fun hsome ↦ hb (Option.some.inj hsome)
    rw [decide_eq_true heq, Bool.true_and, decide_eq_false hhead]
  · rw [decide_eq_false heq, Bool.false_and]

theorem parts_singleton (hl : Layout packet ipv6Header [h] nextHeader p)
    {header : Ipv6ExtensionHeader} (hread : deserializeHeader h.type (h.bytes ++ p) = .ok header)
    (hnext : header.m_nextHeader = h.nextHeader) (hlength : header.getLength = h.bytes.length)
    (hsize : header.getSerializedSize = h.bytes.length) :
    moreHeader ipv6Header.m_nextHeader packet = true ∧ parts packet ipv6Header =
      .ok ⟨[{ header with m_nextHeader := IPV6_EXT_FRAGMENTATION }], h.bytes.length % 2 ^ 8,
        nextHeader, p⟩ := by
  obtain ⟨htype, hwell, hlast⟩ := hl.linked
  have hpacket : packet = h.bytes ++ p := by
    rw [hl.packet_eq, List.flatMap_singleton]
  have hdest : h.type ≠ IPV6_EXT_DESTINATION := hl.last h rfl
  have hmore : moreHeader ipv6Header.m_nextHeader packet = true := by
    rw [← htype, moreHeader]
    rcases hwell.type with heq | heq | heq
    · simp [heq]
    · simp [heq]
    · exact absurd heq hdest
  have hlink : h.nextHeader = nextHeader := hlast
  refine ⟨hmore, ?_⟩
  rw [parts, if_pos hmore, removeHeaders]
  dsimp only
  rw [← htype, hpacket, hread, Except.ok_bind, hsize, List.drop_left, hnext, hlink, hlength,
    hl.moreHeader_eq_false, add32_eq (by omega), Nat.zero_add]
  rfl

theorem parts_nil (hl : Layout packet ipv6Header [] nextHeader p) :
    moreHeader ipv6Header.m_nextHeader packet = false ∧
      parts packet ipv6Header = .ok ⟨[], 0, nextHeader, p⟩ := by
  have htype : ipv6Header.m_nextHeader = nextHeader := hl.linked
  obtain rfl : packet = p := hl.packet_eq
  have hend := hl.moreHeader_eq_false
  rw [← htype] at hend
  rw [parts, if_neg (Bool.eq_false_iff.mp hend), htype]
  exact ⟨htype ▸ hend, rfl⟩

theorem room_eq {n : ℕ} (hsize : ps.unfragmentablePartSize = n % 2 ^ 8)
    (hmin : serializedSize + n + 8 + 8 ≤ maxFragmentSize) (hmax : maxFragmentSize < 2 ^ 32) :
    room ps maxFragmentSize = maxFragmentSize - 48 - n % 2 ^ 8 := by
  have hle := Nat.mod_le n (2 ^ 8)
  have hfirst : sub32 maxFragmentSize serializedSize = maxFragmentSize - serializedSize :=
    sub32_eq (by omega) hmax
  have hsecond : sub32 (maxFragmentSize - serializedSize) (n % 2 ^ 8) =
      maxFragmentSize - serializedSize - n % 2 ^ 8 := sub32_eq (by omega) (by omega)
  rw [room, hsize, hfirst, hsecond, sub32_eq (Nat.le_sub_of_add_le (Nat.le_sub_of_add_le ?_)) ?_]
  · rw [serializedSize, Ipv6ExtensionFragmentHeader.serializedSize]
    omega
  · rw [Ipv6ExtensionFragmentHeader.serializedSize]
    omega
  · omega

theorem fragmented_of_parts (hl : Layout packet ipv6Header hs nextHeader p)
    (hps : parts packet ipv6Header = .ok ps) (hp : ps.p = p) (hnext : ps.nextHeader = nextHeader)
    (hcarried : carried ps = relinked hs)
    (hmore : moreHeader ipv6Header.m_nextHeader packet = true ↔ hs ≠ [])
    (hroom : 8 ≤ room ps maxFragmentSize)
    (hfits : serializedSize + ((relinked hs).length + (8 + room ps maxFragmentSize)) ≤
        maxFragmentSize ∨
      serializedSize + ((relinked hs).length + (8 + p.length)) ≤ maxFragmentSize) :
    Fragmented packet ipv6Header hs nextHeader p maxFragmentSize identification := by
  subst hp hnext
  have hlen : ps.p.length < 2 ^ 16 := (parts_length_le hps).trans_lt hl.lt
  obtain ⟨listFragments, hloop⟩ := exists_fragmentLoop hroom (room_lt ps _) hlen (ps.p.length + 1)
    (Nat.zero_le _) (.inl rfl) (Nat.lt_succ_of_le (Nat.sub_le _ _))
  have hsize := length_fragmentLoop_le (room_lt ps _) hlen _
    (Nat.zero_le _) (.inl rfl) hloop
  obtain ⟨pieces, rfl, hsplits⟩ := fragmentLoop_eq_ok (room_lt ps _) hlen _ rfl
    (Nat.zero_le _) (.inl rfl) hloop
  refine ⟨_, getFragments_eq_ok_iff.mpr ⟨ps, _, hps, hloop, rfl⟩, pieces, hsplits.consecutive, ?_,
    ?_, ?_, ?_⟩
  · have hflat := hsplits.consecutive.flatMap hsplits.of (Nat.zero_le _)
    rw [hsplits.reach, List.take_length] at hflat
    exact hflat
  · obtain ⟨q, hq, -⟩ := hsplits.last
    exact List.ne_nil_of_mem hq
  · by_cases hnil : ps.p = []
    · -- the first turn of the loop is the last one
      rw [fragmentLoop, hnil, List.length_nil, if_neg (Nat.not_lt_zero _)] at hloop
      have hone := congrArg List.length (Except.ok.inj hloop)
      rw [List.length_map] at hone
      obtain ⟨q, rfl⟩ := List.length_eq_one_iff.mp hone.symm
      exact fun q hq ↦ absurd hq List.not_mem_nil
    · intro q hq
      refine ⟨?_, hsplits.consecutive.length_mod hsplits.aligned q hq⟩
      exact List.length_pos_of_ne_nil (hsplits.ne_nil hnil q (List.mem_of_mem_dropLast hq))
  · rw [List.forall₂_map_left_iff, List.forall₂_map_left_iff, List.forall₂_same]
    intro q hq
    obtain ⟨hstop, -⟩ := hsplits.of q hq
    rw [Piece.stop] at hstop
    obtain ⟨hoffset, hflag, hid⟩ := @fragmentHeader_spec ps identification q
      (hsplits.aligned q hq) (by omega)
    refine ⟨fragmentHeader ps identification q, ?_, rfl, hoffset, hflag, hid, ?_, ?_⟩
    · rw [withHeader, build_eq, hcarried]
    · have hdata := hsize _ (List.mem_map_of_mem hq)
      have hlength := length_addHeaders ps identification q.offset
        (decide (q.stop < ps.p.length)) q.data
      rw [build, hlength, hcarried] at hdata
      change serializedSize + (build ps identification q).length ≤ maxFragmentSize
      rw [build, hlength, hcarried]
      omega
    · rw [withHeader]
      by_cases hnil : hs = []
      · rw [if_neg (mt hmore.mp (not_not_intro hnil)), if_pos hnil]
      · rw [if_pos (hmore.mpr hnil), if_neg hnil]

theorem headersKept_of_fragmented (hl : Layout packet ipv6Header hs nextHeader p)
    (hmin : serializedSize + (hs.flatMap WireHeader.bytes).length + 8 + 8 ≤ maxFragmentSize)
    (hmax : maxFragmentSize < 2 ^ 32)
    (hf : Fragmented packet ipv6Header hs nextHeader p maxFragmentSize identification) :
    HeadersKept maxFragmentSize p hs := by
  obtain _ | ⟨h, _ | ⟨h', hs⟩⟩ := hs
  · exact trivial
  · obtain ⟨ps, listFragments, hps, hloop, hsizes, hmore, header, header', data, data', heq, hnext⟩ :=
      hf.spec hl
    obtain ⟨-, hwell, -⟩ := hl.linked
    have heven : h.type = IPV6_EXT_ROUTING → h.length.toNat % 2 = 0 := fun htype ↦
      even_length hl (hmore (List.cons_ne_nil _ _)) hps htype heq hnext
    obtain ⟨found, hread, hfnext, hflength, hfsize, hserialize⟩ := exists_deserializeHeader hwell heven p
    obtain ⟨-, hparts⟩ := parts_singleton hl hread hfnext hflength hfsize
    obtain rfl := Except.ok.inj (hparts.symm.trans hps)
    have hcarried : carried ⟨[{ found with m_nextHeader := IPV6_EXT_FRAGMENTATION }],
        h.bytes.length % 2 ^ 8, nextHeader, p⟩ = IPV6_EXT_FRAGMENTATION :: h.length :: kept h := by
      rw [carried, List.reverse_singleton, List.flatMap_singleton, hserialize]
    have hlength : (kept h).length = h.data.length := by
      have hlen := hwell.length
      rw [kept]
      split_ifs
      · simp only [List.length_append, List.length_take, List.length_drop, List.length_cons,
          List.length_nil]
        omega
      · rfl
    rw [hcarried] at heq
    have hsame := (List.append_inj heq (congrArg (· + 1 + 1) hlength)).1
    refine ⟨(kept_eq_iff hwell heven).mp (List.cons.inj (List.cons.inj hsame).2).2, ?_⟩
    by_contra hlarge
    rw [not_or, not_lt, not_le] at hlarge
    obtain ⟨first, hfirst, hfirstlen⟩ := exists_length_fragmentLoop (room_lt _ _) hloop
    have hle := hsizes first hfirst
    rw [List.flatMap_singleton] at hmin
    have hbytes : h.bytes.length = h.data.length + 1 + 1 := rfl
    rw [hfirstlen, hcarried, List.length_cons, List.length_cons, hlength, room_eq rfl hmin hmax] at hle
    rw [serializedSize] at hle hlarge hmin
    dsimp only at hle
    split_ifs at hle with hshort
    · omega
    · omega
  · exact absurd hf (not_fragmented_of_two hl)

/-- **The headers come out right exactly if there is at most one, which is written as it was read, and
is smaller than 256 bytes unless one fragment is enough.** -/
theorem fragmented_iff (hl : Layout packet ipv6Header hs nextHeader p)
    (hmin : serializedSize + (hs.flatMap WireHeader.bytes).length + 8 + 8 ≤ maxFragmentSize)
    (hmax : maxFragmentSize < 2 ^ 32) :
    Fragmented packet ipv6Header hs nextHeader p maxFragmentSize identification ↔
      HeadersKept maxFragmentSize p hs := by
  refine ⟨headersKept_of_fragmented hl hmin hmax, fun hkept ↦ ?_⟩
  obtain _ | ⟨h, _ | ⟨h', hs⟩⟩ := hs
  · obtain ⟨hmore, hps⟩ := parts_nil hl
    have hroom : room ⟨[], 0, nextHeader, p⟩ maxFragmentSize = maxFragmentSize - 48 - 0 % 2 ^ 8 :=
      room_eq rfl hmin hmax
    rw [serializedSize, List.flatMap_nil, List.length_nil] at hmin
    apply fragmented_of_parts hl hps rfl rfl rfl
    · simp [hmore]
    · rw [hroom]
      omega
    · left
      rw [hroom, relinked, List.length_nil, serializedSize]
      omega
  · obtain ⟨hrewritten, hfits⟩ := hkept
    obtain ⟨-, hwell, -⟩ := hl.linked
    have heven : h.type = IPV6_EXT_ROUTING → h.length.toNat % 2 = 0 := fun htype ↦
      (hrewritten htype).1
    obtain ⟨found, hread, hfnext, hflength, hfsize, hserialize⟩ := exists_deserializeHeader hwell heven p
    obtain ⟨hmore, hps⟩ := parts_singleton hl hread hfnext hflength hfsize
    rw [List.flatMap_singleton] at hmin
    have hroom := @room_eq _ ⟨[{ found with m_nextHeader := IPV6_EXT_FRAGMENTATION }],
      h.bytes.length % 2 ^ 8, nextHeader, p⟩ _ rfl hmin hmax
    have hbytes : (relinked [h]).length = h.bytes.length := rfl
    rw [serializedSize] at hmin hfits
    apply fragmented_of_parts hl hps rfl rfl
    · rw [carried, List.reverse_singleton, List.flatMap_singleton, hserialize,
        (kept_eq_iff hwell heven).mpr hrewritten]
      rfl
    · exact iff_of_true hmore (List.cons_ne_nil _ _)
    · rw [hroom]
      omega
    · rw [hroom, hbytes, serializedSize]
      omega
  · exact hkept.elim

end Packet

/-! ## Two packets -/

/-- A hop-by-hop header with padding. -/
def paddedOptions (nextHeader : UInt8) : WireHeader :=
  ⟨IPV6_EXT_HOP_BY_HOP, nextHeader, 0, [1, 4, 0, 0, 0, 0]⟩

/-- A routing header without addresses. -/
def emptyRouting : WireHeader := ⟨IPV6_EXT_ROUTING, 17, 0, [0, 0, 0, 0, 0, 0]⟩

theorem layout_options : Layout ([17, 0, 1, 4, 0, 0, 0, 0] ++ List.replicate 20 7) ⟨1, 0, 28⟩
    [paddedOptions 17] 17 (List.replicate 20 7) where
  packet_eq := rfl
  linked := ⟨rfl, ⟨.inl rfl, rfl⟩, rfl⟩
  last := by rintro h ⟨⟩; decide
  hopByHop := by decide
  routing := by decide
  destination := fun h ↦ absurd h (by decide)
  lt := by decide

/-- Twenty bytes behind a hop-by-hop header, in fragments of at most 64 bytes. -/
theorem fragmented_options : Fragmented ([17, 0, 1, 4, 0, 0, 0, 0] ++ List.replicate 20 7) ⟨1, 0, 28⟩
    [paddedOptions 17] 17 (List.replicate 20 7) 64 9 :=
  (fragmented_iff layout_options (by decide) (by decide)).mpr
    ⟨fun h ↦ absurd h (by decide), .inl (by decide)⟩

/-- With a routing header behind the hop-by-hop header, the two change places. -/
theorem not_fragmented_routing :
    Layout ([43, 0, 1, 4, 0, 0, 0, 0, 17, 0, 0, 0, 0, 0, 0, 0] ++ List.replicate 20 7) ⟨1, 0, 36⟩
      [paddedOptions 43, emptyRouting] 17 (List.replicate 20 7) ∧
    ¬ Fragmented ([43, 0, 1, 4, 0, 0, 0, 0, 17, 0, 0, 0, 0, 0, 0, 0] ++ List.replicate 20 7)
      ⟨1, 0, 36⟩ [paddedOptions 43, emptyRouting] 17 (List.replicate 20 7) 72 9 := by
  have hl : Layout ([43, 0, 1, 4, 0, 0, 0, 0, 17, 0, 0, 0, 0, 0, 0, 0] ++ List.replicate 20 7)
      ⟨1, 0, 36⟩ [paddedOptions 43, emptyRouting] 17 (List.replicate 20 7) := {
    packet_eq := rfl
    linked := ⟨rfl, ⟨.inl rfl, rfl⟩, rfl, ⟨.inr (.inl rfl), rfl⟩, rfl⟩
    last := by rintro h ⟨⟩; decide
    hopByHop := by decide
    routing := by decide
    destination := fun h ↦ absurd h (by decide)
    lt := by decide }
  exact ⟨hl, not_fragmented_of_two hl⟩

end Ipv6ExtensionFragment

end Ns3
