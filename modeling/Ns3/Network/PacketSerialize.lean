import Ns3.Library.BoundedWriter
import Ns3.Network.Buffer
import Ns3.Network.NixVector

/-!
# Serialization of packets

`Packet::Serialize` writes the nix-vector, the metadata and the buffer of a packet into at most
`maxSize` bytes, each as a section: a word with its length, the section itself, and padding up to a
multiple of four. `GetSerializedSize` counts all of that.

The check in front of a section does not: the running size is a sum of lengths without the words, save
that of a missing nix-vector, and without padding. When `maxSize` lies between that sum and the end of
the section, the section is written past `maxSize`; after the last section the function even reports
success. Everywhere else it keeps to its contract.
-/

namespace Ns3

open Output

/-- `(n + 3) & ~3` on unsigned 32-bit numbers. -/
def pad32 (n : ℕ) : ℕ := add32 n 3 / 4 * 4

theorem pad32_eq {n : ℕ} (h : n + 3 < 2 ^ 32) : pad32 n = (n + 3) / 4 * 4 := by
  rw [pad32, add32_eq h]

/-! ## The sections -/

namespace NixVector

/-- What `Serialize` writes, word by word. -/
def chunks (v : NixVector) : List Chunk :=
  ([v.m_used, v.m_currentVectorBitSize, v.m_totalBitSize] ++ v.m_nixVector).map fun word ↦
    .exact (hostBytes 4 word.toNat)

def serialize (v : NixVector) (maxSize buffer : ℕ) (m : Output) : Bool × Output :=
  writeChunks buffer maxSize 0 v.chunks m

end NixVector

/-- An item of the metadata, and what is read behind it. -/
structure PacketMetadataItem where
  typeUid : UInt32
  size : UInt32
  chunkUid : UInt16
  fragmentStart : UInt32
  fragmentEnd : UInt32
  packetUid : UInt64
  deriving DecidableEq, Repr

/-- `PacketMetadata`. The linked list from `m_head` to `m_tail` is the list of what `ReadItems` reads on
it; it is empty when metadata are not enabled. -/
structure PacketMetadata where
  m_enable : Bool
  m_packetUid : UInt64
  items : List PacketMetadataItem
  disabled : m_enable = false → items = []

namespace PacketMetadata

/-- The identifier of the type of an item, zero for payload. -/
def uid (item : PacketMetadataItem) : UInt32 := (item.typeUid &&& 0xfffffffe) >>> 1

/-- What an item adds to the size. `name` is `TypeId::GetName`. -/
def itemSize (name : UInt32 → List UInt8) (item : PacketMetadataItem) : ℕ :=
  if uid item = 0 then 4 else 4 + (name (uid item)).length

def getSerializedSize (name : UInt32 → List UInt8) (md : PacketMetadata) : ℕ :=
  if md.m_enable = true then
    md.items.foldl
      (fun totalSize item ↦ add32 (add32 totalSize (itemSize name item)) (1 + 4 + 2 + 4 + 4 + 8)) 8
  else 8

/-- What `Serialize` writes for an item. -/
def itemChunks (name : UInt32 → List UInt8) (item : PacketMetadataItem) : List Chunk :=
  (if uid item ≠ 0 then
    [.exact (hostBytes 4 (name (uid item)).length), .exact (name (uid item))]
  else [.exact (hostBytes 4 0)]) ++
  [.exact (hostBytes 1 (item.typeUid &&& 1).toNat), .exact (hostBytes 4 item.size.toNat),
    .exact (hostBytes 2 item.chunkUid.toNat), .exact (hostBytes 4 item.fragmentStart.toNat),
    .exact (hostBytes 4 item.fragmentEnd.toNat), .exact (hostBytes 8 item.packetUid.toNat)]

/-- What `Serialize` writes. -/
def chunks (name : UInt32 → List UInt8) (md : PacketMetadata) : List Chunk :=
  .exact (hostBytes 8 md.m_packetUid.toNat) :: md.items.flatMap (itemChunks name)

def serialize (name : UInt32 → List UInt8) (md : PacketMetadata) (maxSize buffer : ℕ) (m : Output) :
    Bool × Output :=
  writeChunks buffer maxSize 0 (md.chunks name) m

end PacketMetadata

namespace Buffer

variable (x : Buffer) (data : Data)

def getSerializedSize : ℕ :=
  let dataStart := pad32 (sub32 x.m_zeroAreaStart x.m_start)
  let dataEnd := pad32 (sub32 x.m_end x.m_zeroAreaEnd)
  add32 (add32 (4 + 4) dataStart) (add32 4 dataEnd)

/-- What `Serialize` writes: the three lengths, and the real bytes on both sides of the zero area. -/
def chunks : List Chunk :=
  let dataStartLength := sub32 x.m_zeroAreaStart x.m_start
  let dataEndLength := sub32 x.m_end x.m_zeroAreaEnd
  [.exact (hostBytes 4 x.zeroSize), .exact (hostBytes 4 dataStartLength),
    ⟨span data.m_data x.m_start dataStartLength, pad32 dataStartLength⟩,
    .exact (hostBytes 4 dataEndLength),
    ⟨span data.m_data x.m_zeroAreaStart dataEndLength, pad32 dataEndLength⟩]

def serialize (maxSize buffer : ℕ) (m : Output) : Bool × Output :=
  writeChunks buffer maxSize 0 (x.chunks data) m

end Buffer

/-! ## The packet -/

/-- `Packet`, as far as it is serialized, with the block of its buffer. -/
structure Packet where
  m_nixVector : Option NixVector
  m_metadata : PacketMetadata
  m_buffer : Buffer
  data : Buffer.Data
  ordered : Buffer.Ordered m_buffer data.m_size

namespace Packet

/-- The running size, the position `p`, and what has been written. -/
structure Progress where
  size : ℕ
  p : ℕ
  output : Output

variable (name : UInt32 → List UInt8) (pkt : Packet) (maxSize : ℕ)

/-- A section of `sectionSize` bytes: the check, the word with the length, the section and the padding
behind it. -/
def serializeSection (sectionSize : ℕ) (serialize : ℕ → ℕ → Output → Bool × Output) (s : Progress) :
    Except Output Progress :=
  if add32 s.size sectionSize ≤ maxSize then
    let output := s.output.put s.p (hostBytes 4 (add32 sectionSize 4))
    match serialize sectionSize (s.p + 4) output with
    | (true, output) => .ok ⟨add32 s.size sectionSize, s.p + 4 + pad32 sectionSize, output⟩
    | (false, output) => .error output
  else .error s.output

/-- The first section, or the word in place of a missing nix-vector. -/
def serializeNixVector (s : Progress) : Except Output Progress :=
  match pkt.m_nixVector with
  | some v => serializeSection maxSize v.getSerializedSize.toNat v.serialize s
  | none =>
    if add32 s.size 4 ≤ maxSize then
      .ok ⟨add32 s.size 4, s.p + 4, s.output.put s.p (hostBytes 4 4)⟩
    else .error s.output

/-- The sections. Where they do not fit, what has been written so far. -/
def serializeSections : Except Output Progress := do
  let s ← pkt.serializeNixVector maxSize ⟨0, 0, Output.empty⟩
  let s ← serializeSection maxSize (pkt.m_metadata.getSerializedSize name)
    (pkt.m_metadata.serialize name) s
  serializeSection maxSize pkt.m_buffer.getSerializedSize (pkt.m_buffer.serialize pkt.data) s

/-- `Serialize`: whether it returns one, and what it has written. -/
def serialize : Bool × Output :=
  match pkt.serializeSections name maxSize with
  | .ok s => (true, s.output)
  | .error output => (false, output)

end Packet

/-! ## Sizes -/

theorem room_exact {ι : Type*} (l : List ι) (f : ι → List UInt8) :
    room (l.map fun i ↦ .exact (f i)) = (l.map fun i ↦ (f i).length).sum := by
  rw [room, List.map_map]
  rfl

namespace NixVector

theorem room_chunks (v : NixVector) : room v.chunks = 12 + 4 * v.m_nixVector.length := by
  rw [chunks, room_exact]
  simp only [length_hostBytes, List.map_const', List.sum_replicate, List.length_append,
    List.length_cons, List.length_nil, smul_eq_mul]
  omega

theorem getSerializedSize_eq (v : NixVector) (h : room v.chunks < 2 ^ 32) :
    v.getSerializedSize.toNat = room v.chunks := by
  rw [room_chunks] at h ⊢
  rw [getSerializedSize, UInt32.toNat_add, UInt32.toNat_mul, UInt32.toNat_ofNat']
  change (12 + 4 * (v.m_nixVector.length % 2 ^ 32) % 2 ^ 32) % 2 ^ 32 = _
  omega

theorem length_eq_room (v : NixVector) : ∀ c ∈ v.chunks, c.bytes.length = c.room := by
  intro c hc
  obtain ⟨word, -, rfl⟩ := List.mem_map.mp hc
  rfl

end NixVector

namespace PacketMetadata

variable (name : UInt32 → List UInt8)

theorem room_itemChunks (item : PacketMetadataItem) :
    room (itemChunks name item) = itemSize name item + 23 := by
  rw [itemChunks, itemSize]
  by_cases h : uid item = 0
  · simp [h, Chunk.exact]
  · simp [h, Chunk.exact, add_assoc]

theorem room_flatMap (items : List PacketMetadataItem) :
    room (items.flatMap (itemChunks name)) = (items.map fun item ↦ itemSize name item + 23).sum := by
  induction items with
  | nil => rfl
  | cons item items ih => rw [List.flatMap_cons, room_append, room_itemChunks, ih, List.map_cons,
      List.sum_cons]

theorem room_chunks (md : PacketMetadata) :
    room (md.chunks name) = 8 + (md.items.map fun item ↦ itemSize name item + 23).sum := by
  rw [chunks, room_cons, room_flatMap]
  rfl

theorem foldl_itemSize (items : List PacketMetadataItem) (n : ℕ)
    (h : n + (items.map fun item ↦ itemSize name item + 23).sum < 2 ^ 32) :
    items.foldl (fun totalSize item ↦ add32 (add32 totalSize (itemSize name item))
      (1 + 4 + 2 + 4 + 4 + 8)) n = n + (items.map fun item ↦ itemSize name item + 23).sum := by
  induction items generalizing n with
  | nil => rfl
  | cons item items ih =>
    rw [List.map_cons, List.sum_cons] at h ⊢
    have hadd : add32 n (itemSize name item) = n + itemSize name item := add32_eq (by omega)
    have hadd' : add32 (n + itemSize name item) (1 + 4 + 2 + 4 + 4 + 8) =
        n + itemSize name item + 23 := add32_eq (by omega)
    rw [List.foldl_cons, hadd, hadd', ih _ (by omega)]
    omega

theorem getSerializedSize_eq (md : PacketMetadata) (h : room (md.chunks name) < 2 ^ 32) :
    md.getSerializedSize name = room (md.chunks name) := by
  rw [room_chunks] at h ⊢
  rw [getSerializedSize]
  split_ifs with henable
  · exact foldl_itemSize name md.items 8 h
  · rw [md.disabled (by simpa using henable)]
    rfl

theorem length_eq_room (md : PacketMetadata) : ∀ c ∈ md.chunks name, c.bytes.length = c.room := by
  intro c hc
  rcases List.mem_cons.mp hc with rfl | hc
  · rfl
  · obtain ⟨item, -, hc⟩ := List.mem_flatMap.mp hc
    rw [itemChunks] at hc
    split_ifs at hc <;> simp only [List.cons_append, List.nil_append, List.mem_cons,
      List.not_mem_nil, or_false] at hc
    · rcases hc with rfl | rfl | rfl | rfl | rfl | rfl | rfl | rfl <;> rfl
    · rcases hc with rfl | rfl | rfl | rfl | rfl | rfl | rfl <;> rfl

end PacketMetadata

namespace Buffer

variable {x : Buffer} {data : Data}

/-- The length of the encoding of a buffer. -/
def encodedLength (x : Buffer) : ℕ :=
  12 + (x.m_zeroAreaStart - x.m_start + 3) / 4 * 4 + (x.m_end - x.m_zeroAreaEnd + 3) / 4 * 4

/-- The lengths of the real parts, padded or not, do not overflow when the encoding does not. -/
theorem Ordered.pads (ho : Ordered x data.m_size) (h : x.encodedLength < 2 ^ 32) :
    sub32 x.m_zeroAreaStart x.m_start = x.m_zeroAreaStart - x.m_start ∧
      sub32 x.m_end x.m_zeroAreaEnd = x.m_end - x.m_zeroAreaEnd ∧
      pad32 (x.m_zeroAreaStart - x.m_start) = (x.m_zeroAreaStart - x.m_start + 3) / 4 * 4 ∧
      pad32 (x.m_end - x.m_zeroAreaEnd) = (x.m_end - x.m_zeroAreaEnd + 3) / 4 * 4 := by
  obtain ⟨h1, h2, h3, h4, -⟩ := ho
  rw [encodedLength] at h
  exact ⟨sub32_eq h1 (by omega), sub32_eq h3 h4, pad32_eq (by omega), pad32_eq (by omega)⟩

theorem room_chunks (ho : Ordered x data.m_size) (h : x.encodedLength < 2 ^ 32) :
    room (x.chunks data) = x.encodedLength := by
  obtain ⟨hfront, hback, hpad, hpad'⟩ := ho.pads h
  simp only [chunks, room_cons, room_nil, Chunk.exact, length_hostBytes, hfront, hback, hpad, hpad',
    encodedLength]
  omega

theorem getSerializedSize_eq (ho : Ordered x data.m_size) (h : x.encodedLength < 2 ^ 32) :
    x.getSerializedSize = x.encodedLength := by
  obtain ⟨hfront, hback, hpad, hpad'⟩ := ho.pads h
  rw [encodedLength] at h ⊢
  rw [getSerializedSize, hfront, hback, hpad, hpad', add32_eq (a := 4 + 4) (by omega),
    add32_eq (a := 4) (by omega), add32_eq (by omega)]
  omega

theorem length_le_room (ho : Ordered x data.m_size) (h : x.encodedLength < 2 ^ 32) :
    ∀ c ∈ x.chunks data, c.bytes.length ≤ c.room := by
  obtain ⟨hfront, hback, hpad, hpad'⟩ := ho.pads h
  intro c hc
  simp only [chunks, List.mem_cons, List.not_mem_nil, or_false, hfront, hback, hpad, hpad'] at hc
  rcases hc with rfl | rfl | rfl | rfl | rfl
  · exact le_rfl
  · exact le_rfl
  · rw [length_span]
    dsimp only
    omega
  · exact le_rfl
  · rw [length_span]
    dsimp only
    omega

end Buffer

namespace Packet

variable (name : UInt32 → List UInt8) (pkt : Packet)

/-- The length of a section of `n` bytes, with its word and its padding. -/
def sectionLength (n : ℕ) : ℕ := 4 + (n + 3) / 4 * 4

/-- The running size that the first check compares. -/
def nixSize : ℕ := pkt.m_nixVector.elim 4 fun v ↦ room v.chunks

/-- Where the first section ends. -/
def nixEnd : ℕ := pkt.m_nixVector.elim 4 fun v ↦ sectionLength (room v.chunks)

/-- The length of the metadata. -/
def metaSize : ℕ := room (pkt.m_metadata.chunks name)

/-- The number of bytes of the full encoding. -/
def encodingLength : ℕ :=
  pkt.nixEnd + sectionLength (pkt.metaSize name) + sectionLength pkt.m_buffer.encodedLength

/-- `Serialize` writes only to the first `maxSize` bytes, and succeeds exactly when they hold the full
encoding. -/
def KeepsToBound (maxSize : ℕ) : Prop :=
  (∀ i, maxSize ≤ i → (pkt.serialize name maxSize).2 i = none) ∧
    ((pkt.serialize name maxSize).1 = true ↔ pkt.encodingLength name ≤ maxSize)

section Serialize

variable {name pkt} {maxSize n : ℕ} {s : Progress} {f : ℕ → ℕ → Output → Bool × Output}

theorem serializeSection_of_lt (h : maxSize < s.size + n) (hlt : s.size + n < 2 ^ 32) :
    serializeSection maxSize n f s = .error s.output := by
  rw [serializeSection, add32_eq hlt, if_neg (not_le.mpr h)]

theorem serializeSection_of_le (h : s.size + n ≤ maxSize) (hlt : s.size + n + 4 < 2 ^ 32)
    (hf : ∀ p m, ∃ m', f n p m = (true, m') ∧ Within m m' p (p + n)) :
    ∃ output, serializeSection maxSize n f s =
        .ok ⟨s.size + n, s.p + sectionLength n, output⟩ ∧
      Within s.output output s.p (s.p + 4 + n) ∧
      ((∀ p m, Filled (f n p m).2 p (p + n)) → Filled output s.p (s.p + 4 + n)) := by
  obtain ⟨output, houtput, hw⟩ := hf (s.p + 4) (s.output.put s.p (hostBytes 4 (add32 n 4)))
  have hword := within_put s.output s.p (hostBytes 4 (add32 n 4))
  have hfill := filled_put s.output s.p (hostBytes 4 (add32 n 4))
  rw [length_hostBytes] at hword hfill
  refine ⟨output, ?_, (hword.mono le_rfl (by omega)).trans (hw.mono (by omega) le_rfl), fun hall ↦ ?_⟩
  · rw [serializeSection, add32_eq (by omega), if_pos h]
    dsimp only
    rw [houtput, pad32_eq (by omega), sectionLength, add_assoc]
  · have hrest := hall (s.p + 4) (s.output.put s.p (hostBytes 4 (add32 n 4)))
    rw [houtput] at hrest
    exact hfill.append hrest hw

theorem serializeNixVector_of_lt (h : maxSize < pkt.nixSize) (hlt : pkt.nixEnd < 2 ^ 32) :
    pkt.serializeNixVector maxSize ⟨0, 0, Output.empty⟩ = .error Output.empty := by
  rw [serializeNixVector]
  rw [nixSize] at h
  rw [nixEnd] at hlt
  cases hv : pkt.m_nixVector with
  | some v =>
    rw [hv, Option.elim_some] at h hlt
    rw [sectionLength] at hlt
    dsimp only
    rw [v.getSerializedSize_eq (by omega)]
    exact serializeSection_of_lt (by dsimp only; omega) (by dsimp only; omega)
  | none =>
    rw [hv, Option.elim_none] at h
    have hadd : add32 0 4 = 4 := add32_eq (by norm_num)
    dsimp only
    rw [hadd, if_neg (not_le.mpr h)]

theorem serializeNixVector_of_le (h : pkt.nixSize ≤ maxSize) (hlt : pkt.nixEnd < 2 ^ 32) :
    ∃ output, pkt.serializeNixVector maxSize ⟨0, 0, Output.empty⟩ =
        .ok ⟨pkt.nixSize, pkt.nixEnd, output⟩ ∧
      Within Output.empty output 0 pkt.nixEnd ∧ Filled output 0 pkt.nixEnd := by
  rw [serializeNixVector]
  rw [nixEnd] at hlt ⊢
  rw [nixSize] at h ⊢
  cases hv : pkt.m_nixVector with
  | some v =>
    rw [hv, Option.elim_some] at h hlt
    simp only [Option.elim_some]
    have hroom := v.room_chunks
    rw [sectionLength] at hlt
    rw [v.getSerializedSize_eq (by omega)]
    obtain ⟨output, houtput, hw, hfill⟩ := serializeSection_of_le
      (s := ⟨0, 0, Output.empty⟩) (n := room v.chunks) (f := v.serialize)
      ((Nat.zero_add _).trans_le h) (by dsimp only; omega) fun p m ↦ by
        obtain ⟨m', hm', hw⟩ := writeChunks_of_le p (Nat.zero_add _).le (by omega)
          (fun c hc ↦ (v.length_eq_room c hc).le) m
        exact ⟨m', hm', hw⟩
    have hend : 0 + 4 + room v.chunks = sectionLength (room v.chunks) := by
      rw [sectionLength]
      omega
    rw [hend] at hw hfill
    refine ⟨output, ?_, hw, hfill fun p m ↦ ?_⟩
    · rw [houtput]
      simp only [Nat.zero_add]
    · exact filled_writeChunks p (Nat.zero_add _).le (by omega) v.length_eq_room m
  | none =>
    rw [hv, Option.elim_none] at h
    have hadd : add32 0 4 = 4 := add32_eq (by norm_num)
    simp only [Option.elim_none]
    rw [hadd, if_pos h]
    exact ⟨_, rfl, within_put Output.empty 0 (hostBytes 4 4), filled_put Output.empty 0 (hostBytes 4 4)⟩

theorem nixSize_le (pkt : Packet) :
    4 ≤ pkt.nixSize ∧ pkt.nixSize ≤ pkt.nixEnd ∧ pkt.nixEnd ≤ pkt.nixSize + 4 := by
  rw [nixSize, nixEnd]
  cases hv : pkt.m_nixVector with
  | some v =>
    have hroom := v.room_chunks
    simp only [Option.elim_some, sectionLength]
    omega
  | none => simp

theorem serialize_of_lt_nix (h : maxSize < pkt.nixSize) (hlt : pkt.encodingLength name < 2 ^ 32) :
    pkt.serialize name maxSize = (false, Output.empty) := by
  rw [encodingLength] at hlt
  rw [serialize, serializeSections, serializeNixVector_of_lt h (by omega)]
  rfl

theorem serializeMetadata (name : UInt32 → List UInt8) (pkt : Packet) (hlt : pkt.metaSize name < 2 ^ 32) (p : ℕ) (m : Output) :
    ∃ m', pkt.m_metadata.serialize name (pkt.metaSize name) p m = (true, m') ∧
      Within m m' p (p + pkt.metaSize name) := by
  have hroom : 0 + room (pkt.m_metadata.chunks name) ≤ pkt.metaSize name := (Nat.zero_add _).le
  obtain ⟨m', hm', hw⟩ := writeChunks_of_le p hroom hlt
    (fun c hc ↦ (pkt.m_metadata.length_eq_room name c hc).le) m
  rw [Nat.add_zero] at hw
  exact ⟨m', hm', hw⟩

theorem serializeSections_eq (h : pkt.nixSize ≤ maxSize) (hlt : pkt.encodingLength name < 2 ^ 32) :
    ∃ output, Within Output.empty output 0 pkt.nixEnd ∧ Filled output 0 pkt.nixEnd ∧
      pkt.serializeSections name maxSize =
        (serializeSection maxSize (pkt.metaSize name) (pkt.m_metadata.serialize name)
          ⟨pkt.nixSize, pkt.nixEnd, output⟩).bind
        (serializeSection maxSize pkt.m_buffer.encodedLength (pkt.m_buffer.serialize pkt.data)) := by
  rw [encodingLength, sectionLength, sectionLength] at hlt
  obtain ⟨output, houtput, hw, hf⟩ := serializeNixVector_of_le h (by omega)
  refine ⟨output, hw, hf, ?_⟩
  have hmeta : pkt.m_metadata.getSerializedSize name = pkt.metaSize name :=
    pkt.m_metadata.getSerializedSize_eq name (by rw [metaSize] at hlt; omega)
  have hbuffer : pkt.m_buffer.getSerializedSize = pkt.m_buffer.encodedLength :=
    Buffer.getSerializedSize_eq pkt.ordered (by omega)
  rw [serializeSections, houtput, hmeta, hbuffer]
  rfl

theorem serialize_of_lt_meta (h : pkt.nixSize ≤ maxSize)
    (hmeta : maxSize < pkt.nixSize + pkt.metaSize name) (hlt : pkt.encodingLength name < 2 ^ 32) :
    ∃ output, pkt.serialize name maxSize = (false, output) ∧
      Within Output.empty output 0 pkt.nixEnd ∧ Filled output 0 pkt.nixEnd := by
  obtain ⟨output, hw, hf, heq⟩ := serializeSections_eq h hlt
  refine ⟨output, ?_, hw, hf⟩
  rw [encodingLength, sectionLength, sectionLength] at hlt
  have hle := pkt.nixSize_le
  rw [serialize, heq, serializeSection_of_lt (by dsimp only; omega) (by dsimp only; omega)]
  rfl

/-- The metadata fit: they are written behind the first section. -/
theorem serializeSections_eq_of_le (h : pkt.nixSize + pkt.metaSize name ≤ maxSize)
    (hlt : pkt.encodingLength name < 2 ^ 32) :
    ∃ output, Within Output.empty output 0 (pkt.nixEnd + 4 + pkt.metaSize name) ∧
      Filled output 0 (pkt.nixEnd + 4 + pkt.metaSize name) ∧
      pkt.serializeSections name maxSize =
        serializeSection maxSize pkt.m_buffer.encodedLength (pkt.m_buffer.serialize pkt.data)
          ⟨pkt.nixSize + pkt.metaSize name, pkt.nixEnd + sectionLength (pkt.metaSize name), output⟩ := by
  obtain ⟨first, hw, hf, heq⟩ := serializeSections_eq ((Nat.le_add_right _ _).trans h) hlt
  rw [encodingLength, sectionLength, sectionLength] at hlt
  have hle := pkt.nixSize_le
  obtain ⟨output, houtput, hw', hf'⟩ := serializeSection_of_le
    (s := ⟨pkt.nixSize, pkt.nixEnd, first⟩) h (by dsimp only; omega)
    (serializeMetadata name pkt (by omega))
  dsimp only at houtput hw' hf'
  rw [houtput] at heq
  refine ⟨output, Within.trans (hw.mono le_rfl (by omega)) (hw'.mono (Nat.zero_le _) le_rfl),
    hf.append (hf' fun p m ↦ ?_) hw', heq⟩
  have hroom : 0 + room (pkt.m_metadata.chunks name) ≤ pkt.metaSize name := (Nat.zero_add _).le
  have hfill := filled_writeChunks p hroom (by omega) (pkt.m_metadata.length_eq_room name) m
  exact hfill

theorem serialize_of_lt_buffer (h : pkt.nixSize + pkt.metaSize name ≤ maxSize)
    (hbuffer : maxSize < pkt.nixSize + pkt.metaSize name + pkt.m_buffer.encodedLength)
    (hlt : pkt.encodingLength name < 2 ^ 32) :
    ∃ output, pkt.serialize name maxSize = (false, output) ∧
      Within Output.empty output 0 (pkt.nixEnd + 4 + pkt.metaSize name) ∧
      Filled output 0 (pkt.nixEnd + 4 + pkt.metaSize name) := by
  obtain ⟨output, hw, hf, heq⟩ := serializeSections_eq_of_le h hlt
  refine ⟨output, ?_, hw, hf⟩
  rw [encodingLength, sectionLength, sectionLength] at hlt
  have hle := pkt.nixSize_le
  rw [serialize, heq, serializeSection_of_lt (by dsimp only; omega) (by dsimp only; omega)]

theorem serialize_of_le (h : pkt.nixSize + pkt.metaSize name + pkt.m_buffer.encodedLength ≤ maxSize)
    (hlt : pkt.encodingLength name < 2 ^ 32) :
    ∃ output, pkt.serialize name maxSize = (true, output) ∧
      Within Output.empty output 0 (pkt.encodingLength name) := by
  obtain ⟨first, hw, -, heq⟩ := serializeSections_eq_of_le ((Nat.le_add_right _ _).trans h) hlt
  rw [encodingLength, sectionLength, sectionLength] at hlt ⊢
  have hle := pkt.nixSize_le
  have hroom := Buffer.room_chunks pkt.ordered (by omega)
  obtain ⟨output, houtput, hw', -⟩ := serializeSection_of_le
    (s := ⟨pkt.nixSize + pkt.metaSize name, pkt.nixEnd + sectionLength (pkt.metaSize name), first⟩)
    (n := pkt.m_buffer.encodedLength) (f := pkt.m_buffer.serialize pkt.data) h
    (by dsimp only; omega) fun p m ↦ by
      have hsize : 0 + room (pkt.m_buffer.chunks pkt.data) ≤ pkt.m_buffer.encodedLength :=
        (Nat.zero_add _).trans_le hroom.le
      obtain ⟨m', hm', hw⟩ := writeChunks_of_le p hsize (by omega)
        (Buffer.length_le_room pkt.ordered (by omega)) m
      rw [hroom] at hw
      exact ⟨m', hm', hw⟩
  dsimp only at houtput hw'
  rw [sectionLength] at hw'
  refine ⟨output, ?_, Within.trans (hw.mono le_rfl (by omega)) (hw'.mono (Nat.zero_le _) (by omega))⟩
  rw [serialize, heq, houtput]

/-- **When `Serialize` keeps to its bound**: `maxSize` is less than what the first check compares; or
it holds the first section, and the second check fails; or it holds the first two sections up to the
end of the metadata, and the third check fails; or it holds the full encoding. -/
theorem keepsToBound_iff (name : UInt32 → List UInt8) (pkt : Packet)
    (hlt : pkt.encodingLength name < 2 ^ 32) (maxSize : ℕ) :
    pkt.KeepsToBound name maxSize ↔
      maxSize < pkt.nixSize ∨
      (pkt.nixEnd ≤ maxSize ∧ maxSize < pkt.nixSize + pkt.metaSize name) ∨
      (pkt.nixEnd + 4 + pkt.metaSize name ≤ maxSize ∧
        maxSize < pkt.nixSize + pkt.metaSize name + pkt.m_buffer.encodedLength) ∨
      pkt.encodingLength name ≤ maxSize := by
  have hnix := pkt.nixSize_le
  have hmeta : 8 ≤ pkt.metaSize name := by
    rw [metaSize, PacketMetadata.room_chunks]
    exact Nat.le_add_right _ _
  have hbuffer : 12 ≤ pkt.m_buffer.encodedLength := by
    rw [Buffer.encodedLength]
    omega
  have hlength : pkt.encodingLength name = pkt.nixEnd + (4 + (pkt.metaSize name + 3) / 4 * 4) +
    (4 + (pkt.m_buffer.encodedLength + 3) / 4 * 4) := rfl
  rw [KeepsToBound]
  by_cases h1 : maxSize < pkt.nixSize
  · have heq := serialize_of_lt_nix h1 hlt
    rw [heq]
    have hnot : ¬pkt.encodingLength name ≤ maxSize := by omega
    simp [h1, hnot, Output.empty]
  by_cases h2 : maxSize < pkt.nixSize + pkt.metaSize name
  · obtain ⟨output, heq, hw, hf⟩ := serialize_of_lt_meta (not_lt.mp h1) h2 hlt
    rw [heq]
    dsimp only
    rw [eq_none_iff hw hf (by omega)]
    simp only [Bool.false_eq_true, false_iff]
    omega
  by_cases h3 : maxSize < pkt.nixSize + pkt.metaSize name + pkt.m_buffer.encodedLength
  · obtain ⟨output, heq, hw, hf⟩ := serialize_of_lt_buffer (not_lt.mp h2) h3 hlt
    rw [heq]
    dsimp only
    rw [eq_none_iff hw hf (by omega)]
    simp only [Bool.false_eq_true, false_iff]
    omega
  · obtain ⟨output, heq, hw⟩ := serialize_of_le (not_lt.mp h3) hlt
    rw [heq]
    simp only [true_iff]
    constructor
    · rintro ⟨-, hle⟩
      exact .inr (.inr (.inr hle))
    · intro h
      have hle : pkt.encodingLength name ≤ maxSize := by omega
      exact ⟨fun i hi ↦ hw i (.inr (hle.trans hi)), hle⟩

end Serialize

/-! ## A packet without contents -/

/-- The name of every type. -/
def sampleName : UInt32 → List UInt8 := fun _ ↦ [110, 115, 51]

/-- `Create<Packet> ()`. -/
def emptyPacket : Packet where
  m_nixVector := none
  m_metadata := ⟨false, 0, [], fun _ ↦ rfl⟩
  m_buffer := ⟨0, 0, 0, 0, 0, 0⟩
  data := ⟨1, 1, 0, 0, fun _ ↦ 0⟩
  ordered := ⟨le_rfl, le_rfl, le_rfl, by decide, by decide⟩

/-- A packet with a nix-vector, one item of metadata, and a buffer of three bytes and two zeros. -/
def samplePacket : Packet where
  m_nixVector := some ⟨[5], 0, 3, 3⟩
  m_metadata := ⟨true, 7, [⟨2, 5, 1, 0, 5, 7⟩], fun h ↦ Bool.noConfusion h⟩
  m_buffer := ⟨0, 3, 3, 5, 0, 5⟩
  data := ⟨1, 4, 0, 5, fun _ ↦ 9⟩
  ordered := ⟨by decide, by decide, by decide, by decide, by decide⟩

theorem keepsToBound_iff_sample :
    samplePacket.KeepsToBound sampleName 84 ↔
      84 < samplePacket.nixSize ∨
      (samplePacket.nixEnd ≤ 84 ∧ 84 < samplePacket.nixSize + samplePacket.metaSize sampleName) ∨
      (samplePacket.nixEnd + 4 + samplePacket.metaSize sampleName ≤ 84 ∧
        84 < samplePacket.nixSize + samplePacket.metaSize sampleName +
          samplePacket.m_buffer.encodedLength) ∨
      samplePacket.encodingLength sampleName ≤ 84 :=
  keepsToBound_iff sampleName samplePacket (by decide +kernel) 84

/-- **With room for 24 bytes, all 32 are written**, and the function succeeds. -/
theorem not_keepsToBound_emptyPacket :
    (emptyPacket.serialize sampleName 24).1 = true ∧
      ((emptyPacket.serialize sampleName 24).2 31).isSome = true ∧
      emptyPacket.encodingLength sampleName = 32 ∧ ¬emptyPacket.KeepsToBound sampleName 24 := by
  have hlength : emptyPacket.encodingLength sampleName = 32 := by decide +kernel
  have hone : (emptyPacket.serialize sampleName 24).1 = true := by decide +kernel
  refine ⟨hone, by decide +kernel, hlength, fun h ↦ ?_⟩
  have hle := h.2.mp hone
  rw [hlength] at hle
  exact absurd hle (by decide)

end Packet

end Ns3
