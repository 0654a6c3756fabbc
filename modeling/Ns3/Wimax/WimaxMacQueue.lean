import Mathlib
import Ns3.Library.Machine

/-!
# The queue of a WiMAX connection

A connection keeps data packets and bandwidth requests in one queue. The first packet of a type is dequeued
whole, or as much of it as there is room for; the piece that is dequeued without a bound is then the last
one. A piece has a subheader with its number and a mark, from which the receiver joins the packets again.

The bytes of the queue count a header for each data packet, which is not taken off with the last piece of a
packet, so that every data packet that has been sent in pieces leaves six bytes behind.

The time stamps are left out, and what only looks at the first packet of the queue.
-/

namespace Ns3

namespace Wimax

/-! ## Packets and headers -/

/-- `MacHeaderType::HeaderType`. -/
inductive HeaderType
  | generic
  | bandwidth
  deriving DecidableEq, Repr

/-- `GenericMacHeader`, as far as it is set for a packet. -/
structure GenericMacHeader where
  m_type : UInt8
  m_len : UInt16
  m_cid : UInt16
  deriving DecidableEq, Repr

/-- `FragmentationSubheader`. -/
structure FragmentationSubheader where
  m_fc : UInt8
  m_fsn : UInt8
  deriving DecidableEq, Repr

/-- The three `GetSerializedSize`. -/
def MacHeaderType.getSerializedSize : UInt32 := 0

@[inherit_doc MacHeaderType.getSerializedSize]
def GenericMacHeader.getSerializedSize : UInt32 := 6

@[inherit_doc MacHeaderType.getSerializedSize]
def FragmentationSubheader.getSerializedSize : UInt32 := 2

/-- A packet; its size has 32 bits. -/
structure Packet where
  bytes : List UInt8
  size_lt : bytes.length < 2 ^ 32
  deriving DecidableEq

namespace Packet

def getSize (p : Packet) : UInt32 := UInt32.ofNat p.bytes.length

/-- `CreateFragment`, which removes bytes at the start and at the end, as many as there are. -/
def createFragment (p : Packet) (start length : UInt32) : List UInt8 :=
  let rest := p.bytes.drop start.toNat
  rest.take (rest.length - (p.getSize - (start + length)).toNat)

theorem toNat_getSize (p : Packet) : p.getSize.toNat = p.bytes.length :=
  UInt32.toNat_ofNat_of_lt' p.size_lt

/-- A fragment that is in the packet. -/
theorem createFragment_eq (p : Packet) {start length : UInt32}
    (h : start.toNat + length.toNat ≤ p.bytes.length) : p.createFragment start length =
      (p.bytes.drop start.toNat).take length.toNat := by
  have hsize := p.toNat_getSize
  have hlt := p.size_lt
  have hadd : (start + length).toNat = start.toNat + length.toNat := by
    rw [UInt32.toNat_add, Nat.mod_eq_of_lt (by omega)]
  have hle : start + length ≤ p.getSize := by
    rw [UInt32.le_iff_toNat_le, hadd, hsize]
    exact h
  rw [createFragment, UInt32.toNat_sub_of_le _ _ hle, hadd, hsize]
  simp only [List.length_drop]
  congr 2
  omega

end Packet

/-- What is dequeued: a payload behind its headers. -/
structure Pdu where
  hdrType : HeaderType
  hdr : Option GenericMacHeader
  subhdr : Option FragmentationSubheader
  payload : List UInt8
  deriving DecidableEq

/-- `WimaxMacQueue::QueueElement`. -/
structure QueueElement where
  m_packet : Packet
  m_hdrType : HeaderType
  m_hdr : GenericMacHeader
  m_fragmentation : Bool
  m_fragmentNumber : UInt32
  m_fragmentOffset : UInt32
  deriving DecidableEq

namespace QueueElement

/-- The constructor. -/
def create (packet : Packet) (hdrType : HeaderType) (hdr : GenericMacHeader) : QueueElement :=
  ⟨packet, hdrType, hdr, false, 0, 0⟩

/-- The element that a search starts with. -/
def init : QueueElement := create ⟨[], by decide⟩ .generic ⟨0, 0, 0⟩

def getSize (e : QueueElement) : UInt32 :=
  let size := e.m_packet.getSize + MacHeaderType.getSerializedSize
  if e.m_hdrType = .generic then size + GenericMacHeader.getSerializedSize else size

def setFragmentation (e : QueueElement) : QueueElement := { e with m_fragmentation := true }

def setFragmentNumber (e : QueueElement) : QueueElement :=
  { e with m_fragmentNumber := e.m_fragmentNumber + 1 }

def setFragmentOffset (offset : UInt32) (e : QueueElement) : QueueElement :=
  { e with m_fragmentOffset := e.m_fragmentOffset + offset }

/-- The headers of a packet that is dequeued whole. -/
def wholePdu (e : QueueElement) : Pdu where
  hdrType := e.m_hdrType
  hdr := if e.m_hdrType = .generic then some e.m_hdr else none
  subhdr := none
  payload := e.m_packet.bytes

/-- The headers of a piece. -/
def fragmentPdu (e : QueueElement) (subhdr : FragmentationSubheader) (size : UInt32)
    (payload : List UInt8) : Pdu where
  hdrType := e.m_hdrType
  hdr := if e.m_hdrType = .generic then
      some { e.m_hdr with
        m_type := e.m_hdr.m_type ||| 4
        m_len := (size + GenericMacHeader.getSerializedSize
          + FragmentationSubheader.getSerializedSize).toUInt16 }
    else none
  subhdr := some subhdr
  payload := payload

end QueueElement

end Wimax

open Wimax

/-- A `WimaxMacQueue`. -/
structure WimaxMacQueue where
  m_queue : List QueueElement
  m_maxSize : UInt32
  m_bytes : UInt32
  m_nrDataPackets : UInt32
  m_nrRequestPackets : UInt32
  deriving DecidableEq

namespace WimaxMacQueue

/-! ## Searches -/

/-- The loop that looks for the first element of a type, and ends with the last element if there is none. -/
def search (packetType : HeaderType) : QueueElement → List QueueElement → QueueElement
  | element, [] => element
  | _, e :: rest => if e.m_hdrType = packetType then e else search packetType e rest

/-- The loop that changes the first element of a type. -/
def modifyFirst (packetType : HeaderType) (f : QueueElement → QueueElement) :
    List QueueElement → List QueueElement
  | [] => []
  | e :: rest => if e.m_hdrType = packetType then f e :: rest else e :: modifyFirst packetType f rest

variable (q : WimaxMacQueue)

def front (packetType : HeaderType) : QueueElement := search packetType .init q.m_queue

def pop (packetType : HeaderType) : WimaxMacQueue :=
  { q with m_queue := q.m_queue.eraseP fun e ↦ e.m_hdrType = packetType }

def setFragmentation (packetType : HeaderType) : WimaxMacQueue :=
  { q with m_queue := modifyFirst packetType QueueElement.setFragmentation q.m_queue }

def setFragmentNumber (packetType : HeaderType) : WimaxMacQueue :=
  { q with m_queue := modifyFirst packetType QueueElement.setFragmentNumber q.m_queue }

def setFragmentOffset (packetType : HeaderType) (offset : UInt32) : WimaxMacQueue :=
  { q with m_queue := modifyFirst packetType (QueueElement.setFragmentOffset offset) q.m_queue }

/-! ## The operations -/

/-- `Enqueue`, and whether the packet is accepted. -/
def enqueue (packet : Wimax.Packet) (hdrType : HeaderType) (hdr : GenericMacHeader) : Bool × WimaxMacQueue :=
  if q.m_queue.length = q.m_maxSize.toNat then (false, q)
  else
    let element := QueueElement.create packet hdrType hdr
    let q := { q with m_queue := q.m_queue ++ [element] }
    let q := match hdrType with
      | .generic => { q with m_nrDataPackets := q.m_nrDataPackets + 1 }
      | .bandwidth => { q with m_nrRequestPackets := q.m_nrRequestPackets + 1 }
    (true, { q with m_bytes := q.m_bytes + element.getSize })

/-- A packet of a type is taken off its counter; `none` for an assertion. -/
def uncount : HeaderType → Option WimaxMacQueue
  | .generic => if q.m_nrDataPackets ≥ 1 then
      some { q with m_nrDataPackets := q.m_nrDataPackets - 1 } else none
  | .bandwidth => if q.m_nrRequestPackets ≥ 1 then
      some { q with m_nrRequestPackets := q.m_nrRequestPackets - 1 } else none

/-- `Dequeue (packetType)`; `none` for an assertion, and no packet if the queue is empty. -/
def dequeue (packetType : HeaderType) : Option (Option Pdu × WimaxMacQueue) :=
  if q.m_queue.isEmpty then some (none, q)
  else
    let element := q.front packetType
    ((q.pop packetType).uncount element.m_hdrType).map fun q ↦
      if !element.m_fragmentation then
        (some element.wholePdu, { q with m_bytes := q.m_bytes - element.getSize })
      else
        let fragmentOffset := element.m_fragmentOffset
        let fragmentSize := element.m_packet.getSize - fragmentOffset
        let fragment := element.m_packet.createFragment fragmentOffset fragmentSize
        (some (element.fragmentPdu ⟨2, element.m_fragmentNumber.toUInt8⟩ fragmentSize fragment),
          { q with m_bytes := q.m_bytes - fragmentSize })

/-- `headerSize` in `Dequeue (packetType, availableByte)`. -/
def headerSize : UInt32 :=
  2 + GenericMacHeader.getSerializedSize + MacHeaderType.getSerializedSize

/-- `Dequeue (packetType, availableByte)`. -/
def dequeueFragment (packetType : HeaderType) (availableByte : UInt32) :
    Option Pdu × WimaxMacQueue :=
  if q.m_queue.isEmpty then (none, q)
  else
    let element := q.front packetType
    let maxFragmentSize := availableByte - headerSize
    let fragmentOffset := element.m_fragmentOffset
    let fragment := element.m_packet.createFragment fragmentOffset maxFragmentSize
    let q := { q with m_bytes := q.m_bytes - maxFragmentSize }
    let (q, fc) := if !element.m_fragmentation then (q.setFragmentation packetType, 1) else (q, 3)
    let q := q.setFragmentNumber packetType
    let q := q.setFragmentOffset packetType maxFragmentSize
    (some (element.fragmentPdu ⟨fc, element.m_fragmentNumber.toUInt8⟩ maxFragmentSize fragment), q)

/-! ## Where the searches end -/

/-- The elements of a type. -/
def ofType (t : HeaderType) (l : List QueueElement) : List QueueElement :=
  l.filter fun e ↦ e.m_hdrType = t

/-- `e` is the first element of the type. -/
structure FirstAt (t : HeaderType) (pre : List QueueElement) (e : QueueElement) : Prop where
  before : ∀ x ∈ pre, x.m_hdrType ≠ t
  type : e.m_hdrType = t

section Search

variable {t t' : HeaderType} {f : QueueElement → QueueElement} {e x : QueueElement}
  {pre post l l' : List QueueElement}

theorem exists_firstAt (h : ∃ e ∈ l, e.m_hdrType = t) :
    ∃ pre e post, l = pre ++ e :: post ∧ FirstAt t pre e := by
  induction l with
  | nil => simp at h
  | cons x l ih =>
    by_cases hx : x.m_hdrType = t
    · exact ⟨[], x, l, rfl, by simp, hx⟩
    · rw [List.exists_mem_cons_iff] at h
      obtain ⟨pre, y, post, rfl, hfirst⟩ := ih (h.resolve_left hx)
      exact ⟨x :: pre, y, post, rfl, List.forall_mem_cons.mpr ⟨hx, hfirst.before⟩, hfirst.type⟩

theorem search_eq (h : FirstAt t pre e) : search t x (pre ++ e :: post) = e := by
  obtain ⟨hpre, he⟩ := h
  induction pre generalizing x with
  | nil => exact if_pos he
  | cons y pre ih =>
    rw [List.cons_append, search, if_neg (hpre y List.mem_cons_self)]
    exact ih fun z hz ↦ hpre z (List.mem_cons_of_mem y hz)

theorem modifyFirst_eq (h : FirstAt t pre e) :
    modifyFirst t f (pre ++ e :: post) = pre ++ f e :: post := by
  obtain ⟨hpre, he⟩ := h
  induction pre with
  | nil => exact if_pos he
  | cons y pre ih =>
    rw [List.cons_append, modifyFirst, if_neg (hpre y List.mem_cons_self),
      ih fun z hz ↦ hpre z (List.mem_cons_of_mem y hz), List.cons_append]

theorem eraseP_eq (h : FirstAt t pre e) :
    (pre ++ e :: post).eraseP (fun x ↦ decide (x.m_hdrType = t)) = pre ++ post := by
  rw [List.eraseP_append_right _ (by simpa using h.before), List.eraseP_cons_of_pos (by simp [h.type])]

@[simp] theorem ofType_nil : ofType t [] = [] := rfl

theorem ofType_append : ofType t (l ++ l') = ofType t l ++ ofType t l' := List.filter_append ..

theorem ofType_cons_pos (h : x.m_hdrType = t) : ofType t (x :: l) = x :: ofType t l :=
  List.filter_cons_of_pos (by simpa using h)

theorem ofType_cons_neg (h : x.m_hdrType ≠ t) : ofType t (x :: l) = ofType t l :=
  List.filter_cons_of_neg (by simpa using h)

theorem FirstAt.ofType_pre (h : FirstAt t pre e) : ofType t pre = [] :=
  List.filter_eq_nil_iff.mpr (by simpa using h.before)

theorem FirstAt.ofType_eq (h : FirstAt t pre e) : ofType t (pre ++ e :: post) = e :: ofType t post := by
  rw [ofType_append, h.ofType_pre, List.nil_append, ofType_cons_pos h.type]

theorem FirstAt.ofType_pop (h : FirstAt t pre e) : ofType t (pre ++ post) = ofType t post := by
  rw [ofType_append, h.ofType_pre, List.nil_append]

theorem FirstAt.ofType_other (h : FirstAt t pre e) (hne : t' ≠ t) :
    ofType t' (pre ++ e :: post) = ofType t' (pre ++ post) := by
  rw [ofType_append, ofType_cons_neg (h.type.trans_ne hne.symm), ofType_append]

end Search

end WimaxMacQueue

/-! ## The pieces of a packet -/

namespace Wimax.QueueElement

/-- The element as it was enqueued. -/
def fresh (e : QueueElement) : QueueElement := create e.m_packet e.m_hdrType e.m_hdr

/-- A piece with its mark and its number, which has eight bits. -/
def piece (e : QueueElement) (fc : UInt8) (n : ℕ) (payload : List UInt8) : Pdu :=
  e.fragmentPdu ⟨fc, UInt8.ofNat n⟩ (UInt32.ofNat payload.length) payload

/-- The first piece, and then those in the middle. -/
def pieces (e : QueueElement) (payloads : List (List UInt8)) : List Pdu :=
  payloads.mapIdx fun n payload ↦ e.piece (if n = 0 then 1 else 3) n payload

/-- What is dequeued of a packet in all: the whole, or a first piece, pieces in the middle and a last one,
which are numbered from zero and give the packet. -/
inductive Sent (e : QueueElement) : List Pdu → Prop
  | whole : Sent e [e.wholePdu]
  | split {payloads : List (List UInt8)} {last : List UInt8} : payloads ≠ [] →
      (∀ payload ∈ payloads ++ [last], payload ≠ []) →
      (payloads ++ [last]).flatten = e.m_packet.bytes →
      Sent e (e.pieces payloads ++ [e.piece 2 payloads.length last])

/-- The payloads are what has been dequeued of a packet that is in the queue. -/
structure PartlySent (e : QueueElement) (payloads : List (List UInt8)) : Prop where
  taken : payloads.flatten <+: e.m_packet.bytes
  nonempty : ∀ payload ∈ payloads, payload ≠ []
  offset : e.m_fragmentOffset.toNat = payloads.flatten.length
  number : e.m_fragmentNumber = UInt32.ofNat payloads.length
  fragmentation : e.m_fragmentation = !payloads.isEmpty
  rest : payloads ≠ [] → payloads.flatten.length < e.m_packet.bytes.length

variable {e : QueueElement} {payloads : List (List UInt8)} {payload : List UInt8} {n : UInt32}

@[simp] theorem hdrType_piece (fc : UInt8) (n : ℕ) : (e.piece fc n payload).hdrType = e.m_hdrType := rfl

theorem pieces_append_singleton : e.pieces (payloads ++ [payload]) = e.pieces payloads ++
    [e.piece (if payloads.isEmpty then 1 else 3) payloads.length payload] := by
  rw [pieces, List.mapIdx_append, List.mapIdx_singleton, ← pieces]
  simp

theorem hdrType_of_mem_pieces {p : Pdu} (h : p ∈ e.pieces payloads) : p.hdrType = e.m_hdrType := by
  obtain ⟨n, hn, rfl⟩ := List.mem_mapIdx.mp h
  rfl

theorem partlySent_fresh (e : QueueElement) : e.fresh.PartlySent [] where
  taken := List.nil_prefix
  nonempty := by simp
  offset := rfl
  number := rfl
  fragmentation := rfl
  rest h := absurd rfl h

/-- The number of the next piece. -/
theorem PartlySent.fsn (h : e.PartlySent payloads) :
    e.m_fragmentNumber.toUInt8 = UInt8.ofNat payloads.length := by
  rw [h.number]
  exact UInt32.toUInt8_ofNat' _

/-- **One more piece**, which leaves something. -/
theorem PartlySent.snoc (h : e.PartlySent payloads) (hpos : 0 < n.toNat)
    (hlt : e.m_fragmentOffset.toNat + n.toNat < e.m_packet.bytes.length) :
    (setFragmentOffset n (setFragmentNumber e.setFragmentation)).PartlySent
      (payloads ++ [(e.m_packet.bytes.drop e.m_fragmentOffset.toNat).take n.toNat]) := by
  obtain ⟨rest, hrest⟩ := h.taken
  have hdrop : e.m_packet.bytes.drop e.m_fragmentOffset.toNat = rest := by
    rw [h.offset, ← hrest, List.drop_left]
  have hlength : payloads.flatten.length + rest.length = e.m_packet.bytes.length := by
    rw [← hrest, List.length_append]
  have hoffset := h.offset
  have hsize := e.m_packet.size_lt
  have hflat : (payloads ++ [rest.take n.toNat]).flatten = payloads.flatten ++ rest.take n.toNat := by
    simp
  have htake : (rest.take n.toNat).length = n.toNat := List.length_take_of_le (by omega)
  rw [hdrop]
  constructor
  · rw [hflat]
    exact ⟨rest.drop n.toNat, by rw [List.append_assoc, List.take_append_drop]; exact hrest⟩
  · intro payload hmem
    rcases List.mem_append.mp hmem with hmem | hmem
    · exact h.nonempty payload hmem
    · rw [List.mem_singleton.mp hmem, ← List.length_pos_iff, htake]
      exact hpos
  · rw [hflat, List.length_append, htake, ← hoffset]
    change (e.m_fragmentOffset + n).toNat = _
    rw [UInt32.toNat_add, Nat.mod_eq_of_lt (by omega)]
  · rw [List.length_append, List.length_singleton, UInt32.ofNat_add, ← h.number]
    rfl
  · simp [setFragmentOffset, setFragmentNumber, setFragmentation]
  · intro _
    rw [hflat, List.length_append, htake, ← hoffset]
    exact hlt

/-- **The last piece.** -/
theorem PartlySent.sent_last (h : e.PartlySent payloads) (hne : payloads ≠ []) :
    e.fresh.Sent (e.pieces payloads ++ [e.piece 2 payloads.length
      (e.m_packet.bytes.drop e.m_fragmentOffset.toNat)]) := by
  obtain ⟨rest, hrest⟩ := h.taken
  have hdrop : e.m_packet.bytes.drop e.m_fragmentOffset.toNat = rest := by
    rw [h.offset, ← hrest, List.drop_left]
  have hlength : payloads.flatten.length + rest.length = e.m_packet.bytes.length := by
    rw [← hrest, List.length_append]
  have hlt := h.rest hne
  rw [hdrop]
  refine Sent.split hne (fun payload hmem ↦ ?_) (by simpa [fresh, create] using hrest)
  rcases List.mem_append.mp hmem with hmem | hmem
  · exact h.nonempty payload hmem
  · rw [List.mem_singleton.mp hmem, ← List.length_pos_iff]
    omega

end Wimax.QueueElement

open Wimax

namespace WimaxMacQueue

/-! ## What a call does -/

/-- The counter of a type. -/
def nrPackets (q : WimaxMacQueue) : HeaderType → UInt32
  | .generic => q.m_nrDataPackets
  | .bandwidth => q.m_nrRequestPackets

/-- Both counters are right, and both fit. -/
structure Counted (q : WimaxMacQueue) : Prop where
  size : q.m_queue.length ≤ q.m_maxSize.toNat
  count : ∀ t, (q.nrPackets t).toNat = (ofType t q.m_queue).length

variable {q q' : WimaxMacQueue} {t : HeaderType} {pre post : List QueueElement} {e : QueueElement}

theorem length_ofType_le (t : HeaderType) (l : List QueueElement) : (ofType t l).length ≤ l.length :=
  List.length_filter_le _ _

theorem front_eq (hq : q.m_queue = pre ++ e :: post) (h : FirstAt t pre e) : q.front t = e := by
  rw [front, hq, search_eq h]

/-- An accepted packet is counted. -/
theorem enqueue_eq (packet : Wimax.Packet) (hdr : GenericMacHeader) :
    (q.enqueue packet t hdr = (false, q)) ∨
    ∃ q', q.enqueue packet t hdr = (true, q') ∧ q.m_queue.length ≠ q.m_maxSize.toNat ∧
      q'.m_queue = q.m_queue ++ [QueueElement.create packet t hdr] ∧
      q'.m_maxSize = q.m_maxSize ∧ q'.nrPackets t = q.nrPackets t + 1 ∧
      (∀ t' ≠ t, q'.nrPackets t' = q.nrPackets t') ∧
      q'.m_bytes = q.m_bytes + (QueueElement.create packet t hdr).getSize := by
  rw [enqueue]
  split_ifs with hfull
  · exact Or.inl rfl
  · refine Or.inr ⟨_, rfl, hfull, ?_⟩
    cases t with
    | generic => exact ⟨rfl, rfl, rfl, fun t' ht' ↦ by cases t' <;> trivial, rfl⟩
    | bandwidth => exact ⟨rfl, rfl, rfl, fun t' ht' ↦ by cases t' <;> trivial, rfl⟩

/-- A packet that was counted is taken off its counter. -/
theorem exists_uncount (h : 0 < (q.nrPackets t).toNat) : ∃ q', q.uncount t = some q' ∧
    q'.m_queue = q.m_queue ∧ q'.m_maxSize = q.m_maxSize ∧ q'.m_bytes = q.m_bytes ∧
    q'.nrPackets t = q.nrPackets t - 1 ∧ ∀ t' ≠ t, q'.nrPackets t' = q.nrPackets t' := by
  have hge : q.nrPackets t ≥ 1 := UInt32.le_iff_toNat_le.mpr h
  cases t with
  | generic => exact ⟨_, if_pos hge, rfl, rfl, rfl, rfl, fun t' ht' ↦ by cases t' <;> trivial⟩
  | bandwidth => exact ⟨_, if_pos hge, rfl, rfl, rfl, rfl, fun t' ht' ↦ by cases t' <;> trivial⟩

/-- What `Dequeue (packetType)` takes off the bytes. -/
def taken (e : QueueElement) : UInt32 :=
  if e.m_fragmentation then e.m_packet.getSize - e.m_fragmentOffset else e.getSize

/-- **The first packet of a type is dequeued**, or what is left of it. -/
theorem exists_dequeue (hc : q.Counted) (hq : q.m_queue = pre ++ e :: post) (h : FirstAt t pre e)
    {payloads : List (List UInt8)} (hp : e.PartlySent payloads) :
    ∃ pdu q', q.dequeue t = some (some pdu, q') ∧ pdu.hdrType = t ∧
      e.fresh.Sent (e.pieces payloads ++ [pdu]) ∧ q'.m_queue = pre ++ post ∧
      q'.m_maxSize = q.m_maxSize ∧ q'.m_bytes = q.m_bytes - taken e ∧
      q'.nrPackets t = q.nrPackets t - 1 ∧ ∀ t' ≠ t, q'.nrPackets t' = q.nrPackets t' := by
  have hpos : 0 < ((q.pop t).nrPackets t).toNat := by
    have hcount := hc.count t
    rw [hq, h.ofType_eq, List.length_cons] at hcount
    exact Nat.lt_of_lt_of_eq (Nat.succ_pos _) hcount.symm
  obtain ⟨r, hr, hqueue, hmax, hbytes, hnr, hother⟩ := exists_uncount hpos
  rw [pop, hq, eraseP_eq h] at hqueue
  have hne : q.m_queue.isEmpty = false := by simp [hq]
  rw [dequeue, if_neg (by simp [hne]), front_eq hq h, taken]
  simp only [h.type, hr, Option.map_some]
  cases hfrag : e.m_fragmentation with
  | false =>
    have hnil : payloads = [] := by simpa [hfrag] using hp.fragmentation
    refine ⟨e.wholePdu, _, rfl, h.type, ?_, hqueue, hmax, congrArg (· - _) hbytes, hnr, hother⟩
    rw [hnil]
    exact QueueElement.Sent.whole
  | true =>
    have hpayloads : payloads ≠ [] := by simpa [hfrag] using hp.fragmentation
    have hlt := hp.rest hpayloads
    rw [← hp.offset] at hlt
    have hsize := e.m_packet.toNat_getSize
    have hle : e.m_fragmentOffset ≤ e.m_packet.getSize := by
      rw [UInt32.le_iff_toNat_le, hsize]
      exact hlt.le
    have hsub := UInt32.toNat_sub_of_le _ _ hle
    rw [hsize] at hsub
    have hlength : (e.m_packet.bytes.drop e.m_fragmentOffset.toNat).length =
        (e.m_packet.getSize - e.m_fragmentOffset).toNat := by rw [List.length_drop, hsub]
    have hfragment : e.m_packet.createFragment e.m_fragmentOffset
        (e.m_packet.getSize - e.m_fragmentOffset) =
        e.m_packet.bytes.drop e.m_fragmentOffset.toNat := by
      rw [e.m_packet.createFragment_eq (by omega), ← hlength, List.take_length]
    refine ⟨e.piece 2 payloads.length (e.m_packet.bytes.drop e.m_fragmentOffset.toNat),
      { r with m_bytes := r.m_bytes - (e.m_packet.getSize - e.m_fragmentOffset) }, ?_, h.type,
      hp.sent_last hpayloads, hqueue, hmax, congrArg (· - _) hbytes, hnr, hother⟩
    rw [QueueElement.piece, hlength, UInt32.ofNat_toNat, ← hp.fsn]
    simp [hfragment]

/-- **A piece of the first packet of a type is dequeued**, which leaves something. -/
theorem dequeueFragment_eq (hq : q.m_queue = pre ++ e :: post) (h : FirstAt t pre e)
    {payloads : List (List UInt8)} (hp : e.PartlySent payloads) {availableByte : UInt32}
    (hpos : headerSize.toNat < availableByte.toNat)
    (hlt : e.m_fragmentOffset.toNat + (availableByte.toNat - headerSize.toNat) <
      e.m_packet.bytes.length) :
    let payload := (e.m_packet.bytes.drop e.m_fragmentOffset.toNat).take (availableByte - headerSize).toNat
    q.dequeueFragment t availableByte =
      (some (e.piece (if payloads.isEmpty then 1 else 3) payloads.length payload),
        { q with
          m_queue := pre ++ QueueElement.setFragmentOffset (availableByte - headerSize)
            (QueueElement.setFragmentNumber e.setFragmentation) :: post
          m_bytes := q.m_bytes - (availableByte - headerSize) }) := by
  intro payload
  have hsub : (availableByte - headerSize).toNat = availableByte.toNat - headerSize.toNat :=
    UInt32.toNat_sub_of_le _ _ (UInt32.le_iff_toNat_le.mpr hpos.le)
  have hfragment : e.m_packet.createFragment e.m_fragmentOffset (availableByte - headerSize) =
      payload := e.m_packet.createFragment_eq (by omega)
  have hlength : UInt32.ofNat payload.length = availableByte - headerSize := by
    rw [List.length_take_of_le (by rw [List.length_drop]; omega), UInt32.ofNat_toNat]
  have hne : q.m_queue.isEmpty = false := by simp [hq]
  have hfirst' : FirstAt t pre e.setFragmentation := ⟨h.before, h.type⟩
  have hfirst'' : FirstAt t pre e.setFragmentation.setFragmentNumber := ⟨h.before, h.type⟩
  rw [dequeueFragment, if_neg (by simp [hne]), front_eq hq h]
  simp only [hfragment, QueueElement.piece, hlength, ← hp.fsn]
  cases hfrag : e.m_fragmentation with
  | false =>
    have hempty : payloads.isEmpty = true := by simpa [hfrag] using hp.fragmentation
    simp [hempty, setFragmentation, setFragmentNumber, setFragmentOffset, hq, modifyFirst_eq h,
      modifyFirst_eq hfirst', modifyFirst_eq hfirst'']
  | true =>
    have hempty : payloads.isEmpty = false := by simpa [hfrag] using hp.fragmentation
    have hsame : e.setFragmentation = e := by
      cases e
      exact congrArg (QueueElement.mk _ _ _ · _ _) hfrag.symm
    rw [hsame] at hfirst'' ⊢
    simp [hempty, setFragmentNumber, setFragmentOffset, hq, modifyFirst_eq h, modifyFirst_eq hfirst'']

/-! ## Sessions -/

/-- What is called. -/
inductive Op
  | enqueue (packet : Wimax.Packet) (hdrType : HeaderType) (hdr : GenericMacHeader)
  | dequeue (packetType : HeaderType)
  | dequeueFragment (packetType : HeaderType) (availableByte : UInt32)
  deriving DecidableEq

/-- A queue, the packets that it accepted, what was dequeued, and how many data packets were dequeued that
had been sent in part. -/
structure Session where
  queue : WimaxMacQueue
  accepted : List QueueElement
  sent : List Pdu
  finished : ℕ
  deriving DecidableEq

/-- The first packet of the type is a data packet that has been sent in part. -/
def finishes (q : WimaxMacQueue) (t : HeaderType) : Bool :=
  (q.front t).m_hdrType = .generic && (q.front t).m_fragmentation

/-- A step. -/
def Session.step (s : Session) : Op → Option Session
  | .enqueue packet hdrType hdr =>
    let (accepted, q) := s.queue.enqueue packet hdrType hdr
    some { s with
      queue := q
      accepted := s.accepted ++
        if accepted then [QueueElement.create packet hdrType hdr] else [] }
  | .dequeue packetType => (s.queue.dequeue packetType).map fun (pdu, q) ↦
    { s with
      queue := q
      sent := s.sent ++ pdu.toList
      finished := s.finished + (s.queue.finishes packetType).toNat }
  | .dequeueFragment packetType availableByte =>
    let (pdu, q) := s.queue.dequeueFragment packetType availableByte
    some { s with queue := q, sent := s.sent ++ pdu.toList }

/-- A queue from its construction on. -/
def machine (maxSize : UInt32) : Machine Session Op := ⟨⟨⟨[], maxSize, 0, 0, 0⟩, [], [], 0⟩, Session.step⟩

/-- The type that is named is in the queue, and a piece has room behind the headers and leaves something. -/
def Session.Named (s : Session) : Op → Prop
  | .enqueue _ _ _ => True
  | .dequeue packetType => ∃ e ∈ s.queue.m_queue, e.m_hdrType = packetType
  | .dequeueFragment packetType availableByte =>
    (∃ e ∈ s.queue.m_queue, e.m_hdrType = packetType) ∧ headerSize.toNat < availableByte.toNat ∧
    (s.queue.front packetType).m_fragmentOffset.toNat + (availableByte.toNat - headerSize.toNat) <
      (s.queue.front packetType).m_packet.bytes.length

instance (s : Session) (op : Op) : Decidable (s.Named op) := by
  unfold Session.Named
  cases op <;> infer_instance

/-! ## What is delivered -/

/-- Of the elements of a type only the first one has been sent in part. -/
inductive FrontSent : List QueueElement → List Pdu → Prop
  | nil : FrontSent [] []
  | cons {e : QueueElement} {rest : List QueueElement} {payloads : List (List UInt8)} :
      e.PartlySent payloads → (∀ x ∈ rest, x.PartlySent []) → FrontSent (e :: rest) (e.pieces payloads)

/-- **The packets that were accepted are dequeued in order**, each one as a whole or in pieces, and those
that are not are in the queue. -/
def Delivered (accepted queue : List QueueElement) (sent : List Pdu) : Prop :=
  ∃ done groups current, accepted = done ++ queue.map QueueElement.fresh ∧
    sent = groups.flatten ++ current ∧ List.Forall₂ QueueElement.Sent done groups ∧
    FrontSent queue current

section Delivery

variable {accepted queue : List QueueElement} {sent : List Pdu}

theorem FrontSent.of_fresh (h : ∀ x ∈ queue, x.PartlySent []) : FrontSent queue [] := by
  cases queue with
  | nil => exact .nil
  | cons e rest =>
    obtain ⟨he, hrest⟩ := List.forall_mem_cons.mp h
    exact .cons he hrest

theorem FrontSent.snoc {x : QueueElement} (h : FrontSent queue sent) (hx : x.PartlySent []) :
    FrontSent (queue ++ [x]) sent := by
  cases h with
  | nil => exact .of_fresh (List.forall_mem_singleton.mpr hx)
  | cons he hrest =>
    refine .cons he fun y hy ↦ ?_
    rcases List.mem_append.mp hy with hy | hy
    · exact hrest y hy
    · rwa [List.mem_singleton.mp hy]

theorem Delivered.enqueue {x : QueueElement} (h : Delivered accepted queue sent) (hx : x.fresh = x) :
    Delivered (accepted ++ [x]) (queue ++ [x]) sent := by
  obtain ⟨done, groups, current, rfl, rfl, hdone, hfront⟩ := h
  refine ⟨done, groups, current, ?_, rfl, hdone, hfront.snoc (hx ▸ x.partlySent_fresh)⟩
  rw [List.append_assoc, List.map_append, List.map_singleton, hx]

/-- What has been sent of the first element, and what follows when more of it is sent. -/
theorem Delivered.head (h : Delivered accepted (e :: queue) sent) : ∃ payloads,
    e.PartlySent payloads ∧
    (∀ pdu, e.fresh.Sent (e.pieces payloads ++ [pdu]) → Delivered accepted queue (sent ++ [pdu])) ∧
    ∀ (e' : QueueElement) (payload : List UInt8), e'.fresh = e.fresh →
      e'.PartlySent (payloads ++ [payload]) → Delivered accepted (e' :: queue) (sent ++
        [e.piece (if payloads.isEmpty then 1 else 3) payloads.length payload]) := by
  obtain ⟨done, groups, current, rfl, rfl, hdone, hfront⟩ := h
  cases hfront with
  | cons he hrest =>
    refine ⟨_, he, fun pdu hsent ↦ ?_, fun e' payload hfresh he' ↦ ?_⟩
    · refine ⟨done ++ [e.fresh], groups ++ [_], [], ?_, ?_,
        List.rel_append hdone (.cons hsent .nil), .of_fresh hrest⟩
      · rw [List.map_cons, List.append_assoc, List.singleton_append]
      · simp
    · refine ⟨done, groups, _, ?_, ?_, hdone, .cons he' hrest⟩
      · rw [List.map_cons, List.map_cons, hfresh]
      · -- The pieces do not depend on how much has been sent.
        have hpieces : e'.pieces = e.pieces := by
          change e'.fresh.pieces = e.fresh.pieces
          rw [hfresh]
        rw [hpieces, QueueElement.pieces_append_singleton, List.append_assoc]

end Delivery

/-- What was dequeued of a type. -/
def sentOf (t : HeaderType) (sent : List Pdu) : List Pdu := sent.filter fun p ↦ p.hdrType = t

/-- The packets of a type are delivered. -/
def Session.DeliveredOf (s : Session) (t : HeaderType) : Prop :=
  Delivered (ofType t s.accepted) (ofType t s.queue.m_queue) (sentOf t s.sent)

/-! ## The bytes of the queue -/

/-- The sizes of the elements without what has been sent. -/
def owed (l : List QueueElement) : ℤ :=
  (l.map fun e ↦ (e.getSize.toNat : ℤ) - e.m_fragmentOffset.toNat).sum

section Bytes

variable {l l' : List QueueElement}

theorem owed_append : owed (l ++ l') = owed l + owed l' := by
  rw [owed, List.map_append, List.sum_append, owed, owed]

theorem owed_cons : owed (e :: l) = (e.getSize.toNat - e.m_fragmentOffset.toNat : ℤ) + owed l := by
  rw [owed, List.map_cons, List.sum_cons, owed]

@[simp] theorem ofInt_natCast (n : ℕ) : UInt32.ofInt n = UInt32.ofNat n := by
  rw [UInt32.ofInt, ← UInt32.toNat_inj, UInt32.toNat_ofNat', UInt32.toNat_ofNat']
  omega

theorem toNat_ofInt (x : ℤ) : ((UInt32.ofInt x).toNat : ℤ) = x % 2 ^ 32 := by
  rw [UInt32.ofInt, UInt32.toNat_ofNat']
  omega

/-- Sixes that were left behind are not seen if they make up for the width. -/
theorem add_six_mul_emod_eq_iff {n : ℤ} {k : ℕ} :
    (n + 6 * k) % 2 ^ 32 = n ↔ 0 ≤ n ∧ n < 2 ^ 32 ∧ 2 ^ 31 ∣ k := by
  constructor
  · intro h
    have hpos : 0 ≤ n := h ▸ Int.emod_nonneg _ (by norm_num)
    have hlt : n < 2 ^ 32 := h ▸ Int.emod_lt_of_pos _ (by norm_num)
    have hmod : n + 6 * k ≡ n + 0 [ZMOD 2 ^ 32] := by
      rw [Int.ModEq, h, add_zero, Int.emod_eq_of_lt hpos hlt]
    have hdvd : ((2 * 2 ^ 31 : ℕ) : ℤ) ∣ ((2 * (3 * k) : ℕ) : ℤ) := by
      have hsix : ((2 * (3 * k) : ℕ) : ℤ) = 6 * k := by
        push_cast
        ring
      rw [hsix]
      exact Int.modEq_zero_iff_dvd.mp (Int.ModEq.add_left_cancel' n hmod)
    have hthree := Nat.dvd_of_mul_dvd_mul_left Nat.two_pos (Int.natCast_dvd_natCast.mp hdvd)
    exact ⟨hpos, hlt, Nat.Coprime.dvd_of_dvd_mul_left (by norm_num) hthree⟩
  · rintro ⟨hpos, hlt, m, rfl⟩
    have hmul : n + 6 * ((2 ^ 31 * m : ℕ) : ℤ) = n + 2 ^ 32 * (3 * m) := by
      push_cast
      ring
    rw [hmul, Int.add_mul_emod_self_left, Int.emod_eq_of_lt hpos hlt]

/-- An element takes with it what it has, and a header if it is a data packet that has been sent in part. -/
theorem ofInt_owed_cons (hoffset : e.m_fragmentation = false → e.m_fragmentOffset = 0) (finished : ℕ) :
    UInt32.ofInt (owed (e :: l) + 6 * finished) - taken e = UInt32.ofInt (owed l +
      6 * (finished + (e.m_hdrType = .generic && e.m_fragmentation : Bool).toNat : ℕ)) := by
  have hsize : UInt32.ofInt (e.getSize.toNat : ℤ) = e.getSize := by simp
  have hsent : UInt32.ofInt (e.m_fragmentOffset.toNat : ℤ) = e.m_fragmentOffset := by simp
  have hzero : UInt32.ofInt 0 = 0 := rfl
  have hsix : UInt32.ofInt 6 = 6 := rfl
  rw [owed_cons, taken, Nat.cast_add, mul_add, Int.sub_eq_add_neg]
  simp only [UInt32.ofInt_add, UInt32.ofInt_mul, UInt32.ofInt_neg, hsize, hsent, hsix]
  cases hfrag : e.m_fragmentation with
  | false =>
    rw [hoffset hfrag]
    simp [hzero]
    grind
  | true =>
    rw [QueueElement.getSize]
    by_cases htype : e.m_hdrType = .generic
    · simp [htype, MacHeaderType.getSerializedSize, GenericMacHeader.getSerializedSize]
      grind
    · simp [htype, MacHeaderType.getSerializedSize, hzero]
      grind

end Bytes

/-! ## What every step keeps -/

/-- The counters are right, each packet is delivered, and the bytes are right but for what was left behind. -/
structure Session.Inv (s : Session) : Prop where
  counted : s.queue.Counted
  delivered : ∀ t, s.DeliveredOf t
  bytes : s.queue.m_bytes = UInt32.ofInt (owed s.queue.m_queue + 6 * s.finished)

theorem sentOf_append (t : HeaderType) (l l' : List Pdu) : sentOf t (l ++ l') = sentOf t l ++ sentOf t l' :=
  List.filter_append ..

theorem sentOf_self {p : Pdu} (h : p.hdrType = t) : sentOf t [p] = [p] :=
  List.filter_cons_of_pos (by simpa using h)

theorem sentOf_other {p : Pdu} (h : p.hdrType ≠ t) : sentOf t [p] = [] :=
  List.filter_cons_of_neg (by simpa using h)

namespace Session

variable {s s' : Session}

theorem inv_init (maxSize : UInt32) : (machine maxSize).init.Inv where
  counted := ⟨Nat.zero_le _, fun t ↦ by cases t <;> rfl⟩
  delivered _ := ⟨[], [], [], rfl, rfl, .nil, .nil⟩
  bytes := rfl

theorem DeliveredOf.congr {t : HeaderType} (h : s.DeliveredOf t)
    (haccepted : ofType t s'.accepted = ofType t s.accepted)
    (hqueue : ofType t s'.queue.m_queue = ofType t s.queue.m_queue)
    (hsent : sentOf t s'.sent = sentOf t s.sent) : s'.DeliveredOf t := by
  rw [DeliveredOf, haccepted, hqueue, hsent]
  exact h

theorem Inv.enqueue (h : s.Inv) {packet : Wimax.Packet} {hdr : GenericMacHeader}
    (hs : s.step (.enqueue packet t hdr) = some s') : s'.Inv := by
  rw [step, Option.some_inj] at hs
  rcases enqueue_eq (q := s.queue) (t := t) packet hdr with
    heq | ⟨q, heq, hfull, hq, hmax, hnr, hother, hbytes⟩
  · simp only [heq, Bool.false_eq_true, if_false, List.append_nil] at hs
    exact hs ▸ h
  · simp only [heq, if_true] at hs
    subst hs
    have hnew : ofType t [QueueElement.create packet t hdr] = [QueueElement.create packet t hdr] :=
      ofType_cons_pos rfl
    have hsize := h.counted.size
    have hlt := s.queue.m_maxSize.toNat_lt
    refine ⟨⟨?_, fun t' ↦ ?_⟩, fun t' ↦ ?_, ?_⟩
    · change q.m_queue.length ≤ q.m_maxSize.toNat
      rw [hq, hmax, List.length_append, List.length_singleton]
      omega
    · change (q.nrPackets t').toNat = (ofType t' q.m_queue).length
      rw [hq, ofType_append]
      by_cases ht : t = t'
      · subst ht
        have hle := length_ofType_le t s.queue.m_queue
        have hcount := h.counted.count t
        rw [hnew, hnr, List.length_append, UInt32.toNat_add, hcount]
        exact Nat.mod_eq_of_lt (by simp; omega)
      · rw [ofType_cons_neg ht, hother t' (Ne.symm ht), h.counted.count t', ofType_nil, List.append_nil]
    · by_cases ht : t = t'
      · subst ht
        change Delivered (ofType t (s.accepted ++ _)) (ofType t q.m_queue) (sentOf t s.sent)
        rw [hq, ofType_append, ofType_append, hnew]
        exact (h.delivered t).enqueue rfl
      · refine (h.delivered t').congr ?_ ?_ rfl
        · change ofType t' (s.accepted ++ _) = _
          rw [ofType_append, ofType_cons_neg ht, ofType_nil, List.append_nil]
        · change ofType t' q.m_queue = _
          rw [hq, ofType_append, ofType_cons_neg ht, ofType_nil, List.append_nil]
    · change q.m_bytes = UInt32.ofInt (owed q.m_queue + _)
      rw [hq, hbytes, h.bytes, owed_append, owed_cons]
      simp only [UInt32.ofInt_add, Int.sub_eq_add_neg, UInt32.ofInt_neg, ofInt_natCast,
        UInt32.ofNat_toNat]
      change _ = _ + (_ + -0 + 0) + _
      grind

/-- Of the first element of a type, what has been sent, and what is delivered when more of it is. -/
theorem Inv.head (h : s.Inv) (hq : s.queue.m_queue = pre ++ e :: post) (hfirst : FirstAt t pre e) :
    ∃ payloads, e.PartlySent payloads ∧
    (∀ pdu, e.fresh.Sent (e.pieces payloads ++ [pdu]) →
      Delivered (ofType t s.accepted) (ofType t post) (sentOf t s.sent ++ [pdu])) ∧
    ∀ (e' : QueueElement) (payload : List UInt8), e'.fresh = e.fresh →
      e'.PartlySent (payloads ++ [payload]) →
      Delivered (ofType t s.accepted) (e' :: ofType t post) (sentOf t s.sent ++
        [e.piece (if payloads.isEmpty then 1 else 3) payloads.length payload]) := by
  have hdelivered := h.delivered t
  rw [DeliveredOf, hq, hfirst.ofType_eq] at hdelivered
  exact hdelivered.head

theorem Inv.exists_dequeue (h : s.Inv) (hmem : ∃ e ∈ s.queue.m_queue, e.m_hdrType = t) :
    ∃ s', s.step (.dequeue t) = some s' ∧ s'.Inv := by
  obtain ⟨pre, e, post, hq, hfirst⟩ := exists_firstAt hmem
  obtain ⟨payloads, hp, hsent, -⟩ := h.head hq hfirst
  obtain ⟨pdu, q, heq, htype, hpdu, hqueue, hmax, hbytes, hnr, hother⟩ :=
    WimaxMacQueue.exists_dequeue h.counted hq hfirst hp
  refine ⟨{ s with
    queue := q
    sent := s.sent ++ [pdu]
    finished := s.finished + (s.queue.finishes t).toNat }, by simp [step, heq], ⟨?_, fun t' ↦ ?_⟩,
    fun t' ↦ ?_, ?_⟩
  · change q.m_queue.length ≤ q.m_maxSize.toNat
    have hsize := h.counted.size
    rw [hq] at hsize
    rw [hqueue, hmax]
    simp only [List.length_append, List.length_cons] at hsize ⊢
    omega
  · change (q.nrPackets t').toNat = (ofType t' q.m_queue).length
    have hcount := h.counted.count t'
    rw [hq] at hcount
    by_cases ht : t' = t
    · subst ht
      rw [hfirst.ofType_eq, List.length_cons] at hcount
      rw [hqueue, hfirst.ofType_pop, hnr, UInt32.toNat_sub_of_le _ _
        (UInt32.le_iff_toNat_le.mpr (by rw [hcount]; exact Nat.succ_pos _)), hcount]
      rfl
    · rw [hqueue, hother t' ht, hcount, hfirst.ofType_other ht]
  · by_cases ht : t' = t
    · subst ht
      change Delivered (ofType t' s.accepted) (ofType t' q.m_queue) (sentOf t' (s.sent ++ [pdu]))
      rw [hqueue, hfirst.ofType_pop, sentOf_append, sentOf_self htype]
      exact hsent pdu hpdu
    · refine (h.delivered t').congr rfl ?_ ?_
      · change ofType t' q.m_queue = _
        rw [hqueue, hq, hfirst.ofType_other ht]
      · change sentOf t' (s.sent ++ [pdu]) = _
        rw [sentOf_append, sentOf_other (htype.trans_ne (Ne.symm ht)), List.append_nil]
  · change q.m_bytes = UInt32.ofInt (owed q.m_queue + 6 * (_ : ℕ))
    have hoffset : e.m_fragmentation = false → e.m_fragmentOffset = 0 := by
      intro hfrag
      have hnil : payloads = [] := by simpa [hfrag] using hp.fragmentation
      have hzero := hp.offset
      rw [hnil] at hzero
      exact UInt32.toNat_inj.mp hzero
    -- The elements in front of it do not matter to the sizes.
    have hperm : ∀ l, owed (pre ++ l) = owed (l ++ pre) := fun l ↦ by
      rw [owed_append, owed_append, add_comm]
    rw [hqueue, hbytes, h.bytes, hq, hperm, List.cons_append, ofInt_owed_cons hoffset, finishes,
      front_eq hq hfirst, hperm]

theorem Inv.exists_dequeueFragment (h : s.Inv) {availableByte : UInt32}
    (hok : s.Named (.dequeueFragment t availableByte)) :
    ∃ s', s.step (.dequeueFragment t availableByte) = some s' ∧ s'.Inv := by
  obtain ⟨hmem, hpos, hlt⟩ := hok
  obtain ⟨pre, e, post, hq, hfirst⟩ := exists_firstAt hmem
  rw [front_eq hq hfirst] at hlt
  obtain ⟨payloads, hp, -, hsent⟩ := h.head hq hfirst
  have hsub : (availableByte - headerSize).toNat = availableByte.toNat - headerSize.toNat :=
    UInt32.toNat_sub_of_le _ _ (UInt32.le_iff_toNat_le.mpr hpos.le)
  have hp' := hp.snoc (n := availableByte - headerSize) (by omega) (by omega)
  have heq := dequeueFragment_eq hq hfirst hp hpos hlt
  have hbytes := h.bytes
  have hoffset : UInt32.ofInt (e.m_fragmentOffset + (availableByte - headerSize)).toNat =
      UInt32.ofInt e.m_fragmentOffset.toNat + (availableByte - headerSize) := by
    rw [ofInt_natCast, ofInt_natCast, UInt32.ofNat_toNat, UInt32.ofNat_toNat]
  generalize hpayload : (e.m_packet.bytes.drop e.m_fragmentOffset.toNat).take
    (availableByte - headerSize).toNat = payload at heq hp'
  generalize he' : QueueElement.setFragmentOffset (availableByte - headerSize)
    (QueueElement.setFragmentNumber e.setFragmentation) = e' at heq hp'
  have hfresh : e'.fresh = e.fresh := by rw [← he']; rfl
  have htype : e'.m_hdrType = t := (congrArg QueueElement.m_hdrType hfresh).trans hfirst.type
  have hfirst' : FirstAt t pre e' := ⟨hfirst.before, htype⟩
  have hpiece (fc : UInt8) (n : ℕ) : (e.piece fc n payload).hdrType = t := hfirst.type
  refine ⟨{ s with
    queue := { s.queue with
      m_queue := pre ++ e' :: post
      m_bytes := s.queue.m_bytes - (availableByte - headerSize) }
    sent := s.sent ++ [e.piece (if payloads.isEmpty then 1 else 3) payloads.length payload] },
    by rw [step, heq]; rfl, ⟨?_, fun t' ↦ ?_⟩, fun t' ↦ ?_, ?_⟩
  · have hsize := h.counted.size
    rw [hq] at hsize
    simpa using hsize
  · have hcount := h.counted.count t'
    change (s.queue.nrPackets t').toNat = (ofType t' (pre ++ e' :: post)).length
    rw [hcount, hq]
    by_cases ht : t' = t
    · rw [ht, hfirst.ofType_eq, hfirst'.ofType_eq, List.length_cons, List.length_cons]
    · rw [hfirst.ofType_other ht, hfirst'.ofType_other ht]
  · by_cases ht : t' = t
    · subst ht
      rw [DeliveredOf, hfirst'.ofType_eq, sentOf_append, sentOf_self (hpiece _ _)]
      exact hsent _ _ hfresh hp'
    · refine (h.delivered t').congr rfl ?_ ?_
      · rw [hq, hfirst.ofType_other ht, hfirst'.ofType_other ht]
      · rw [sentOf_append, sentOf_other ((hpiece _ _).trans_ne (Ne.symm ht)), List.append_nil]
  · change s.queue.m_bytes - (availableByte - headerSize) = _
    have hsize : e'.getSize = e.getSize := by rw [← he']; rfl
    have hoff : e'.m_fragmentOffset = e.m_fragmentOffset + (availableByte - headerSize) := by
      rw [← he']
      rfl
    rw [hq, owed_append, owed_cons] at hbytes
    rw [owed_append, owed_cons, hbytes, hsize, hoff]
    simp only [UInt32.ofInt_add, Int.sub_eq_add_neg, UInt32.ofInt_neg, hoffset]
    grind

/-- **Every step**: it can be taken, and keeps the invariant. -/
theorem Inv.exists_step (h : s.Inv) {op : Op} (hok : s.Named op) : ∃ s', s.step op = some s' ∧ s'.Inv := by
  cases op with
  | enqueue packet hdrType hdr => exact ⟨_, rfl, h.enqueue rfl⟩
  | dequeue packetType => exact h.exists_dequeue hok
  | dequeueFragment packetType availableByte => exact h.exists_dequeueFragment hok

/-- **Every run.** -/
theorem inv_of_run {maxSize : UInt32} {ops : List Op} (hr : Machine.Run (machine maxSize) Named ops s) :
    s.Inv := by
  refine hr.invariant (inv_init maxSize) fun s op s' h hok hs ↦ ?_
  obtain ⟨t, ht, hinv⟩ := h.exists_step hok
  obtain rfl := Option.some_inj.mp (ht.symm.trans hs)
  exact hinv

/-- Each packet is delivered, and the counters are the numbers of elements, and the bytes are their sizes
without what has been sent. -/
structure Conserved (s : Session) : Prop where
  delivered : ∀ t, s.DeliveredOf t
  data : s.queue.m_nrDataPackets.toNat = (ofType .generic s.queue.m_queue).length
  requests : s.queue.m_nrRequestPackets.toNat = (ofType .bandwidth s.queue.m_queue).length
  bytes : (s.queue.m_bytes.toNat : ℤ) = owed s.queue.m_queue

/-- **No assertion fails, and payloads and counters are conserved by every run; the bytes are if and only if
they fit and the data packets that were sent in pieces, each of which leaves its header, make up for the
width of the counter.** -/
theorem conserved_iff {maxSize : UInt32} {ops : List Op}
    (hr : Machine.Run (machine maxSize) Named ops s) :
    (∀ op, s.Named op → ∃ s', s.step op = some s') ∧
    (s.Conserved ↔ 0 ≤ owed s.queue.m_queue ∧ owed s.queue.m_queue < 2 ^ 32 ∧ 2 ^ 31 ∣ s.finished) := by
  have h := inv_of_run hr
  have hbytes := toNat_ofInt (owed s.queue.m_queue + 6 * s.finished)
  rw [← h.bytes] at hbytes
  refine ⟨fun op hok ↦ (h.exists_step hok).imp fun _ hs ↦ hs.1, ?_⟩
  rw [← add_six_mul_emod_eq_iff, ← hbytes]
  exact ⟨Conserved.bytes, fun hc ↦
    ⟨h.delivered, h.counted.count .generic, h.counted.count .bandwidth, hc⟩⟩

/-- Ten bytes. -/
def tenBytes : Wimax.Packet := ⟨List.replicate 10 0, by decide⟩

/-- A data packet is sent in two pieces, of five bytes each. -/
def twoPieces : List Op :=
  [.enqueue tenBytes .generic ⟨0, 16, 0⟩, .dequeueFragment .generic 13, .dequeue .generic]

/-- **The queue is empty and has six bytes.** -/
theorem exists_not_conserved : ∃ s, Machine.Run (machine 1024) Named twoPieces s ∧
    s.queue.m_queue = [] ∧ s.queue.m_bytes = 6 ∧ ¬ s.Conserved := by
  refine Machine.exists_run_and_allowed (p := fun s ↦ s.queue.m_queue = [] ∧ s.queue.m_bytes = 6)
    (by decide +kernel) (by decide +kernel) fun s _ hs ↦ ⟨hs.1, hs.2, fun hc ↦ ?_⟩
  have hbytes := hc.bytes
  rw [hs.1, hs.2] at hbytes
  cases hbytes

/-- A bandwidth request is sent in two pieces, while a data packet waits. -/
theorem conserved_iff_request : ∃ s, Machine.Run (machine 1024) Named
    [.enqueue tenBytes .generic ⟨0, 16, 0⟩, .enqueue tenBytes .bandwidth ⟨0, 16, 0⟩,
      .dequeueFragment .bandwidth 13, .dequeue .bandwidth] s ∧ s.Conserved := by
  refine Machine.exists_run_and_allowed (p := fun s ↦ 0 ≤ owed s.queue.m_queue ∧
    owed s.queue.m_queue < 2 ^ 32 ∧ 2 ^ 31 ∣ s.finished) (by decide +kernel) (by decide +kernel)
    fun s hr hs ↦ (conserved_iff hr).2.mpr hs

end Session

end WimaxMacQueue

end Ns3
