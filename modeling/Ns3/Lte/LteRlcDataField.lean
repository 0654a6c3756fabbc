import Ns3.Library.Segment
import Ns3.Library.Span

/-!
# The data field of an RLC PDU

What `DoNotifyTxOpportunity` does to fill a transmission opportunity is the same in acknowledged and
in unacknowledged mode. SDUs are taken from the front of the transmission buffer as long as there is
room for them and for their length indicators; an SDU that does not fit, and one of more than 2047
octets, is the last one, and what is left of it is given back. The header is given an extension bit
and a length indicator as each SDU is taken; its type is a parameter here.

`cut` says what is taken and what is left without the accumulators of the loop. A status tag is, for
the receiver, whether a segment has the first and the last octet of its SDU, so that the data field is
a list of segments, and `cut` a way to cut those that are queued.
-/

namespace Ns3

namespace Lte

open Segment

/-! ## SDUs and their status -/

/-- `LteRlcSduStatusTag::SduStatus_t`. -/
inductive SduStatus
  | FULL_SDU
  | FIRST_SEGMENT
  | MIDDLE_SEGMENT
  | LAST_SEGMENT
  deriving DecidableEq

open SduStatus

/-- An SDU or a segment of one, with its status tag. -/
structure TxPdu where
  m_pdu : List UInt8
  m_sduStatus : SduStatus
  deriving DecidableEq

namespace TxPdu

/-- `GetSize`. -/
def size (p : TxPdu) : ℕ := p.m_pdu.length

/-- The status of the new segment and of the remaining one, when an SDU is segmented. -/
def splitStatus : SduStatus → SduStatus × SduStatus
  | FULL_SDU => (FIRST_SEGMENT, LAST_SEGMENT)
  | LAST_SEGMENT => (MIDDLE_SEGMENT, LAST_SEGMENT)
  | status => (status, status)

/-- The status of the new segment, adjusted because nothing remains. -/
def wholeStatus : SduStatus → SduStatus
  | FIRST_SEGMENT => FULL_SDU
  | MIDDLE_SEGMENT => LAST_SEGMENT
  | status => status

/-- The first `n` octets as a new segment, and the remaining one, if there is any. -/
def split (p : TxPdu) (n : ℕ) : TxPdu × Option TxPdu :=
  if n < p.size then
    (⟨p.m_pdu.take n, (splitStatus p.m_sduStatus).1⟩,
      some ⟨p.m_pdu.drop n, (splitStatus p.m_sduStatus).2⟩)
  else (⟨p.m_pdu.take n, wholeStatus (splitStatus p.m_sduStatus).1⟩, none)

end TxPdu

/-! ## The loop -/

/-- What the loop needs of a header. -/
class RlcHeader (H : Type) where
  pushExtensionBit : H → ℕ → H
  pushLengthIndicator : H → ℕ → H

/-- What the loop builds; the size of the transmission buffer has 32 bits. -/
structure DataField (H : Type) where
  m_txBufferSize : ℕ
  dataField : List TxPdu
  rlcHeader : H

variable {H : Type} [RlcHeader H]

namespace DataField

/-- `push_back` of a segment, with its extension bit. -/
def push (d : DataField H) (segment : TxPdu) (extensionBit : ℕ) : DataField H :=
  { d with
    dataField := d.dataField ++ [segment]
    rlcHeader := RlcHeader.pushExtensionBit d.rlcHeader extensionBit }

/-- `push_back` of an SDU that another one follows, which is removed from the buffer. -/
def pushFollowed (d : DataField H) (segment next : TxPdu) : DataField H :=
  let d' := d.push segment 1
  { d' with
    m_txBufferSize := sub32 d'.m_txBufferSize next.size
    rlcHeader := RlcHeader.pushLengthIndicator d'.rlcHeader segment.size }

/-- What remains of a segment is given back. -/
def giveBack (d : DataField H) : Option TxPdu → DataField H
  | none => d
  | some p => { d with m_txBufferSize := add32 d.m_txBufferSize p.size }

end DataField

/-- The octets of a length indicator: two, and one for each second one. -/
def liSize (nextSegmentId : ℕ) : ℕ := if nextSegmentId % 2 = 1 then 2 else 1

/-- The loop over the SDUs. It returns the transmission buffer and the data field. -/
def buildDataField (m_txBuffer : List TxPdu) (firstSegment : TxPdu)
    (nextSegmentSize nextSegmentId : ℕ) (d : DataField H) : List TxPdu × DataField H :=
  if 0 < firstSegment.size ∧ 0 < nextSegmentSize then
    if nextSegmentSize < firstSegment.size ∨ 2047 < firstSegment.size then
      let segments := firstSegment.split (min firstSegment.size nextSegmentSize)
      (segments.2.toList ++ m_txBuffer, (d.giveBack segments.2).push segments.1 0)
    else if nextSegmentSize - firstSegment.size ≤ 2 ∨ m_txBuffer = [] then
      (m_txBuffer, d.push firstSegment 0)
    else
      match m_txBuffer with
      | [] => ([], d)
      | next :: m_txBuffer =>
        buildDataField m_txBuffer next
          (nextSegmentSize - (liSize nextSegmentId + firstSegment.size)) (nextSegmentId + 1)
          (d.pushFollowed firstSegment next)
  else (m_txBuffer, d)

/-! ## The framing info -/

def FIRST_BYTE : ℕ := 0x00

def NO_FIRST_BYTE : ℕ := 0x02

def LAST_BYTE : ℕ := 0x00

def NO_LAST_BYTE : ℕ := 0x01

def firstByte (status : SduStatus) : ℕ :=
  if status = FULL_SDU ∨ status = FIRST_SEGMENT then FIRST_BYTE else NO_FIRST_BYTE

def lastByte (status : SduStatus) : ℕ :=
  if status = FULL_SDU ∨ status = LAST_SEGMENT then LAST_BYTE else NO_LAST_BYTE

/-- The framing info of a data field; `none` if there is no segment to look at. -/
def framingInfo (dataField : List TxPdu) : Option ℕ := do
  let first ← dataField.head?
  let last ← dataField.getLast?
  return firstByte first.m_sduStatus ||| lastByte last.m_sduStatus

/-- The data field of the packet. -/
def octetsOf (dataField : List TxPdu) : List UInt8 := (dataField.map TxPdu.m_pdu).flatten

/-! ## What is taken and what is left -/

/-- The sizes of the SDUs of a list. -/
def totalSize (l : List TxPdu) : ℕ := (l.map TxPdu.size).sum

/-- The segments that are taken, and those that are left. -/
def cut (queue : List TxPdu) (p : TxPdu) (room id : ℕ) : List TxPdu × List TxPdu :=
  if room < p.size ∨ 2047 < p.size then
    ([(p.split (min p.size room)).1], (p.split (min p.size room)).2.toList ++ queue)
  else if room - p.size ≤ 2 ∨ queue = [] then ([p], queue)
  else
    match queue with
    | [] => ([p], [])
    | next :: queue =>
      (p :: (cut queue next (room - (liSize id + p.size)) (id + 1)).1,
        (cut queue next (room - (liSize id + p.size)) (id + 1)).2)

/-- The header after a list of length indicators, each behind an extension bit, and the last
extension bit. -/
def pushAll (h : H) (lis : List ℕ) : H :=
  RlcHeader.pushExtensionBit
    (lis.foldl (fun h li ↦
      RlcHeader.pushLengthIndicator (RlcHeader.pushExtensionBit h 1) li) h) 0

/-- The length indicators of a data field. -/
def lengthIndicators (pieces : List TxPdu) : List ℕ := pieces.dropLast.map TxPdu.size

section Cut

variable {queue : List TxPdu} {p : TxPdu} {room id : ℕ} {d : DataField H}

theorem cut_segmented (h : room < p.size ∨ 2047 < p.size) : cut queue p room id =
    ([(p.split (min p.size room)).1], (p.split (min p.size room)).2.toList ++ queue) := by
  rw [cut.eq_def, if_pos h]

theorem cut_last (h : ¬ (room < p.size ∨ 2047 < p.size)) (hlast : room - p.size ≤ 2 ∨ queue = []) :
    cut queue p room id = ([p], queue) := by
  rw [cut.eq_def, if_neg h, if_pos hlast]

theorem cut_followed {next : TxPdu} (h : ¬ (room < p.size ∨ 2047 < p.size))
    (hroom : 2 < room - p.size) : cut (next :: queue) p room id =
      (p :: (cut queue next (room - (liSize id + p.size)) (id + 1)).1,
        (cut queue next (room - (liSize id + p.size)) (id + 1)).2) := by
  rw [cut, if_neg h, if_neg]
  rintro (hle | hnil)
  · exact absurd hle (Nat.not_le.mpr hroom)
  · exact absurd hnil (List.cons_ne_nil _ _)

theorem buildDataField_segmented (hp : 0 < p.size) (hroom : 0 < room)
    (h : room < p.size ∨ 2047 < p.size) : buildDataField queue p room id d =
      ((p.split (min p.size room)).2.toList ++ queue,
        (d.giveBack (p.split (min p.size room)).2).push (p.split (min p.size room)).1 0) := by
  rw [buildDataField.eq_def, if_pos ⟨hp, hroom⟩, if_pos h]

theorem buildDataField_last (hp : 0 < p.size) (hroom : 0 < room)
    (h : ¬ (room < p.size ∨ 2047 < p.size)) (hlast : room - p.size ≤ 2 ∨ queue = []) :
    buildDataField queue p room id d = (queue, d.push p 0) := by
  rw [buildDataField.eq_def, if_pos ⟨hp, hroom⟩, if_neg h, if_pos hlast]

theorem buildDataField_followed {next : TxPdu} (hp : 0 < p.size)
    (h : ¬ (room < p.size ∨ 2047 < p.size)) (hroom : 2 < room - p.size) :
    buildDataField (next :: queue) p room id d =
      buildDataField queue next (room - (liSize id + p.size)) (id + 1) (d.pushFollowed p next) := by
  rw [buildDataField, if_pos ⟨hp, by omega⟩, if_neg h, if_neg]
  rintro (hle | hnil)
  · exact absurd hle (Nat.not_le.mpr hroom)
  · exact absurd hnil (List.cons_ne_nil _ _)

/-- The induction over what is taken, with the three ways in which the loop goes on. -/
theorem cut_induction {P : List TxPdu → TxPdu → ℕ → ℕ → Prop}
    (segmented : ∀ queue p room id, (room < p.size ∨ 2047 < p.size) → P queue p room id)
    (last : ∀ queue p room id, ¬ (room < p.size ∨ 2047 < p.size) →
      (room - p.size ≤ 2 ∨ queue = []) → P queue p room id)
    (followed : ∀ next queue p room id, ¬ (room < p.size ∨ 2047 < p.size) → 2 < room - p.size →
      P queue next (room - (liSize id + p.size)) (id + 1) → P (next :: queue) p room id)
    (queue : List TxPdu) (p : TxPdu) (room id : ℕ) : P queue p room id := by
  induction queue generalizing p room id with
  | nil =>
    by_cases h : room < p.size ∨ 2047 < p.size
    · exact segmented _ _ _ _ h
    · exact last _ _ _ _ h (.inr rfl)
  | cons next queue ih =>
    by_cases h : room < p.size ∨ 2047 < p.size
    · exact segmented _ _ _ _ h
    · by_cases hroom : room - p.size ≤ 2
      · exact last _ _ _ _ h (.inl hroom)
      · exact followed _ _ _ _ _ h (Nat.not_le.mp hroom) (ih _ _ _)

theorem liSize_le (id : ℕ) : liSize id ≤ 2 := by
  rw [liSize]
  split_ifs <;> decide

theorem cut_ne_nil (queue : List TxPdu) (p : TxPdu) (room id : ℕ) :
    (cut queue p room id).1 ≠ [] := by
  induction queue, p, room, id using cut_induction with
  | segmented queue p room id h =>
    rw [cut_segmented h]
    exact List.cons_ne_nil _ _
  | last queue p room id h hlast =>
    rw [cut_last h hlast]
    exact List.cons_ne_nil _ _
  | followed next queue p room id h hroom _ =>
    rw [cut_followed h hroom]
    exact List.cons_ne_nil _ _

theorem lengthIndicators_cons {l : List TxPdu} (h : l ≠ []) :
    lengthIndicators (p :: l) = p.size :: lengthIndicators l := by
  rw [lengthIndicators, lengthIndicators, List.dropLast_cons_of_ne_nil h, List.map_cons]

/-- **The loop takes and leaves what `cut` says**, and pushes the length indicators in order. -/
theorem buildDataField_eq (id : ℕ) (d : DataField H) (hroom : 0 < room) (hp : 0 < p.size)
    (hqueue : ∀ q ∈ queue, 0 < q.size) :
    (buildDataField queue p room id d).1 = (cut queue p room id).2 ∧
      (buildDataField queue p room id d).2.dataField = d.dataField ++ (cut queue p room id).1 ∧
      (buildDataField queue p room id d).2.rlcHeader =
        pushAll d.rlcHeader (lengthIndicators (cut queue p room id).1) := by
  induction queue, p, room, id using cut_induction generalizing d with
  | segmented queue p room id h =>
    rw [cut_segmented h, buildDataField_segmented hp hroom h]
    refine ⟨rfl, ?_⟩
    cases (p.split (min p.size room)).2 with
    | none => exact ⟨rfl, rfl⟩
    | some q => exact ⟨rfl, rfl⟩
  | last queue p room id h hlast =>
    rw [cut_last h hlast, buildDataField_last hp hroom h hlast]
    exact ⟨rfl, rfl, rfl⟩
  | followed next queue p room id h hlt ih =>
    rw [List.forall_mem_cons] at hqueue
    have := liSize_le id
    obtain ⟨hleft, htaken, hheader⟩ := ih (d.pushFollowed p next) (by omega) hqueue.1 hqueue.2
    rw [cut_followed h hlt, buildDataField_followed hp h hlt]
    refine ⟨hleft, ?_, ?_⟩
    · rw [htaken]
      exact List.append_assoc _ _ _
    · rw [hheader, lengthIndicators_cons (cut_ne_nil _ _ _ _)]
      rfl

theorem totalSize_cons (q : TxPdu) (l : List TxPdu) : totalSize (q :: l) = q.size + totalSize l :=
  List.sum_cons

theorem totalSize_append (l l' : List TxPdu) :
    totalSize (l ++ l') = totalSize l + totalSize l' := by
  rw [totalSize, List.map_append, List.sum_append, totalSize, totalSize]

theorem size_split (p : TxPdu) (n : ℕ) : (p.split n).1.size = min n p.size ∧
    totalSize (p.split n).2.toList = p.size - n := by
  rw [TxPdu.split]
  split_ifs with h
  · refine ⟨List.length_take, ?_⟩
    rw [Option.toList_some, totalSize_cons]
    exact List.length_drop
  · refine ⟨List.length_take, ?_⟩
    rw [Option.toList_none, Nat.sub_eq_zero_of_le (Nat.not_lt.mp h)]
    rfl

theorem totalSize_cut_add (queue : List TxPdu) (p : TxPdu) (room id : ℕ) :
    totalSize (cut queue p room id).1 + totalSize (cut queue p room id).2 =
      totalSize (p :: queue) := by
  induction queue, p, room, id using cut_induction with
  | segmented queue p room id h =>
    obtain ⟨hfirst, hrest⟩ := size_split p (min p.size room)
    rw [cut_segmented h, totalSize_append, hrest, totalSize_cons, totalSize_cons, hfirst]
    change min (min p.size room) p.size + 0 + _ = _
    omega
  | last queue p room id h hlast =>
    rw [cut_last h hlast, totalSize_cons, totalSize_cons]
    rfl
  | followed next queue p room id h hroom ih =>
    rw [cut_followed h hroom, totalSize_cons, totalSize_cons, add_assoc, ih]

/-- **The size of the transmission buffer is that of the segments that are left**, if that of those
that were queued fits in 32 bits. -/
theorem buildDataField_size (d : DataField H) (hroom : 0 < room) (hp : 0 < p.size)
    (hqueue : ∀ q ∈ queue, 0 < q.size) (hd : d.m_txBufferSize = totalSize queue)
    (hlt : totalSize (p :: queue) < 2 ^ 32) :
    (buildDataField queue p room id d).2.m_txBufferSize = totalSize (cut queue p room id).2 := by
  induction queue, p, room, id using cut_induction generalizing d with
  | segmented queue p room id h =>
    obtain ⟨-, hrest⟩ := size_split p (min p.size room)
    rw [cut_segmented h, buildDataField_segmented hp hroom h]
    rw [totalSize_cons] at hlt
    dsimp only
    rw [totalSize_append, hrest, ← hd]
    cases hsplit : (p.split (min p.size room)).2 with
    | none =>
      rw [hsplit] at hrest
      rw [← hrest]
      exact (Nat.zero_add _).symm
    | some q =>
      rw [hsplit, Option.toList_some, totalSize_cons] at hrest
      change q.size + 0 = _ at hrest
      change add32 d.m_txBufferSize q.size = _
      rw [hd, add32_eq (by omega)]
      omega
  | last queue p room id h hlast =>
    rw [cut_last h hlast, buildDataField_last hp hroom h hlast]
    exact hd
  | followed next queue p room id h hgt ih =>
    rw [List.forall_mem_cons] at hqueue
    rw [totalSize_cons] at hlt
    have := liSize_le id
    have hsub : (d.pushFollowed p next).m_txBufferSize = totalSize queue := by
      change sub32 d.m_txBufferSize next.size = _
      rw [totalSize_cons] at hd hlt
      rw [sub32_eq (by omega) (by omega)]
      omega
    rw [cut_followed h hgt, buildDataField_followed hp h hgt]
    exact ih _ (by omega) hqueue.1 hqueue.2 hsub (by omega)

end Cut

/-! ## The segments -/

/-- A tag says whether a segment has the first and the last octet of its SDU. -/
def TxPdu.toSegment (p : TxPdu) : Segment UInt8 where
  data := p.m_pdu
  first := decide (p.m_sduStatus = FULL_SDU ∨ p.m_sduStatus = FIRST_SEGMENT)
  last := decide (p.m_sduStatus = FULL_SDU ∨ p.m_sduStatus = LAST_SEGMENT)

def segments (l : List TxPdu) : List (Segment UInt8) := l.map TxPdu.toSegment

/-- What can be in the transmission buffer: segments that are not empty and have the last octet of
their SDU. -/
def TxPdu.Pending (p : TxPdu) : Prop := 0 < p.size ∧ p.toSegment.last = true

theorem segments_append (l l' : List TxPdu) : segments (l ++ l') = segments l ++ segments l' :=
  List.map_append

theorem segments_cons (p : TxPdu) (l : List TxPdu) : segments (p :: l) = p.toSegment :: segments l :=
  List.map_cons

theorem map_data_segments (l : List TxPdu) : (segments l).map data = l.map TxPdu.m_pdu := by
  rw [segments, List.map_map]
  rfl

section Pending

variable {p : TxPdu} {queue : List TxPdu} {room id n : ℕ} {kept : Option (List UInt8)}
  {isOpen : Bool} {ss : List (Segment UInt8)}

theorem split_cases (hlast : p.toSegment.last = true) (n : ℕ) :
    p.split n = (p, none) ∨
    ∃ q r, p.split n = (q, some r) ∧ n < p.size ∧ q.size = n ∧ r.toSegment.last = true ∧
      r.size = p.size - n ∧
      q.toSegment = ⟨p.m_pdu.take n, p.toSegment.first, false⟩ ∧
      r.toSegment = ⟨p.m_pdu.drop n, false, p.toSegment.last⟩ := by
  obtain ⟨pdu, status⟩ := p
  rw [TxPdu.split]
  by_cases hlt : n < (TxPdu.mk pdu status).size
  · right
    rw [if_pos hlt]
    have htake : (pdu.take n).length = n := List.length_take_of_le hlt.le
    have hdrop : (pdu.drop n).length = pdu.length - n := List.length_drop
    refine ⟨_, _, rfl, hlt, htake, ?_⟩
    cases status with
    | FULL_SDU => exact ⟨rfl, hdrop, rfl, rfl⟩
    | LAST_SEGMENT => exact ⟨rfl, hdrop, rfl, rfl⟩
    | FIRST_SEGMENT => exact absurd hlast Bool.false_ne_true
    | MIDDLE_SEGMENT => exact absurd hlast Bool.false_ne_true
  · left
    rw [if_neg hlt, List.take_of_length_le (Nat.not_lt.mp hlt)]
    cases status with
    | FULL_SDU => rfl
    | LAST_SEGMENT => rfl
    | FIRST_SEGMENT => exact absurd hlast Bool.false_ne_true
    | MIDDLE_SEGMENT => exact absurd hlast Bool.false_ne_true

theorem segments_split (hlast : p.toSegment.last = true) :
    join kept ((p.split n).1.toSegment :: (segments (p.split n).2.toList ++ ss)) =
        join kept (p.toSegment :: ss) ∧
      (Consecutive isOpen ((p.split n).1.toSegment :: (segments (p.split n).2.toList ++ ss)) ↔
        Consecutive isOpen (p.toSegment :: ss)) := by
  rcases split_cases hlast n with hsplit | ⟨q, r, hsplit, -, -, -, -, hq, hr⟩
  · rw [hsplit]
    exact ⟨rfl, Iff.rfl⟩
  · have hwhole : p.toSegment =
        ⟨p.m_pdu.take n ++ p.m_pdu.drop n, p.toSegment.first, p.toSegment.last⟩ := by
      rw [List.take_append_drop]
      rfl
    rw [hsplit, Option.toList_some]
    change join kept (q.toSegment :: r.toSegment :: ss) = _ ∧
      (Consecutive isOpen (q.toSegment :: r.toSegment :: ss) ↔ _)
    rw [hq, hr, join_cut, consecutive_cut, ← hwhole]
    exact ⟨rfl, Iff.rfl⟩

/-- **What is taken and what is left is what was queued, cut.** -/
theorem segments_cut (room id : ℕ) (kept : Option (List UInt8)) (isOpen : Bool)
    (ss : List (Segment UInt8)) (hp : p.Pending) (hqueue : ∀ q ∈ queue, q.Pending) :
    join kept (segments (cut queue p room id).1 ++ (segments (cut queue p room id).2 ++ ss)) =
        join kept (segments (p :: queue) ++ ss) ∧
      (Consecutive isOpen
          (segments (cut queue p room id).1 ++ (segments (cut queue p room id).2 ++ ss)) ↔
        Consecutive isOpen (segments (p :: queue) ++ ss)) := by
  induction queue, p, room, id using cut_induction generalizing kept isOpen with
  | segmented queue p room id h =>
    rw [cut_segmented h, segments_append, segments_cons, segments_cons, List.append_assoc]
    exact segments_split hp.2
  | last queue p room id h hlast =>
    rw [cut_last h hlast]
    exact ⟨rfl, Iff.rfl⟩
  | followed next queue p room id h hroom ih =>
    rw [List.forall_mem_cons] at hqueue
    rw [cut_followed h hroom, segments_cons, List.cons_append, segments_cons p, List.cons_append,
      join_cons_last hp.2, join_cons_last hp.2, (ih none false hqueue.1 hqueue.2).1,
      Consecutive, Consecutive]
    exact ⟨rfl, and_congr_right fun _ ↦ (ih none _ hqueue.1 hqueue.2).2⟩

theorem pending_cut (hp : p.Pending) (hqueue : ∀ q ∈ queue, q.Pending) :
    ∀ q ∈ (cut queue p room id).2, q.Pending := by
  induction queue, p, room, id using cut_induction with
  | segmented queue p room id h =>
    rw [cut_segmented h]
    rcases split_cases hp.2 (min p.size room) with hsplit | ⟨q, r, hsplit, hlt, -, hlast, hsize, -⟩
    · rw [hsplit]
      exact hqueue
    · rw [hsplit]
      refine List.forall_mem_cons.mpr ⟨⟨?_, hlast⟩, hqueue⟩
      omega
  | last queue p room id h hlast =>
    rw [cut_last h hlast]
    exact hqueue
  | followed next queue p room id h hroom ih =>
    rw [cut_followed h hroom]
    rw [List.forall_mem_cons] at hqueue
    exact ih hqueue.1 hqueue.2

/-- All but the last of the segments that are taken have the last octet of their SDU, and at most
2047 octets. -/
theorem dropLast_cut (room id : ℕ) (hp : p.Pending) (hqueue : ∀ q ∈ queue, q.Pending) :
    ∀ q ∈ (cut queue p room id).1.dropLast, q.size ≤ 2047 ∧ q.toSegment.last = true := by
  induction queue, p, room, id using cut_induction with
  | segmented queue p room id h =>
    rw [cut_segmented h]
    exact fun q hq ↦ absurd hq (List.not_mem_nil)
  | last queue p room id h hlast =>
    rw [cut_last h hlast]
    exact fun q hq ↦ absurd hq (List.not_mem_nil)
  | followed next queue p room id h hgt ih =>
    rw [List.forall_mem_cons] at hqueue
    rw [cut_followed h hgt, List.dropLast_cons_of_ne_nil (cut_ne_nil _ _ _ _)]
    rw [not_or, Nat.not_lt, Nat.not_lt] at h
    exact List.forall_mem_cons.mpr ⟨⟨h.2, hp.2⟩, ih hqueue.1 hqueue.2⟩

/-! ## The room -/

/-- The octets of `k` length indicators, the first of which is that of segment `id`. -/
def liSizes (id k : ℕ) : ℕ := if id % 2 = 1 then (3 * k + 1) / 2 else 3 * k / 2

theorem liSizes_zero (id : ℕ) : liSizes id 0 = 0 := by
  rw [liSizes]
  split_ifs <;> rfl

theorem liSizes_succ (id k : ℕ) : liSizes id (k + 1) = liSize id + liSizes (id + 1) k := by
  rw [liSizes, liSizes, liSize]
  split_ifs <;> omega

/-- **What is taken and its length indicators fit.** -/
theorem totalSize_cut (queue : List TxPdu) (p : TxPdu) (id : ℕ) (hroom : 0 < room) : totalSize (cut queue p room id).1 +
    liSizes id (lengthIndicators (cut queue p room id).1).length ≤ room := by
  induction queue, p, room, id using cut_induction with
  | segmented queue p room id h =>
    rw [cut_segmented h, totalSize_cons, (size_split p _).1]
    simp [totalSize, lengthIndicators, liSizes_zero]
  | last queue p room id h hlast =>
    rw [cut_last h hlast, totalSize_cons]
    rw [not_or, Nat.not_lt, Nat.not_lt] at h
    simpa [totalSize, lengthIndicators, liSizes_zero] using h.1
  | followed next queue p room id h hgt ih =>
    have := liSize_le id
    have := ih (by omega)
    rw [cut_followed h hgt, totalSize_cons, lengthIndicators_cons (cut_ne_nil _ _ _ _),
      List.length_cons, liSizes_succ]
    omega

/-- `k` SDUs of a list can be put in front of another one, each with its length indicator. -/
def FitsFollowed (queue : List TxPdu) (room id k : ℕ) : Prop :=
  k < queue.length ∧ (∀ q ∈ queue.take k, q.size ≤ 2047) ∧
    totalSize (queue.take k) + liSizes id (k - 1) + 2 < room

instance (queue : List TxPdu) (room id k : ℕ) : Decidable (FitsFollowed queue room id k) :=
  inferInstanceAs (Decidable (_ ∧ _))

theorem fitsFollowed_of_le {k : ℕ} (hk : 0 < k)
    (h : k ≤ (lengthIndicators (cut queue p room id).1).length) :
    FitsFollowed (p :: queue) room id k := by
  induction queue, p, room, id using cut_induction generalizing k with
  | segmented queue p room id hseg =>
    rw [cut_segmented hseg] at h
    exact absurd h (Nat.not_le.mpr hk)
  | last queue p room id hn hlast =>
    rw [cut_last hn hlast] at h
    exact absurd h (Nat.not_le.mpr hk)
  | followed next queue p room id hn hgt ih =>
    rw [cut_followed hn hgt, lengthIndicators_cons (cut_ne_nil _ _ _ _), List.length_cons] at h
    rw [not_or, Nat.not_lt, Nat.not_lt] at hn
    obtain ⟨k, rfl⟩ := Nat.exists_eq_succ_of_ne_zero hk.ne'
    rcases Nat.eq_zero_or_pos k with rfl | hpos
    · refine ⟨by simp, by simpa using hn.2, ?_⟩
      rw [Nat.succ_eq_add_one, Nat.zero_add, List.take_succ_cons, List.take_zero, totalSize_cons,
        Nat.sub_self, liSizes_zero]
      exact Nat.add_lt_of_lt_sub' hgt
    · obtain ⟨hlt, hsmall, htotal⟩ := ih hpos (Nat.succ_le_succ_iff.mp h)
      refine ⟨Nat.succ_lt_succ hlt, ?_, ?_⟩
      · rw [Nat.succ_eq_add_one, List.take_succ_cons]
        exact List.forall_mem_cons.mpr ⟨hn.2, hsmall⟩
      · have := liSizes_succ id (k - 1)
        rw [Nat.sub_add_cancel hpos] at this
        rw [Nat.succ_eq_add_one, List.take_succ_cons, totalSize_cons, Nat.add_sub_cancel, this]
        omega

end Pending

end Lte

end Ns3
