import Mathlib

/-!
# The header of RLC acknowledged mode

A data PDU has a fixed part of four octets and then, for each length indicator, an extension bit and
eleven bits, two of them in three octets. A STATUS PDU has the number that is acknowledged and a list of
numbers of ten bits, each behind a bit that says that it is there.

Reading undoes writing, for headers of any length that fits in the sixteen bits of the counter, except
in one place: of the segment offset of a data PDU the two octets are combined without a shift, so that
only an offset of one octet survives.
-/

namespace Ns3

namespace Lte

/-- A `LteRlcAmHeader`. -/
structure LteRlcAmHeader where
  m_headerLength : ℕ
  m_dataControlBit : ℕ
  m_resegmentationFlag : ℕ
  m_pollingBit : ℕ
  m_framingInfo : ℕ
  m_sequenceNumber : ℕ
  m_lastSegmentFlag : ℕ
  m_segmentOffset : ℕ
  m_lastOffset : ℕ
  m_extensionBits : List ℕ
  m_lengthIndicators : List ℕ
  m_controlPduType : ℕ
  m_ackSn : ℕ
  m_nackSnList : List ℕ
deriving DecidableEq

namespace LteRlcAmHeader

/-! ## Building a header -/

def CONTROL_PDU : ℕ := 0

def DATA_PDU : ℕ := 1

def STATUS_PDU : ℕ := 0

def DATA_FIELD_FOLLOWS : ℕ := 0

def E_LI_FIELDS_FOLLOWS : ℕ := 1

def SEGMENT : ℕ := 1

/-- The default constructor, which leaves the last segment flag as it finds it. -/
def create (lastSegmentFlag : ℕ) : LteRlcAmHeader where
  m_headerLength := 0
  m_dataControlBit := 0xff
  m_resegmentationFlag := 0xff
  m_pollingBit := 0xff
  m_framingInfo := 0xff
  m_sequenceNumber := 0xfffa % 1024
  m_lastSegmentFlag := lastSegmentFlag
  m_segmentOffset := 0xffff
  m_lastOffset := 0xffff
  m_extensionBits := []
  m_lengthIndicators := []
  m_controlPduType := 0xff
  m_ackSn := 0xffff % 1024
  m_nackSnList := []

/-- `m_headerLength += n`, in 16 bits. -/
def addLength (h : LteRlcAmHeader) (n : ℕ) : LteRlcAmHeader :=
  { h with m_headerLength := (h.m_headerLength + n) % 65536 }

def setDataPdu (h : LteRlcAmHeader) : LteRlcAmHeader :=
  { h with m_headerLength := 4, m_dataControlBit := DATA_PDU }

def setControlPdu (h : LteRlcAmHeader) (controlPduType : ℕ) : LteRlcAmHeader :=
  { h with
    m_headerLength := 2, m_dataControlBit := CONTROL_PDU, m_controlPduType := controlPduType }

def setResegmentationFlag (h : LteRlcAmHeader) (resegFlag : ℕ) : LteRlcAmHeader :=
  { h with m_resegmentationFlag := resegFlag &&& 0x01 }

def setPollingBit (h : LteRlcAmHeader) (pollingBit : ℕ) : LteRlcAmHeader :=
  { h with m_pollingBit := pollingBit &&& 0x01 }

def setFramingInfo (h : LteRlcAmHeader) (framingInfo : ℕ) : LteRlcAmHeader :=
  { h with m_framingInfo := framingInfo &&& 0x03 }

/-- `SetSequenceNumber`, of a `SequenceNumber10`. -/
def setSequenceNumber (h : LteRlcAmHeader) (sequenceNumber : ℕ) : LteRlcAmHeader :=
  { h with m_sequenceNumber := sequenceNumber % 1024 }

def setLastSegmentFlag (h : LteRlcAmHeader) (lsf : ℕ) : LteRlcAmHeader :=
  { h with m_lastSegmentFlag := lsf &&& 0x01 }

def setSegmentOffset (h : LteRlcAmHeader) (segmentOffset : ℕ) : LteRlcAmHeader :=
  { h with m_segmentOffset := segmentOffset &&& 0x7FFF }

/-- `SetAckSn`, of a `SequenceNumber10`. -/
def setAckSn (h : LteRlcAmHeader) (ackSn : ℕ) : LteRlcAmHeader :=
  { h with m_ackSn := ackSn % 1024 }

def pushExtensionBit (h : LteRlcAmHeader) (extensionBit : ℕ) : LteRlcAmHeader :=
  let h' := { h with m_extensionBits := h.m_extensionBits ++ [extensionBit] }
  if 1 < h'.m_extensionBits.length then
    h'.addLength (if h'.m_extensionBits.length % 2 = 1 then 1 else 2)
  else h'

def pushLengthIndicator (h : LteRlcAmHeader) (lengthIndicator : ℕ) : LteRlcAmHeader :=
  { h with m_lengthIndicators := h.m_lengthIndicators ++ [lengthIndicator] }

/-- `OneMoreNackWouldFitIn`, for a STATUS PDU. -/
def oneMoreNackWouldFitIn (h : LteRlcAmHeader) (bytes : ℕ) : Bool :=
  if h.m_nackSnList.length % 2 = 0 then decide (h.m_headerLength < bytes)
  else decide ((h.m_headerLength : ℤ) < bytes - 1)

def pushNack (h : LteRlcAmHeader) (nack : ℕ) : LteRlcAmHeader :=
  let h' := { h with m_nackSnList := h.m_nackSnList ++ [nack] }
  h'.addLength (if h'.m_nackSnList.length % 2 = 0 then 1 else 2)

/-- A data PDU: its flags, its sequence number, its segment offset, and its length indicators, each
behind an extension bit. -/
def dataHeader (uninitialized rf p fi sn lsf so : ℕ) (lis : List ℕ) : LteRlcAmHeader :=
  (lis.foldl (fun h li ↦ (h.pushExtensionBit E_LI_FIELDS_FOLLOWS).pushLengthIndicator li)
    (((((((create uninitialized).setDataPdu).setResegmentationFlag rf).setPollingBit p).setFramingInfo
      fi).setSequenceNumber sn).setLastSegmentFlag lsf |>.setSegmentOffset so)).pushExtensionBit
    DATA_FIELD_FOLLOWS

/-- A STATUS PDU. -/
def statusHeader (uninitialized ackSn : ℕ) (nacks : List ℕ) : LteRlcAmHeader :=
  nacks.foldl pushNack (((create uninitialized).setControlPdu STATUS_PDU).setAckSn ackSn)

def getSerializedSize (h : LteRlcAmHeader) : ℕ := h.m_headerLength

/-! ## Writing -/

/-- `WriteU8` keeps the low octet. -/
def octet (n : ℕ) : UInt8 := UInt8.ofNat n

/-- The loop of `Serialize` over the extension bits and the length indicators. -/
def serializeLengthIndicators : List ℕ → List ℕ → List UInt8
  | oddE :: evenE :: es, oddLi :: evenLi :: lis =>
    octet ((oddE <<< 7 &&& 0x80) ||| (oddLi >>> 4 &&& 0x7F)) ::
      octet ((oddLi <<< 4 &&& 0xF0) ||| (evenE <<< 3 &&& 0x08) ||| (evenLi >>> 8 &&& 0x07)) ::
      octet (evenLi &&& 0xFF) :: serializeLengthIndicators es lis
  | oddE :: _, oddLi :: _ =>
    [octet ((oddE <<< 7 &&& 0x80) ||| (oddLi >>> 4 &&& 0x7F)), octet (oddLi <<< 4 &&& 0xF0)]
  | _, _ => []

/-- The loop of `Serialize` over the NACKs, the first of whose bits has been written. -/
def serializeNacks : List ℕ → List UInt8
  | [] => []
  | [oddNack] => [octet (oddNack >>> 1 &&& 0xFF), octet (oddNack <<< 7 &&& 0x80)]
  | [oddNack, evenNack] =>
    [octet (oddNack >>> 1 &&& 0xFF),
      octet ((oddNack <<< 7 &&& 0x80) ||| 0x40 ||| (evenNack >>> 5 &&& 0x1F)),
      octet (evenNack <<< 3 &&& 0xF8)]
  | oddNack :: evenNack :: nextNack :: nacks =>
    octet (oddNack >>> 1 &&& 0xFF) ::
      octet ((oddNack <<< 7 &&& 0x80) ||| 0x40 ||| (evenNack >>> 5 &&& 0x1F)) ::
      octet ((evenNack <<< 3 &&& 0xF8) ||| 0x04 ||| (nextNack >>> 9 &&& 0x01)) ::
      serializeNacks (nextNack :: nacks)

def serialize (h : LteRlcAmHeader) : List UInt8 :=
  if h.m_dataControlBit = DATA_PDU then
    octet ((DATA_PDU <<< 7 &&& 0x80) ||| (h.m_resegmentationFlag <<< 6 &&& 0x40) |||
        (h.m_pollingBit <<< 5 &&& 0x20) ||| (h.m_framingInfo <<< 3 &&& 0x18) |||
        (h.m_extensionBits.headD 0 <<< 2 &&& 0x04) ||| (h.m_sequenceNumber >>> 8 &&& 0x0003)) ::
      octet (h.m_sequenceNumber &&& 0x00FF) ::
      octet ((h.m_lastSegmentFlag <<< 7 &&& 0x80) ||| (h.m_segmentOffset >>> 8 &&& 0x007F)) ::
      octet (h.m_segmentOffset &&& 0x00FF) ::
      serializeLengthIndicators h.m_extensionBits.tail h.m_lengthIndicators
  else
    octet ((CONTROL_PDU <<< 7 &&& 0x80) ||| (h.m_controlPduType <<< 4 &&& 0x70) |||
        (h.m_ackSn >>> 6 &&& 0x0F)) ::
      match h.m_nackSnList with
      | [] => [octet (h.m_ackSn <<< 2 &&& 0xFC)]
      | nack :: nacks =>
        octet ((h.m_ackSn <<< 2 &&& 0xFC) ||| 0x02 ||| (nack >>> 9 &&& 0x01)) ::
          serializeNacks (nack :: nacks)

/-! ## Reading -/

/-- `push_back` of an extension bit and a length indicator. -/
def readLengthIndicator (h : LteRlcAmHeader) (e li n : ℕ) : LteRlcAmHeader :=
  { h.addLength n with
    m_extensionBits := h.m_extensionBits ++ [e]
    m_lengthIndicators := h.m_lengthIndicators ++ [li] }

/-- The loop of `Deserialize` over the length indicators; `none` if the octets run out. -/
def deserializeLengthIndicators : List UInt8 → LteRlcAmHeader →
    Option (LteRlcAmHeader × List UInt8)
  | byte_1 :: byte_2 :: i, h =>
    let oddE := (byte_1.toNat &&& 0x80) >>> 7
    let oddLi := ((byte_1.toNat &&& 0x7F) <<< 4) ||| ((byte_2.toNat &&& 0xF0) >>> 4)
    let h' := h.readLengthIndicator oddE oddLi 2
    if oddE = E_LI_FIELDS_FOLLOWS then
      match i with
      | [] => none
      | byte_3 :: i' =>
        let evenE := (byte_2.toNat &&& 0x08) >>> 3
        let evenLi := ((byte_2.toNat &&& 0x07) <<< 8) ||| (byte_3.toNat &&& 0xFF)
        let h'' := h'.readLengthIndicator evenE evenLi 1
        if evenE = E_LI_FIELDS_FOLLOWS then deserializeLengthIndicators i' h'' else some (h'', i')
    else some (h', i)
  | _, _ => none

/-- `push_back` of a NACK. -/
def readNack (h : LteRlcAmHeader) (nack : ℕ) : LteRlcAmHeader :=
  { h with m_nackSnList := h.m_nackSnList ++ [nack] }

/-- The loop of `Deserialize` over the NACKs behind the first. -/
def deserializeNacks (byte : ℕ) : List UInt8 → LteRlcAmHeader →
    Option (LteRlcAmHeader × List UInt8)
  | nextByte :: i, h =>
    let h' := h.readNack (((byte &&& 0x1F) <<< 5) ||| ((nextByte.toNat &&& 0xF8) >>> 3))
    if (nextByte.toNat &&& 0x04) >>> 2 = 1 then
      match i with
      | nextByte' :: finalByte :: i' =>
        let h'' := (h'.readNack (((nextByte.toNat &&& 0x01) <<< 9) ||| (nextByte'.toNat <<< 1) |||
          ((finalByte.toNat &&& 0x80) >>> 7))).addLength 3
        if (finalByte.toNat &&& 0x40) >>> 6 = 1 then deserializeNacks finalByte.toNat i' h''
        else some (h'', i')
      | _ => none
    else some (h'.addLength 1, i)
  | [], _ => none

/-- The offset of the end of a segment in a packet of `size` octets, in 16 bits. -/
def lastOffset (h : LteRlcAmHeader) (size : ℕ) : ℕ :=
  (h.m_segmentOffset + size + 65536 - h.m_headerLength) % 65536

/-- The fields of the fixed part of a data PDU. -/
def readFixed (h : LteRlcAmHeader) (rf p fi sn lsf so e : ℕ) : LteRlcAmHeader :=
  { h.addLength 3 with
    m_resegmentationFlag := rf
    m_pollingBit := p
    m_framingInfo := fi
    m_sequenceNumber := sn % 1024
    m_lastSegmentFlag := lsf
    m_segmentOffset := so
    m_extensionBits := h.m_extensionBits ++ [e] }

/-- `Deserialize` of a data PDU, behind its first octet. -/
def deserializeData (byte_1 size : ℕ) : List UInt8 → LteRlcAmHeader →
    Option (LteRlcAmHeader × List UInt8)
  | byte_2 :: byte_3 :: byte_4 :: i, h =>
    let extensionBit := (byte_1 &&& 0x04) >>> 2
    let h' := h.readFixed ((byte_1 &&& 0x40) >>> 6) ((byte_1 &&& 0x20) >>> 5)
      ((byte_1 &&& 0x18) >>> 3) (((byte_1 &&& 0x03) <<< 8) ||| byte_2.toNat)
      ((byte_3.toNat &&& 0x80) >>> 7) ((byte_3.toNat &&& 0x7F) ||| byte_4.toNat) extensionBit
    if extensionBit = DATA_FIELD_FOLLOWS then some (h', i)
    else
      (deserializeLengthIndicators i h').map fun r ↦
        if r.1.m_resegmentationFlag = SEGMENT then
          ({ r.1 with m_lastOffset := r.1.lastOffset size }, r.2)
        else r
  | _, _ => none

/-- `Deserialize` of a control PDU, behind its first octet. -/
def deserializeControl (byte_1 : ℕ) : List UInt8 → LteRlcAmHeader →
    Option (LteRlcAmHeader × List UInt8)
  | byte_2 :: i, h =>
    let h' := { h with
      m_controlPduType := (byte_1 &&& 0x70) >>> 4
      m_ackSn := (((byte_1 &&& 0x0F) <<< 6) ||| ((byte_2.toNat &&& 0xFC) >>> 2)) % 1024 }
    if (byte_2.toNat &&& 0x02) >>> 1 = 1 then
      match i with
      | byte_3 :: byte_4 :: i' =>
        let h'' := { h' with m_headerLength := 4 }.readNack (((byte_2.toNat &&& 0x01) <<< 9) |||
          (byte_3.toNat <<< 1) ||| ((byte_4.toNat &&& 0x80) >>> 7))
        if (byte_4.toNat &&& 0x40) >>> 6 = 1 then deserializeNacks byte_4.toNat i' h''
        else some (h'', i')
      | _ => none
    else some (h'.addLength 1, i)
  | [], _ => none

/-- `Deserialize`, with the octets that it leaves; the number of octets that it returns is
`GetSerializedSize`. -/
def deserialize (start : List UInt8) (h : LteRlcAmHeader) : Option (LteRlcAmHeader × List UInt8) :=
  match start with
  | [] => none
  | byte_1 :: i =>
    let h' := { h with m_headerLength := 1, m_dataControlBit := (byte_1.toNat &&& 0x80) >>> 7 }
    if h'.m_dataControlBit = DATA_PDU then deserializeData byte_1.toNat start.length i h'
    else deserializeControl byte_1.toNat i h'

/-! ## The bits of an octet -/

theorem toNat_octet (n : ℕ) : (octet n).toNat = n % 256 := UInt8.toNat_ofNat'

theorem and_lt (n m : ℕ) : n &&& m < m + 1 := Nat.lt_succ_of_le Nat.and_le_right

theorem and_mask (n k : ℕ) : n &&& (2 ^ k - 1) = n % 2 ^ k := Nat.and_two_pow_sub_one_eq_mod n k

theorem shiftLeft_and_mask (n k i : ℕ) : n <<< k &&& (2 ^ i - 1) <<< k = (n % 2 ^ i) <<< k := by
  rw [← Nat.shiftLeft_and_distrib, and_mask]

theorem shiftRight_shiftLeft_or (n k : ℕ) : (n >>> k <<< k) ||| n % 2 ^ k = n := by
  rw [← Nat.shiftLeft_add_eq_or_of_lt (Nat.mod_lt _ (Nat.two_pow_pos k)), Nat.shiftLeft_eq,
    Nat.shiftRight_eq_div_pow, Nat.div_add_mod']

theorem shiftRight_and_mask {n k i : ℕ} (h : n < 2 ^ (k + i)) : n >>> k &&& (2 ^ i - 1) = n >>> k := by
  rw [and_mask, Nat.shiftRight_eq_div_pow]
  apply Nat.mod_eq_of_lt
  rw [Nat.div_lt_iff_lt_mul (Nat.two_pow_pos k), ← pow_add, add_comm i k]
  exact h

theorem toNat_octet_and (n : ℕ) : (octet (n &&& 0xFF)).toNat = n % 256 := by
  rw [toNat_octet, show n &&& 0xFF = n % 256 from and_mask n 8, Nat.mod_mod]

/-- The two parts of a length indicator that starts in the middle of an octet, and of one that starts
behind an extension bit. -/
theorem lengthIndicator_parts {li : ℕ} (h : li < 2048) :
    li <<< 4 &&& 0xF0 = (li % 16) <<< 4 ∧ li >>> 4 &&& 0x7F = li >>> 4 ∧
      (li >>> 4 <<< 4) ||| li % 16 = li ∧
      ((li >>> 8 &&& 0x07) <<< 8) ||| ((octet (li &&& 0xFF)).toNat &&& 0xFF) = li := by
  refine ⟨shiftLeft_and_mask li 4 4, shiftRight_and_mask (i := 7) h, shiftRight_shiftLeft_or li 4, ?_⟩
  rw [show li >>> 8 &&& 0x07 = li >>> 8 from shiftRight_and_mask (i := 3) h, toNat_octet_and,
    show li % 256 &&& 0xFF = li % 256 % 256 from and_mask _ 8, Nat.mod_mod]
  exact shiftRight_shiftLeft_or li 8

theorem lengthIndicator_first : ∀ e < 2, ∀ c < 128,
    ((octet ((e <<< 7 &&& 0x80) ||| c)).toNat &&& 0x80) >>> 7 = e ∧
      (octet ((e <<< 7 &&& 0x80) ||| c)).toNat &&& 0x7F = c := by
  simp only [toNat_octet]
  decide

theorem lengthIndicator_second : ∀ a < 16, ∀ e < 2, ∀ c < 8,
    ((octet ((a <<< 4) ||| (e <<< 3 &&& 0x08) ||| c)).toNat &&& 0xF0) >>> 4 = a ∧
      ((octet ((a <<< 4) ||| (e <<< 3 &&& 0x08) ||| c)).toNat &&& 0x08) >>> 3 = e ∧
      (octet ((a <<< 4) ||| (e <<< 3 &&& 0x08) ||| c)).toNat &&& 0x07 = c := by
  simp only [toNat_octet]
  decide

theorem lengthIndicator_last : ∀ a < 16, ((octet (a <<< 4)).toNat &&& 0xF0) >>> 4 = a := by
  simp only [toNat_octet]
  decide

theorem nack_parts {nack : ℕ} (h : nack < 1024) : nack <<< 7 &&& 0x80 = (nack % 2) <<< 7 ∧
    nack <<< 3 &&& 0xF8 = (nack % 32) <<< 3 ∧
    ((nack >>> 9 &&& 0x01) <<< 9) ||| ((octet (nack >>> 1 &&& 0xFF)).toNat <<< 1) ||| nack % 2 =
      nack ∧
    ((nack >>> 5 &&& 0x1F) <<< 5) ||| nack % 32 = nack := by
  refine ⟨shiftLeft_and_mask nack 7 1, shiftLeft_and_mask nack 3 5, ?_, ?_⟩
  · rw [show nack >>> 9 &&& 0x01 = nack >>> 9 from shiftRight_and_mask (i := 1) h, toNat_octet_and,
      Nat.or_assoc,
      ← Nat.shiftLeft_add_eq_or_of_lt (Nat.mod_lt nack (by decide)),
      ← Nat.shiftLeft_add_eq_or_of_lt]
    · simp only [Nat.shiftLeft_eq, Nat.shiftRight_eq_div_pow]
      omega
    · simp only [Nat.shiftLeft_eq, Nat.shiftRight_eq_div_pow]
      omega
  · rw [show nack >>> 5 &&& 0x1F = nack >>> 5 from shiftRight_and_mask (i := 5) h]
    exact shiftRight_shiftLeft_or nack 5

theorem nack_odd_last : ∀ a < 2, ((octet (a <<< 7)).toNat &&& 0x80) >>> 7 = a ∧
    ((octet (a <<< 7)).toNat &&& 0x40) >>> 6 = 0 := by
  simp only [toNat_octet]
  decide

theorem nack_odd_even : ∀ a < 2, ∀ b < 32,
    ((octet ((a <<< 7) ||| 0x40 ||| b)).toNat &&& 0x80) >>> 7 = a ∧
      ((octet ((a <<< 7) ||| 0x40 ||| b)).toNat &&& 0x40) >>> 6 = 1 ∧
      (octet ((a <<< 7) ||| 0x40 ||| b)).toNat &&& 0x1F = b := by
  simp only [toNat_octet]
  decide

theorem nack_even_last : ∀ b < 32, ((octet (b <<< 3)).toNat &&& 0xF8) >>> 3 = b ∧
    ((octet (b <<< 3)).toNat &&& 0x04) >>> 2 = 0 := by
  simp only [toNat_octet]
  decide

theorem nack_even_odd : ∀ b < 32, ∀ c < 2,
    ((octet ((b <<< 3) ||| 0x04 ||| c)).toNat &&& 0xF8) >>> 3 = b ∧
      ((octet ((b <<< 3) ||| 0x04 ||| c)).toNat &&& 0x04) >>> 2 = 1 ∧
      (octet ((b <<< 3) ||| 0x04 ||| c)).toNat &&& 0x01 = c := by
  simp only [toNat_octet]
  decide

/-! ## The lists -/

/-- The octets of a list of length indicators, and of a list of NACKs. -/
def octets : List ℕ → ℕ
  | [] => 0
  | [_] => 2
  | _ :: _ :: l => 3 + octets l

/-- The extension bits that follow the length indicators of a list: each says whether there is another
one. -/
def followingBits : List ℕ → List ℕ
  | [] => []
  | [_] => [0]
  | _ :: li :: lis => 1 :: followingBits (li :: lis)

/-- The header after the loop has read a list of length indicators. -/
def readAll (h : LteRlcAmHeader) (lis : List ℕ) : LteRlcAmHeader :=
  { h.addLength (octets lis) with
    m_extensionBits := h.m_extensionBits ++ followingBits lis
    m_lengthIndicators := h.m_lengthIndicators ++ lis }

theorem readAll_pair (h : LteRlcAmHeader) (oddLi evenLi li : ℕ) (lis : List ℕ) :
    ((h.readLengthIndicator 1 oddLi 2).readLengthIndicator 1 evenLi 1).readAll (li :: lis) =
      h.readAll (oddLi :: evenLi :: li :: lis) := by
  simp only [readAll, readLengthIndicator, addLength, followingBits, List.append_assoc,
    List.cons_append, List.nil_append, octets.eq_3, Nat.mod_add_mod]
  rw [add_assoc, add_assoc, ← add_assoc 2 1]

theorem deserialize_odd {oddLi : ℕ} (hli : oddLi < 2048) (i : List UInt8) (h : LteRlcAmHeader) :
    deserializeLengthIndicators (octet ((0 <<< 7 &&& 0x80) ||| (oddLi >>> 4 &&& 0x7F)) ::
      octet (oddLi <<< 4 &&& 0xF0) :: i) h = some (h.readLengthIndicator 0 oddLi 2, i) := by
  obtain ⟨hlow, hhigh, hsum, -⟩ := lengthIndicator_parts hli
  obtain ⟨he, hfirst⟩ := lengthIndicator_first 0 (by decide) _ (and_lt (oddLi >>> 4) 0x7F)
  have hlast := lengthIndicator_last (oddLi % 16) (Nat.mod_lt _ (by decide))
  rw [hhigh] at he hfirst
  rw [hhigh]
  cases i with
  | nil =>
    rw [deserializeLengthIndicators.eq_1, hlow]
    simp only [he, hfirst, hlast, hsum]
    rfl
  | cons b i =>
    rw [deserializeLengthIndicators.eq_2, hlow]
    simp only [he, hfirst, hlast, hsum]
    rfl

theorem deserialize_pair {oddLi evenLi e : ℕ} (hodd : oddLi < 2048) (heven : evenLi < 2048)
    (hlt : e < 2) (i : List UInt8) (h : LteRlcAmHeader) :
    deserializeLengthIndicators (octet ((1 <<< 7 &&& 0x80) ||| (oddLi >>> 4 &&& 0x7F)) ::
      octet ((oddLi <<< 4 &&& 0xF0) ||| (e <<< 3 &&& 0x08) ||| (evenLi >>> 8 &&& 0x07)) ::
      octet (evenLi &&& 0xFF) :: i) h =
    if e = 1 then deserializeLengthIndicators i
      ((h.readLengthIndicator 1 oddLi 2).readLengthIndicator e evenLi 1)
    else some ((h.readLengthIndicator 1 oddLi 2).readLengthIndicator e evenLi 1, i) := by
  obtain ⟨hlow, hhigh, hsum, -⟩ := lengthIndicator_parts hodd
  obtain ⟨-, -, -, hthird⟩ := lengthIndicator_parts heven
  obtain ⟨hE, hfirst⟩ := lengthIndicator_first 1 (by decide) _ (and_lt (oddLi >>> 4) 0x7F)
  obtain ⟨hnibble, he, hevenHigh⟩ := lengthIndicator_second (oddLi % 16)
    (Nat.mod_lt _ (by decide)) e hlt _ (and_lt (evenLi >>> 8) 0x07)
  rw [hhigh] at hE hfirst
  rw [deserializeLengthIndicators.eq_2, hlow, hhigh]
  simp only [hE, hfirst, hnibble, hsum, he, hevenHigh, hthird]
  rfl

/-- **The length indicators are read as they were written.** -/
theorem deserializeLengthIndicators_serialize (payload : List UInt8) :
    ∀ (lis : List ℕ) (h : LteRlcAmHeader), lis ≠ [] → (∀ li ∈ lis, li < 2048) →
      deserializeLengthIndicators
        (serializeLengthIndicators (followingBits lis) lis ++ payload) h =
        some (h.readAll lis, payload)
  | [], _, hne, _ => absurd rfl hne
  | [oddLi], h, _, hlt => deserialize_odd (hlt oddLi List.mem_cons_self) payload h
  | [oddLi, evenLi], h, _, hlt => by
    rw [List.forall_mem_cons, List.forall_mem_singleton] at hlt
    refine (deserialize_pair (e := 0) hlt.1 hlt.2 (by decide) payload h).trans ?_
    rw [if_neg (by decide), readAll, readLengthIndicator, readLengthIndicator]
    simp [addLength, octets, followingBits, add_assoc]
  | oddLi :: evenLi :: li :: lis, h, _, hlt => by
    rw [List.forall_mem_cons, List.forall_mem_cons] at hlt
    refine (deserialize_pair (e := 1) hlt.1 hlt.2.1 (by decide) _ h).trans ?_
    rw [if_pos rfl, ← readAll_pair]
    exact deserializeLengthIndicators_serialize payload (li :: lis) _ (List.cons_ne_nil _ _) hlt.2.2

/-! ## The data PDUs -/

theorem octets_eq : ∀ lis : List ℕ, octets lis = 3 * (lis.length / 2) + 2 * (lis.length % 2)
  | [] => rfl
  | [_] => by simp [octets]
  | _ :: _ :: lis => by
    rw [octets, octets_eq lis, List.length_cons, List.length_cons]
    omega

theorem octets_concat (lis : List ℕ) (li : ℕ) :
    octets (lis ++ [li]) = octets lis + if (lis.length + 1) % 2 = 0 then 1 else 2 := by
  rw [octets_eq, octets_eq, List.length_append, List.length_singleton]
  split_ifs <;> omega

theorem length_serializeLengthIndicators : ∀ lis : List ℕ,
    (serializeLengthIndicators (followingBits lis) lis).length = octets lis
  | [] => rfl
  | [_] => rfl
  | [_, _] => rfl
  | _ :: _ :: li :: lis => by
    rw [followingBits, followingBits, serializeLengthIndicators, List.length_cons, List.length_cons,
      List.length_cons, length_serializeLengthIndicators (li :: lis)]
    exact Nat.add_comm _ 3

theorem replicate_bits : ∀ lis : List ℕ, List.replicate lis.length E_LI_FIELDS_FOLLOWS ++
    [DATA_FIELD_FOLLOWS] = (if lis = [] then 0 else 1) :: followingBits lis
  | [] => rfl
  | [_] => rfl
  | _ :: li :: lis => by
    have := replicate_bits (li :: lis)
    rw [if_neg (List.cons_ne_nil _ _)] at this
    rw [List.length_cons, List.replicate_succ, List.cons_append, this,
      if_neg (List.cons_ne_nil _ _)]
    rfl

theorem foldl_pushLengthIndicator (h : LteRlcAmHeader) (hext : h.m_extensionBits = [])
    (hli : h.m_lengthIndicators = []) (hlen : h.m_headerLength = 4) (lis : List ℕ) (e : ℕ) :
    (lis.foldl (fun h li ↦ (h.pushExtensionBit E_LI_FIELDS_FOLLOWS).pushLengthIndicator li)
      h).pushExtensionBit e =
      { h with
        m_headerLength := (4 + octets lis) % 65536
        m_extensionBits := List.replicate lis.length E_LI_FIELDS_FOLLOWS ++ [e]
        m_lengthIndicators := lis } := by
  induction lis using List.reverseRecOn generalizing e with
  | nil =>
    cases h
    subst hext hli hlen
    simp [pushExtensionBit, octets]
  | append_singleton lis li ih =>
    rw [List.foldl_append, List.foldl_cons, List.foldl_nil, ih, octets_concat]
    simp only [pushLengthIndicator, pushExtensionBit, addLength, List.length_append,
      List.length_replicate, List.length_singleton, Nat.mod_add_mod, List.replicate_succ']
    have hparity : (if (lis.length + 1 + 1) % 2 = 1 then 1 else 2) =
        if (lis.length + 1) % 2 = 0 then 1 else 2 := by
      split_ifs <;> omega
    rw [if_pos (by omega), hparity, add_assoc]

theorem dataHeader_eq (g rf p fi sn lsf so : ℕ) (lis : List ℕ) :
    dataHeader g rf p fi sn lsf so lis =
      { create g with
        m_dataControlBit := DATA_PDU
        m_resegmentationFlag := rf &&& 0x01
        m_pollingBit := p &&& 0x01
        m_framingInfo := fi &&& 0x03
        m_sequenceNumber := sn % 1024
        m_lastSegmentFlag := lsf &&& 0x01
        m_segmentOffset := so &&& 0x7FFF
        m_headerLength := (4 + octets lis) % 65536
        m_extensionBits := List.replicate lis.length E_LI_FIELDS_FOLLOWS ++ [DATA_FIELD_FOLLOWS]
        m_lengthIndicators := lis } :=
  foldl_pushLengthIndicator _ rfl rfl rfl lis DATA_FIELD_FOLLOWS

/-- The fields of the first octet of a data PDU. -/
def FirstOctet (b rf p fi e c : ℕ) : Prop :=
  (b &&& 0x80) >>> 7 = DATA_PDU ∧ (b &&& 0x40) >>> 6 = rf ∧ (b &&& 0x20) >>> 5 = p ∧
    (b &&& 0x18) >>> 3 = fi ∧ (b &&& 0x04) >>> 2 = e ∧ b &&& 0x03 = c

instance (b rf p fi e c : ℕ) : Decidable (FirstOctet b rf p fi e c) :=
  inferInstanceAs (Decidable (_ ∧ _))

theorem data_first : ∀ rf < 2, ∀ p < 2, ∀ fi < 4, ∀ e < 2, ∀ c < 4,
    FirstOctet (octet ((DATA_PDU <<< 7 &&& 0x80) ||| (rf <<< 6 &&& 0x40) ||| (p <<< 5 &&& 0x20) |||
      (fi <<< 3 &&& 0x18) ||| (e <<< 2 &&& 0x04) ||| c)).toNat rf p fi e c := by
  simp only [toNat_octet]
  decide

theorem data_sequenceNumber {sn : ℕ} (h : sn < 1024) :
    ((sn >>> 8 &&& 0x0003) <<< 8) ||| (octet (sn &&& 0x00FF)).toNat = sn := by
  rw [show sn >>> 8 &&& 0x0003 = sn >>> 8 from shiftRight_and_mask (i := 2) h, toNat_octet_and]
  exact shiftRight_shiftLeft_or sn 8

theorem data_third : ∀ lsf < 2, ∀ c < 128,
    ((octet ((lsf <<< 7 &&& 0x80) ||| c)).toNat &&& 0x80) >>> 7 = lsf ∧
      (octet ((lsf <<< 7 &&& 0x80) ||| c)).toNat &&& 0x7F = c := by
  simp only [toNat_octet]
  decide

/-- The segment offset that is read for `so`. -/
def readOffset (so : ℕ) : ℕ := (so >>> 8 &&& 0x007F) ||| (so &&& 0x00FF)

theorem readOffset_eq_iff {n : ℕ} : readOffset n = n ↔ n < 256 := by
  rw [readOffset]
  constructor
  · intro heq
    rw [← heq]
    exact Nat.or_lt_two_pow (n := 8) ((and_lt _ 0x7F).trans (by decide)) (and_lt _ 0xFF)
  · intro hlt
    rw [Nat.shiftRight_eq_div_pow, Nat.div_eq_of_lt hlt, Nat.zero_and, Nat.zero_or,
      show 0x00FF = 2 ^ 8 - 1 from rfl, Nat.and_two_pow_sub_one_eq_mod, Nat.mod_eq_of_lt hlt]

theorem serialize_dataHeader (g rf p fi sn lsf so : ℕ) (lis : List ℕ) :
    (dataHeader g rf p fi sn lsf so lis).serialize =
      octet ((DATA_PDU <<< 7 &&& 0x80) ||| ((rf &&& 0x01) <<< 6 &&& 0x40) |||
        ((p &&& 0x01) <<< 5 &&& 0x20) ||| ((fi &&& 0x03) <<< 3 &&& 0x18) |||
        ((if lis = [] then 0 else 1) <<< 2 &&& 0x04) ||| ((sn % 1024) >>> 8 &&& 0x0003)) ::
      octet (sn % 1024 &&& 0x00FF) ::
      octet (((lsf &&& 0x01) <<< 7 &&& 0x80) ||| ((so &&& 0x7FFF) >>> 8 &&& 0x007F)) ::
      octet ((so &&& 0x7FFF) &&& 0x00FF) ::
      serializeLengthIndicators (followingBits lis) lis := by
  rw [dataHeader_eq]
  unfold serialize
  dsimp only
  rw [if_pos rfl, replicate_bits, List.headD_cons, List.tail_cons]

theorem deserialize_fixed {byte_1 byte_2 byte_3 byte_4 : UInt8} {rf p fi e c sn lsf so : ℕ}
    (h₁ : FirstOctet byte_1.toNat rf p fi e c) (hsn : (c <<< 8) ||| byte_2.toNat = sn)
    (hlsf : (byte_3.toNat &&& 0x80) >>> 7 = lsf)
    (hso : (byte_3.toNat &&& 0x7F) ||| byte_4.toNat = so) (i : List UInt8) (h : LteRlcAmHeader) :
    deserialize (byte_1 :: byte_2 :: byte_3 :: byte_4 :: i) h =
      let h' := readFixed { h with m_headerLength := 1, m_dataControlBit := DATA_PDU }
        rf p fi sn lsf so e
      if e = DATA_FIELD_FOLLOWS then some (h', i)
      else (deserializeLengthIndicators i h').map fun r ↦
        if r.1.m_resegmentationFlag = SEGMENT then
          ({ r.1 with
            m_lastOffset := r.1.lastOffset (byte_1 :: byte_2 :: byte_3 :: byte_4 :: i).length }, r.2)
        else r := by
  obtain ⟨hdata, rfl, rfl, rfl, rfl, rfl⟩ := h₁
  subst hsn hlsf hso
  unfold deserialize
  dsimp only
  rw [if_pos hdata, hdata]
  unfold deserializeData
  dsimp only

/-- The data PDU that is read, where the segment offset is not that of the one written. -/
def readData (h : LteRlcAmHeader) (lastOffset : ℕ) : LteRlcAmHeader :=
  { h with m_segmentOffset := readOffset h.m_segmentOffset, m_lastOffset := lastOffset }

theorem readFixed_dataHeader (g g' rf p fi sn lsf so : ℕ) :
    readFixed { create g' with m_headerLength := 1, m_dataControlBit := DATA_PDU } (rf &&& 0x01)
      (p &&& 0x01) (fi &&& 0x03) (sn % 1024) (lsf &&& 0x01) (readOffset (so &&& 0x7FFF)) 0 =
      (dataHeader g rf p fi sn lsf so []).readData 0xffff := by
  rw [dataHeader_eq]
  unfold readFixed readData addLength create
  dsimp only
  rw [Nat.mod_mod]
  simp [octets, DATA_FIELD_FOLLOWS]

theorem readAll_dataHeader (g g' rf p fi sn lsf so : ℕ) {lis : List ℕ} (hne : lis ≠ []) :
    (readFixed { create g' with m_headerLength := 1, m_dataControlBit := DATA_PDU } (rf &&& 0x01)
      (p &&& 0x01) (fi &&& 0x03) (sn % 1024) (lsf &&& 0x01) (readOffset (so &&& 0x7FFF)) 1).readAll
      lis = (dataHeader g rf p fi sn lsf so lis).readData 0xffff := by
  rw [dataHeader_eq]
  unfold readFixed readData readAll addLength create
  dsimp only
  rw [Nat.mod_mod, replicate_bits, if_neg hne, Nat.mod_add_mod]
  rfl

/-- **Reading a data PDU.** -/
theorem deserialize_data (g g' rf p fi sn lsf so : ℕ) {lis : List ℕ} (hlt : ∀ li ∈ lis, li < 2048)
    (payload : List UInt8) : ∃ lastOffset,
      deserialize ((dataHeader g rf p fi sn lsf so lis).serialize ++ payload) (create g') =
        some ((dataHeader g rf p fi sn lsf so lis).readData lastOffset, payload) := by
  have hfirst := data_first (rf &&& 0x01) (and_lt rf 0x01) (p &&& 0x01) (and_lt p 0x01) (fi &&& 0x03)
    (and_lt fi 0x03) (if lis = [] then 0 else 1) (by split_ifs <;> decide) _
    (and_lt ((sn % 1024) >>> 8) 0x0003)
  obtain ⟨hlsf, hhigh⟩ := data_third (lsf &&& 0x01) (and_lt lsf 0x01) _
    (and_lt ((so &&& 0x7FFF) >>> 8) 0x007F)
  have hso : (so &&& 0x7FFF) >>> 8 &&& 0x007F ||| (octet ((so &&& 0x7FFF) &&& 0x00FF)).toNat =
      readOffset (so &&& 0x7FFF) := by
    rw [readOffset, toNat_octet, Nat.mod_eq_of_lt (and_lt (so &&& 0x7FFF) 0x00FF)]
  rw [← hhigh] at hso
  rw [serialize_dataHeader]
  simp only [List.cons_append]
  rw [deserialize_fixed hfirst (data_sequenceNumber (Nat.mod_lt _ (by decide))) hlsf hso]
  by_cases hlis : lis = []
  · subst hlis
    rw [if_pos rfl]
    dsimp only
    rw [if_pos (show 0 = DATA_FIELD_FOLLOWS from rfl), readFixed_dataHeader g]
    exact ⟨_, rfl⟩
  · rw [if_neg hlis]
    dsimp only
    rw [if_neg (by decide), deserializeLengthIndicators_serialize payload lis _ hlis hlt,
      readAll_dataHeader g _ _ _ _ _ _ _ hlis, Option.map_some]
    split_ifs
    · exact ⟨_, rfl⟩
    · exact ⟨_, rfl⟩

/-! ## The STATUS PDUs -/

theorem foldl_pushNack (h : LteRlcAmHeader) (hnacks : h.m_nackSnList = [])
    (hlen : h.m_headerLength = 2) (nacks : List ℕ) : nacks.foldl pushNack h =
      { h with m_headerLength := (2 + octets nacks) % 65536, m_nackSnList := nacks } := by
  induction nacks using List.reverseRecOn with
  | nil =>
    cases h
    subst hnacks hlen
    simp [octets]
  | append_singleton nacks nack ih =>
    rw [List.foldl_append, List.foldl_cons, List.foldl_nil, ih, octets_concat]
    simp only [pushNack, addLength, List.length_append, List.length_singleton, Nat.mod_add_mod]
    rw [add_assoc]

theorem statusHeader_eq (g ackSn : ℕ) (nacks : List ℕ) : statusHeader g ackSn nacks =
    { create g with
      m_dataControlBit := CONTROL_PDU
      m_controlPduType := STATUS_PDU
      m_headerLength := (2 + octets nacks) % 65536
      m_ackSn := ackSn % 1024
      m_nackSnList := nacks } :=
  foldl_pushNack _ rfl rfl nacks

/-- What is written of the NACKs behind the first octets of `evenNack`. -/
def serializeEvenNack (evenNack : ℕ) : List ℕ → List UInt8
  | [] => [octet (evenNack <<< 3 &&& 0xF8)]
  | oddNack :: nacks =>
    octet ((evenNack <<< 3 &&& 0xF8) ||| 0x04 ||| (oddNack >>> 9 &&& 0x01)) ::
      serializeNacks (oddNack :: nacks)

theorem serializeNacks_pair (oddNack evenNack : ℕ) (nacks : List ℕ) :
    serializeNacks (oddNack :: evenNack :: nacks) = octet (oddNack >>> 1 &&& 0xFF) ::
      octet ((oddNack <<< 7 &&& 0x80) ||| 0x40 ||| (evenNack >>> 5 &&& 0x1F)) ::
      serializeEvenNack evenNack nacks := by
  cases nacks with
  | nil => rw [serializeNacks, serializeEvenNack]
  | cons nack nacks => rw [serializeNacks, serializeEvenNack]

theorem length_serializeNacks : ∀ nacks : List ℕ, (serializeNacks nacks).length = octets nacks
  | [] => rfl
  | [_] => rfl
  | [_, _] => rfl
  | _ :: _ :: nack :: nacks => by
    rw [serializeNacks, List.length_cons, List.length_cons, List.length_cons,
      length_serializeNacks (nack :: nacks), octets.eq_3]
    exact Nat.add_comm _ 3

/-- The header after the loop has read NACKs in `n` octets. -/
def readNacks (h : LteRlcAmHeader) (nacks : List ℕ) (n : ℕ) : LteRlcAmHeader :=
  { h.addLength n with m_nackSnList := h.m_nackSnList ++ nacks }

theorem deserialize_evenNack {evenNack a : ℕ} (heven : evenNack < 1024) (ha : a < 2)
    (i : List UInt8) (h : LteRlcAmHeader) :
    deserializeNacks (octet ((a <<< 7) ||| 0x40 ||| (evenNack >>> 5 &&& 0x1F))).toNat
      (octet (evenNack <<< 3 &&& 0xF8) :: i) h = some ((h.readNack evenNack).addLength 1, i) := by
  obtain ⟨-, hlow, -, hsum⟩ := nack_parts heven
  obtain ⟨-, -, hhigh⟩ := nack_odd_even a ha _ (and_lt (evenNack >>> 5) 0x1F)
  obtain ⟨hlast, hmore⟩ := nack_even_last (evenNack % 32) (Nat.mod_lt _ (by decide))
  rw [hlow]
  unfold deserializeNacks
  simp only [hhigh, hlast, hsum, hmore]
  rfl

theorem deserialize_evenNack_odd {evenNack oddNack a : ℕ} {finalByte : UInt8}
    (heven : evenNack < 1024) (hodd : oddNack < 1024) (ha : a < 2)
    (hfinal : (finalByte.toNat &&& 0x80) >>> 7 = oddNack % 2) (i : List UInt8) (h : LteRlcAmHeader) :
    deserializeNacks (octet ((a <<< 7) ||| 0x40 ||| (evenNack >>> 5 &&& 0x1F))).toNat
      (octet ((evenNack <<< 3 &&& 0xF8) ||| 0x04 ||| (oddNack >>> 9 &&& 0x01)) ::
        octet (oddNack >>> 1 &&& 0xFF) :: finalByte :: i) h =
      let h' := ((h.readNack evenNack).readNack oddNack).addLength 3
      if (finalByte.toNat &&& 0x40) >>> 6 = 1 then deserializeNacks finalByte.toNat i h'
      else some (h', i) := by
  obtain ⟨-, hlow, -, hsum⟩ := nack_parts heven
  obtain ⟨-, -, hsumOdd, -⟩ := nack_parts hodd
  obtain ⟨-, -, hhigh⟩ := nack_odd_even a ha _ (and_lt (evenNack >>> 5) 0x1F)
  obtain ⟨hlast, hmore, hbit⟩ := nack_even_odd (evenNack % 32) (Nat.mod_lt _ (by decide)) _
    (and_lt (oddNack >>> 9) 0x01)
  rw [hlow, deserializeNacks.eq_def]
  simp only [hhigh, hlast, hsum, hmore, hbit, hfinal, hsumOdd, if_true]

/-- **The NACKs are read as they were written.** -/
theorem deserializeNacks_serialize (payload : List UInt8) :
    ∀ (nacks : List ℕ) (evenNack a : ℕ) (h : LteRlcAmHeader), evenNack < 1024 → a < 2 →
      (∀ nack ∈ nacks, nack < 1024) →
      deserializeNacks (octet ((a <<< 7) ||| 0x40 ||| (evenNack >>> 5 &&& 0x1F))).toNat
        (serializeEvenNack evenNack nacks ++ payload) h =
        some (h.readNacks (evenNack :: nacks) (1 + octets nacks), payload)
  | [], _, _, h, heven, ha, _ => deserialize_evenNack heven ha payload h
  | [oddNack], evenNack, a, h, heven, ha, hlt => by
    have hodd := hlt oddNack List.mem_cons_self
    obtain ⟨hbit, hmore⟩ := nack_odd_last (oddNack % 2) (Nat.mod_lt _ (by decide))
    rw [← (nack_parts hodd).1] at hbit hmore
    refine (deserialize_evenNack_odd heven hodd ha hbit payload h).trans ?_
    dsimp only
    rw [hmore, if_neg (by decide)]
    simp [readNack, readNacks, addLength, octets]
  | oddNack :: evenNack' :: nacks, evenNack, a, h, heven, ha, hlt => by
    rw [List.forall_mem_cons, List.forall_mem_cons] at hlt
    have htwo : oddNack % 2 < 2 := Nat.mod_lt _ (by decide)
    obtain ⟨hbit, hmore, -⟩ := nack_odd_even (oddNack % 2) htwo _ (and_lt (evenNack' >>> 5) 0x1F)
    rw [serializeEvenNack, serializeNacks_pair, (nack_parts hlt.1).1]
    refine (deserialize_evenNack_odd heven hlt.1 ha hbit
      (serializeEvenNack evenNack' nacks ++ payload) h).trans ?_
    dsimp only
    rw [hmore, if_pos rfl,
      deserializeNacks_serialize payload nacks evenNack' _ _ hlt.2.1 htwo hlt.2.2]
    simp only [readNack, readNacks, addLength, octets.eq_3, List.append_assoc, List.cons_append,
      List.nil_append, Nat.mod_add_mod]
    rw [add_assoc, ← add_assoc 3, ← add_assoc 1, add_comm 3 1]

theorem control_first : ∀ c < 16,
    ((octet ((CONTROL_PDU <<< 7 &&& 0x80) ||| (STATUS_PDU <<< 4 &&& 0x70) ||| c)).toNat &&& 0x80) >>> 7
        = CONTROL_PDU ∧
      ((octet ((CONTROL_PDU <<< 7 &&& 0x80) ||| (STATUS_PDU <<< 4 &&& 0x70) ||| c)).toNat &&& 0x70)
        >>> 4 = STATUS_PDU ∧
      (octet ((CONTROL_PDU <<< 7 &&& 0x80) ||| (STATUS_PDU <<< 4 &&& 0x70) ||| c)).toNat &&& 0x0F
        = c := by
  simp only [toNat_octet]
  decide

theorem control_second : ∀ a < 64, ((octet (a <<< 2)).toNat &&& 0xFC) >>> 2 = a ∧
    ((octet (a <<< 2)).toNat &&& 0x02) >>> 1 = 0 := by
  simp only [toNat_octet]
  decide

theorem control_second_nack : ∀ a < 64, ∀ c < 2,
    ((octet ((a <<< 2) ||| 0x02 ||| c)).toNat &&& 0xFC) >>> 2 = a ∧
      ((octet ((a <<< 2) ||| 0x02 ||| c)).toNat &&& 0x02) >>> 1 = 1 ∧
      (octet ((a <<< 2) ||| 0x02 ||| c)).toNat &&& 0x01 = c := by
  simp only [toNat_octet]
  decide

theorem ackSn_parts {ackSn : ℕ} (h : ackSn < 1024) : ackSn <<< 2 &&& 0xFC = (ackSn % 64) <<< 2 ∧
    ackSn >>> 6 &&& 0x0F = ackSn >>> 6 ∧ (ackSn >>> 6 <<< 6) ||| ackSn % 64 = ackSn :=
  ⟨shiftLeft_and_mask ackSn 2 6, shiftRight_and_mask (i := 4) h, shiftRight_shiftLeft_or ackSn 6⟩

/-- The STATUS PDU that is read, which has the flag that the reader found. -/
def readStatus (h : LteRlcAmHeader) (lastSegmentFlag : ℕ) : LteRlcAmHeader :=
  { h with m_lastSegmentFlag := lastSegmentFlag }

theorem deserialize_control {byte_1 byte_2 : UInt8} {n a : ℕ}
    (hcontrol : (byte_1.toNat &&& 0x80) >>> 7 = CONTROL_PDU)
    (htype : (byte_1.toNat &&& 0x70) >>> 4 = STATUS_PDU)
    (hsn : ((byte_1.toNat &&& 0x0F) <<< 6) ||| ((byte_2.toNat &&& 0xFC) >>> 2) = n)
    (hmore : (byte_2.toNat &&& 0x02) >>> 1 = a) (i : List UInt8) (h : LteRlcAmHeader) :
    deserialize (byte_1 :: byte_2 :: i) h =
      let h' := { h with
        m_headerLength := 1
        m_dataControlBit := CONTROL_PDU
        m_controlPduType := STATUS_PDU
        m_ackSn := n % 1024 }
      if a = 1 then
        match i with
        | byte_3 :: byte_4 :: i' =>
          let h'' := { h' with m_headerLength := 4 }.readNack (((byte_2.toNat &&& 0x01) <<< 9) |||
            (byte_3.toNat <<< 1) ||| ((byte_4.toNat &&& 0x80) >>> 7))
          if (byte_4.toNat &&& 0x40) >>> 6 = 1 then deserializeNacks byte_4.toNat i' h''
          else some (h'', i')
        | _ => none
      else some (h'.addLength 1, i) := by
  unfold deserialize
  dsimp only
  rw [if_neg (by rw [hcontrol]; decide), hcontrol]
  unfold deserializeControl
  dsimp only
  rw [htype, hsn, hmore]

/-- **Reading a STATUS PDU.** -/
theorem deserialize_status (g g' ackSn : ℕ) (nacks : List ℕ) (hlt : ∀ nack ∈ nacks, nack < 1024)
    (payload : List UInt8) :
    deserialize ((statusHeader g ackSn nacks).serialize ++ payload) (create g') =
      some ((statusHeader g ackSn nacks).readStatus g', payload) := by
  have hack : ackSn % 1024 < 1024 := Nat.mod_lt _ (by decide)
  obtain ⟨hlow, hhigh, hsum⟩ := ackSn_parts hack
  have h16 : (ackSn % 1024) >>> 6 < 16 := by
    rw [← hhigh]
    exact and_lt _ 0x0F
  have h64 : ackSn % 1024 % 64 < 64 := Nat.mod_lt _ (by decide)
  obtain ⟨hcontrol, htype, hfirst⟩ := control_first _ h16
  rw [statusHeader_eq]
  unfold serialize
  dsimp only
  rw [if_neg (by decide), hlow, hhigh]
  match nacks, hlt with
  | [], _ =>
    obtain ⟨hsecond, hmore⟩ := control_second _ h64
    rw [List.cons_append, List.cons_append]
    refine (deserialize_control (n := ackSn % 1024) hcontrol htype
      (by rw [hfirst, hsecond, hsum]) hmore _ _).trans ?_
    dsimp only
    rw [if_neg (by decide), Nat.mod_mod]
    rfl
  | [nack], hlt =>
    obtain ⟨hlowN, -, hsumN, -⟩ := nack_parts (hlt nack List.mem_cons_self)
    obtain ⟨hsecond, hmore, hbit⟩ := control_second_nack _ h64 _ (and_lt (nack >>> 9) 0x01)
    obtain ⟨hlast, hend⟩ := nack_odd_last (nack % 2) (Nat.mod_lt _ (by decide))
    dsimp only [serializeNacks]
    rw [hlowN, List.cons_append, List.cons_append, List.cons_append, List.cons_append]
    refine (deserialize_control (n := ackSn % 1024) hcontrol htype
      (by rw [hfirst, hsecond, hsum]) hmore _ _).trans ?_
    dsimp only
    rw [if_pos rfl, hend, if_neg (by decide), hbit, hlast, hsumN, Nat.mod_mod]
    rfl
  | nack :: evenNack :: nacks, hlt =>
    rw [List.forall_mem_cons, List.forall_mem_cons] at hlt
    have htwo : nack % 2 < 2 := Nat.mod_lt _ (by decide)
    obtain ⟨hlowN, -, hsumN, -⟩ := nack_parts hlt.1
    obtain ⟨hsecond, hmore, hbit⟩ := control_second_nack _ h64 _ (and_lt (nack >>> 9) 0x01)
    obtain ⟨hlast, hend, -⟩ := nack_odd_even (nack % 2) htwo _ (and_lt (evenNack >>> 5) 0x1F)
    dsimp only
    rw [serializeNacks_pair, hlowN, List.cons_append, List.cons_append, List.cons_append,
      List.cons_append]
    refine (deserialize_control (n := ackSn % 1024) hcontrol htype
      (by rw [hfirst, hsecond, hsum]) hmore _ _).trans ?_
    dsimp only
    rw [if_pos rfl, hend, if_pos rfl, hbit, hlast, hsumN, Nat.mod_mod,
      deserializeNacks_serialize payload nacks evenNack _ _ hlt.2.1 htwo hlt.2.2]
    unfold readNack readNacks addLength readStatus create
    dsimp only
    rw [octets.eq_3, ← add_assoc 4, ← add_assoc 2]
    rfl

/-! ## Round trips -/

theorem length_serialize_dataHeader (g rf p fi sn lsf so : ℕ) (lis : List ℕ) :
    (dataHeader g rf p fi sn lsf so lis).serialize.length = 4 + octets lis := by
  rw [serialize_dataHeader, List.length_cons, List.length_cons, List.length_cons, List.length_cons,
    length_serializeLengthIndicators]
  exact Nat.add_comm _ 4

theorem length_serialize_statusHeader (g ackSn : ℕ) (nacks : List ℕ) :
    (statusHeader g ackSn nacks).serialize.length = 2 + octets nacks := by
  rw [statusHeader_eq]
  unfold serialize
  dsimp only
  rw [if_neg (by decide)]
  cases nacks with
  | nil => rfl
  | cons nack nacks =>
    dsimp only
    rw [List.length_cons, List.length_cons, length_serializeNacks]
    exact Nat.add_comm _ 2

/-- What is sent of a header. The end of a segment is worked out by the reader, and a STATUS PDU has no
last segment flag. -/
def transmitted (h : LteRlcAmHeader) : LteRlcAmHeader :=
  { h with
    m_lastOffset := 0
    m_lastSegmentFlag := if h.m_dataControlBit = DATA_PDU then h.m_lastSegmentFlag else 0 }

/-- As many octets are written as were counted, and a fresh header reads them, and no more of the
packet, and then has the fields and the lists of the one that was written. -/
def RoundTrips (h : LteRlcAmHeader) (lastSegmentFlag : ℕ) (payload : List UInt8) : Prop :=
  h.serialize.length = h.getSerializedSize ∧
    ∃ h', deserialize (h.serialize ++ payload) (create lastSegmentFlag) = some (h', payload) ∧
      h'.getSerializedSize = h.serialize.length ∧ h'.transmitted = h.transmitted

theorem roundTrips_dataHeader (g g' rf p fi sn lsf so : ℕ) {lis : List ℕ}
    (hlt : ∀ li ∈ lis, li < 2048) (payload : List UInt8) :
    RoundTrips (dataHeader g rf p fi sn lsf so lis) g' payload ↔
      so &&& 0x7FFF < 256 ∧ 4 + octets lis < 65536 := by
  obtain ⟨lastOffset, hread⟩ := deserialize_data g g' rf p fi sn lsf so hlt payload
  have hoffset := readOffset_eq_iff (n := so &&& 0x7FFF)
  unfold RoundTrips
  rw [hread, length_serialize_dataHeader]
  rw [dataHeader_eq]
  unfold getSerializedSize
  dsimp only
  constructor
  · rintro ⟨hlen, _, heq, -, hsame⟩
    rw [Option.some.injEq, Prod.mk.injEq] at heq
    rw [← heq.1] at hsame
    refine ⟨hoffset.mp (congrArg m_segmentOffset hsame), ?_⟩
    rw [hlen]
    exact Nat.mod_lt _ (by decide)
  · rintro ⟨hso, hlen⟩
    refine ⟨(Nat.mod_eq_of_lt hlen).symm, _, rfl, Nat.mod_eq_of_lt hlen, ?_⟩
    unfold readData transmitted
    dsimp only
    rw [hoffset.mpr hso]

theorem roundTrips_statusHeader (g g' ackSn : ℕ) {nacks : List ℕ}
    (hlt : ∀ nack ∈ nacks, nack < 1024) (payload : List UInt8) :
    RoundTrips (statusHeader g ackSn nacks) g' payload ↔ 2 + octets nacks < 65536 := by
  unfold RoundTrips
  rw [deserialize_status g g' ackSn nacks hlt, length_serialize_statusHeader]
  rw [statusHeader_eq]
  unfold getSerializedSize
  dsimp only
  constructor
  · rintro ⟨hlen, -⟩
    rw [hlen]
    exact Nat.mod_lt _ (by decide)
  · intro hlen
    exact ⟨(Nat.mod_eq_of_lt hlen).symm, _, rfl, Nat.mod_eq_of_lt hlen, rfl⟩

/-- **Which headers survive the codec.** A data PDU does when its segment offset has one octet, and
any header only when its octets can be counted in 16 bits. -/
theorem amHeader_roundTrips_iff (g g' : ℕ) (payload : List UInt8) :
    (∀ rf p fi sn lsf so (lis : List ℕ), (∀ li ∈ lis, li < 2048) →
      (RoundTrips (dataHeader g rf p fi sn lsf so lis) g' payload ↔
        so &&& 0x7FFF < 256 ∧ 4 + octets lis < 65536)) ∧
    ∀ ackSn (nacks : List ℕ), (∀ nack ∈ nacks, nack < 1024) →
      (RoundTrips (statusHeader g ackSn nacks) g' payload ↔ 2 + octets nacks < 65536) :=
  ⟨fun rf p fi sn lsf so _ hlt ↦ roundTrips_dataHeader g g' rf p fi sn lsf so hlt payload,
    fun ackSn _ hlt ↦ roundTrips_statusHeader g g' ackSn hlt payload⟩

/-- A segment at offset 200 with three length indicators, and a STATUS PDU with three NACKs. -/
theorem amHeader_roundTrips_iff_three :
    RoundTrips (dataHeader 0 1 0 2 1023 1 200 [5, 2047, 300]) 1 [7] ∧
      RoundTrips (statusHeader 0 517 [1023, 0, 700]) 1 [7] :=
  ⟨((amHeader_roundTrips_iff 0 1 [7]).1 1 0 2 1023 1 200 [5, 2047, 300] (by decide)).2 (by decide),
    ((amHeader_roundTrips_iff 0 1 [7]).2 517 [1023, 0, 700] (by decide)).2 (by decide)⟩

/-- A segment at offset 256 is read as one at offset 1. -/
theorem not_roundTrips_of_offset :
    ¬RoundTrips (dataHeader 0 1 0 2 1023 1 256 []) 1 [] ∧
      (deserialize (dataHeader 0 1 0 2 1023 1 256 []).serialize (create 1)).map
        (fun r ↦ r.1.m_segmentOffset) = some 1 := by
  refine ⟨?_, by decide +kernel⟩
  rw [roundTrips_dataHeader 0 1 1 0 2 1023 1 256 (by decide)]
  decide

end LteRlcAmHeader

end Lte

end Ns3
