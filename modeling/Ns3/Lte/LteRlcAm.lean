import Ns3.Lte.LteRlcAmHeader
import Ns3.Lte.LteRlcTransmission
import Ns3.Lte.SequenceNumber10

/-!
# RLC acknowledged mode: the transmitting side

PDUs that were sent are kept, by their sequence numbers, in one of two buffers: that of the transmitted
PDUs, or that of those to be sent again. A STATUS PDU moves PDUs from the first to the second where it
has a NACK, and forgets them where it has not; it goes through the numbers from VT(A) up to its ACK_SN
or VT(S), which are compared relative to VT(A) as it is at that time, and VT(A) moves as long as no NACK
was met. A poll that is not answered moves all PDUs to the second buffer.

An operation is `none` where an assertion fails or what is done is undefined.
-/

namespace Ns3

namespace Lte

namespace LteRlcAm

open LteRlcAmHeader (STATUS_PDU)

def PDU : ℕ := 0

def LAST_PDU_SEGMENT : ℕ := 1

def STATUS_REPORT_NOT_REQUESTED : ℕ := 0

def STATUS_REPORT_IS_REQUESTED : ℕ := 1

def m_windowSize : ℕ := 512

instance : RlcHeader LteRlcAmHeader where
  pushExtensionBit := LteRlcAmHeader.pushExtensionBit
  pushLengthIndicator := LteRlcAmHeader.pushLengthIndicator

/-- The variables of the transmitting side of an `LteRlcAm`; the timer is running or not. -/
structure Transmitter where
  m_txonBuffer : List TxPdu
  m_txonBufferSize : ℕ
  m_retxBuffer : ℕ → Option (List UInt8)
  m_retxBufferSize : ℕ
  m_txedBuffer : ℕ → Option (List UInt8)
  m_txedBufferSize : ℕ
  m_vtA : SequenceNumber10
  m_vtMs : SequenceNumber10
  m_vtS : SequenceNumber10
  m_pollSn : SequenceNumber10
  m_pduWithoutPoll : ℕ
  m_byteWithoutPoll : ℕ
  m_pollPdu : ℕ
  m_pollByte : ℕ
  m_pollRetransmitTimer : Bool
  m_pollRetransmitTimerJustExpired : Bool
  m_txOpportunityForRetxAlwaysBigEnough : Bool

namespace Transmitter

/-- The constructor, and the attribute `TxOpportunityForRetxAlwaysBigEnough`. -/
def create (txOpportunityForRetxAlwaysBigEnough : Bool) : Transmitter where
  m_txonBuffer := []
  m_txonBufferSize := 0
  m_retxBuffer := fun _ ↦ none
  m_retxBufferSize := 0
  m_txedBuffer := fun _ ↦ none
  m_txedBufferSize := 0
  m_vtA := .ofValue 0
  m_vtMs := (SequenceNumber10.ofValue 0).add m_windowSize
  m_vtS := .ofValue 0
  m_pollSn := .ofValue 0
  m_pduWithoutPoll := 0
  m_byteWithoutPoll := 0
  m_pollPdu := 1
  m_pollByte := 50
  m_pollRetransmitTimer := false
  m_pollRetransmitTimerJustExpired := false
  m_txOpportunityForRetxAlwaysBigEnough := txOpportunityForRetxAlwaysBigEnough

def doTransmitPdcpPdu (s : Transmitter) (p : List UInt8) : Transmitter :=
  { s with
    m_txonBuffer := s.m_txonBuffer ++ [⟨p, .FULL_SDU⟩]
    m_txonBufferSize := add32 s.m_txonBufferSize p.length }

/-! ## Moving PDUs between the buffers -/

/-- A PDU is moved back to the buffer of the transmitted PDUs. -/
def moveToTxed (s : Transmitter) (seqNumberValue : ℕ) (packet : List UInt8) : Transmitter :=
  { s with
    m_txedBuffer := Function.update s.m_txedBuffer seqNumberValue (some packet)
    m_txedBufferSize := add32 s.m_txedBufferSize packet.length
    m_retxBufferSize := sub32 s.m_retxBufferSize packet.length
    m_retxBuffer := Function.update s.m_retxBuffer seqNumberValue none }

/-- The transmitted PDU with a number, if there is one, is to be sent again. -/
def moveToRetx (s : Transmitter) (seqNumberValue : ℕ) : Transmitter :=
  match s.m_txedBuffer seqNumberValue with
  | none => s
  | some packet =>
    { s with
      m_retxBuffer := Function.update s.m_retxBuffer seqNumberValue (some packet)
      m_retxBufferSize := add32 s.m_retxBufferSize packet.length
      m_txedBufferSize := sub32 s.m_txedBufferSize packet.length
      m_txedBuffer := Function.update s.m_txedBuffer seqNumberValue none }

/-- An acknowledged PDU is taken out of the buffer of the transmitted PDUs. -/
def ackTxed (s : Transmitter) (seqNumberValue : ℕ) : Option Transmitter :=
  match s.m_txedBuffer seqNumberValue with
  | none => some s
  | some packet =>
    if s.m_retxBuffer seqNumberValue = none then
      some
        { s with
          m_txedBufferSize := sub32 s.m_txedBufferSize packet.length
          m_txedBuffer := Function.update s.m_txedBuffer seqNumberValue none }
    else none

/-- An acknowledged PDU is taken out of the buffer of those to be sent again. -/
def ackRetx (s : Transmitter) (seqNumberValue : ℕ) : Transmitter :=
  match s.m_retxBuffer seqNumberValue with
  | none => s
  | some packet =>
    { s with
      m_retxBufferSize := sub32 s.m_retxBufferSize packet.length
      m_retxBuffer := Function.update s.m_retxBuffer seqNumberValue none }

/-! ## Polling -/

/-- A poll is sent. -/
def poll (s : Transmitter) : Transmitter :=
  { s with
    m_pollRetransmitTimerJustExpired := false
    m_pduWithoutPoll := 0
    m_byteWithoutPoll := 0
    m_pollSn := s.m_vtS.sub 1
    m_pollRetransmitTimer := true }

/-- The window is full, or a poll was not answered. -/
def pollStalled (s : Transmitter) : Option Bool :=
  (s.m_vtS.ge s.m_vtMs).map (· || s.m_pollRetransmitTimerJustExpired)

/-- Whether a header that is sent again polls. -/
def retxPolls (s : Transmitter) (packetSize serializedSize : ℕ) : Option Bool :=
  if s.m_txonBuffer = [] ∧ s.m_retxBufferSize = add32 packetSize serializedSize then some true
  else s.pollStalled

/-- Whether a new PDU polls. -/
def newPolls (s : Transmitter) : Option Bool :=
  if s.m_pollPdu ≤ s.m_pduWithoutPoll ∨ s.m_pollByte ≤ s.m_byteWithoutPoll ∨
      (s.m_txonBuffer = [] ∧ s.m_retxBufferSize = 0) then some true
  else s.pollStalled

/-- The polling bit, and the state after the decision. -/
def pollIf (s : Transmitter) (polls : Bool) : Transmitter × ℕ :=
  if polls then (s.poll, STATUS_REPORT_IS_REQUESTED) else (s, STATUS_REPORT_NOT_REQUESTED)

/-! ## Sending -/

/-- What is given to the MAC layer: a new PDU, or the packet of one that is sent again. -/
inductive Sent
  | new (pdu : RlcPdu LteRlcAmHeader)
  | again (packet : List UInt8)
  deriving DecidableEq

/-- The first PDU to be sent again; `none` if there is none. The loop is over the numbers up to
`VT(S)`. -/
def findRetx (s : Transmitter) : ℕ → SequenceNumber10 → Option (ℕ × List UInt8)
  | 0, _ => none
  | fuel + 1, sn => do
    if ← sn.lt s.m_vtS then
      match s.m_retxBuffer sn.m_value with
      | some packet => return (sn.m_value, packet)
      | none => s.findRetx fuel sn.next
    else none

/-- A PDU is sent again. -/
def retransmit (s : Transmitter) (bytes : ℕ) : Option (Transmitter × Option Sent) := do
  if !(← s.m_vtA.lt s.m_vtS) then none
  else
    let (seqNumberValue, pdu) ← s.findRetx 1024 s.m_vtA
    if pdu.length ≤ bytes ∨ s.m_txOpportunityForRetxAlwaysBigEnough then
      let (rlcAmHeader, _) ← LteRlcAmHeader.deserialize pdu (LteRlcAmHeader.create 0)
      let packet := pdu.drop rlcAmHeader.getSerializedSize
      let (s, pollingBit) :=
        s.pollIf (← s.retxPolls packet.length rlcAmHeader.getSerializedSize)
      let rlcAmHeader := rlcAmHeader.setPollingBit pollingBit
      return (s.moveToTxed seqNumberValue pdu, some (.again
        (addHeader rlcAmHeader.getSerializedSize rlcAmHeader.serialize packet)))
    else return (s, none)

/-- The header of a new PDU, behind the loop over the SDUs. -/
def newHeader (rlcAmHeader : LteRlcAmHeader) (seqNumber framingInfo pollingBit : ℕ) :
    LteRlcAmHeader :=
  (((((rlcAmHeader.setSequenceNumber seqNumber).setResegmentationFlag PDU).setLastSegmentFlag
    LAST_PDU_SEGMENT).setSegmentOffset 0).setFramingInfo framingInfo).setPollingBit pollingBit

/-- A new PDU is built. The data field is not empty. -/
def buildPdu (s : Transmitter) (bytes : ℕ) : Option (Transmitter × Option Sent) :=
  match s.m_txonBuffer with
  | [] => some (s, none)
  | firstSegment :: m_txonBuffer => do
    let r := buildDataField m_txonBuffer firstSegment (bytes - 4) 1
      ⟨sub32 s.m_txonBufferSize firstSegment.size, [], (LteRlcAmHeader.create 0).setDataPdu⟩
    let seqNumber := s.m_vtS
    if !(← seqNumber.lt s.m_vtMs) || !(← seqNumber.ge s.m_vtA) then none
    else
      let framingInfo ← framingInfo r.2.dataField
      let packet := octetsOf r.2.dataField
      let s :=
        { s with
          m_txonBuffer := r.1
          m_txonBufferSize := r.2.m_txBufferSize
          m_vtS := s.m_vtS.next
          m_pduWithoutPoll := add32 s.m_pduWithoutPoll 1
          m_byteWithoutPoll := add32 s.m_byteWithoutPoll packet.length }
      let (s, pollingBit) := s.pollIf (← s.newPolls)
      let rlcAmHeader := newHeader r.2.rlcHeader seqNumber.m_value framingInfo pollingBit
      let packet := addHeader rlcAmHeader.getSerializedSize rlcAmHeader.serialize packet
      return ({ s with
        m_txedBufferSize := add32 s.m_txedBufferSize packet.length
        m_txedBuffer := Function.update s.m_txedBuffer seqNumber.m_value (some packet) },
        some (.new ⟨rlcAmHeader, r.2.dataField, packet⟩))

/-- `DoNotifyTxOpportunity`, where no STATUS PDU is to be sent. -/
def doNotifyTxOpportunity (s : Transmitter) (bytes : ℕ) : Option (Transmitter × Option Sent) := do
  if bytes < 4 then none
  else if 0 < s.m_retxBufferSize then s.retransmit bytes
  else if 0 < s.m_txonBufferSize then
    if bytes < 7 then none
    else if !(← s.m_vtS.le s.m_vtMs) then none
    else if s.m_vtS.m_value = s.m_vtMs.m_value then return (s, none)
    else s.buildPdu bytes
  else return (s, none)

/-! ## STATUS PDUs and timers -/

/-- One turn of the loop over the numbers that a STATUS PDU acknowledges, without moving VT(A).
`IsNackPresent` is for STATUS PDUs only. -/
def acknowledge (s : Transmitter) (rlcAmHeader : LteRlcAmHeader) (seqNumberValue : ℕ) :
    Option Transmitter :=
  let s := { s with
    m_pollRetransmitTimer :=
      s.m_pollRetransmitTimer && decide (seqNumberValue ≠ s.m_pollSn.m_value) }
  if rlcAmHeader.m_controlPduType ≠ STATUS_PDU then none
  else if seqNumberValue ∈ rlcAmHeader.m_nackSnList then
    let s := s.moveToRetx seqNumberValue
    if s.m_retxBuffer seqNumberValue = none then none else some s
  else (s.ackTxed seqNumberValue).map fun s ↦ s.ackRetx seqNumberValue

/-- VT(A) is moved, and all numbers are compared relative to it. -/
def incrementVtA (s : Transmitter) : Transmitter :=
  let m_vtA := s.m_vtA.next.setModulusBase s.m_vtA.next
  { s with
    m_vtA := m_vtA
    m_vtMs := (s.m_vtA.next.add m_windowSize).setModulusBase m_vtA
    m_vtS := s.m_vtS.setModulusBase m_vtA }

/-- The loop of `DoReceivePdu` over the numbers up to ACK_SN and VT(S). -/
def acknowledgeAll (rlcAmHeader : LteRlcAmHeader) : ℕ → Transmitter → SequenceNumber10 →
    SequenceNumber10 → Bool → Option Transmitter
  | 0, _, _, _, _ => none
  | fuel + 1, s, ackSn, sn, incrementVtA => do
    if (← sn.lt ackSn) && (← sn.lt s.m_vtS) then
      let s ← s.acknowledge rlcAmHeader sn.m_value
      if incrementVtA ∧ sn.m_value ∉ rlcAmHeader.m_nackSnList then
        acknowledgeAll rlcAmHeader fuel s.incrementVtA
          (ackSn.setModulusBase s.incrementVtA.m_vtA)
          (sn.setModulusBase s.incrementVtA.m_vtA).next true
      else acknowledgeAll rlcAmHeader fuel s ackSn sn.next false
    else return s

/-- `DoReceivePdu` of a STATUS PDU. -/
def receiveStatusPdu (s : Transmitter) (rlcAmHeader : LteRlcAmHeader) : Option Transmitter :=
  let s := { s with
    m_vtA := s.m_vtA.setModulusBase s.m_vtA
    m_vtS := s.m_vtS.setModulusBase s.m_vtA
    m_vtMs := s.m_vtMs.setModulusBase s.m_vtA }
  acknowledgeAll rlcAmHeader 1025 s
    ((SequenceNumber10.ofValue rlcAmHeader.m_ackSn).setModulusBase s.m_vtA) s.m_vtA true

/-- The loop of `ExpirePollRetransmitTimer`. -/
def moveAllToRetx : ℕ → Transmitter → SequenceNumber10 → Option Transmitter
  | 0, _, _ => none
  | fuel + 1, s, sn => do
    if ← sn.lt s.m_vtS then moveAllToRetx fuel (s.moveToRetx sn.m_value) sn.next else return s

def expirePollRetransmitTimer (s : Transmitter) : Option Transmitter := do
  let s := { s with
    m_pollRetransmitTimer := false
    m_pollRetransmitTimerJustExpired := true }
  if !(← s.m_vtS.le s.m_vtMs) then none
  else if (s.m_txonBufferSize = 0 ∧ s.m_retxBufferSize = 0) ∨ s.m_vtS.m_value = s.m_vtMs.m_value then
    moveAllToRetx 1024 s s.m_vtA
  else return s

end Transmitter

/-! ## Reassembling -/

def reassembleAndDeliver (s : Reassembler) (packet : List UInt8) :
    Option (Reassembler × List (List UInt8)) := do
  let (rlcAmHeader, _) ← LteRlcAmHeader.deserialize packet (LteRlcAmHeader.create 0)
  s.reassembleAndDeliver false rlcAmHeader.m_framingInfo rlcAmHeader.m_sequenceNumber
    rlcAmHeader.m_extensionBits rlcAmHeader.m_lengthIndicators
    (packet.drop rlcAmHeader.getSerializedSize)

end LteRlcAm

end Lte

end Ns3
