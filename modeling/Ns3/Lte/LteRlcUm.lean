import Ns3.Lte.LteRlcHeader
import Ns3.Lte.LteRlcTransmission
import Ns3.Library.Machine

/-!
# RLC unacknowledged mode: the transmitting side

An SDU is discarded if the transmission buffer would become larger than its maximum; a PDU is built at
each opportunity of more than the two octets of its header. What a receiver delivers that gets all
PDUs in order is what was sent to its last octet (`sound`), as long as the sum that is compared with the
maximum does not wrap, and no opportunity finds so many small SDUs that the length of the header does.
-/

namespace Ns3

namespace Lte

namespace LteRlcUm

open LteRlcAmHeader (octets)

/-! ## Transmitting -/

/-- The variables of the transmitting side of an `LteRlcUm`. -/
structure Transmitter where
  m_maxTxBufferSize : ℕ
  m_txBuffer : List TxPdu
  m_txBufferSize : ℕ
  m_sequenceNumber : ℕ
  deriving DecidableEq

namespace Transmitter

/-- The constructor, and the attribute `MaxTxBufferSize`. -/
def create (maxTxBufferSize : ℕ) : Transmitter where
  m_maxTxBufferSize := maxTxBufferSize
  m_txBuffer := []
  m_txBufferSize := 0
  m_sequenceNumber := 0

/-- There is room for an SDU. -/
def Accepts (s : Transmitter) (p : List UInt8) : Prop :=
  add32 s.m_txBufferSize p.length ≤ s.m_maxTxBufferSize

instance (s : Transmitter) (p : List UInt8) : Decidable (s.Accepts p) :=
  inferInstanceAs (Decidable (_ ≤ _))

def doTransmitPdcpPdu (s : Transmitter) (p : List UInt8) : Transmitter :=
  if s.Accepts p then
    { s with
      m_txBuffer := s.m_txBuffer ++ [⟨p, .FULL_SDU⟩]
      m_txBufferSize := add32 s.m_txBufferSize p.length }
  else s

/-- `DoNotifyTxOpportunity`, with the PDU that is given to the MAC layer; `none` where the data field
is empty, which is not looked for. -/
def doNotifyTxOpportunity (s : Transmitter) (bytes : ℕ) :
    Option (Transmitter × Option (RlcPdu LteRlcHeader)) :=
  if bytes ≤ 2 then some (s, none)
  else
    match s.m_txBuffer with
    | [] => some (s, none)
    | firstSegment :: m_txBuffer =>
      let r := buildDataField m_txBuffer firstSegment (bytes - 2) 1
        ⟨sub32 s.m_txBufferSize firstSegment.size, [], LteRlcHeader.create⟩
      (framingInfo r.2.dataField).map fun framingInfo ↦
        let rlcHeader := (r.2.rlcHeader.setSequenceNumber s.m_sequenceNumber).setFramingInfo
          framingInfo
        ({ s with
          m_txBuffer := r.1
          m_txBufferSize := r.2.m_txBufferSize
          m_sequenceNumber := (s.m_sequenceNumber + 1) % 1024 },
          some ⟨rlcHeader, r.2.dataField,
            addHeader rlcHeader.getSerializedSize rlcHeader.serialize (octetsOf r.2.dataField)⟩)

end Transmitter

/-! ## Reassembling -/

def reassembleAndDeliver (s : Reassembler) (packet : List UInt8) :
    Option (Reassembler × List (List UInt8)) := do
  let rlcHeader ← LteRlcHeader.deserialize packet LteRlcHeader.create
  s.reassembleAndDeliver true rlcHeader.m_framingInfo rlcHeader.m_sequenceNumber
    rlcHeader.m_extensionBits rlcHeader.m_lengthIndicators
    (packet.drop rlcHeader.getSerializedSize)

theorem octets_lengthIndicators (pieces : List TxPdu) :
    octets (lengthIndicators pieces) = liSizes 1 (lengthIndicators pieces).length := by
  rw [LteRlcAmHeader.octets_eq, liSizes, if_pos rfl]
  omega

theorem reassembleAndDeliver_packet {pieces : List TxPdu} {fi sn : ℕ}
    (hlt : ∀ li ∈ lengthIndicators pieces, li < 2048) (hfi : fi < 4) (hsn : sn < 1024)
    (hlength : 2 + octets (lengthIndicators pieces) < 65536) (s : Reassembler) :
    reassembleAndDeliver s
        ((LteRlcHeader.dataHeader fi sn (lengthIndicators pieces)).serialize ++ octetsOf pieces) =
      s.reassembleAndDeliver true fi sn
        (List.replicate (lengthIndicators pieces).length 1 ++ [0]) (lengthIndicators pieces)
        (octetsOf pieces) := by
  have hdrop : ((LteRlcHeader.dataHeader fi sn (lengthIndicators pieces)).serialize ++
      octetsOf pieces).drop (2 + octets (lengthIndicators pieces)) = octetsOf pieces :=
    List.drop_left' (LteRlcHeader.length_serialize_dataHeader fi sn (lengthIndicators pieces))
  rw [reassembleAndDeliver, LteRlcHeader.deserialize_dataHeader fi sn hlt, Option.bind_eq_bind,
    Option.bind_some]
  rw [LteRlcHeader.dataHeader_eq, Nat.mod_eq_of_lt hlength] at hdrop ⊢
  unfold LteRlcHeader.getSerializedSize
  dsimp only
  rw [hdrop, Nat.mod_eq_of_lt hsn,
    show fi &&& 0x03 = fi % 4 from LteRlcAmHeader.and_mask fi 2, Nat.mod_eq_of_lt hfi]

/-! ## Framing -/

/-- The transmitting side, with the SDUs that it has accepted and the PDUs that it has built, each for
an opportunity of some octets. -/
structure Framing where
  rlc : Transmitter
  accepted : List (List UInt8)
  pdus : List (ℕ × RlcPdu LteRlcHeader)
  deriving DecidableEq

inductive Op
  | transmitPdcpPdu (p : List UInt8)
  | notifyTxOpportunity (bytes : ℕ)
  deriving DecidableEq

namespace Framing

def create (maxTxBufferSize : ℕ) : Framing where
  rlc := Transmitter.create maxTxBufferSize
  accepted := []
  pdus := []

def step (s : Framing) : Op → Option Framing
  | .transmitPdcpPdu p => some
    { s with
      rlc := s.rlc.doTransmitPdcpPdu p
      accepted := if s.rlc.Accepts p then s.accepted ++ [p] else s.accepted }
  | .notifyTxOpportunity bytes => (s.rlc.doNotifyTxOpportunity bytes).map fun r ↦
    { s with
      rlc := r.1
      pdus := s.pdus ++ r.2.toList.map fun pdu ↦ (bytes, pdu) }

/-- The framing of a transmitting side whose transmission buffer has the given maximum. -/
def framing (maxTxBufferSize : ℕ) : Machine Framing Op := ⟨create maxTxBufferSize, step⟩

/-- SDUs have at least one octet, and opportunities at least seven. -/
def Proper : Op → Prop
  | .transmitPdcpPdu p => 0 < p.length ∧ p.length < 2 ^ 32
  | .notifyTxOpportunity bytes => 7 ≤ bytes ∧ bytes < 2 ^ 32

/-- An SDU that is accepted leaves the octets that are queued below `2 ^ 32`, and an opportunity does
not find 43689 SDUs of at most 2047 octets that fit with their length indicators and leave room. -/
def Framable (s : Framing) : Op → Prop
  | .transmitPdcpPdu p => s.rlc.Accepts p → totalSize s.rlc.m_txBuffer + p.length < 2 ^ 32
  | .notifyTxOpportunity bytes => ¬ FitsFollowed s.rlc.m_txBuffer (bytes - 2) 1 43689

instance (o : Op) : Decidable (Proper o) :=
  match o with
  | .transmitPdcpPdu _ => inferInstanceAs (Decidable (_ ∧ _))
  | .notifyTxOpportunity _ => inferInstanceAs (Decidable (_ ∧ _))

instance (s : Framing) (o : Op) : Decidable (Framable s o) :=
  match o with
  | .transmitPdcpPdu p =>
    inferInstanceAs (Decidable (s.rlc.Accepts p → totalSize s.rlc.m_txBuffer + p.length < 2 ^ 32))
  | .notifyTxOpportunity _ => inferInstanceAs (Decidable (¬ _))

/-- Framing is lossless. -/
def Lossless (s : Framing) : Prop :=
  Lte.Lossless LteRlcHeader.m_lengthIndicators LteRlcHeader.serialize reassembleAndDeliver
    s.rlc.m_txBuffer s.rlc.m_txBufferSize s.accepted s.pdus

/-- What carries it through a run. -/
structure Sound (s : Framing) : Prop where
  sound : Lte.Sound LteRlcHeader.m_lengthIndicators LteRlcHeader.serialize reassembleAndDeliver
    s.rlc.m_txBuffer s.rlc.m_txBufferSize s.accepted s.pdus
  sequenceNumber : s.rlc.m_sequenceNumber = s.pdus.length % 1024

theorem sound_create (maxTxBufferSize : ℕ) : Sound (create maxTxBufferSize) where
  sound := Lte.Sound.nil
  sequenceNumber := rfl

variable {s s' : Framing} {maxTxBufferSize : ℕ} {o : Op}

theorem Sound.transmitPdcpPdu (h : Sound s) {p : List UInt8} (hproper : Proper (.transmitPdcpPdu p))
    (hframable : Framable s (.transmitPdcpPdu p)) (hs : step s (.transmitPdcpPdu p) = some s') :
    Sound s' := by
  rw [step, Option.some_inj] at hs
  subst hs
  by_cases haccepts : s.rlc.Accepts p
  · rw [if_pos haccepts, Transmitter.doTransmitPdcpPdu, if_pos haccepts]
    exact ⟨⟨h.sound.wellFormed, h.sound.framed.submit hproper.1 (hframable haccepts),
      h.sound.received⟩, h.sequenceNumber⟩
  · rw [if_neg haccepts, Transmitter.doTransmitPdcpPdu, if_neg haccepts]
    exact h

theorem doNotifyTxOpportunity_cons {rlc : Transmitter} {p : TxPdu} {queue : List TxPdu} {bytes : ℕ}
    (hbuffer : rlc.m_txBuffer = p :: queue) (hpending : ∀ q ∈ p :: queue, q.Pending)
    (hbytes : 2 < bytes) : ∃ fi < 4, framingInfo (cut queue p (bytes - 2) 1).1 = some fi ∧
      rlc.doNotifyTxOpportunity bytes =
        let r := buildDataField queue p (bytes - 2) 1
          ⟨sub32 rlc.m_txBufferSize p.size, [], LteRlcHeader.create⟩
        let pieces := (cut queue p (bytes - 2) 1).1
        let rlcHeader := LteRlcHeader.dataHeader fi rlc.m_sequenceNumber (lengthIndicators pieces)
        some ({ rlc with
          m_txBuffer := r.1
          m_txBufferSize := r.2.m_txBufferSize
          m_sequenceNumber := (rlc.m_sequenceNumber + 1) % 1024 },
          some ⟨rlcHeader, pieces,
            addHeader rlcHeader.getSerializedSize rlcHeader.serialize (octetsOf pieces)⟩) := by
  obtain ⟨fi, hlt, hfi⟩ := Reassembler.framingInfo_lt (cut_ne_nil queue p (bytes - 2) 1)
  rw [List.forall_mem_cons] at hpending
  obtain ⟨-, hfield, hheader⟩ := buildDataField_eq 1
    ⟨sub32 rlc.m_txBufferSize p.size, [], LteRlcHeader.create⟩ (Nat.sub_pos_of_lt hbytes)
    hpending.1.1 fun q hq ↦ (hpending.2 q hq).1
  rw [List.nil_append] at hfield
  refine ⟨fi, hlt, hfi, ?_⟩
  unfold Transmitter.doNotifyTxOpportunity
  rw [if_neg (Nat.not_le.mpr hbytes), hbuffer]
  dsimp only
  rw [hfield, hfi, hheader]
  rfl

/-- **A PDU is built and reassembled.** -/
theorem Sound.notifyTxOpportunity (h : Sound s) {bytes : ℕ}
    (hproper : Proper (.notifyTxOpportunity bytes))
    (hframable : Framable s (.notifyTxOpportunity bytes))
    (hs : step s (.notifyTxOpportunity bytes) = some s') : Sound s' := by
  have hbytes : 2 < bytes := lt_of_lt_of_le (by decide) hproper.1
  have hpending := h.sound.framed.pending
  have hframed := h.sound.framed
  rw [step, Option.map_eq_some_iff] at hs
  obtain ⟨r, hr, rfl⟩ := hs
  cases hbuffer : s.rlc.m_txBuffer with
  | nil =>
    rw [Transmitter.doNotifyTxOpportunity, if_neg (Nat.not_le.mpr hbytes), hbuffer,
      Option.some_inj] at hr
    subst hr
    rw [Option.toList_none, List.map_nil, List.append_nil]
    exact h
  | cons p queue =>
    rw [Framable, hbuffer] at hframable
    rw [hbuffer] at hpending hframed
    obtain ⟨fi, hfi, hframing, hbuild⟩ := doNotifyTxOpportunity_cons hbuffer hpending hbytes
    rw [hbuild, Option.some_inj] at hr
    subst hr
    obtain ⟨hp, hqueue⟩ := List.forall_mem_cons.mp hpending
    have hroom := totalSize_cut queue p 1 (Nat.sub_pos_of_lt hbytes)
    have hdropLast := dropLast_cut (bytes - 2) 1 hp hqueue
    set pieces := (cut queue p (bytes - 2) 1).1 with hpieces
    -- the length of the header fits, since there are not so many length indicators
    have hcount : (lengthIndicators pieces).length < 43689 := by
      by_contra hge
      exact hframable (fitsFollowed_of_le (by decide) (Nat.not_lt.mp hge))
    have hlis : ∀ li ∈ lengthIndicators pieces, li < 2048 := by
      rintro li hli
      obtain ⟨q, hq, rfl⟩ := List.mem_map.mp hli
      exact Nat.lt_succ_of_le (hdropLast q hq).1
    have hlength : 2 + octets (lengthIndicators pieces) < 65536 := by
      rw [LteRlcAmHeader.octets_eq]
      omega
    have hsize : (LteRlcHeader.dataHeader fi s.rlc.m_sequenceNumber
        (lengthIndicators pieces)).serialize.length ≤ (LteRlcHeader.dataHeader fi
          s.rlc.m_sequenceNumber (lengthIndicators pieces)).getSerializedSize := by
      rw [LteRlcHeader.length_serialize_dataHeader, LteRlcHeader.dataHeader_eq]
      exact (Nat.mod_eq_of_lt hlength).ge
    refine ⟨h.sound.concat true ?_ (hframed.build (Nat.sub_pos_of_lt hbytes))
      (cut_ne_nil _ _ _ _) hframing (fun q hq ↦ (hdropLast q hq).2) ?_, ?_⟩
    · refine ⟨?_, ?_, ?_, addHeader_eq hsize _⟩
      · dsimp only
        rw [addHeader_eq hsize, List.length_append, LteRlcHeader.length_serialize_dataHeader,
          octets_lengthIndicators, length_octetsOf]
        omega
      · dsimp only
        rw [LteRlcHeader.dataHeader_eq]
        exact hlis
      · dsimp only
        rw [LteRlcHeader.dataHeader_eq]
        rfl
    · intro r
      dsimp only
      rw [addHeader_eq hsize, ← h.sequenceNumber]
      refine reassembleAndDeliver_packet hlis hfi ?_ hlength r
      rw [h.sequenceNumber]
      exact Nat.mod_lt _ (by decide)
    · dsimp only
      rw [h.sequenceNumber, Option.toList_some, List.map_singleton, List.length_append,
        Nat.mod_add_mod]
      rfl

theorem Sound.step (h : Sound s) (hproper : Proper o) (hframable : Framable s o)
    (hs : step s o = some s') : Sound s' := by
  cases o with
  | transmitPdcpPdu p => exact h.transmitPdcpPdu hproper hframable hs
  | notifyTxOpportunity bytes => exact h.notifyTxOpportunity hproper hframable hs

/-- **Every run of framable steps is lossless.** -/
theorem lossless_of_run {ops : List Op}
    (hr : (framing maxTxBufferSize).Run (fun s o ↦ Proper o ∧ Framable s o) ops s) : s.Lossless :=
  (hr.invariant (I := Sound) (sound_create maxTxBufferSize)
    fun _ _ _ h hok hs ↦ h.step hok.1 hok.2 hs).sound.lossless

end Framing

end LteRlcUm

end Lte

end Ns3
