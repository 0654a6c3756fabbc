import Ns3.Lte.LteRlcAm
import Ns3.Lte.LteRlcUm

/-!
# Segmentation and framing

In acknowledged mode PDUs are built as in unacknowledged mode, with a fixed part of four octets, and
from a transmission buffer that takes all SDUs; whatever else the entity does leaves that buffer as it
is. Both modes are lossless (`lossless_of_run`), as long as the octets that are queued can be counted in
32 bits and those of a header in 16.
-/

namespace Ns3

namespace Lte

namespace LteRlcAm

open LteRlcAmHeader (octets)

/-! ## Headers of new PDUs -/

/-- The header of a new PDU. -/
def pduHeader (lis : List ℕ) (sn fi p : ℕ) : LteRlcAmHeader :=
  Transmitter.newHeader (pushAll (LteRlcAmHeader.create 0).setDataPdu lis) sn fi p

theorem pduHeader_eq (lis : List ℕ) (sn fi p : ℕ) :
    pduHeader lis sn fi p = LteRlcAmHeader.dataHeader 0 PDU p fi sn LAST_PDU_SEGMENT 0 lis := by
  have h := LteRlcAmHeader.foldl_pushLengthIndicator (LteRlcAmHeader.create 0).setDataPdu rfl rfl rfl
    lis 0
  change pushAll (LteRlcAmHeader.create 0).setDataPdu lis = _ at h
  rw [pduHeader, h, LteRlcAmHeader.dataHeader_eq]
  rfl

theorem length_serialize_pduHeader (lis : List ℕ) (sn fi p : ℕ) :
    (pduHeader lis sn fi p).serialize.length = 4 + octets lis := by
  rw [pduHeader_eq, LteRlcAmHeader.serialize_dataHeader, List.length_cons, List.length_cons,
    List.length_cons, List.length_cons, LteRlcAmHeader.length_serializeLengthIndicators]
  exact Nat.add_comm _ 4

theorem getSerializedSize_pduHeader {lis : List ℕ} (h : 4 + octets lis < 65536) (sn fi p : ℕ) :
    (pduHeader lis sn fi p).getSerializedSize = 4 + octets lis := by
  rw [pduHeader_eq, LteRlcAmHeader.dataHeader_eq]
  exact Nat.mod_eq_of_lt h

theorem deserialize_pduHeader {lis : List ℕ} (hlt : ∀ li ∈ lis, li < 2048) (sn fi p : ℕ)
    (payload : List UInt8) : ∃ lastOffset,
      LteRlcAmHeader.deserialize ((pduHeader lis sn fi p).serialize ++ payload)
        (LteRlcAmHeader.create 0) =
        some ({ pduHeader lis sn fi p with m_lastOffset := lastOffset }, payload) := by
  obtain ⟨lastOffset, h⟩ := LteRlcAmHeader.deserialize_data 0 0 PDU p fi sn LAST_PDU_SEGMENT 0 hlt
    payload
  refine ⟨lastOffset, ?_⟩
  rw [pduHeader_eq, h, LteRlcAmHeader.dataHeader_eq]
  refine congrArg some (Prod.ext ?_ rfl)
  unfold LteRlcAmHeader.readData
  dsimp only
  rw [show LteRlcAmHeader.readOffset (0 &&& 0x7FFF) = 0 &&& 0x7FFF from by decide]

theorem reassembleAndDeliver_packet {pieces : List TxPdu} {fi sn : ℕ}
    (hlt : ∀ li ∈ lengthIndicators pieces, li < 2048) (hfi : fi < 4) (hsn : sn < 1024)
    (hlength : 4 + octets (lengthIndicators pieces) < 65536) (p : ℕ) (s : Reassembler) :
    reassembleAndDeliver s
        ((pduHeader (lengthIndicators pieces) sn fi p).serialize ++ octetsOf pieces) =
      s.reassembleAndDeliver false fi sn
        (List.replicate (lengthIndicators pieces).length 1 ++ [0]) (lengthIndicators pieces)
        (octetsOf pieces) := by
  obtain ⟨lastOffset, hread⟩ := deserialize_pduHeader hlt sn fi p (octetsOf pieces)
  have hdrop : ((pduHeader (lengthIndicators pieces) sn fi p).serialize ++
      octetsOf pieces).drop (4 + octets (lengthIndicators pieces)) = octetsOf pieces :=
    List.drop_left' (length_serialize_pduHeader (lengthIndicators pieces) sn fi p)
  have hsize := getSerializedSize_pduHeader hlength sn fi p
  have hfields := pduHeader_eq (lengthIndicators pieces) sn fi p
  rw [LteRlcAmHeader.dataHeader_eq] at hfields
  rw [reassembleAndDeliver, hread, Option.bind_eq_bind, Option.bind_some]
  dsimp only
  rw [show ({ pduHeader (lengthIndicators pieces) sn fi p with
      m_lastOffset := lastOffset } : LteRlcAmHeader).getSerializedSize = _ from hsize, hdrop, hfields,
    Nat.mod_eq_of_lt hsn, show fi &&& 0x03 = fi % 4 from LteRlcAmHeader.and_mask fi 2,
    Nat.mod_eq_of_lt hfi]
  rfl

/-! ## Framing -/

/-- The transmitting side, with the SDUs that it was given and the new PDUs that it has built, each for
an opportunity of some octets. -/
structure Framing where
  rlc : Transmitter
  accepted : List (List UInt8)
  pdus : List (ℕ × RlcPdu LteRlcAmHeader)

inductive Op
  | transmitPdcpPdu (p : List UInt8)
  | notifyTxOpportunity (bytes : ℕ)
  | receiveStatusPdu (rlcAmHeader : LteRlcAmHeader)
  | expirePollRetransmitTimer

namespace Framing

open Transmitter

/-- The new PDU that was given to the MAC layer, if it was one. -/
def newPdu : Option Sent → List (RlcPdu LteRlcAmHeader)
  | some (.new pdu) => [pdu]
  | _ => []

def create (txOpportunityForRetxAlwaysBigEnough : Bool) : Framing where
  rlc := Transmitter.create txOpportunityForRetxAlwaysBigEnough
  accepted := []
  pdus := []

def step (s : Framing) : Op → Option Framing
  | .transmitPdcpPdu p => some
    { s with rlc := s.rlc.doTransmitPdcpPdu p, accepted := s.accepted ++ [p] }
  | .notifyTxOpportunity bytes => (s.rlc.doNotifyTxOpportunity bytes).map fun r ↦
    { s with rlc := r.1, pdus := s.pdus ++ (newPdu r.2).map fun pdu ↦ (bytes, pdu) }
  | .receiveStatusPdu rlcAmHeader => (s.rlc.receiveStatusPdu rlcAmHeader).map fun rlc ↦
    { s with rlc := rlc }
  | .expirePollRetransmitTimer => s.rlc.expirePollRetransmitTimer.map fun rlc ↦ { s with rlc := rlc }

/-- The framing of a transmitting side with the given attribute. -/
def framing (txOpportunityForRetxAlwaysBigEnough : Bool) : Machine Framing Op :=
  ⟨create txOpportunityForRetxAlwaysBigEnough, step⟩

/-- SDUs have at least one octet, and opportunities at least seven. -/
def Proper : Op → Prop
  | .transmitPdcpPdu p => 0 < p.length ∧ p.length < 2 ^ 32
  | .notifyTxOpportunity bytes => 7 ≤ bytes ∧ bytes < 2 ^ 32
  | _ => True

/-- An SDU leaves the octets that are queued below `2 ^ 32`, and an opportunity does not find 43688 SDUs
of at most 2047 octets that fit with their length indicators and leave room. -/
def Framable (s : Framing) : Op → Prop
  | .transmitPdcpPdu p => totalSize s.rlc.m_txonBuffer + p.length < 2 ^ 32
  | .notifyTxOpportunity bytes => ¬ FitsFollowed s.rlc.m_txonBuffer (bytes - 4) 1 43688
  | _ => True

instance (o : Op) : Decidable (Proper o) :=
  match o with
  | .transmitPdcpPdu _ => inferInstanceAs (Decidable (_ ∧ _))
  | .notifyTxOpportunity _ => inferInstanceAs (Decidable (_ ∧ _))
  | .receiveStatusPdu _ => inferInstanceAs (Decidable True)
  | .expirePollRetransmitTimer => inferInstanceAs (Decidable True)

instance (s : Framing) (o : Op) : Decidable (Framable s o) :=
  match o with
  | .transmitPdcpPdu _ => inferInstanceAs (Decidable (_ < _))
  | .notifyTxOpportunity _ => inferInstanceAs (Decidable (¬ _))
  | .receiveStatusPdu _ => inferInstanceAs (Decidable True)
  | .expirePollRetransmitTimer => inferInstanceAs (Decidable True)

/-- Framing is lossless. -/
def Lossless (s : Framing) : Prop :=
  Lte.Lossless LteRlcAmHeader.m_lengthIndicators LteRlcAmHeader.serialize reassembleAndDeliver
    s.rlc.m_txonBuffer s.rlc.m_txonBufferSize s.accepted s.pdus

/-- What carries it through a run. -/
structure Sound (s : Framing) : Prop where
  sound : Lte.Sound LteRlcAmHeader.m_lengthIndicators LteRlcAmHeader.serialize reassembleAndDeliver
    s.rlc.m_txonBuffer s.rlc.m_txonBufferSize s.accepted s.pdus
  sequenceNumber : s.rlc.m_vtS.m_value = s.pdus.length % 1024

theorem sound_create (txOpportunityForRetxAlwaysBigEnough : Bool) :
    Sound (create txOpportunityForRetxAlwaysBigEnough) where
  sound := Lte.Sound.nil
  sequenceNumber := rfl

end Framing

/-! ## What leaves the transmission buffer as it is -/

namespace Transmitter

/-- The transmission buffer and the next sequence number are the same. -/
structure Keeps (s s' : Transmitter) : Prop where
  txonBuffer : s'.m_txonBuffer = s.m_txonBuffer
  txonBufferSize : s'.m_txonBufferSize = s.m_txonBufferSize
  vtS : s'.m_vtS.m_value = s.m_vtS.m_value

variable {s s' s'' : Transmitter} {rlcAmHeader : LteRlcAmHeader} {fuel : ℕ}

theorem Keeps.refl (s : Transmitter) : Keeps s s := ⟨rfl, rfl, rfl⟩

theorem Keeps.trans (h : Keeps s s') (h' : Keeps s' s'') : Keeps s s'' :=
  ⟨h'.txonBuffer.trans h.txonBuffer, h'.txonBufferSize.trans h.txonBufferSize, h'.vtS.trans h.vtS⟩

theorem keeps_moveToRetx (s : Transmitter) (v : ℕ) : Keeps s (s.moveToRetx v) := by
  rw [moveToRetx]
  split
  · exact Keeps.refl s
  · exact ⟨rfl, rfl, rfl⟩

theorem keeps_ackRetx (s : Transmitter) (v : ℕ) : Keeps s (s.ackRetx v) := by
  rw [ackRetx]
  split
  · exact Keeps.refl s
  · exact ⟨rfl, rfl, rfl⟩

theorem keeps_ackTxed {v : ℕ} (h : s.ackTxed v = some s') : Keeps s s' := by
  rw [ackTxed] at h
  split at h
  · rw [Option.some_inj] at h
    rw [h]
    exact Keeps.refl s'
  · split at h
    · rw [Option.some_inj] at h
      subst h
      exact ⟨rfl, rfl, rfl⟩
    · cases h

theorem keeps_pollIf (s : Transmitter) (polls : Bool) : Keeps s (s.pollIf polls).1 := by
  cases polls with
  | true => exact ⟨rfl, rfl, rfl⟩
  | false => exact Keeps.refl s

theorem keeps_acknowledge {v : ℕ} (h : s.acknowledge rlcAmHeader v = some s') : Keeps s s' := by
  unfold acknowledge at h
  dsimp only at h
  split at h
  · cases h
  · split at h
    · split at h
      · cases h
      · rw [Option.some_inj] at h
        subst h
        obtain ⟨h₁, h₂, h₃⟩ := keeps_moveToRetx _ v
        exact ⟨h₁, h₂, h₃⟩
    · rw [Option.map_eq_some_iff] at h
      obtain ⟨t, ht, rfl⟩ := h
      obtain ⟨h₁, h₂, h₃⟩ := (keeps_ackTxed ht).trans (keeps_ackRetx t v)
      exact ⟨h₁, h₂, h₃⟩

theorem keeps_acknowledgeAll {ackSn sn : SequenceNumber10} {incrementVtA : Bool}
    (h : acknowledgeAll rlcAmHeader fuel s ackSn sn incrementVtA = some s') : Keeps s s' := by
  induction fuel generalizing s ackSn sn incrementVtA with
  | zero => cases h
  | succ fuel ih =>
    simp only [acknowledgeAll, Option.bind_eq_bind, Option.bind_eq_some_iff] at h
    obtain ⟨below, -, below', -, h⟩ := h
    split at h
    · rw [Option.bind_eq_some_iff] at h
      obtain ⟨t, ht, h⟩ := h
      split at h
      · obtain ⟨h₁, h₂, h₃⟩ := ih h
        exact (keeps_acknowledge ht).trans ⟨h₁, h₂, h₃⟩
      · exact (keeps_acknowledge ht).trans (ih h)
    · rw [Option.pure_def, Option.some_inj] at h
      rw [h]
      exact Keeps.refl s'

theorem keeps_receiveStatusPdu (h : s.receiveStatusPdu rlcAmHeader = some s') : Keeps s s' := by
  obtain ⟨h₁, h₂, h₃⟩ := keeps_acknowledgeAll h
  exact ⟨h₁, h₂, h₃⟩

theorem keeps_moveAllToRetx {sn : SequenceNumber10} (h : moveAllToRetx fuel s sn = some s') :
    Keeps s s' := by
  induction fuel generalizing s sn with
  | zero => cases h
  | succ fuel ih =>
    simp only [moveAllToRetx, Option.bind_eq_bind, Option.bind_eq_some_iff] at h
    obtain ⟨below, -, h⟩ := h
    split at h
    · exact (keeps_moveToRetx s sn.m_value).trans (ih h)
    · rw [Option.pure_def, Option.some_inj] at h
      rw [h]
      exact Keeps.refl s'

theorem keeps_expirePollRetransmitTimer (h : s.expirePollRetransmitTimer = some s') :
    Keeps s s' := by
  simp only [expirePollRetransmitTimer, Option.bind_eq_bind, Option.bind_eq_some_iff] at h
  obtain ⟨below, -, h⟩ := h
  split at h
  · cases h
  · split at h
    · obtain ⟨h₁, h₂, h₃⟩ := keeps_moveAllToRetx h
      exact ⟨h₁, h₂, h₃⟩
    · rw [Option.pure_def, Option.some_inj] at h
      subst h
      exact ⟨rfl, rfl, rfl⟩

theorem keeps_retransmit {bytes : ℕ} {sent : Option Sent} (h : s.retransmit bytes = some (s', sent)) :
    Keeps s s' ∧ Framing.newPdu sent = [] := by
  simp only [retransmit, Option.bind_eq_bind, Option.bind_eq_some_iff] at h
  obtain ⟨below, -, h⟩ := h
  split at h
  · cases h
  · rw [Option.bind_eq_some_iff] at h
    obtain ⟨⟨v, pdu⟩, -, h⟩ := h
    dsimp only at h
    split at h
    · rw [Option.bind_eq_some_iff] at h
      obtain ⟨⟨header, rest⟩, -, h⟩ := h
      rw [Option.bind_eq_some_iff] at h
      obtain ⟨polls, -, h⟩ := h
      rw [Option.pure_def, Option.some_inj, Prod.mk.injEq] at h
      obtain ⟨rfl, rfl⟩ := h
      exact ⟨(keeps_pollIf s polls).trans ⟨rfl, rfl, rfl⟩, rfl⟩
    · rw [Option.pure_def, Option.some_inj, Prod.mk.injEq] at h
      obtain ⟨rfl, rfl⟩ := h
      exact ⟨Keeps.refl s, rfl⟩

end Transmitter

/-! ## Framing, through a run -/

namespace Transmitter

variable {rlc : Transmitter} {p : TxPdu} {queue : List TxPdu} {bytes : ℕ}

theorem buildPdu_cons {r : Transmitter × Option Sent} (hbuffer : rlc.m_txonBuffer = p :: queue)
    (hpending : ∀ q ∈ p :: queue, q.Pending) (hbytes : 4 < bytes)
    (h : rlc.buildPdu bytes = some r) : ∃ fi < 4, ∃ pollingBit,
      framingInfo (cut queue p (bytes - 4) 1).1 = some fi ∧
      r.1.m_txonBuffer = (buildDataField queue p (bytes - 4) 1
        ⟨sub32 rlc.m_txonBufferSize p.size, [], (LteRlcAmHeader.create 0).setDataPdu⟩).1 ∧
      r.1.m_txonBufferSize = (buildDataField queue p (bytes - 4) 1
        ⟨sub32 rlc.m_txonBufferSize p.size, [],
          (LteRlcAmHeader.create 0).setDataPdu⟩).2.m_txBufferSize ∧
      r.1.m_vtS.m_value = (rlc.m_vtS.m_value + 1) % 1024 ∧
      let pieces := (cut queue p (bytes - 4) 1).1
      let rlcAmHeader := pduHeader (lengthIndicators pieces) rlc.m_vtS.m_value fi pollingBit
      r.2 = some (.new ⟨rlcAmHeader, pieces,
        addHeader rlcAmHeader.getSerializedSize rlcAmHeader.serialize (octetsOf pieces)⟩) := by
  obtain ⟨fi, hlt, hfi⟩ := Reassembler.framingInfo_lt (cut_ne_nil queue p (bytes - 4) 1)
  rw [List.forall_mem_cons] at hpending
  obtain ⟨-, hfield, hheader⟩ := buildDataField_eq 1
    ⟨sub32 rlc.m_txonBufferSize p.size, [], (LteRlcAmHeader.create 0).setDataPdu⟩
    (Nat.sub_pos_of_lt hbytes) hpending.1.1 fun q hq ↦ (hpending.2 q hq).1
  rw [List.nil_append] at hfield
  rw [buildPdu, hbuffer] at h
  simp only [Option.bind_eq_bind, Option.bind_eq_some_iff] at h
  obtain ⟨below, -, above, -, h⟩ := h
  split at h
  · cases h
  · simp only [Option.bind_eq_some_iff] at h
    obtain ⟨fi', hfi', polls, -, h⟩ := h
    rw [hfield, hfi, Option.some_inj] at hfi'
    subst hfi'
    rw [Option.pure_def, Option.some_inj] at h
    subst h
    cases polls with
    | true =>
      refine ⟨fi, hlt, STATUS_REPORT_IS_REQUESTED, hfi, rfl, rfl, rfl, ?_⟩
      dsimp only
      rw [hfield, hheader]
      rfl
    | false =>
      refine ⟨fi, hlt, STATUS_REPORT_NOT_REQUESTED, hfi, rfl, rfl, rfl, ?_⟩
      dsimp only
      rw [hfield, hheader]
      rfl

end Transmitter

namespace Framing

variable {s s' : Framing} {o : Op} {txOpportunityForRetxAlwaysBigEnough : Bool}

theorem Sound.keeps (h : Sound s) {rlc : Transmitter} (hk : s.rlc.Keeps rlc) :
    Sound { s with rlc := rlc } := by
  refine ⟨?_, hk.vtS.trans h.sequenceNumber⟩
  dsimp only
  rw [hk.txonBuffer, hk.txonBufferSize]
  exact h.sound

theorem Sound.transmitPdcpPdu (h : Sound s) {p : List UInt8} (hproper : Proper (.transmitPdcpPdu p))
    (hframable : Framable s (.transmitPdcpPdu p)) (hs : step s (.transmitPdcpPdu p) = some s') :
    Sound s' := by
  rw [step, Option.some_inj] at hs
  subst hs
  exact ⟨⟨h.sound.wellFormed, h.sound.framed.submit hproper.1 hframable, h.sound.received⟩,
    h.sequenceNumber⟩

/-- **A PDU is built and reassembled.** -/
theorem Sound.buildPdu (h : Sound s) {bytes : ℕ} (hbytes : 4 < bytes)
    (hframable : Framable s (.notifyTxOpportunity bytes)) {r : Transmitter × Option Transmitter.Sent}
    (hr : s.rlc.buildPdu bytes = some r) :
    Sound { s with rlc := r.1, pdus := s.pdus ++ (newPdu r.2).map fun pdu ↦ (bytes, pdu) } := by
  have hpending := h.sound.framed.pending
  have hframed := h.sound.framed
  cases hbuffer : s.rlc.m_txonBuffer with
  | nil =>
    rw [Transmitter.buildPdu, hbuffer, Option.some_inj] at hr
    subst hr
    simpa only [newPdu, List.map_nil, List.append_nil] using h
  | cons p queue =>
    rw [Framable, hbuffer] at hframable
    rw [hbuffer] at hpending hframed
    obtain ⟨fi, hfi, pollingBit, hframing, hleft, hsize, hvtS, hsent⟩ :=
      Transmitter.buildPdu_cons hbuffer hpending hbytes hr
    obtain ⟨hp, hqueue⟩ := List.forall_mem_cons.mp hpending
    have hroom := totalSize_cut queue p 1 (Nat.sub_pos_of_lt hbytes)
    have hdropLast := dropLast_cut (bytes - 4) 1 hp hqueue
    have hbuilt := hframed.build (H := LteRlcAmHeader)
      (h := (LteRlcAmHeader.create 0).setDataPdu) (Nat.sub_pos_of_lt hbytes)
    rw [← hleft, ← hsize] at hbuilt
    set pieces := (cut queue p (bytes - 4) 1).1 with hpieces
    -- the length of the header fits, since there are not so many length indicators
    have hcount : (lengthIndicators pieces).length < 43688 := by
      by_contra hge
      exact hframable (fitsFollowed_of_le (by decide) (Nat.not_lt.mp hge))
    have hlis : ∀ li ∈ lengthIndicators pieces, li < 2048 := by
      rintro li hli
      obtain ⟨q, hq, rfl⟩ := List.mem_map.mp hli
      exact Nat.lt_succ_of_le (hdropLast q hq).1
    have hlength : 4 + octets (lengthIndicators pieces) < 65536 := by
      rw [LteRlcAmHeader.octets_eq]
      omega
    have hheader : (pduHeader (lengthIndicators pieces) s.rlc.m_vtS.m_value fi
        pollingBit).serialize.length ≤ (pduHeader (lengthIndicators pieces) s.rlc.m_vtS.m_value fi
          pollingBit).getSerializedSize := by
      rw [length_serialize_pduHeader, getSerializedSize_pduHeader hlength]
    have hfields := pduHeader_eq (lengthIndicators pieces) s.rlc.m_vtS.m_value fi pollingBit
    rw [LteRlcAmHeader.dataHeader_eq] at hfields
    dsimp only at hsent
    rw [hsent]
    refine ⟨h.sound.concat false ?_ hbuilt (cut_ne_nil _ _ _ _) hframing
      (fun q hq ↦ (hdropLast q hq).2) ?_, ?_⟩
    · refine ⟨?_, ?_, ?_, addHeader_eq hheader _⟩
      · dsimp only
        rw [addHeader_eq hheader, List.length_append, length_serialize_pduHeader,
          LteRlcUm.octets_lengthIndicators, length_octetsOf]
        omega
      · dsimp only
        rw [hfields]
        exact hlis
      · dsimp only
        rw [hfields]
        rfl
    · intro r
      dsimp only
      rw [addHeader_eq hheader, ← h.sequenceNumber]
      refine reassembleAndDeliver_packet hlis hfi ?_ hlength pollingBit r
      rw [h.sequenceNumber]
      exact Nat.mod_lt _ (by decide)
    · dsimp only
      rw [hvtS, h.sequenceNumber, newPdu, List.map_singleton, List.length_append, Nat.mod_add_mod]
      rfl

theorem Sound.notifyTxOpportunity (h : Sound s) {bytes : ℕ}
    (hproper : Proper (.notifyTxOpportunity bytes))
    (hframable : Framable s (.notifyTxOpportunity bytes))
    (hs : step s (.notifyTxOpportunity bytes) = some s') : Sound s' := by
  have hnone : Sound { s with rlc := s.rlc, pdus := s.pdus ++ (newPdu none).map fun pdu ↦
      (bytes, pdu) } := by
    simpa only [newPdu, List.map_nil, List.append_nil] using h
  rw [step, Option.map_eq_some_iff] at hs
  obtain ⟨r, hr, rfl⟩ := hs
  unfold Transmitter.doNotifyTxOpportunity at hr
  split at hr
  · cases hr
  · split at hr
    · obtain ⟨hk, hnew⟩ := Transmitter.keeps_retransmit hr
      rw [hnew, List.map_nil, List.append_nil]
      exact h.keeps hk
    · split at hr
      · split at hr
        · cases hr
        · rw [Option.bind_eq_bind, Option.bind_eq_some_iff] at hr
          obtain ⟨below, -, hr⟩ := hr
          split at hr
          · cases hr
          · split at hr
            · rw [Option.pure_def, Option.some_inj] at hr
              subst hr
              exact hnone
            · exact h.buildPdu (lt_of_lt_of_le (by decide) hproper.1) hframable hr
      · rw [Option.pure_def, Option.some_inj] at hr
        subst hr
        exact hnone

theorem Sound.step (h : Sound s) (hproper : Proper o) (hframable : Framable s o)
    (hs : step s o = some s') : Sound s' := by
  cases o with
  | transmitPdcpPdu p => exact h.transmitPdcpPdu hproper hframable hs
  | notifyTxOpportunity bytes => exact h.notifyTxOpportunity hproper hframable hs
  | receiveStatusPdu rlcAmHeader =>
    rw [Framing.step, Option.map_eq_some_iff] at hs
    obtain ⟨rlc, hrlc, rfl⟩ := hs
    exact h.keeps (Transmitter.keeps_receiveStatusPdu hrlc)
  | expirePollRetransmitTimer =>
    rw [Framing.step, Option.map_eq_some_iff] at hs
    obtain ⟨rlc, hrlc, rfl⟩ := hs
    exact h.keeps (Transmitter.keeps_expirePollRetransmitTimer hrlc)

/-- **Every run of framable steps is lossless.** -/
theorem lossless_of_run {ops : List Op}
    (hr : (framing txOpportunityForRetxAlwaysBigEnough).Run (fun s o ↦ Proper o ∧ Framable s o) ops
      s) : s.Lossless :=
  (hr.invariant (I := Sound) (sound_create txOpportunityForRetxAlwaysBigEnough)
    fun _ _ _ h hok hs ↦ h.step hok.1 hok.2 hs).sound.lossless

end Framing

end LteRlcAm

/-! ## Both modes -/

/-- **Segmentation and framing are lossless in both modes.** -/
theorem framing_lossless_of_run (txOpportunityForRetxAlwaysBigEnough : Bool) (maxTxBufferSize : ℕ) :
    (∀ (ops : List LteRlcAm.Op) (s : LteRlcAm.Framing),
      (LteRlcAm.Framing.framing txOpportunityForRetxAlwaysBigEnough).Run
        (fun s o ↦ LteRlcAm.Framing.Proper o ∧ LteRlcAm.Framing.Framable s o) ops s →
      s.Lossless) ∧
    ∀ (ops : List LteRlcUm.Op) (s : LteRlcUm.Framing),
      (LteRlcUm.Framing.framing maxTxBufferSize).Run
        (fun s o ↦ LteRlcUm.Framing.Proper o ∧ LteRlcUm.Framing.Framable s o) ops s →
      s.Lossless :=
  ⟨fun _ _ hr ↦ LteRlcAm.Framing.lossless_of_run hr,
    fun _ _ hr ↦ LteRlcUm.Framing.lossless_of_run hr⟩

/-- An SDU that is cut in two, and another one behind its end. -/
theorem framing_lossless_of_run_two :
    (∃ s : LteRlcAm.Framing, s.Lossless ∧ s.pdus.map (fun x ↦ x.2.dataField.length) = [1, 2]) ∧
      ∃ s : LteRlcUm.Framing, s.Lossless ∧
        s.pdus.map (fun x ↦ x.2.dataField.length) = [1, 2] := by
  have ham : ∃ s, (LteRlcAm.Framing.framing false).Run
      (fun s o ↦ LteRlcAm.Framing.Proper o ∧ LteRlcAm.Framing.Framable s o)
      [.transmitPdcpPdu [1, 2, 3, 4, 5], .transmitPdcpPdu [6, 7], .notifyTxOpportunity 7,
        .notifyTxOpportunity 12] s ∧ s.pdus.map (fun x ↦ x.2.dataField.length) = [1, 2] :=
    Machine.exists_run_of_exec_allowed
      (p := fun s : LteRlcAm.Framing ↦ s.pdus.map (fun x ↦ x.2.dataField.length) = [1, 2])
      (by decide +kernel) (by decide +kernel)
  have hum : ∃ s, (LteRlcUm.Framing.framing 10240).Run
      (fun s o ↦ LteRlcUm.Framing.Proper o ∧ LteRlcUm.Framing.Framable s o)
      [.transmitPdcpPdu [1, 2, 3, 4, 5, 6], .transmitPdcpPdu [7, 8], .notifyTxOpportunity 7,
        .notifyTxOpportunity 12] s ∧ s.pdus.map (fun x ↦ x.2.dataField.length) = [1, 2] :=
    Machine.exists_run_of_exec_allowed
      (p := fun s : LteRlcUm.Framing ↦ s.pdus.map (fun x ↦ x.2.dataField.length) = [1, 2])
      (by decide +kernel) (by decide +kernel)
  obtain ⟨s, hr, hs⟩ := ham
  obtain ⟨t, hr', ht⟩ := hum
  exact ⟨⟨s, (framing_lossless_of_run false 10240).1 _ _ hr, hs⟩,
    ⟨t, (framing_lossless_of_run false 10240).2 _ _ hr', ht⟩⟩

/-- The octets of two SDUs of `2 ^ 31` octets cannot be counted in 32 bits. -/
theorem size_eq_zero_of_length {p : List UInt8} (h : p.length = 2 ^ 31) :
    ∃ s, (LteRlcAm.Framing.framing false).Run (fun _ o ↦ LteRlcAm.Framing.Proper o)
      [.transmitPdcpPdu p, .transmitPdcpPdu p] s ∧
      s.rlc.m_txonBufferSize = 0 ∧ totalSize s.rlc.m_txonBuffer = 2 ^ 32 := by
  have hproper : LteRlcAm.Framing.Proper (.transmitPdcpPdu p) := by
    rw [LteRlcAm.Framing.Proper, h]
    norm_num
  have hsize : add32 (add32 0 p.length) p.length = 0 := by
    rw [h, add32, add32]
    norm_num
  have htotal : p.length + (p.length + 0) = 2 ^ 32 := by
    rw [h]
    norm_num
  have hrun : ∃ s, (LteRlcAm.Framing.framing false).Run (fun _ o ↦ LteRlcAm.Framing.Proper o)
      [.transmitPdcpPdu p, .transmitPdcpPdu p] s ∧
      s.rlc.m_txonBufferSize = add32 (add32 0 p.length) p.length ∧
      totalSize s.rlc.m_txonBuffer = p.length + (p.length + 0) :=
    ⟨_, .snoc (.snoc .nil hproper rfl) hproper rfl, rfl, rfl⟩
  obtain ⟨s, hr, hs, ht⟩ := hrun
  exact ⟨s, hr, hs.trans hsize, ht.trans htotal⟩

/-- The size of the transmission buffer wraps. -/
theorem not_framing_lossless : ∃ s, (LteRlcAm.Framing.framing false).Run
    (fun _ o ↦ LteRlcAm.Framing.Proper o)
    [.transmitPdcpPdu (List.replicate (2 ^ 31) 0), .transmitPdcpPdu (List.replicate (2 ^ 31) 0)] s ∧
    s.rlc.m_txonBufferSize = 0 ∧ totalSize s.rlc.m_txonBuffer = 2 ^ 32 ∧ ¬ s.Lossless := by
  obtain ⟨s, hr, hs, ht⟩ := size_eq_zero_of_length (List.length_replicate (a := 0))
  refine ⟨s, hr, hs, ht, fun hl ↦ ?_⟩
  have h := hl.size_eq
  rw [hs, ht] at h
  norm_num at h

end Lte

end Ns3
