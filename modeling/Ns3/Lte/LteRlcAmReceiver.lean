import Ns3.Library.Machine
import Ns3.Lte.LteRlcAm

/-!
# RLC acknowledged mode: the receiving side

A receiver keeps the PDUs from VR(R), the first that is missing, up to VR(H), the one after the highest
that has arrived. Up to VR(MS) it reports what is missing: the STATUS PDU has a NACK for every number
that has not been received, as far as they fit into the opportunity, and as ACK_SN the first number
after them that is missing, too.

What a STATUS PDU says is true in every state that can be reached. But whether one more NACK fits is
tested the wrong way round: the first of two NACKs takes two octets and the second one, and the test
keeps one octet for the first and two for the second. So the PDU is larger than the opportunity by one
octet if this is a multiple of three and there are enough numbers to report (`statusPdu_fits_iff`).
-/

namespace Ns3

namespace Lte

namespace LteRlcAm

open LteRlcAmHeader (STATUS_PDU SEGMENT octets)
open SequenceNumber10 (distance distance_eq exists_mod_eq)

/-- `PduBuffer`. -/
structure PduBuffer where
  m_byteSegments : List (List UInt8)
  m_pduComplete : Bool
  deriving DecidableEq

/-- The variables of the receiving side of an `LteRlcAm`, with all PDUs that `ReassembleAndDeliver` has
been called with. The timers are running or not. -/
structure Receiver where
  m_rxonBuffer : ℕ → Option PduBuffer
  m_vrR : SequenceNumber10
  m_vrMr : SequenceNumber10
  m_vrX : SequenceNumber10
  m_vrMs : SequenceNumber10
  m_vrH : SequenceNumber10
  m_reorderingTimer : Bool
  m_statusPduRequested : Bool
  m_statusPduBufferSize : ℕ
  m_statusProhibitTimer : Bool
  reassembled : List (List UInt8)

namespace Receiver

/-- The constructor. -/
def create : Receiver where
  m_rxonBuffer := fun _ ↦ none
  m_vrR := .ofValue 0
  m_vrMr := (SequenceNumber10.ofValue 0).add m_windowSize
  m_vrX := .ofValue 0
  m_vrMs := .ofValue 0
  m_vrH := .ofValue 0
  m_reorderingTimer := false
  m_statusPduRequested := false
  m_statusPduBufferSize := 0
  m_statusProhibitTimer := false
  reassembled := []

/-- The PDU is in the buffer, and it is complete. -/
def received (s : Receiver) (v : ℕ) : Bool := (s.m_rxonBuffer v).any (·.m_pduComplete)

/-! ## Receiving data PDUs -/

def isInsideReceivingWindow (s : Receiver) (seqNumber : SequenceNumber10) :
    Option (Receiver × Bool) := do
  let s := { s with m_vrR := s.m_vrR.setModulusBase s.m_vrR }
  let s := { s with m_vrMr := s.m_vrMr.setModulusBase s.m_vrR }
  let seqNumber := seqNumber.setModulusBase s.m_vrR
  if ← s.m_vrR.le seqNumber then
    let b ← seqNumber.lt s.m_vrMr
    some (s, b)
  else some (s, false)

/-- A STATUS PDU is requested, if the header polls. -/
def requestStatusPdu (s : Receiver) (rlcAmHeader : LteRlcAmHeader) : Receiver :=
  if rlcAmHeader.m_pollingBit = STATUS_REPORT_IS_REQUESTED then
    { s with m_statusPduRequested := true, m_statusPduBufferSize := 4 }
  else s

/-- A PDU is placed in the reception buffer, if it is not there. Re-segmentation is not supported. -/
def place (s : Receiver) (seqNumber : ℕ) (p : List UInt8) : Option Receiver :=
  match s.m_rxonBuffer seqNumber with
  | some it => if it.m_byteSegments.length = 1 then some s else none
  | none => some { s with m_rxonBuffer := Function.update s.m_rxonBuffer seqNumber (some ⟨[p], true⟩) }

/-- VR(H) is updated. -/
def updateVrH (s : Receiver) (seqNumber : SequenceNumber10) : Option Receiver := do
  if ← seqNumber.ge s.m_vrH then some { s with m_vrH := seqNumber.add 1 } else some s

/-- The loop over VR(MS); it is an error to come back to the first one. -/
def vrMsLoop (firstVrMs : ℕ) : ℕ → Receiver → Option Receiver
  | 0, _ => none
  | fuel + 1, s =>
    if s.received s.m_vrMs.m_value then
      let s := { s with m_vrMs := s.m_vrMs.next }
      if firstVrMs ≠ s.m_vrMs.m_value then vrMsLoop firstVrMs fuel s else none
    else some s

/-- One turn of the loop over VR(R): the first PDU is delivered. -/
def deliver (s : Receiver) (it : PduBuffer) : Receiver :=
  let m_vrR := s.m_vrR.next.setModulusBase s.m_vrR.next
  { s with
    m_rxonBuffer := Function.update s.m_rxonBuffer s.m_vrR.m_value none
    m_vrR := m_vrR
    m_vrX := s.m_vrX.setModulusBase m_vrR
    m_vrMs := s.m_vrMs.setModulusBase m_vrR
    m_vrH := s.m_vrH.setModulusBase m_vrR
    reassembled := s.reassembled ++ it.m_byteSegments }

/-- The loop over VR(R), and the update of VR(MR) behind it. -/
def vrRLoop (firstVrR : ℕ) : ℕ → Receiver → Option Receiver
  | 0, _ => none
  | fuel + 1, s =>
    match s.m_rxonBuffer s.m_vrR.m_value with
    | none => some { s with m_vrMr := s.m_vrR.add m_windowSize }
    | some it =>
      if it.m_pduComplete then
        if it.m_byteSegments.length = 1 then
          let s := s.deliver it
          if firstVrR ≠ s.m_vrR.m_value then vrRLoop firstVrR fuel s else none
        else none
      else some { s with m_vrMr := s.m_vrR.add m_windowSize }

/-- VR(R) is updated, for a PDU with this number. -/
def updateVrR (s : Receiver) (seqNumber : SequenceNumber10) : Option Receiver :=
  if seqNumber.m_value = s.m_vrR.m_value ∧ s.received seqNumber.m_value then
    vrRLoop s.m_vrR.m_value 1025 s
  else some s

/-- The reordering timer is stopped, if it is running for nothing. -/
def stopTimer (s : Receiver) : Option Receiver :=
  if s.m_reorderingTimer then
    if s.m_vrX.m_value = s.m_vrR.m_value then some { s with m_reorderingTimer := false }
    else do
      let (s, inside) ← s.isInsideReceivingWindow s.m_vrX
      if !inside && decide (s.m_vrX.m_value ≠ s.m_vrMr.m_value) then
        some { s with m_reorderingTimer := false }
      else some s
  else some s

/-- The reordering timer is started, if VR(H) is above a number. -/
def startTimer (s : Receiver) (sn : SequenceNumber10) : Option Receiver := do
  if ← s.m_vrH.gt sn then some { s with m_reorderingTimer := true, m_vrX := s.m_vrH } else some s

/-- `DoReceivePdu` of a data PDU. -/
def receiveDataPdu (s : Receiver) (rlcAmHeader : LteRlcAmHeader) (p : List UInt8) :
    Option Receiver :=
  if rlcAmHeader.m_resegmentationFlag ≠ SEGMENT ∧ rlcAmHeader.m_resegmentationFlag ≠ PDU then none
  else do
    let seqNumber := (SequenceNumber10.ofValue rlcAmHeader.m_sequenceNumber).setModulusBase s.m_vrR
    let (s, inside) ← (s.requestStatusPdu rlcAmHeader).isInsideReceivingWindow seqNumber
    if !inside then some s
    else
      let s ← s.place seqNumber.m_value p
      let s ← s.updateVrH seqNumber
      let s ← vrMsLoop s.m_vrMs.m_value 1025 s
      let s ← s.updateVrR seqNumber
      let s ← s.stopTimer
      if s.m_reorderingTimer then some s else s.startTimer s.m_vrR

def expireReorderingTimer (s : Receiver) : Option Receiver := do
  let s := { s with m_reorderingTimer := false, m_vrMs := s.m_vrX }
  let s ← vrMsLoop s.m_vrMs.m_value 1025 s
  let s ← s.startTimer s.m_vrMs
  some { s with m_statusPduRequested := true }

def expireStatusProhibitTimer (s : Receiver) : Receiver := { s with m_statusProhibitTimer := false }

/-! ## The STATUS PDU -/

/-- The loop over the numbers up to VR(MS); the number of bytes is cut to 16 bits in a call. -/
def nackLoop (s : Receiver) (bytes : ℕ) : ℕ → SequenceNumber10 → LteRlcAmHeader →
    Option (SequenceNumber10 × LteRlcAmHeader)
  | 0, _, _ => none
  | fuel + 1, sn, rlcAmHeader => do
    if ← sn.lt s.m_vrMs then
      if !rlcAmHeader.oneMoreNackWouldFitIn (bytes % 65536) then some (sn, rlcAmHeader)
      else if s.received sn.m_value then s.nackLoop bytes fuel sn.next rlcAmHeader
      else s.nackLoop bytes fuel sn.next (rlcAmHeader.pushNack sn.m_value)
    else some (sn, rlcAmHeader)

/-- The first number from `sn` on that has not been received, up to VR(MS). -/
def ackLoop (s : Receiver) : ℕ → SequenceNumber10 → Option SequenceNumber10
  | 0, _ => none
  | fuel + 1, sn => do
    if (← sn.lt s.m_vrMs) && s.received sn.m_value then s.ackLoop fuel sn.next else some sn

/-- The STATUS PDU for an opportunity of some bytes. -/
def statusPdu (s : Receiver) (bytes : ℕ) : Option LteRlcAmHeader := do
  let (sn, rlcAmHeader) ←
    s.nackLoop bytes 1025 s.m_vrR ((LteRlcAmHeader.create 0).setControlPdu STATUS_PDU)
  let sn ← s.ackLoop 1025 sn
  if ← sn.le s.m_vrMs then some (rlcAmHeader.setAckSn sn.m_value) else none

/-- A STATUS PDU is to be sent. -/
def SendsStatusPdu (s : Receiver) : Prop :=
  s.m_statusPduRequested = true ∧ s.m_statusProhibitTimer = false

instance : DecidablePred SendsStatusPdu := fun s ↦
  inferInstanceAs (Decidable (s.m_statusPduRequested = true ∧ s.m_statusProhibitTimer = false))

/-- `DoNotifyTxOpportunity`, with the header and the packet of the STATUS PDU. If there is none to be
sent, it is left to the transmitting side. -/
def doNotifyTxOpportunity (s : Receiver) (bytes : ℕ) :
    Option (Receiver × Option (LteRlcAmHeader × List UInt8)) :=
  if bytes < 4 then none
  else if s.SendsStatusPdu then
    if bytes < s.m_statusPduBufferSize then none
    else do
      let rlcAmHeader ← s.statusPdu bytes
      some ({ s with
        m_statusPduRequested := false
        m_statusPduBufferSize := 0
        m_statusProhibitTimer := true },
        some (rlcAmHeader, addHeader rlcAmHeader.getSerializedSize rlcAmHeader.serialize []))
  else some (s, none)

/-! ## What is reported -/

section Status

variable {s : Receiver} {B R M n m bytes : ℕ} {sn : SequenceNumber10} {nacks l : List ℕ}

/-- The numbers from `n` up to `m` that have not been received. -/
def missing (s : Receiver) (n m : ℕ) : List ℕ :=
  ((List.range' n (m - n)).map (· % 1024)).filter fun v ↦ !s.received v

theorem missing_self (n : ℕ) : s.missing n n = [] := by rw [missing, Nat.sub_self]; rfl

theorem missing_cons (h : n < m) : s.missing n m =
    if s.received (n % 1024) then s.missing (n + 1) m else n % 1024 :: s.missing (n + 1) m := by
  have hsub : m - n = (m - (n + 1)) + 1 := by omega
  rw [missing, hsub, List.range'_succ, List.map_cons, List.filter_cons, ← missing]
  cases s.received (n % 1024) <;> rfl

theorem length_missing_le : (s.missing n m).length ≤ m - n := by
  refine (List.length_filter_le _ _).trans ?_
  rw [List.length_map, List.length_range']

theorem mem_missing {v : ℕ} :
    v ∈ s.missing n m ↔ (∃ K, n ≤ K ∧ K < m ∧ v = K % 1024) ∧ s.received v = false := by
  rw [missing, List.mem_filter, List.mem_map, Bool.not_eq_true']
  refine and_congr_left fun _ ↦ ⟨?_, ?_⟩
  · rintro ⟨K, hK, rfl⟩
    obtain ⟨hle, hlt⟩ := List.mem_range'_1.mp hK
    exact ⟨K, hle, by omega, rfl⟩
  · rintro ⟨K, hle, hlt, rfl⟩
    exact ⟨K, List.mem_range'_1.mpr ⟨hle, by omega⟩, rfl⟩

theorem length_missing_mono {N : ℕ} (hNm : N ≤ m) :
    (s.missing n N).length ≤ (s.missing n m).length := by
  have hsub : (List.range' n (N - n)).Sublist (List.range' n (m - n)) :=
    List.range'_sublist_right.mpr (by omega)
  exact ((hsub.map _).filter _).length_le

/-- The STATUS PDU before its ACK_SN is set. -/
def withNacks (nacks : List ℕ) : LteRlcAmHeader :=
  nacks.foldl LteRlcAmHeader.pushNack ((LteRlcAmHeader.create 0).setControlPdu STATUS_PDU)

/-- One more NACK than `n` is taken to fit. -/
def Fits (bytes n : ℕ) : Prop := if n % 2 = 0 then 2 + 3 * (n / 2) < bytes else 5 + 3 * (n / 2) < bytes

instance (bytes n : ℕ) : Decidable (Fits bytes n) := by
  unfold Fits
  infer_instance

theorem withNacks_eq (nacks : List ℕ) : withNacks nacks =
    { (LteRlcAmHeader.create 0).setControlPdu STATUS_PDU with
      m_headerLength := (2 + octets nacks) % 65536, m_nackSnList := nacks } :=
  LteRlcAmHeader.foldl_pushNack _ rfl rfl nacks

theorem setAckSn_withNacks (nacks : List ℕ) (ackSn : ℕ) :
    (withNacks nacks).setAckSn ackSn = LteRlcAmHeader.statusHeader 0 ackSn nacks := by
  rw [withNacks_eq, LteRlcAmHeader.statusHeader_eq]
  rfl

theorem pushNack_withNacks (nacks : List ℕ) (nack : ℕ) :
    (withNacks nacks).pushNack nack = withNacks (nacks ++ [nack]) := by
  rw [withNacks, withNacks, List.foldl_append]
  rfl

theorem octets_le (nacks : List ℕ) : octets nacks ≤ 2 * nacks.length := by
  rw [LteRlcAmHeader.octets_eq]
  omega

theorem oneMoreNackWouldFitIn_iff (bytes : ℕ) (h : nacks.length ≤ 1024) :
    (withNacks nacks).oneMoreNackWouldFitIn bytes = true ↔ Fits bytes nacks.length := by
  have hle := octets_le nacks
  have hoctets := LteRlcAmHeader.octets_eq nacks
  rw [withNacks_eq, LteRlcAmHeader.oneMoreNackWouldFitIn, Fits]
  dsimp only
  rw [Nat.mod_eq_of_lt (show 2 + octets nacks < 65536 by omega)]
  split_ifs with hmod
  · rw [decide_eq_true_iff]
    omega
  · rw [decide_eq_true_iff]
    omega

/-- **The NACKs** are the missing numbers, up to VR(MS) or up to where one more would not fit. -/
theorem nackLoop_spec (bytes : ℕ) (hMs : SequenceNumber10.Denotes B M s.m_vrMs) :
    ∀ {fuel n : ℕ} {sn : SequenceNumber10} {l : List ℕ}, SequenceNumber10.Denotes B n sn → n ≤ M →
      M - n < fuel → l.length + (M - n) ≤ 1024 →
      ∃ N sn', s.nackLoop bytes fuel sn (withNacks l) = some (sn', withNacks (l ++ s.missing n N)) ∧
        SequenceNumber10.Denotes B N sn' ∧ n ≤ N ∧ N ≤ M ∧
        (N = M ∨ ¬Fits (bytes % 65536) (l ++ s.missing n N).length) ∧
        ∀ k, l.length ≤ k → k < (l ++ s.missing n N).length → Fits (bytes % 65536) k := by
  intro fuel
  induction fuel with
  | zero => exact fun _ _ h ↦ absurd h (Nat.not_lt_zero _)
  | succ fuel ih =>
    intro n sn l hsn hle hfuel hlen
    have hstop : ∃ N sn', some (sn, withNacks l) = some (sn', withNacks (l ++ s.missing n N)) ∧
        SequenceNumber10.Denotes B N sn' ∧ n ≤ N ∧ N ≤ M ∧ N = n ∧
        ∀ k, l.length ≤ k → k < (l ++ s.missing n N).length → Fits (bytes % 65536) k := by
      refine ⟨n, sn, by rw [missing_self, List.append_nil], hsn, le_rfl, hle, rfl, fun k hk hk' ↦ ?_⟩
      rw [missing_self, List.append_nil] at hk'
      exact absurd hk' (not_lt.mpr hk)
    rw [nackLoop, SequenceNumber10.lt_eq hsn hMs]
    by_cases hlt : n < M
    swap
    · rw [decide_eq_false hlt]
      obtain ⟨N, sn', heq, hN, hnN, hNM, rfl, hk⟩ := hstop
      exact ⟨N, sn', heq, hN, hnN, hNM, Or.inl (by omega), hk⟩
    rw [decide_eq_true hlt, Option.bind_eq_bind, Option.bind_some, if_pos rfl]
    have hiff := oneMoreNackWouldFitIn_iff (bytes % 65536) (show l.length ≤ 1024 by omega)
    by_cases hfits : Fits (bytes % 65536) l.length
    swap
    · rw [Bool.eq_false_iff.mpr fun h ↦ hfits (hiff.mp h), Bool.not_false, if_pos rfl]
      obtain ⟨N, sn', heq, hN, hnN, hNM, rfl, hk⟩ := hstop
      exact ⟨N, sn', heq, hN, hnN, hNM, Or.inr (by rwa [missing_self, List.append_nil]), hk⟩
    rw [hiff.mpr hfits, if_neg (by decide), hsn.value]
    have hnext : SequenceNumber10.Denotes B (n + 1) sn.next := hsn.next (by have := hMs.lt; omega)
    by_cases hrec : s.received (n % 1024) = true
    · rw [if_pos hrec]
      obtain ⟨N, sn', heq, hN, hnN, hNM, hend, hk⟩ := ih (l := l) hnext hlt (by omega) (by omega)
      have hmissing : s.missing n N = s.missing (n + 1) N := by
        rw [missing_cons (by omega), if_pos hrec]
      exact ⟨N, sn', hmissing ▸ heq, hN, by omega, hNM, hmissing ▸ hend, hmissing ▸ hk⟩
    · rw [if_neg hrec, pushNack_withNacks]
      obtain ⟨N, sn', heq, hN, hnN, hNM, hend, hk⟩ := ih (l := l ++ [n % 1024]) hnext hlt (by omega)
        (by rw [List.length_append, List.length_singleton]; omega)
      have hmissing : l ++ s.missing n N = l ++ [n % 1024] ++ s.missing (n + 1) N := by
        rw [missing_cons (by omega), if_neg hrec, List.append_assoc]
        rfl
      rw [← hmissing] at heq hend hk
      refine ⟨N, sn', heq, hN, by omega, hNM, hend, fun k hle' hlt' ↦ ?_⟩
      rcases Nat.eq_or_lt_of_le hle' with rfl | hgt
      · exact hfits
      · exact hk k (by rw [List.length_append, List.length_singleton]; omega) hlt'

theorem ackLoop_spec (hMs : SequenceNumber10.Denotes B M s.m_vrMs) :
    ∀ {fuel n : ℕ} {sn : SequenceNumber10}, SequenceNumber10.Denotes B n sn → n ≤ M → M - n < fuel →
      ∃ A sn', s.ackLoop fuel sn = some sn' ∧ SequenceNumber10.Denotes B A sn' ∧ n ≤ A ∧ A ≤ M ∧
        (A = M ∨ s.received (A % 1024) = false) ∧
        ∀ K, n ≤ K → K < A → s.received (K % 1024) = true := by
  intro fuel
  induction fuel with
  | zero => exact fun _ _ h ↦ absurd h (Nat.not_lt_zero _)
  | succ fuel ih =>
    intro n sn hsn hle hfuel
    rw [ackLoop, SequenceNumber10.lt_eq hsn hMs, hsn.value, Option.bind_eq_bind, Option.bind_some]
    by_cases hgo : n < M ∧ s.received (n % 1024) = true
    · rw [decide_eq_true hgo.1, hgo.2]
      obtain ⟨A, sn', heq, hA, hnA, hAM, hend, hall⟩ := ih
        (hsn.next (by have := hMs.lt; omega)) hgo.1 (by omega)
      refine ⟨A, sn', heq, hA, by omega, hAM, hend, fun K hle' hlt' ↦ ?_⟩
      rcases Nat.eq_or_lt_of_le hle' with rfl | hgt
      · exact hgo.2
      · exact hall K hgt hlt'
    · have hcond : (decide (n < M) && s.received (n % 1024)) = false := by
        rw [Bool.and_eq_false_iff, decide_eq_false_iff_not, ← Bool.not_eq_true]
        exact not_and_or.mp hgo
      rw [hcond, if_neg Bool.false_ne_true]
      refine ⟨n, sn, rfl, hsn, le_rfl, hle, ?_, fun K hle' hlt' ↦ absurd hlt' (not_lt.mpr hle')⟩
      rcases Nat.eq_or_lt_of_le hle with rfl | hlt
      · exact Or.inl rfl
      · exact Or.inr (Bool.eq_false_iff.mpr fun h ↦ hgo ⟨hlt, h⟩)

end Status

/-! ## The size of a STATUS PDU -/

section Size

variable {s : Receiver} {B R M bytes : ℕ}

/-- The sequence numbers from VR(R) to VR(MS) that have not been received. -/
def missingSn (s : Receiver) : List ℕ :=
  ((List.range (distance s.m_vrR.m_value s.m_vrMs.m_value)).map fun i ↦
    (s.m_vrR.m_value + i) % 1024).filter fun v ↦ !s.received v

/-- The NACKs of the numbers that are missing do not end up one octet above the opportunity. -/
def HasRoom (s : Receiver) (bytes : ℕ) : Prop :=
  bytes < 65536 → bytes % 3 = 0 → s.missingSn.length + 1 < 2 * (bytes / 3)

instance (s : Receiver) (bytes : ℕ) : Decidable (s.HasRoom bytes) := by
  unfold HasRoom
  infer_instance

/-- What a STATUS PDU says is true. -/
structure Truthful (s : Receiver) (rlcAmHeader : LteRlcAmHeader) : Prop where
  nacked : ∀ v ∈ rlcAmHeader.m_nackSnList, v < 1024 ∧
    distance s.m_vrR.m_value v < distance s.m_vrR.m_value s.m_vrMs.m_value ∧ s.received v = false
  acknowledged : ∀ v < 1024,
    distance s.m_vrR.m_value v < distance s.m_vrR.m_value rlcAmHeader.m_ackSn →
      v ∉ rlcAmHeader.m_nackSnList → s.received v = true
  ackSn : rlcAmHeader.m_ackSn = s.m_vrMs.m_value ∨ rlcAmHeader.m_ackSn < 1024 ∧
    distance s.m_vrR.m_value rlcAmHeader.m_ackSn < distance s.m_vrR.m_value s.m_vrMs.m_value ∧
    s.received rlcAmHeader.m_ackSn = false ∧ rlcAmHeader.m_ackSn ∉ rlcAmHeader.m_nackSnList

theorem missingSn_eq (hR : SequenceNumber10.Denotes B R s.m_vrR)
    (hM : SequenceNumber10.Denotes B M s.m_vrMs) (hle : R ≤ M) : s.missingSn = s.missing R M := by
  have hlt := hM.lt
  have hRle := hR.le
  rw [missingSn, missing, hR.value, hM.value, distance_eq hle (by omega), List.range'_eq_map_range,
    List.map_map]
  congr 1
  refine List.map_congr_left fun i _ ↦ ?_
  exact Nat.mod_add_mod R 1024 i

theorem withNacks_nil : withNacks [] = (LteRlcAmHeader.create 0).setControlPdu STATUS_PDU := rfl

theorem size_le_iff {n m : ℕ} (hbytes : 4 ≤ bytes) (hnm : n ≤ m)
    (hend : n = m ∨ ¬Fits (bytes % 65536) n) (hall : ∀ k < n, Fits (bytes % 65536) k) :
    2 + (3 * (n / 2) + 2 * (n % 2)) ≤ bytes ↔
      (bytes < 65536 → bytes % 3 = 0 → m + 1 < 2 * (bytes / 3)) := by
  have hlast : n = 0 ∨ Fits (bytes % 65536) (n - 1) := by
    rcases Nat.eq_zero_or_pos n with h | h
    · exact Or.inl h
    · exact Or.inr (hall _ (Nat.sub_one_lt h.ne'))
  rw [Fits] at hend hlast
  by_cases hbig : bytes < 65536
  · rw [Nat.mod_eq_of_lt hbig] at hend hlast
    split_ifs at hend hlast <;> omega
  · refine iff_of_true ?_ fun h ↦ absurd h hbig
    have hlt : bytes % 65536 < 65536 := Nat.mod_lt _ (by decide)
    split_ifs at hlast <;> omega

/-- **A STATUS PDU is truthful**, and it fits if there is room. -/
theorem statusPdu_spec (hR : SequenceNumber10.Denotes B R s.m_vrR)
    (hM : SequenceNumber10.Denotes B M s.m_vrMs) (hle : R ≤ M) (hMR : M ≤ R + 512)
    (hbytes : 4 ≤ bytes) :
    ∃ rlcAmHeader, s.statusPdu bytes = some rlcAmHeader ∧ s.Truthful rlcAmHeader ∧
      ((addHeader rlcAmHeader.getSerializedSize rlcAmHeader.serialize []).length ≤ bytes ↔
        s.HasRoom bytes) := by
  obtain ⟨N, sn, hnack, hN, hRN, hNM, hend, hall⟩ :=
    nackLoop_spec (l := []) bytes hM hR hle (show M - R < 1025 by omega)
      (by rw [List.length_nil]; omega)
  obtain ⟨A, ackSn, hack, hA, hNA, hAM, hAend, hAall⟩ :=
    ackLoop_spec hM hN hNM (show M - N < 1025 by omega)
  rw [List.nil_append] at hnack hend hall
  have hstatus : s.statusPdu bytes =
      some (LteRlcAmHeader.statusHeader 0 (A % 1024) (s.missing R N)) := by
    rw [statusPdu, ← withNacks_nil, hnack]
    dsimp only [Option.bind_eq_bind, Option.bind_some]
    rw [hack, Option.bind_some, SequenceNumber10.le_eq hA hM, decide_eq_true hAM, Option.bind_some,
      if_pos rfl, setAckSn_withNacks, hA.value]
  have hdist : ∀ K, R ≤ K → K ≤ M → distance s.m_vrR.m_value (K % 1024) = K - R := by
    intro K hRK hKM
    rw [hR.value, distance_eq hRK (by omega)]
  refine ⟨_, hstatus, ?_, ?_⟩
  · rw [LteRlcAmHeader.statusHeader_eq, Nat.mod_mod]
    refine ⟨fun v hv ↦ ?_, fun v hv hlt hnot ↦ ?_, ?_⟩
    · obtain ⟨⟨K, hRK, hKN, rfl⟩, hrec⟩ := mem_missing.mp hv
      rw [hdist K hRK (by omega), hM.value, hdist M hle le_rfl]
      exact ⟨Nat.mod_lt _ (by decide), by omega, hrec⟩
    · obtain ⟨K, hRK, hKlt, rfl⟩ := exists_mod_eq R hv
      change distance _ _ < distance _ (A % 1024) at hlt
      rw [hR.value, distance_eq hRK hKlt, distance_eq (by omega) (by omega)] at hlt
      by_cases hKN : K < N
      · by_contra hrec
        exact hnot (mem_missing.mpr ⟨⟨K, hRK, hKN, rfl⟩, Bool.not_eq_true _ ▸ hrec⟩)
      · exact hAall K (not_lt.mp hKN) (by omega)
    · change A % 1024 = _ ∨ A % 1024 < 1024 ∧ distance _ (A % 1024) < _ ∧ _ ∧ A % 1024 ∉ s.missing R N
      rw [hM.value, hdist A (by omega) hAM, hdist M hle le_rfl]
      rcases hAend with rfl | hrec
      · exact Or.inl rfl
      rcases Nat.eq_or_lt_of_le hAM with rfl | hlt
      · exact Or.inl rfl
      refine Or.inr ⟨Nat.mod_lt _ (by decide), by omega, hrec, fun hmem ↦ ?_⟩
      obtain ⟨⟨K, hRK, hKN, heq⟩, -⟩ := mem_missing.mp hmem
      omega
  · have hlen : (s.missing R N).length ≤ 512 := length_missing_le.trans (by omega)
    have hoctets := octets_le (s.missing R N)
    have hsize : (LteRlcAmHeader.statusHeader 0 (A % 1024) (s.missing R N)).getSerializedSize =
        2 + octets (s.missing R N) := by
      rw [LteRlcAmHeader.statusHeader_eq]
      exact Nat.mod_eq_of_lt (by omega)
    rw [addHeader_eq (by rw [hsize, LteRlcAmHeader.length_serialize_statusHeader]), List.append_nil,
      LteRlcAmHeader.length_serialize_statusHeader, LteRlcAmHeader.octets_eq, HasRoom,
      missingSn_eq hR hM hle]
    refine size_le_iff hbytes (length_missing_mono hNM) ?_ fun k hk ↦ hall k (Nat.zero_le k) hk
    rcases hend with rfl | hend
    · exact Or.inl rfl
    · exact Or.inr hend

end Size

/-! ## What the state stands for -/

section Invariant

variable {s s' : Receiver} {R M H X n first : ℕ} {seqNumber sn : SequenceNumber10}

/-- VR(R) stands for `R`, VR(MS) for `M` and VR(H) for `H`, and what is in the buffer is between VR(R)
and VR(H). All numbers are compared relative to VR(R). -/
structure Tracks (s : Receiver) (R M H : ℕ) : Prop where
  vrR : SequenceNumber10.Denotes R R s.m_vrR
  vrMs : SequenceNumber10.Denotes R M s.m_vrMs
  vrH : SequenceNumber10.Denotes R H s.m_vrH
  vrMr : s.m_vrMr.m_value = (R + 512) % 1024
  le : M ≤ H
  le_add : H ≤ R + 512
  buffer : ∀ v it, s.m_rxonBuffer v = some it → (∃ K, R ≤ K ∧ K < H ∧ v = K % 1024) ∧
    it.m_pduComplete = true ∧ it.m_byteSegments.length = 1
  bufferSize : s.m_statusPduBufferSize ≤ 4

/-- VR(X) is between VR(R) and VR(H) while the timer is running. -/
def Timed (s : Receiver) (R H : ℕ) : Prop :=
  s.m_reorderingTimer = true → ∃ X, R < X ∧ X ≤ H ∧ SequenceNumber10.Denotes R X s.m_vrX

theorem received_iff {v : ℕ} : s.received v = true ↔
    ∃ it, s.m_rxonBuffer v = some it ∧ it.m_pduComplete = true := by
  rw [received, Option.any_eq_true]

theorem Tracks.notReceived (h : Tracks s R M H) : s.received (H % 1024) = false := by
  rw [Bool.eq_false_iff]
  intro hrec
  obtain ⟨it, hit, -⟩ := received_iff.mp hrec
  obtain ⟨⟨K, hRK, hKH, hK⟩, -⟩ := h.buffer _ _ hit
  have hadd := h.le_add
  omega

theorem isInsideReceivingWindow_eq (hR : SequenceNumber10.Denotes R R s.m_vrR)
    (hMr : s.m_vrMr.m_value = (R + 512) % 1024) (hn : seqNumber.m_value = n % 1024) (hle : R ≤ n)
    (hlt : n < R + 1024) : ∃ vrMr, s.isInsideReceivingWindow seqNumber =
      some ({ s with m_vrMr := vrMr }, decide (n < R + 512)) ∧
        vrMr.m_value = (R + 512) % 1024 := by
  have hself : s.m_vrR.setModulusBase s.m_vrR = s.m_vrR := by
    rw [SequenceNumber10.setModulusBase, hR.value.trans hR.base.symm]
    exact congrArg (SequenceNumber10.mk · _) (hR.value.trans hR.base.symm).symm
  have hdn : SequenceNumber10.Denotes R n (seqNumber.setModulusBase s.m_vrR) :=
    ⟨hn, hR.value, hle, hlt⟩
  have hdMr : SequenceNumber10.Denotes R (R + 512) (s.m_vrMr.setModulusBase s.m_vrR) :=
    ⟨hMr, hR.value, by omega, by omega⟩
  refine ⟨s.m_vrMr.setModulusBase s.m_vrR, ?_, hMr⟩
  rw [isInsideReceivingWindow]
  dsimp only
  rw [hself, SequenceNumber10.le_eq hR hdn, decide_eq_true hle, SequenceNumber10.lt_eq hdn hdMr]
  rfl

/-- **VR(MS)** is moved to the first number that has not been received. -/
theorem vrMsLoop_spec {B : ℕ} (hHfirst : H < first + 1024) (hHB : H < B + 1024) :
    ∀ {fuel M : ℕ} {s : Receiver}, first ≤ M → M ≤ H → SequenceNumber10.Denotes B M s.m_vrMs →
      s.received (H % 1024) = false → H - M < fuel →
      ∃ M' vrMs, vrMsLoop (first % 1024) fuel s = some { s with m_vrMs := vrMs } ∧
        SequenceNumber10.Denotes B M' vrMs ∧ M ≤ M' ∧ M' ≤ H ∧ s.received (M' % 1024) = false := by
  intro fuel
  induction fuel with
  | zero => exact fun _ _ _ _ h ↦ absurd h (Nat.not_lt_zero _)
  | succ fuel ih =>
    intro M s hfirst hMH hM hHrec hfuel
    rw [vrMsLoop, hM.value]
    by_cases hrec : s.received (M % 1024) = true
    · have hne : M ≠ H := fun h ↦ by
        rw [h, hHrec] at hrec
        exact Bool.false_ne_true hrec
      have hnext : SequenceNumber10.Denotes B (M + 1) s.m_vrMs.next := hM.next (by omega)
      obtain ⟨M', vrMs, hres, hM', hle, hle', hrec'⟩ := ih (s := { s with m_vrMs := s.m_vrMs.next })
        (M := M + 1) (by omega) (by omega) hnext hHrec (by omega)
      refine ⟨M', vrMs, ?_, hM', by omega, hle', hrec'⟩
      rw [if_pos hrec]
      dsimp only
      rw [hnext.value, if_pos (by omega), hres]
    · rw [if_neg hrec]
      exact ⟨M, s.m_vrMs, rfl, hM, le_rfl, hMH, Bool.not_eq_true _ ▸ hrec⟩

/-- VR(MR) is updated. -/
def setVrMr (s : Receiver) : Receiver := { s with m_vrMr := s.m_vrR.add m_windowSize }

theorem setVrMr_rxonBuffer (s : Receiver) : s.setVrMr.m_rxonBuffer = s.m_rxonBuffer := by
  rw [setVrMr]

theorem setVrMr_vrR (s : Receiver) : s.setVrMr.m_vrR = s.m_vrR := by rw [setVrMr]

theorem add_windowSize_value (hsn : sn.m_value = R % 1024) :
    (sn.add m_windowSize).m_value = (R + 512) % 1024 := by
  rw [SequenceNumber10.add, hsn, m_windowSize, Nat.mod_add_mod]

theorem Tracks.setVrMr (h : Tracks s R M H) : Tracks s.setVrMr R M H := by
  have hvrMr := add_windowSize_value h.vrR.value
  unfold Receiver.setVrMr
  exact ⟨h.vrR, h.vrMs, h.vrH, hvrMr, h.le, h.le_add, h.buffer, h.bufferSize⟩

theorem Tracks.deliver (it : PduBuffer) (h : Tracks s.setVrMr R M H) (hRM : R < M) :
    Tracks (s.deliver it).setVrMr (R + 1) M H := by
  have hle := h.le
  have hadd := h.le_add
  have hvrR : s.m_vrR.m_value = R % 1024 := h.vrR.value
  have hnext : s.m_vrR.next.m_value = (R + 1) % 1024 := by
    rw [SequenceNumber10.next, hvrR, Nat.mod_add_mod]
  refine ⟨⟨hnext, hnext, le_rfl, by omega⟩, ⟨h.vrMs.value, hnext, by omega, by omega⟩,
    ⟨h.vrH.value, hnext, by omega, by omega⟩, add_windowSize_value hnext, hle, by omega,
    fun v it' hit ↦ ?_, h.bufferSize⟩
  · change Function.update s.m_rxonBuffer s.m_vrR.m_value none v = some it' at hit
    by_cases hv : v = s.m_vrR.m_value
    · rw [hv, Function.update_self] at hit
      exact absurd hit.symm (Option.some_ne_none it')
    · rw [Function.update_of_ne hv] at hit
      obtain ⟨⟨K, hRK, hKH, rfl⟩, hit'⟩ := h.buffer v it' hit
      rw [hvrR] at hv
      exact ⟨⟨K, lt_of_le_of_ne hRK fun heq ↦ hv (heq ▸ rfl), hKH, rfl⟩, hit'⟩

theorem received_deliver_le {it : PduBuffer} {v : ℕ} (h : s.received v = false) :
    (s.deliver it).received v = false := by
  change (Function.update s.m_rxonBuffer s.m_vrR.m_value none v).any _ = false
  by_cases hv : v = s.m_vrR.m_value
  · rw [hv, Function.update_self]
    rfl
  · rw [Function.update_of_ne hv]
    exact h

/-- **VR(R)** is moved to the first number that has not been received, which is at most VR(MS). -/
theorem vrRLoop_spec (hMfirst : M < first + 1024) : ∀ {fuel R : ℕ} {s : Receiver},
    Tracks s.setVrMr R M H → s.received (M % 1024) = false → first ≤ R →
    (s.m_reorderingTimer = true → s.m_vrX.m_modulusBase = R % 1024) → M - R < fuel →
    ∃ s' R', vrRLoop (first % 1024) fuel s = some s' ∧ Tracks s' R' M H ∧ R ≤ R' ∧
      s'.m_reorderingTimer = s.m_reorderingTimer ∧ s'.m_vrX.m_value = s.m_vrX.m_value ∧
      (s'.m_reorderingTimer = true → s'.m_vrX.m_modulusBase = R' % 1024) := by
  intro fuel
  induction fuel with
  | zero => exact fun _ _ _ _ h ↦ absurd h (Nat.not_lt_zero _)
  | succ fuel ih =>
    intro R s h hMrec hfirst hX hfuel
    rw [vrRLoop]
    cases hit : s.m_rxonBuffer s.m_vrR.m_value with
    | none =>
      rw [setVrMr] at h
      exact ⟨_, R, rfl, h, le_rfl, rfl, rfl, hX⟩
    | some it =>
      have hvrR := h.vrR.value
      rw [setVrMr_vrR] at hvrR
      have hbuffer := h.buffer
      rw [setVrMr_rxonBuffer] at hbuffer
      obtain ⟨-, hcomplete, hlength⟩ := hbuffer _ it hit
      have hRM : R < M := by
        refine lt_of_le_of_ne h.vrMs.le fun heq ↦ ?_
        have hrec : s.received (M % 1024) = true :=
          received_iff.mpr ⟨it, by rw [← heq, ← hvrR]; exact hit, hcomplete⟩
        rw [hMrec] at hrec
        exact Bool.false_ne_true hrec
      have hnext := (h.deliver it hRM).vrR.value
      rw [setVrMr_vrR] at hnext
      have hbase : (s.deliver it).m_vrX.m_modulusBase = (R + 1) % 1024 := by rw [← hnext, deliver]; rfl
      obtain ⟨s', R', hres, ht', hle, htimer, hvrX, hbase⟩ := ih (s := s.deliver it) (h.deliver it hRM)
        (received_deliver_le hMrec) (by omega) (fun _ ↦ hbase) (by omega)
      refine ⟨s', R', ?_, ht', by omega, htimer, hvrX, hbase⟩
      dsimp only
      rw [if_pos hcomplete, if_pos hlength, hnext, if_pos (by omega), hres]

/-! ## The timer -/

theorem startTimer_spec (h : Tracks s R M H) (hn : SequenceNumber10.Denotes R n sn)
    (hs : s.m_reorderingTimer = false) :
    ∃ s', s.startTimer sn = some s' ∧ Tracks s' R M H ∧ Timed s' R H := by
  rw [startTimer, SequenceNumber10.gt_eq h.vrH hn]
  by_cases hlt : n < H
  · rw [decide_eq_true hlt]
    refine ⟨_, rfl, ⟨h.vrR, h.vrMs, h.vrH, h.vrMr, h.le, h.le_add, h.buffer, h.bufferSize⟩,
      fun _ ↦ ⟨H, ?_, le_rfl, h.vrH⟩⟩
    have hRn := hn.le
    omega
  · rw [decide_eq_false hlt]
    exact ⟨s, rfl, h, fun hr ↦ by
      rw [hs] at hr
      exact Bool.noConfusion hr⟩

theorem stopTimer_spec (h : Tracks s R M H)
    (hX : s.m_reorderingTimer = true → s.m_vrX.m_modulusBase = R % 1024 ∧
      ∃ X, s.m_vrX.m_value = X % 1024 ∧ X ≤ H ∧ R < X + 512) :
    ∃ s', s.stopTimer = some s' ∧ Tracks s' R M H ∧ Timed s' R H ∧
      s'.m_vrR = s.m_vrR := by
  have hadd := h.le_add
  rw [stopTimer]
  by_cases hr : s.m_reorderingTimer = true
  swap
  · rw [if_neg hr]
    exact ⟨s, rfl, h, fun hr' ↦ absurd hr' hr, rfl⟩
  obtain ⟨hbase, X, hvrX, hXH, hRX⟩ := hX hr
  have hstopped : ∀ vrMr : SequenceNumber10, vrMr.m_value = (R + 512) % 1024 →
      Tracks { s with m_vrMr := vrMr, m_reorderingTimer := false } R M H ∧
        Timed { s with m_vrMr := vrMr, m_reorderingTimer := false } R H := fun vrMr hvrMr ↦
    ⟨⟨h.vrR, h.vrMs, h.vrH, hvrMr, h.le, h.le_add, h.buffer, h.bufferSize⟩, Bool.noConfusion⟩
  rw [if_pos hr, hvrX, h.vrR.value]
  by_cases hself : X % 1024 = R % 1024
  · rw [if_pos hself]
    exact ⟨_, rfl, (hstopped _ h.vrMr).1, (hstopped _ h.vrMr).2, rfl⟩
  -- if VR(X) is below VR(R), it is taken for a number that is 1024 larger
  obtain ⟨Y, hY, hYX⟩ : ∃ Y, SequenceNumber10.Denotes R Y s.m_vrX ∧
      (Y = X ∨ Y = X + 1024 ∧ R + 512 < Y) := by
    by_cases hle : R ≤ X
    · exact ⟨X, ⟨hvrX, hbase, hle, by omega⟩, Or.inl rfl⟩
    · exact ⟨X + 1024, ⟨by rw [Nat.add_mod_right]; exact hvrX, hbase, by omega, by omega⟩,
        Or.inr ⟨rfl, by omega⟩⟩
  have hYle := hY.le
  have hYlt := hY.lt
  obtain ⟨vrMr, hres, hvrMr⟩ := isInsideReceivingWindow_eq h.vrR h.vrMr hY.value hYle hYlt
  rw [if_neg hself, hres]
  dsimp only [Option.bind_eq_bind, Option.bind_some]
  rw [hvrMr, hvrX]
  by_cases hstop : (!decide (Y < R + 512) && decide (X % 1024 ≠ (R + 512) % 1024)) = true
  · rw [if_pos hstop]
    exact ⟨_, rfl, (hstopped _ hvrMr).1, (hstopped _ hvrMr).2, rfl⟩
  · rw [if_neg hstop]
    refine ⟨_, rfl, ⟨h.vrR, h.vrMs, h.vrH, hvrMr, h.le, h.le_add, h.buffer, h.bufferSize⟩,
      fun _ ↦ ⟨Y, ?_, ?_, hY⟩, rfl⟩
    · omega
    · simp only [Bool.and_eq_true, Bool.not_eq_true', decide_eq_false_iff_not, decide_eq_true_iff,
        not_and_or, not_not] at hstop
      omega

end Invariant

/-! ## Steps -/

section Step

variable {s s' : Receiver} {R M H X : ℕ} {seqNumber : SequenceNumber10} {p : List UInt8}
  {rlcAmHeader : LteRlcAmHeader}

theorem Tracks.requestStatusPdu (rlcAmHeader : LteRlcAmHeader) (h : Tracks s R M H)
    (ht : Timed s R H) :
    Tracks (s.requestStatusPdu rlcAmHeader) R M H ∧ Timed (s.requestStatusPdu rlcAmHeader) R H := by
  rw [Receiver.requestStatusPdu]
  split_ifs
  · exact ⟨⟨h.vrR, h.vrMs, h.vrH, h.vrMr, h.le, h.le_add, h.buffer, le_rfl⟩, ht⟩
  · exact ⟨h, ht⟩

/-- **A PDU is placed in the buffer**, and VR(H) is above it. -/
theorem place_spec (h : Tracks s R M H) (hX : SequenceNumber10.Denotes R X seqNumber)
    (hlt : X < R + 512) :
    ∃ s₁ s₂, s.place (X % 1024) p = some s₁ ∧ s₁.updateVrH seqNumber = some s₂ ∧
      Tracks s₂ R M (max H (X + 1)) ∧ s₂.m_reorderingTimer = s.m_reorderingTimer ∧
      s₂.m_vrX = s.m_vrX := by
  have hle := h.le
  have hadd := h.le_add
  have hRX := hX.le
  obtain ⟨buffer, hplace, hbuffer⟩ : ∃ buffer,
      s.place (X % 1024) p = some { s with m_rxonBuffer := buffer } ∧
        ∀ v it, buffer v = some it → (∃ K, R ≤ K ∧ K < max H (X + 1) ∧ v = K % 1024) ∧
          it.m_pduComplete = true ∧ it.m_byteSegments.length = 1 := by
    have hold : ∀ v it, s.m_rxonBuffer v = some it →
        (∃ K, R ≤ K ∧ K < max H (X + 1) ∧ v = K % 1024) ∧
          it.m_pduComplete = true ∧ it.m_byteSegments.length = 1 := by
      intro v it hit
      obtain ⟨⟨K, hRK, hKH, rfl⟩, hit'⟩ := h.buffer v it hit
      exact ⟨⟨K, hRK, lt_max_of_lt_left hKH, rfl⟩, hit'⟩
    rw [place]
    cases hit : s.m_rxonBuffer (X % 1024) with
    | some it =>
      dsimp only
      rw [if_pos (h.buffer _ it hit).2.2]
      exact ⟨s.m_rxonBuffer, rfl, hold⟩
    | none =>
      refine ⟨_, rfl, fun v it hv ↦ ?_⟩
      by_cases hvX : v = X % 1024
      · rw [hvX, Function.update_self, Option.some_inj] at hv
        rw [← hv]
        exact ⟨⟨X, hRX, lt_max_of_lt_right (Nat.lt_succ_self X), hvX⟩, rfl, rfl⟩
      · rw [Function.update_of_ne hvX] at hv
        exact hold v it hv
  refine ⟨{ s with m_rxonBuffer := buffer }, ?_⟩
  rw [hplace, updateVrH]
  dsimp only
  rw [SequenceNumber10.ge_eq hX h.vrH]
  by_cases hHX : H ≤ X
  · have hmax : max H (X + 1) = X + 1 := max_eq_right (by omega)
    rw [decide_eq_true hHX]
    rw [hmax] at hbuffer ⊢
    exact ⟨_, rfl, rfl, ⟨h.vrR, h.vrMs, hX.add (by omega), h.vrMr, by omega, by omega, hbuffer,
      h.bufferSize⟩, rfl, rfl⟩
  · have hmax : max H (X + 1) = H := max_eq_left (by omega)
    rw [decide_eq_false hHX]
    rw [hmax] at hbuffer ⊢
    exact ⟨_, rfl, rfl, ⟨h.vrR, h.vrMs, h.vrH, h.vrMr, hle, hadd, hbuffer, h.bufferSize⟩, rfl, rfl⟩

theorem updateVrMs_updateVrR_spec (seqNumber : SequenceNumber10) (h : Tracks s R M H)
    (hbase : s.m_reorderingTimer = true → s.m_vrX.m_modulusBase = R % 1024) :
    ∃ s₁ s₂ R' M', vrMsLoop s.m_vrMs.m_value 1025 s = some s₁ ∧ s₁.updateVrR seqNumber = some s₂ ∧
      Tracks s₂ R' M' H ∧ R ≤ R' ∧ s₂.m_reorderingTimer = s.m_reorderingTimer ∧
      s₂.m_vrX.m_value = s.m_vrX.m_value ∧
      (s₂.m_reorderingTimer = true → s₂.m_vrX.m_modulusBase = R' % 1024) := by
  have hRM := h.vrMs.le
  have hadd := h.le_add
  obtain ⟨M', vrMs, hms, hM', hMM', hM'H, hrec⟩ := vrMsLoop_spec (H := H) (B := R)
    (by omega : H < M + 1024) (by omega) le_rfl h.le h.vrMs h.notReceived
    (show H - M < 1025 by omega)
  rw [← h.vrMs.value] at hms
  have ht : Tracks { s with m_vrMs := vrMs } R M' H :=
    ⟨h.vrR, hM', h.vrH, h.vrMr, hM'H, hadd, h.buffer, h.bufferSize⟩
  refine ⟨{ s with m_vrMs := vrMs }, ?_⟩
  rw [updateVrR]
  by_cases hfirst : seqNumber.m_value = s.m_vrR.m_value ∧
      ({ s with m_vrMs := vrMs } : Receiver).received seqNumber.m_value
  · obtain ⟨s', R', hres, ht', hle, htimer, hvrX, hbase'⟩ := vrRLoop_spec
      (by omega : M' < R + 1024) ht.setVrMr hrec le_rfl hbase (show M' - R < 1025 by omega)
    refine ⟨s', R', M', hms, ?_, ht', hle, htimer, hvrX, hbase'⟩
    rw [if_pos hfirst]
    dsimp only
    rw [h.vrR.value, hres]
  · exact ⟨_, R, M', hms, if_neg hfirst, ht, le_rfl, rfl, rfl, hbase⟩

theorem receiveDataPdu_of_stages {s₀ s₁ s₂ s₃ s₄ s₅ s₆ : Receiver}
    (hflag : rlcAmHeader.m_resegmentationFlag = SEGMENT ∨ rlcAmHeader.m_resegmentationFlag = PDU)
    (hseq : seqNumber =
      (SequenceNumber10.ofValue rlcAmHeader.m_sequenceNumber).setModulusBase s.m_vrR)
    (h₀ : (s.requestStatusPdu rlcAmHeader).isInsideReceivingWindow seqNumber = some (s₀, true))
    (h₁ : s₀.place seqNumber.m_value p = some s₁) (h₂ : s₁.updateVrH seqNumber = some s₂)
    (h₃ : vrMsLoop s₂.m_vrMs.m_value 1025 s₂ = some s₃) (h₄ : s₃.updateVrR seqNumber = some s₄)
    (h₅ : s₄.stopTimer = some s₅)
    (h₆ : (if s₅.m_reorderingTimer then some s₅ else s₅.startTimer s₅.m_vrR) = some s₆) :
    s.receiveDataPdu rlcAmHeader p = some s₆ := by
  have hflag' : ¬(rlcAmHeader.m_resegmentationFlag ≠ SEGMENT ∧
      rlcAmHeader.m_resegmentationFlag ≠ PDU) := by tauto
  rw [receiveDataPdu, if_neg hflag', ← hseq]
  dsimp only
  rw [h₀]
  dsimp only [Option.bind_eq_bind, Option.bind_some]
  rw [Bool.not_true, if_neg Bool.false_ne_true, h₁, Option.bind_some, h₂, Option.bind_some, h₃,
    Option.bind_some, h₄, Option.bind_some, h₅, Option.bind_some, h₆]

/-- **A data PDU is received.** -/
theorem receiveDataPdu_spec (p : List UInt8) (h : Tracks s R M H) (ht : Timed s R H)
    (hflag : rlcAmHeader.m_resegmentationFlag = SEGMENT ∨ rlcAmHeader.m_resegmentationFlag = PDU) :
    ∃ s' R' M' H', s.receiveDataPdu rlcAmHeader p = some s' ∧ Tracks s' R' M' H' ∧
      Timed s' R' H' := by
  have hadd := h.le_add
  obtain ⟨h₀, ht₀⟩ := h.requestStatusPdu rlcAmHeader ht
  obtain ⟨X, hRX, hXlt, hXv⟩ := exists_mod_eq R
    (Nat.mod_lt rlcAmHeader.m_sequenceNumber (by decide : 0 < 1024))
  obtain ⟨seqNumber, hseq⟩ : ∃ seqNumber, seqNumber =
    (SequenceNumber10.ofValue rlcAmHeader.m_sequenceNumber).setModulusBase s.m_vrR := ⟨_, rfl⟩
  have hX : SequenceNumber10.Denotes R X seqNumber := by
    rw [hseq]
    exact ⟨hXv, h.vrR.value, hRX, hXlt⟩
  obtain ⟨vrMr, hin, hvrMr⟩ := isInsideReceivingWindow_eq h₀.vrR h₀.vrMr hX.value hRX hXlt
  have hw : Tracks { s.requestStatusPdu rlcAmHeader with m_vrMr := vrMr } R M H :=
    ⟨h₀.vrR, h₀.vrMs, h₀.vrH, hvrMr, h₀.le, h₀.le_add, h₀.buffer, h₀.bufferSize⟩
  by_cases hinside : X < R + 512
  swap
  · rw [decide_eq_false hinside] at hin
    have hres : s.receiveDataPdu rlcAmHeader p =
        some { s.requestStatusPdu rlcAmHeader with m_vrMr := vrMr } := by
      have hflag' : ¬(rlcAmHeader.m_resegmentationFlag ≠ SEGMENT ∧
          rlcAmHeader.m_resegmentationFlag ≠ PDU) := by tauto
      rw [receiveDataPdu, if_neg hflag', ← hseq]
      dsimp only
      rw [hin]
      rfl
    exact ⟨_, R, M, H, hres, hw, ht₀⟩
  rw [decide_eq_true hinside] at hin
  obtain ⟨s₁, s₂, h₁, h₂, htracks₂, htimer₂, hvrX₂⟩ := place_spec (p := p) hw hX hinside
  have hbase : s₂.m_reorderingTimer = true → s₂.m_vrX.m_modulusBase = R % 1024 := by
    intro hr
    obtain ⟨Y, -, -, hY⟩ := ht₀ (htimer₂ ▸ hr)
    rw [hvrX₂]
    exact hY.base
  obtain ⟨s₃, s₄, R', M', h₃, h₄, htracks₄, hRR', htimer₄, hvrX₄, hbase₄⟩ :=
    updateVrMs_updateVrR_spec seqNumber htracks₂ hbase
  have hadd₄ := htracks₂.le_add
  have hle₄ := htracks₄.le
  have hR'M' := htracks₄.vrMs.le
  obtain ⟨s₅, h₅, htracks₅, htimed₅, hvrR₅⟩ := stopTimer_spec htracks₄ fun hr ↦ by
    obtain ⟨Y, hRY, hYH, hY⟩ := ht₀ (htimer₂ ▸ htimer₄ ▸ hr)
    refine ⟨hbase₄ hr, Y, ?_, by omega, by omega⟩
    rw [hvrX₄, hvrX₂]
    exact hY.value
  by_cases hr : s₅.m_reorderingTimer = true
  · exact ⟨s₅, R', M', _, receiveDataPdu_of_stages hflag hseq hin (hX.value ▸ h₁) h₂ h₃ h₄ h₅
      (if_pos hr), htracks₅, htimed₅⟩
  · obtain ⟨s₆, h₆, htracks₆, htimed₆⟩ := startTimer_spec htracks₅ htracks₅.vrR
      (Bool.not_eq_true _ ▸ hr)
    exact ⟨s₆, R', M', _, receiveDataPdu_of_stages hflag hseq hin (hX.value ▸ h₁) h₂ h₃ h₄ h₅
      ((if_neg hr).trans h₆), htracks₆, htimed₆⟩

/-- **The reordering timer expires.** -/
theorem expireReorderingTimer_spec (h : Tracks s R M H) (ht : Timed s R H)
    (hr : s.m_reorderingTimer = true) :
    ∃ s' M', s.expireReorderingTimer = some s' ∧ Tracks s' R M' H ∧ Timed s' R H := by
  obtain ⟨X, hRX, hXH, hX⟩ := ht hr
  have hadd := h.le_add
  obtain ⟨M', vrMs, hms, hM', hXM', hM'H, hrec⟩ := vrMsLoop_spec (H := H) (B := R)
    (s := { s with m_reorderingTimer := false, m_vrMs := s.m_vrX })
    (by omega : H < X + 1024) (by omega) le_rfl hXH hX h.notReceived (show H - X < 1025 by omega)
  rw [← hX.value] at hms
  obtain ⟨s', hs', htracks, htimed⟩ := startTimer_spec
    (s := { s with m_reorderingTimer := false, m_vrMs := vrMs })
    ⟨h.vrR, hM', h.vrH, h.vrMr, hM'H, hadd, h.buffer, h.bufferSize⟩ hM' rfl
  refine ⟨{ s' with m_statusPduRequested := true }, M', ?_,
    ⟨htracks.vrR, htracks.vrMs, htracks.vrH, htracks.vrMr, htracks.le, htracks.le_add,
      htracks.buffer, htracks.bufferSize⟩, htimed⟩
  rw [expireReorderingTimer]
  dsimp only
  rw [hms, Option.bind_eq_bind, Option.bind_some, hs']
  rfl

end Step

/-! ## Runs -/

section Runs

variable {s s' : Receiver} {R M H bytes : ℕ} {rlcAmHeader : LteRlcAmHeader}

/-- What happens to a receiver. -/
inductive Event
  | receive (rlcAmHeader : LteRlcAmHeader) (p : List UInt8)
  | expireReordering
  | expireStatusProhibit
  | opportunity (bytes : ℕ)
  deriving DecidableEq

/-- What a receiver does. A timer expires only if it is running. -/
def step (s : Receiver) : Event → Option Receiver
  | .receive rlcAmHeader p => s.receiveDataPdu rlcAmHeader p
  | .expireReordering => if s.m_reorderingTimer then s.expireReorderingTimer else none
  | .expireStatusProhibit => if s.m_statusProhibitTimer then some s.expireStatusProhibitTimer else none
  | .opportunity bytes => (s.doNotifyTxOpportunity bytes).map Prod.fst

/-- A receiver. -/
def machine : Machine Receiver Event := ⟨create, step⟩

/-- The state is that of some numbers. -/
def Tracked (s : Receiver) : Prop := ∃ R M H, Tracks s R M H ∧ Timed s R H

theorem tracked_create : create.Tracked :=
  ⟨0, 0, 0, ⟨⟨rfl, rfl, le_rfl, by decide⟩, ⟨rfl, rfl, le_rfl, by decide⟩,
    ⟨rfl, rfl, le_rfl, by decide⟩, rfl, le_rfl, Nat.zero_le _, fun _ _ h ↦
      absurd h.symm (Option.some_ne_none _), Nat.zero_le _⟩, Bool.noConfusion⟩

/-- **A transmission opportunity.** -/
theorem doNotifyTxOpportunity_spec (h : s.Tracked) (hsends : s.SendsStatusPdu) (hbytes : 4 ≤ bytes) :
    ∃ s' rlcAmHeader packet, s.doNotifyTxOpportunity bytes = some (s', some (rlcAmHeader, packet)) ∧
      s'.Tracked ∧ s.Truthful rlcAmHeader ∧ (packet.length ≤ bytes ↔ s.HasRoom bytes) := by
  obtain ⟨R, M, H, htracks, htimed⟩ := h
  have hle := htracks.le
  have hadd := htracks.le_add
  obtain ⟨rlcAmHeader, hpdu, htrue, hfits⟩ := statusPdu_spec htracks.vrR htracks.vrMs
    htracks.vrMs.le (hle.trans hadd) hbytes
  refine ⟨{ s with
    m_statusPduRequested := false
    m_statusPduBufferSize := 0
    m_statusProhibitTimer := true }, rlcAmHeader, _, ?_, ⟨R, M, H, ⟨htracks.vrR, htracks.vrMs,
    htracks.vrH, htracks.vrMr, hle, hadd, htracks.buffer, Nat.zero_le _⟩, htimed⟩, htrue, hfits⟩
  have hsize := htracks.bufferSize
  rw [doNotifyTxOpportunity, if_neg (by omega), if_pos hsends, if_neg (by omega), hpdu]
  rfl

theorem Tracked.step {e : Event} (h : s.Tracked) (hs : machine.next s e = some s') : s'.Tracked := by
  change s.step e = some s' at hs
  cases e with
  | receive rlcAmHeader p =>
    obtain ⟨R, M, H, htracks, htimed⟩ := h
    by_cases hflag : rlcAmHeader.m_resegmentationFlag = SEGMENT ∨
        rlcAmHeader.m_resegmentationFlag = PDU
    · obtain ⟨t, R', M', H', ht, h'⟩ := receiveDataPdu_spec p htracks htimed hflag
      exact Option.some.inj (ht.symm.trans hs) ▸ ⟨R', M', H', h'⟩
    · rw [Receiver.step, receiveDataPdu, if_pos (not_or.mp hflag)] at hs
      exact absurd hs.symm (Option.some_ne_none s')
  | expireReordering =>
    obtain ⟨R, M, H, htracks, htimed⟩ := h
    rw [Receiver.step] at hs
    by_cases hr : s.m_reorderingTimer = true
    · rw [if_pos hr] at hs
      obtain ⟨t, M', ht, h'⟩ := expireReorderingTimer_spec htracks htimed hr
      exact Option.some.inj (ht.symm.trans hs) ▸ ⟨R, M', H, h'⟩
    · rw [if_neg hr] at hs
      exact absurd hs.symm (Option.some_ne_none s')
  | expireStatusProhibit =>
    obtain ⟨R, M, H, htracks, htimed⟩ := h
    rw [Receiver.step] at hs
    by_cases hr : s.m_statusProhibitTimer = true
    · rw [if_pos hr, Option.some_inj] at hs
      rw [← hs]
      exact ⟨R, M, H, ⟨htracks.vrR, htracks.vrMs, htracks.vrH, htracks.vrMr, htracks.le,
        htracks.le_add, htracks.buffer, htracks.bufferSize⟩, htimed⟩
    · rw [if_neg hr] at hs
      exact absurd hs.symm (Option.some_ne_none s')
  | opportunity bytes =>
    rw [Receiver.step, Option.map_eq_some_iff] at hs
    obtain ⟨⟨t, pdu⟩, ht, rfl⟩ := hs
    by_cases hbytes : bytes < 4
    · rw [doNotifyTxOpportunity, if_pos hbytes] at ht
      exact absurd ht.symm (Option.some_ne_none _)
    by_cases hsends : s.SendsStatusPdu
    · obtain ⟨t', _, _, ht', h', -⟩ := doNotifyTxOpportunity_spec h hsends (not_lt.mp hbytes)
      rw [ht', Option.some_inj, Prod.mk.injEq] at ht
      exact ht.1 ▸ h'
    · rw [doNotifyTxOpportunity, if_neg hbytes, if_neg hsends, Option.some_inj, Prod.mk.injEq] at ht
      exact ht.1 ▸ h

/-- **The STATUS PDU**, in every state that can be reached: what it says is true, and it fits into the
opportunity if and only if there is room. -/
theorem statusPdu_fits_iff {es : List Event} (hr : machine.Run Machine.unguarded es s)
    (hsends : s.SendsStatusPdu) (hbytes : 4 ≤ bytes) :
    ∃ s' rlcAmHeader packet, s.doNotifyTxOpportunity bytes = some (s', some (rlcAmHeader, packet)) ∧
      s.Truthful rlcAmHeader ∧
      (packet.length ≤ bytes ∧ s.Truthful rlcAmHeader ↔ s.HasRoom bytes) := by
  have h : s.Tracked := hr.invariant (I := Tracked) tracked_create fun _ _ _ hI _ hs ↦ hI.step hs
  obtain ⟨s', rlcAmHeader, packet, hres, -, htrue, hfits⟩ := doNotifyTxOpportunity_spec h hsends hbytes
  exact ⟨s', rlcAmHeader, packet, hres, htrue, (and_iff_left htrue).trans hfits⟩

/-- The header of a data PDU that polls. -/
def polling (sn : ℕ) : LteRlcAmHeader := LteRlcAmHeader.dataHeader 0 PDU 1 0 sn 1 0 []

/-- Only PDU 3 arrives, and the timer expires: there are three NACKs, for which 8 bytes are enough. -/
theorem statusPdu_fits_iff_eight : ∃ s, machine.Run Machine.unguarded
    [.receive (polling 3) [], .expireReordering] s ∧ ∃ s' rlcAmHeader packet,
      s.doNotifyTxOpportunity 8 = some (s', some (rlcAmHeader, packet)) ∧
      s.Truthful rlcAmHeader ∧
      (packet.length ≤ 8 ∧ s.Truthful rlcAmHeader ↔ s.HasRoom 8) := by
  refine Machine.exists_run_and (p := SendsStatusPdu) (by decide) fun s hr hsends ↦ ?_
  exact statusPdu_fits_iff hr hsends (by decide)

/-- In an opportunity of 6 bytes there are three NACKs, too, and the PDU has 7. -/
theorem not_statusPdu_fits : ∃ s, machine.Run Machine.unguarded
    [.receive (polling 3) [], .expireReordering] s ∧
      ∃ s' rlcAmHeader packet, s.doNotifyTxOpportunity 6 = some (s', some (rlcAmHeader, packet)) ∧
        6 < packet.length := by
  refine Machine.exists_run_and (p := fun s ↦ (s.doNotifyTxOpportunity 6).any
    (fun r ↦ r.2.any fun pdu ↦ decide (6 < pdu.2.length)) = true) (by decide) fun s hr hany ↦ ?_
  obtain ⟨⟨s', pdu⟩, hres, hpdu⟩ := (Option.any_eq_true _ _).mp hany
  obtain ⟨⟨rlcAmHeader, packet⟩, rfl, hlt⟩ := (Option.any_eq_true _ _).mp hpdu
  exact ⟨s', rlcAmHeader, packet, hres, of_decide_eq_true hlt⟩

end Runs

end Receiver

end LteRlcAm

end Lte

end Ns3
