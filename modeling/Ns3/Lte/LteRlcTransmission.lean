import Ns3.Lte.LteRlcReassembly

/-!
# SDUs through the transmission buffer

The segments that were sent and those that are queued together are the SDUs that were accepted, cut
(`Framed`), and a receiver that was given all PDUs in order has joined those that were sent
(`Received`). The two say what acknowledged and unacknowledged mode have in common: accepting an SDU
and building a PDU keep the first, and reassembling the next PDU keeps the second.
-/

namespace Ns3

namespace Lte

open Segment

/-- A PDU that was built: its header, its data field, and the packet. -/
structure RlcPdu (H : Type) where
  rlcHeader : H
  dataField : List TxPdu
  packet : List UInt8
  deriving DecidableEq

/-- `AddHeader` makes room for `size` octets, and the header is written from there on. -/
def addHeader (size : ℕ) (header packet : List UInt8) : List UInt8 :=
  header ++ packet.drop (header.length - size)

theorem addHeader_eq {size : ℕ} {header : List UInt8} (h : header.length ≤ size)
    (packet : List UInt8) : addHeader size header packet = header ++ packet := by
  rw [addHeader, Nat.sub_eq_zero_of_le h, List.drop_zero]

theorem length_octetsOf (l : List TxPdu) : (octetsOf l).length = totalSize l := by
  rw [octetsOf, List.length_flatten, List.map_map]
  rfl

/-! ## What was accepted, what was sent and what is queued -/

/-- The segments that were sent and those that are queued are the SDUs that were accepted. -/
structure Framed (txBuffer : List TxPdu) (txBufferSize : ℕ) (sent : List TxPdu)
    (accepted : List (List UInt8)) : Prop where
  pending : ∀ q ∈ txBuffer, q.Pending
  size_eq : txBufferSize = totalSize txBuffer
  size_lt : totalSize txBuffer < 2 ^ 32
  joined : join none (segments sent ++ segments txBuffer) = (accepted, none)
  consecutive : Consecutive false (segments sent ++ segments txBuffer)

namespace Framed

variable {txBuffer sent : List TxPdu} {txBufferSize : ℕ} {accepted : List (List UInt8)}

theorem nil : Framed [] 0 [] [] where
  pending := fun _ h ↦ absurd h List.not_mem_nil
  size_eq := rfl
  size_lt := by decide
  joined := rfl
  consecutive := trivial

/-- **An SDU is accepted.** -/
theorem submit (hf : Framed txBuffer txBufferSize sent accepted) {p : List UInt8}
    (hp : 0 < p.length) (hlt : totalSize txBuffer + p.length < 2 ^ 32) :
    Framed (txBuffer ++ [⟨p, .FULL_SDU⟩]) (add32 txBufferSize p.length) sent (accepted ++ [p]) := by
  have hsize : totalSize (txBuffer ++ [⟨p, .FULL_SDU⟩]) = totalSize txBuffer + p.length :=
    totalSize_append _ _
  have hopen := isSome_join none hf.consecutive
  rw [hf.joined] at hopen
  refine ⟨?_, ?_, by rwa [hsize], ?_, ?_⟩
  · rintro q hq
    rw [List.mem_append, List.mem_singleton] at hq
    rcases hq with hq | rfl
    · exact hf.pending q hq
    · exact ⟨hp, rfl⟩
  · rw [hsize, hf.size_eq, add32_eq hlt]
  · rw [segments_append, ← List.append_assoc, join_append, hf.joined]
    rfl
  · rw [segments_append, ← List.append_assoc, consecutive_append]
    refine ⟨hf.consecutive, ?_, trivial⟩
    rw [show openAfter false _ = _ from hopen.symm]
    rfl

/-- **A PDU is built.** -/
theorem build {p : TxPdu} {queue : List TxPdu} {room : ℕ} {H : Type} [RlcHeader H] {h : H}
    (hf : Framed (p :: queue) txBufferSize sent accepted) (hroom : 0 < room) :
    Framed (buildDataField queue p room 1 ⟨sub32 txBufferSize p.size, [], h⟩).1
      (buildDataField queue p room 1 ⟨sub32 txBufferSize p.size, [], h⟩).2.m_txBufferSize
      (sent ++ (cut queue p room 1).1) accepted := by
  obtain ⟨hp, hqueue⟩ := List.forall_mem_cons.mp hf.pending
  have hlt := hf.size_lt
  have hsize : sub32 txBufferSize p.size = totalSize queue := by
    rw [hf.size_eq, totalSize_cons] at *
    rw [sub32_eq (Nat.le_add_right _ _) hlt, Nat.add_sub_cancel_left]
  have hbuild := buildDataField_eq 1 ⟨sub32 txBufferSize p.size, [], h⟩ hroom hp.1
    fun q hq ↦ (hqueue q hq).1
  have hsegments := fun kept isOpen ↦
    segments_cut room 1 kept isOpen [] hp hqueue
  simp only [List.append_nil] at hsegments
  rw [hbuild.1]
  refine ⟨pending_cut hp hqueue, ?_, ?_, ?_, ?_⟩
  · exact buildDataField_size _ hroom hp.1 (fun q hq ↦ (hqueue q hq).1) hsize hf.size_lt
  · refine lt_of_le_of_lt ?_ hlt
    rw [← totalSize_cut_add queue p room 1]
    exact Nat.le_add_left _ _
  · rw [segments_append, List.append_assoc, join_append, (hsegments _ false).1, ← join_append]
    exact hf.joined
  · rw [segments_append, List.append_assoc, consecutive_append, (hsegments none _).2,
      ← consecutive_append]
    exact hf.consecutive

/-- **What has been joined is what was sent to its last octet.** -/
theorem delivered (hf : Framed txBuffer txBufferSize sent accepted) :
    (join none (segments sent)).1 = endingWithin (totalSize sent) accepted := by
  have h := join_eq_endingWithin hf.joined hf.consecutive fun t ht hnil ↦ ?_
  · rw [map_data_segments] at h
    rw [h, ← length_octetsOf]
    rfl
  · obtain ⟨q, hq, rfl⟩ := List.mem_map.mp ht
    exact absurd (congrArg List.length hnil) (hf.pending q hq).1.ne'

end Framed

/-! ## What a receiver of all PDUs has -/

/-- A receiver of the first `n` PDUs, of the segments `sent`, has joined them. -/
structure Received (r : Reassembler × List (List UInt8)) (sent : List TxPdu) (n : ℕ) : Prop where
  delivered : r.2 = (join none (segments sent)).1
  kept : r.1.kept = (join none (segments sent)).2
  sdusBuffer : r.1.m_sdusBuffer = []
  expectedSeqNumber : r.1.m_expectedSeqNumber = n % 1024

namespace Received

variable {r : Reassembler × List (List UInt8)} {sent pieces : List TxPdu} {n fi : ℕ}

theorem nil : Received (Reassembler.create, []) [] 0 := ⟨rfl, rfl, rfl, rfl⟩

/-- **The next PDU is joined to those before.** -/
theorem next (hr : Received r sent n) (discards : Bool) (hne : pieces ≠ [])
    (hfi : framingInfo pieces = some fi)
    (hlast : ∀ q ∈ pieces.dropLast, q.toSegment.last = true)
    (hconsecutive : Consecutive false (segments sent ++ segments pieces)) :
    ∃ r', r.1.reassembleAndDeliver discards fi (n % 1024)
        (List.replicate (lengthIndicators pieces).length 1 ++ [0]) (lengthIndicators pieces)
        (octetsOf pieces) = some r' ∧ Received (r'.1, r.2 ++ r'.2) (sent ++ pieces) (n + 1) := by
  rw [consecutive_append] at hconsecutive
  have hopen : r.1.kept.isSome = openAfter false (segments sent) := by
    rw [hr.kept]
    exact isSome_join none hconsecutive.1
  have hsn : decide (n % 1024 ≠ r.1.m_expectedSeqNumber) = false := by
    rw [hr.expectedSeqNumber]
    exact decide_eq_false (not_not.mpr rfl)
  obtain ⟨r', hr', hdelivers⟩ := Reassembler.reassembleAndDeliver_pieces discards
    hr.sdusBuffer hne hfi hlast hconsecutive.2 (fun _ hsome ↦ by rw [← hopen, hsome])
    (fun _ hisOpen hnone ↦ by rw [← hopen, hnone] at hisOpen; cases hisOpen)
  rw [hsn] at hdelivers
  have hkept : r.1.keptIf false = (join none (segments sent)).2 := hr.kept
  rw [hkept] at hdelivers
  refine ⟨r', hr', ?_, ?_, hdelivers.sdusBuffer, ?_⟩
  · rw [segments_append, join_append, ← hr.delivered]
    exact congrArg _ hdelivers.delivered
  · rw [segments_append, join_append]
    exact hdelivers.kept
  · rw [hdelivers.expectedSeqNumber, Nat.mod_add_mod]

end Received

/-! ## The PDUs of a run -/

section Sound

variable {H : Type} (lengthIndicatorsOf : H → List ℕ) (serialize : H → List UInt8)
  (reassembleAndDeliver : Reassembler → List UInt8 → Option (Reassembler × List (List UInt8)))

/-- A PDU that fits, and whose length indicators fit and are those of its data field. -/
structure WellFormed (bytes : ℕ) (pdu : RlcPdu H) : Prop where
  length_le : pdu.packet.length ≤ bytes
  lengthIndicators_lt : ∀ li ∈ lengthIndicatorsOf pdu.rlcHeader, li < 2 ^ 11
  lengthIndicators_eq : lengthIndicatorsOf pdu.rlcHeader = pdu.dataField.dropLast.map TxPdu.size
  packet_eq : pdu.packet = serialize pdu.rlcHeader ++ octetsOf pdu.dataField

/-- The data fields of PDUs, each of which was built for an opportunity of some octets. -/
def sentIn (pdus : List (ℕ × RlcPdu H)) : List TxPdu := (pdus.map fun x ↦ x.2.dataField).flatten

/-- **Framing is lossless**: the PDUs are well formed, the size of the transmission buffer is that of
the segments in it, and a receiver of the PDUs delivers the SDUs whose last octet was sent. -/
structure Lossless (txBuffer : List TxPdu) (txBufferSize : ℕ) (accepted : List (List UInt8))
    (pdus : List (ℕ × RlcPdu H)) : Prop where
  wellFormed : ∀ x ∈ pdus, WellFormed lengthIndicatorsOf serialize x.1 x.2
  size_eq : txBufferSize = totalSize txBuffer
  delivers : ∃ r, reassembleAll reassembleAndDeliver Reassembler.create
    (pdus.map fun x ↦ x.2.packet) = some (r, endingWithin (totalSize (sentIn pdus)) accepted)

/-- What carries it through a run. -/
structure Sound (txBuffer : List TxPdu) (txBufferSize : ℕ) (accepted : List (List UInt8))
    (pdus : List (ℕ × RlcPdu H)) : Prop where
  wellFormed : ∀ x ∈ pdus, WellFormed lengthIndicatorsOf serialize x.1 x.2
  framed : Framed txBuffer txBufferSize (sentIn pdus) accepted
  received : ∃ r, reassembleAll reassembleAndDeliver Reassembler.create
    (pdus.map fun x ↦ x.2.packet) = some r ∧ Received r (sentIn pdus) pdus.length

variable {lengthIndicatorsOf serialize reassembleAndDeliver} {txBuffer txBuffer' : List TxPdu}
  {txBufferSize txBufferSize' bytes fi : ℕ} {accepted : List (List UInt8)}
  {pdus : List (ℕ × RlcPdu H)} {pdu : RlcPdu H}

theorem sentIn_concat : sentIn (pdus ++ [(bytes, pdu)]) = sentIn pdus ++ pdu.dataField := by
  rw [sentIn, List.map_append, List.flatten_append, sentIn, List.map_singleton,
    List.flatten_singleton]

theorem Sound.nil : Sound lengthIndicatorsOf serialize reassembleAndDeliver [] 0 [] [] where
  wellFormed := fun _ h ↦ absurd h List.not_mem_nil
  framed := Framed.nil
  received := ⟨_, rfl, Received.nil⟩

theorem Sound.lossless
    (h : Sound lengthIndicatorsOf serialize reassembleAndDeliver txBuffer txBufferSize accepted pdus) :
    Lossless lengthIndicatorsOf serialize reassembleAndDeliver txBuffer txBufferSize accepted
      pdus := by
  obtain ⟨r, hr, hreceived⟩ := h.received
  refine ⟨h.wellFormed, h.framed.size_eq, r.1, ?_⟩
  rw [hr, ← h.framed.delivered, ← hreceived.delivered]

/-- **One more PDU**, which is reassembled as its header says. -/
theorem Sound.concat (discards : Bool)
    (h : Sound lengthIndicatorsOf serialize reassembleAndDeliver txBuffer txBufferSize accepted pdus)
    (hwellFormed : WellFormed lengthIndicatorsOf serialize bytes pdu)
    (hframed : Framed txBuffer' txBufferSize' (sentIn pdus ++ pdu.dataField) accepted)
    (hne : pdu.dataField ≠ []) (hfi : framingInfo pdu.dataField = some fi)
    (hlast : ∀ q ∈ pdu.dataField.dropLast, q.toSegment.last = true)
    (hpacket : ∀ s, reassembleAndDeliver s pdu.packet =
      s.reassembleAndDeliver discards fi (pdus.length % 1024)
        (List.replicate (lengthIndicators pdu.dataField).length 1 ++ [0])
        (lengthIndicators pdu.dataField) (octetsOf pdu.dataField)) :
    Sound lengthIndicatorsOf serialize reassembleAndDeliver txBuffer' txBufferSize' accepted
      (pdus ++ [(bytes, pdu)]) := by
  obtain ⟨r, hr, hreceived⟩ := h.received
  have hconsecutive := hframed.consecutive
  rw [segments_append, consecutive_append] at hconsecutive
  obtain ⟨r', hr', hreceived'⟩ := hreceived.next discards hne hfi hlast hconsecutive.1
  refine ⟨?_, by rwa [sentIn_concat], (r'.1, r.2 ++ r'.2), ?_, ?_⟩
  · rintro x hx
    rw [List.mem_append, List.mem_singleton] at hx
    rcases hx with hx | rfl
    · exact h.wellFormed x hx
    · exact hwellFormed
  · rw [List.map_append]
    exact reassembleAll_concat hr ((hpacket r.1).trans hr')
  · rw [sentIn_concat, List.length_append]
    exact hreceived'

end Sound

end Lte

end Ns3
