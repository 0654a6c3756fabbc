import Ns3.Lte.LteRlcDataField

/-!
# Reassembly of RLC SDUs

`ReassembleAndDeliver` finds the segments of a PDU by its extension bits and length indicators, and
has for each of its two states, for each framing info, and for a PDU that is expected or not, an
alternative of its own. The two modes differ in one place: in unacknowledged mode a segment without
its beginning is discarded also where nothing has been lost just before it.

All alternatives that are possible are one: they join the segments of the PDU, with what is kept of an
SDU if the PDU is the one expected, and without it otherwise (`reassemble_eq`).
-/

namespace Ns3

namespace Lte

open Segment

/-- `ReassemblingState_t`. -/
inductive ReassemblingState
  | WAITING_S0_FULL
  | WAITING_SI_SF
  deriving DecidableEq

open ReassemblingState

/-- What the reassembly of SDUs remembers. -/
structure Reassembler where
  m_expectedSeqNumber : ℕ
  m_reassemblingState : ReassemblingState
  m_keepS0 : List UInt8
  m_sdusBuffer : List (List UInt8)
  deriving DecidableEq

namespace Reassembler

def create : Reassembler where
  m_expectedSeqNumber := 0
  m_reassemblingState := WAITING_S0_FULL
  m_keepS0 := []
  m_sdusBuffer := []

/-! ## The list of SDUs -/

/-- The loop that splits a packet; `none` if the header has no more bits or indicators. -/
def splitPacket : List ℕ → List ℕ → List UInt8 → Option (List (List UInt8))
  | 0 :: _, _, packet => some [packet]
  | _ :: extensionBits, li :: lengthIndicators, packet =>
    (splitPacket extensionBits lengthIndicators (packet.drop li)).map (packet.take li :: ·)
  | _, _, _ => none

/-! ## The alternatives -/

/-- `pop_front`, without using what is popped. -/
def discard (s : Reassembler) : Reassembler := { s with m_sdusBuffer := s.m_sdusBuffer.tail }

/-- `m_keepS0 = 0`. -/
def discardS0 (s : Reassembler) : Reassembler := { s with m_keepS0 := [] }

/-- All SDUs of the list are delivered. -/
def deliverAll (s : Reassembler) : Reassembler × List (List UInt8) :=
  ({ s with m_reassemblingState := WAITING_S0_FULL, m_sdusBuffer := [] }, s.m_sdusBuffer)

/-- All SDUs but the last one are delivered, and that is kept. -/
def deliverFull (s : Reassembler) : Reassembler × List (List UInt8) :=
  ({ s with
    m_reassemblingState := WAITING_SI_SF
    m_keepS0 := s.m_sdusBuffer.getLastD []
    m_sdusBuffer := [] }, s.m_sdusBuffer.dropLast)

/-- The first segment is discarded, and the rest is kept or delivered, if there is any. -/
def discardAndDeliverFull (s : Reassembler) : Reassembler × List (List UInt8) :=
  if s.m_sdusBuffer.length = 1 then
    ({ s.discard with m_reassemblingState := WAITING_S0_FULL }, [])
  else s.discard.deliverFull

/-- `m_keepS0->AddAtEnd (m_sdusBuffer.front ())`, and `pop_front`. -/
def addToS0 (s : Reassembler) : Reassembler :=
  { s with
    m_keepS0 := s.m_keepS0 ++ s.m_sdusBuffer.headD []
    m_sdusBuffer := s.m_sdusBuffer.tail }

/-- What is done without losses in `WAITING_SI_SF`, at the end of an SDU. -/
def deliverS0AndAll (s : Reassembler) : Reassembler × List (List UInt8) :=
  (s.addToS0.deliverAll.1, s.addToS0.m_keepS0 :: s.addToS0.deliverAll.2)

/-- What is done without losses in `WAITING_SI_SF`, where the last SDU is not complete. -/
def deliverS0AndFull (s : Reassembler) : Reassembler × List (List UInt8) :=
  if s.m_sdusBuffer.length = 1 then
    ({ s.addToS0 with m_reassemblingState := WAITING_SI_SF }, [])
  else (s.addToS0.deliverFull.1, s.addToS0.m_keepS0 :: s.addToS0.deliverFull.2)

/-- What is done where nothing is kept; `discards` says whether a segment without its beginning is
possible. -/
def deliverWithoutS0 (s : Reassembler) (discards : Bool) (framingInfo : ℕ) :
    Reassembler × List (List UInt8) :=
  if framingInfo = FIRST_BYTE ||| LAST_BYTE then s.deliverAll
  else if framingInfo = FIRST_BYTE ||| NO_LAST_BYTE then s.deliverFull
  else if discards ∧ framingInfo = NO_FIRST_BYTE ||| LAST_BYTE then s.discard.deliverAll
  else if discards ∧ framingInfo = NO_FIRST_BYTE ||| NO_LAST_BYTE then s.discardAndDeliverFull
  else (s, [])

/-- What is done where there is something to continue. -/
def deliverWithS0 (s : Reassembler) (framingInfo : ℕ) : Reassembler × List (List UInt8) :=
  if framingInfo = NO_FIRST_BYTE ||| LAST_BYTE then s.deliverS0AndAll
  else if framingInfo = NO_FIRST_BYTE ||| NO_LAST_BYTE then s.deliverS0AndFull
  else (s, [])

/-- The alternatives of `ReassembleAndDeliver`. -/
def deliver (s : Reassembler) (discards expectedSnLost : Bool) (framingInfo : ℕ) :
    Reassembler × List (List UInt8) :=
  match expectedSnLost, s.m_reassemblingState with
  | false, WAITING_S0_FULL => s.deliverWithoutS0 discards framingInfo
  | false, WAITING_SI_SF => s.deliverWithS0 framingInfo
  | true, WAITING_S0_FULL => s.deliverWithoutS0 true framingInfo
  | true, WAITING_SI_SF => s.discardS0.deliverWithoutS0 true framingInfo

/-- `ReassembleAndDeliver`, behind `RemoveHeader`: what remains of the packet, and the fields of the
header. -/
def reassembleAndDeliver (s : Reassembler) (discards : Bool) (framingInfo currSeqNumber : ℕ)
    (extensionBits lengthIndicators : List ℕ) (packet : List UInt8) :
    Option (Reassembler × List (List UInt8)) :=
  (splitPacket extensionBits lengthIndicators packet).map fun sdus ↦
    deliver
      { s with
        m_expectedSeqNumber := (currSeqNumber + 1) % 1024
        m_sdusBuffer := s.m_sdusBuffer ++ sdus }
      discards (currSeqNumber ≠ s.m_expectedSeqNumber) framingInfo

/-! ## Joining the segments -/

/-- What is kept of an SDU. -/
def kept (s : Reassembler) : Option (List UInt8) :=
  if s.m_reassemblingState = WAITING_SI_SF then some s.m_keepS0 else none

/-- What a step has delivered, what it keeps, and which PDU it expects. -/
structure Delivers (expected : ℕ) (r : Reassembler × List (List UInt8))
    (outcome : List (List UInt8) × Option (List UInt8)) : Prop where
  delivered : r.2 = outcome.1
  kept : r.1.kept = outcome.2
  sdusBuffer : r.1.m_sdusBuffer = []
  expectedSeqNumber : r.1.m_expectedSeqNumber = expected

variable {s : Reassembler} {discards expectedSnLost : Bool} {h : Segment UInt8}
  {t : List (Segment UInt8)} {fi : ℕ}

theorem deliverAll_delivers (s : Reassembler) :
    Delivers s.m_expectedSeqNumber s.deliverAll (finish true s.m_sdusBuffer) :=
  ⟨rfl, rfl, rfl, rfl⟩

theorem deliverFull_delivers (h : s.m_sdusBuffer ≠ []) :
    Delivers s.m_expectedSeqNumber s.deliverFull (finish false s.m_sdusBuffer) := by
  refine ⟨rfl, ?_, rfl, rfl⟩
  change some (s.m_sdusBuffer.getLastD []) = s.m_sdusBuffer.getLast?
  rw [List.getLastD_eq_getLast?, List.getLast?_eq_some_getLast h, Option.getD_some]

/-- The framing info of segments. -/
def framingOf (first last : Bool) : ℕ :=
  (if first then FIRST_BYTE else NO_FIRST_BYTE) ||| if last then LAST_BYTE else NO_LAST_BYTE

theorem deliverWithoutS0_delivers (last : Bool) (hbuffer : s.m_sdusBuffer = (h :: t).map data)
    (hdiscards : h.first = true ∨ discards = true) :
    Delivers s.m_expectedSeqNumber (s.deliverWithoutS0 discards (framingOf h.first last))
      (finish last ((extend none h).toList ++ t.map data)) := by
  rw [List.map_cons] at hbuffer
  cases hfirst : h.first with
  | true =>
    rw [extend, if_pos hfirst, Option.toList_some, List.singleton_append, ← hbuffer]
    cases last with
    | true => exact deliverAll_delivers s
    | false => exact deliverFull_delivers (by rw [hbuffer]; exact List.cons_ne_nil _ _)
  | false =>
    have hextend : extend none h = none := if_neg (by rw [hfirst]; exact Bool.false_ne_true)
    have hrest : s.discard.m_sdusBuffer = t.map data := by
      rw [discard, hbuffer]
      rfl
    rcases hdiscards with htrue | rfl
    · rw [hfirst] at htrue
      cases htrue
    · rw [hextend, Option.toList_none, List.nil_append, ← hrest]
      cases last with
      | true => exact deliverAll_delivers s.discard
      | false =>
        change Delivers s.m_expectedSeqNumber s.discardAndDeliverFull _
        rw [discardAndDeliverFull]
        split_ifs with hlength
        · rw [hbuffer, List.length_cons, Nat.succ_inj, List.length_eq_zero_iff] at hlength
          rw [hrest, hlength]
          refine ⟨rfl, rfl, ?_, rfl⟩
          change s.discard.m_sdusBuffer = []
          rw [hrest, hlength]
        · refine deliverFull_delivers (s := s.discard) fun hnil ↦ hlength ?_
          rw [hrest] at hnil
          rw [hbuffer, hnil]
          rfl

theorem deliverWithS0_delivers (last : Bool) (hbuffer : s.m_sdusBuffer = (h :: t).map data)
    (hfirst : h.first = false) :
    Delivers s.m_expectedSeqNumber (s.deliverWithS0 (framingOf h.first last))
      (finish last ((extend (some s.m_keepS0) h).toList ++ t.map data)) := by
  rw [List.map_cons] at hbuffer
  have hextend : extend (some s.m_keepS0) h = some s.addToS0.m_keepS0 := by
    rw [extend, if_neg (by rw [hfirst]; exact Bool.false_ne_true), addToS0, hbuffer]
    rfl
  have hrest : s.addToS0.m_sdusBuffer = t.map data := by
    rw [addToS0, hbuffer]
    rfl
  rw [hextend, hfirst, Option.toList_some, List.singleton_append, ← hrest]
  cases last with
  | true => exact ⟨rfl, rfl, rfl, rfl⟩
  | false =>
    change Delivers s.m_expectedSeqNumber s.deliverS0AndFull _
    rw [deliverS0AndFull]
    split_ifs with hlength
    · rw [hbuffer, List.length_cons, Nat.succ_inj, List.length_eq_zero_iff] at hlength
      rw [hrest, hlength]
      refine ⟨rfl, rfl, ?_, rfl⟩
      change s.addToS0.m_sdusBuffer = []
      rw [hrest, hlength]
    · have hne : s.addToS0.m_sdusBuffer ≠ [] := by
        intro hnil
        rw [hrest] at hnil
        rw [hbuffer, hnil] at hlength
        exact hlength rfl
      have hfull := deliverFull_delivers hne
      refine ⟨?_, ?_, hfull.sdusBuffer, hfull.expectedSeqNumber⟩
      · change _ :: s.addToS0.deliverFull.2 = (_ :: s.addToS0.m_sdusBuffer).dropLast
        rw [List.dropLast_cons_of_ne_nil hne]
        rfl
      · refine hfull.kept.trans ?_
        change _ = (_ :: s.addToS0.m_sdusBuffer).getLast?
        rw [List.getLast?_cons_of_ne_nil hne]
        rfl

/-- What can be continued by a PDU. -/
def keptIf (s : Reassembler) (expectedSnLost : Bool) : Option (List UInt8) :=
  if expectedSnLost then none else s.kept

/-- **All alternatives join the segments**, unless the first of them is one that the state makes
impossible. -/
theorem deliver_delivers (last : Bool) (hbuffer : s.m_sdusBuffer = (h :: t).map data)
    (hpossible : expectedSnLost = false → s.kept.isSome = true → h.first = false)
    (hdiscards : expectedSnLost = false → s.kept = none → h.first = true ∨ discards = true) :
    Delivers s.m_expectedSeqNumber (s.deliver discards expectedSnLost (framingOf h.first last))
      (finish last ((extend (s.keptIf expectedSnLost) h).toList ++ t.map data)) := by
  rw [keptIf]
  cases expectedSnLost with
  | true =>
    cases hstate : s.m_reassemblingState with
    | WAITING_S0_FULL =>
      simp only [deliver, hstate]
      exact deliverWithoutS0_delivers last hbuffer (.inr rfl)
    | WAITING_SI_SF =>
      simp only [deliver, hstate]
      exact deliverWithoutS0_delivers (s := s.discardS0) last hbuffer (.inr rfl)
  | false =>
    cases hstate : s.m_reassemblingState with
    | WAITING_S0_FULL =>
      have hkept : s.kept = none := by
        rw [Reassembler.kept, hstate]
        rfl
      simp only [deliver, hstate, hkept]
      exact deliverWithoutS0_delivers last hbuffer (hdiscards rfl hkept)
    | WAITING_SI_SF =>
      have hkept : s.kept = some s.m_keepS0 := by
        rw [Reassembler.kept, hstate]
        rfl
      simp only [deliver, hstate, hkept]
      exact deliverWithS0_delivers last hbuffer (hpossible rfl (by rw [hkept]; rfl))

theorem splitPacket_flatten : ∀ {lists : List (List UInt8)}, lists ≠ [] →
    splitPacket (List.replicate lists.dropLast.length 1 ++ [0]) (lists.dropLast.map List.length)
      lists.flatten = some lists
  | [], h => absurd rfl h
  | [l], _ => by simp [splitPacket]
  | l :: l' :: lists, _ => by
    rw [List.dropLast_cons_of_ne_nil (List.cons_ne_nil _ _), List.length_cons,
      List.replicate_succ, List.map_cons, List.flatten_cons, List.cons_append, splitPacket,
      List.drop_left, splitPacket_flatten (List.cons_ne_nil _ _), List.take_left, Option.map_some]
    exact Nat.one_ne_zero

/-! ## Joining the segments of a data field -/

theorem firstByte_eq (p : TxPdu) : firstByte p.m_sduStatus =
    if p.toSegment.first then FIRST_BYTE else NO_FIRST_BYTE :=
  if_congr decide_eq_true_iff.symm rfl rfl

theorem lastByte_eq (p : TxPdu) : lastByte p.m_sduStatus =
    if p.toSegment.last then LAST_BYTE else NO_LAST_BYTE :=
  if_congr decide_eq_true_iff.symm rfl rfl

theorem framingInfo_eq (p : TxPdu) (l : List TxPdu) : framingInfo (p :: l) = some
    (framingOf p.toSegment.first
      ((segments (p :: l)).getLast (List.cons_ne_nil _ _)).last) := by
  have hlast : (segments (p :: l)).getLast (List.cons_ne_nil _ _) =
      ((p :: l).getLast (List.cons_ne_nil _ _)).toSegment := List.getLast_map _
  rw [framingInfo, List.head?_cons, List.getLast?_eq_some_getLast (List.cons_ne_nil _ _), hlast,
    framingOf, ← firstByte_eq, ← lastByte_eq]
  rfl

theorem framingInfo_lt {pieces : List TxPdu} (hne : pieces ≠ []) :
    ∃ fi < 4, framingInfo pieces = some fi := by
  obtain ⟨p, l, rfl⟩ := List.exists_cons_of_ne_nil hne
  refine ⟨_, ?_, framingInfo_eq p l⟩
  generalize ((segments (p :: l)).getLast (List.cons_ne_nil _ _)).last = last
  generalize p.toSegment.first = first
  cases first <;> cases last <;> decide

theorem splitPacket_pieces {pieces : List TxPdu} (hne : pieces ≠ []) :
    splitPacket (List.replicate (lengthIndicators pieces).length 1 ++ [0])
      (lengthIndicators pieces) (octetsOf pieces) = some (pieces.map TxPdu.m_pdu) := by
  have hmap : pieces.map TxPdu.m_pdu ≠ [] := fun hnil ↦ hne (List.map_eq_nil_iff.mp hnil)
  have h := splitPacket_flatten hmap
  rw [← List.map_dropLast, List.map_map, List.length_map] at h
  rw [lengthIndicators, List.length_map]
  exact h

/-- **A data field is joined**, if the state is one in which its first segment is possible. -/
theorem reassembleAndDeliver_pieces (discards : Bool) {pieces : List TxPdu} {sn : ℕ} {isOpen : Bool}
    (hbuffer : s.m_sdusBuffer = []) (hne : pieces ≠ []) (hfi : framingInfo pieces = some fi)
    (hlast : ∀ q ∈ pieces.dropLast, q.toSegment.last = true)
    (hconsecutive : Consecutive isOpen (segments pieces))
    (hpossible : sn = s.m_expectedSeqNumber → s.kept.isSome = true → isOpen = true)
    (hdiscards : sn = s.m_expectedSeqNumber → isOpen = true → s.kept = none → discards = true) :
    ∃ r, s.reassembleAndDeliver discards fi sn
        (List.replicate (lengthIndicators pieces).length 1 ++ [0]) (lengthIndicators pieces)
        (octetsOf pieces) = some r ∧
      Delivers ((sn + 1) % 1024) r
        (join (s.keptIf (sn ≠ s.m_expectedSeqNumber)) (segments pieces)) := by
  obtain ⟨p, l, rfl⟩ := List.exists_cons_of_ne_nil hne
  rw [framingInfo_eq, Option.some_inj] at hfi
  have hseg : ∀ t ∈ (segments (p :: l)).dropLast, t.last = true := by
    rw [segments, ← List.map_dropLast, List.forall_mem_map]
    exact hlast
  rw [reassembleAndDeliver, splitPacket_pieces hne, Option.map_some]
  refine ⟨_, rfl, ?_⟩
  rw [segments_cons] at hconsecutive hseg ⊢
  rw [join_block _ _ _ (first_of_consecutive hconsecutive hseg) hseg, ← hfi]
  refine deliver_delivers (s := { s with
    m_expectedSeqNumber := (sn + 1) % 1024
    m_sdusBuffer := s.m_sdusBuffer ++ (p :: l).map TxPdu.m_pdu }) (h := p.toSegment)
    (t := segments l) _ ?_ ?_ ?_
  · rw [hbuffer, List.nil_append, ← segments_cons, map_data_segments]
  · intro hlost hsome
    rw [hconsecutive.1, hpossible (by simpa using hlost) hsome]
    rfl
  · intro hlost hnone
    rw [hconsecutive.1]
    cases isOpen with
    | true => exact .inr (hdiscards (by simpa using hlost) rfl hnone)
    | false => exact .inl rfl

end Reassembler

/-! ## PDUs in order -/

/-- `ReassembleAndDeliver` of one packet after the other. -/
def reassembleAll (reassembleAndDeliver : Reassembler → List UInt8 →
    Option (Reassembler × List (List UInt8))) (s : Reassembler) :
    List (List UInt8) → Option (Reassembler × List (List UInt8))
  | [] => some (s, [])
  | packet :: packets => do
    let r ← reassembleAndDeliver s packet
    let r' ← reassembleAll reassembleAndDeliver r.1 packets
    return (r'.1, r.2 ++ r'.2)

theorem reassembleAll_concat {f : Reassembler → List UInt8 → Option (Reassembler × List (List UInt8))}
    {s : Reassembler} {packets : List (List UInt8)} {packet : List UInt8}
    {r r' : Reassembler × List (List UInt8)} (h : reassembleAll f s packets = some r)
    (h' : f r.1 packet = some r') :
    reassembleAll f s (packets ++ [packet]) = some (r'.1, r.2 ++ r'.2) := by
  induction packets generalizing s r with
  | nil =>
    rw [reassembleAll, Option.some_inj] at h
    subst h
    rw [List.nil_append, reassembleAll, h']
    exact congrArg some (Prod.ext rfl (List.append_nil _))
  | cons first packets ih =>
    rw [reassembleAll, Option.bind_eq_bind, Option.bind_eq_some_iff] at h
    obtain ⟨r₁, h₁, h⟩ := h
    rw [Option.bind_eq_some_iff] at h
    obtain ⟨r₂, h₂, h⟩ := h
    rw [Option.pure_def, Option.some_inj] at h
    subst h
    rw [List.cons_append, reassembleAll, h₁, Option.bind_eq_bind, Option.bind_some, ih h₂ h']
    exact congrArg some (Prod.ext rfl (List.append_assoc _ _ _).symm)

end Lte

end Ns3
