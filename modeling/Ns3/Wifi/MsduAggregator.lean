import Ns3.Library.LittleEndian
import Ns3.Network.Mac48Address

/-!
# Aggregation of MSDUs

`MsduAggregator` takes the MSDUs of a traffic identifier for a receiver out of the queue and puts them
into one A-MSDU, as long as the limits are kept. Every MSDU has a subframe header there, and every
subframe but the last is padded to a multiple of four bytes.

The first MSDU is kept as it is until a second one joins it. The check for the second one adds the size
of its subframe to that of the bare first MSDU, so that the header of the first subframe is left out.
Sizes are 16-bit numbers in the checks, and MSDUs are counted in eight bits.
-/

namespace Ns3

namespace Wifi

namespace MsduAggregator

/-- `WifiMacHeader` of a data frame. -/
structure WifiMacHeader where
  qosData : Bool
  qosTid : ℕ
  m_amsduPresent : Bool
  toDs : Bool
  fromDs : Bool
  addr1 : Mac48Address
  addr2 : Mac48Address
  addr3 : Mac48Address
  addr4 : Mac48Address
  deriving DecidableEq

/-- `AmsduSubframeHeader`. -/
@[ext]
structure AmsduSubframeHeader where
  m_da : Mac48Address
  m_sa : Mac48Address
  m_length : ℕ
  deriving DecidableEq

/-- `WifiMacQueueItem`: an MSDU with an empty list, or an A-MSDU. -/
structure WifiMacQueueItem where
  m_packet : List UInt8
  m_header : WifiMacHeader
  m_tstamp : ℕ
  m_msduList : List (List UInt8 × AmsduSubframeHeader)
  deriving DecidableEq

/-- `WifiMacHeader::GetSize`. -/
def WifiMacHeader.getSize (h : WifiMacHeader) : ℕ :=
  2 + 2 + 6 + 6 + 6 + 2 + (if h.toDs && h.fromDs then 6 else 0) + if h.qosData then 2 else 0

/-- `AmsduSubframeHeader::Serialize`. The length is in network order. -/
def AmsduSubframeHeader.serialize (h : AmsduSubframeHeader) : List UInt8 :=
  h.m_da.toList ++ (h.m_sa.toList ++ (LittleEndian.write 2 h.m_length).reverse)

/-- `AmsduSubframeHeader::Deserialize`. -/
def AmsduSubframeHeader.deserialize (bytes : List UInt8) : Option AmsduSubframeHeader :=
  if h : 14 ≤ bytes.length then
    some {
      m_da := ⟨bytes.take 6, by rw [List.length_take]; omega⟩
      m_sa := ⟨(bytes.drop 6).take 6, by rw [List.length_take, List.length_drop]; omega⟩
      m_length := LittleEndian.read ((bytes.drop 12).take 2).reverse }
  else none

def calculatePadding (amsduSize : ℕ) : ℕ := (4 - amsduSize % 65536 % 4) % 4

def getSizeIfAggregated (msduSize amsduSize : ℕ) : ℕ :=
  (amsduSize % 65536 + calculatePadding amsduSize + 14 + msduSize % 65536) % 65536

namespace WifiMacQueueItem

/-- The subframe header of an MSDU. -/
def subframeHeader (msdu : WifiMacQueueItem) : AmsduSubframeHeader where
  m_da := if msdu.m_header.toDs then msdu.m_header.addr3 else msdu.m_header.addr1
  m_sa :=
    if !msdu.m_header.fromDs then msdu.m_header.addr2
    else if !msdu.m_header.toDs then msdu.m_header.addr3
    else msdu.m_header.addr4
  m_length := msdu.m_packet.length % 65536

/-- The subframe of an MSDU. -/
def subframe (msdu : WifiMacQueueItem) : List UInt8 :=
  msdu.subframeHeader.serialize ++ msdu.m_packet

/-- What `DoAggregate` makes of a packet. -/
def addSubframe (packet : List UInt8) (msdu : WifiMacQueueItem) : List UInt8 :=
  (if packet.length > 0 then packet ++ List.replicate (calculatePadding packet.length) 0 else packet)
    ++ msdu.subframe

def doAggregate (amsdu msdu : WifiMacQueueItem) : WifiMacQueueItem where
  m_packet := addSubframe amsdu.m_packet msdu
  m_header := amsdu.m_header
  m_tstamp := max amsdu.m_tstamp msdu.m_tstamp
  m_msduList := amsdu.m_msduList ++ [(msdu.m_packet, msdu.subframeHeader)]

/-- An MSDU becomes an A-MSDU of its own. -/
def wrap (msdu : WifiMacQueueItem) : WifiMacQueueItem :=
  let amsdu := doAggregate { msdu with m_packet := [] } msdu
  { amsdu with
    m_header := { msdu.m_header with
      m_amsduPresent := true
      addr3 :=
        if msdu.m_header.toDs && !msdu.m_header.fromDs then msdu.m_header.addr1
        else if !msdu.m_header.toDs && msdu.m_header.fromDs then msdu.m_header.addr2
        else msdu.m_header.addr3 } }

/-- `Aggregate`. It aborts if it is given anything but an MSDU. -/
def aggregate (amsdu msdu : WifiMacQueueItem) : Option WifiMacQueueItem :=
  if !msdu.m_header.qosData || msdu.m_header.m_amsduPresent then none
  else if amsdu.m_msduList = [] then some (amsdu.wrap.doAggregate msdu)
  else some (amsdu.doAggregate msdu)

/-- An item that is not an A-MSDU. -/
structure IsMsdu (x : WifiMacQueueItem) : Prop where
  not_amsdu : x.m_header.m_amsduPresent = false
  msduList : x.m_msduList = []

end WifiMacQueueItem

open WifiMacQueueItem

/-- What does not change while `GetNextAmsdu` runs: its arguments, the lifetime of the queue, what
`GetMaxAmsduSize` returns, and `IsWithinSizeAndTimeLimits` for the size of an MPDU. -/
structure Context where
  now : ℕ
  m_maxDelay : ℕ
  recipient : Mac48Address
  tid : ℕ
  maxAmsduSize : ℕ
  isWithinLimits : ℕ → Bool

namespace Context

variable (c : Context)

/-- What `PeekByTidAndAddress` stops at. -/
def isNext (x : WifiMacQueueItem) : Bool :=
  decide (c.now ≤ x.m_tstamp + c.m_maxDelay) && x.m_header.qosData &&
    decide (x.m_header.addr1 = c.recipient) && decide (x.m_header.qosTid = c.tid)

/-- The loop of `GetNextAmsdu` over the items from `peekedIt` on: the A-MSDU, `nMsdu`, and what is left
of the items. Whatever `PeekByTidAndAddress` does not stop at is left there. -/
def loop : WifiMacQueueItem → ℕ → List WifiMacQueueItem →
    Option (WifiMacQueueItem × ℕ × List WifiMacQueueItem)
  | amsdu, nMsdu, [] => some (amsdu, nMsdu, [])
  | amsdu, nMsdu, x :: rest =>
    if c.isNext x = false then
      (loop amsdu nMsdu rest).map fun r ↦ (r.1, r.2.1, x :: r.2.2)
    else
      let newAmsduSize := getSizeIfAggregated x.m_packet.length amsdu.m_packet.length
      if newAmsduSize > c.maxAmsduSize then some (amsdu, nMsdu, x :: rest)
      else if !c.isWithinLimits (amsdu.m_header.getSize + newAmsduSize + 4) then
        some (amsdu, nMsdu, x :: rest)
      else if nMsdu = 0 then (loop x 1 rest).map fun r ↦ (r.1, r.2.1, x :: r.2.2)
      else (amsdu.aggregate x).bind fun amsdu ↦ loop amsdu ((nMsdu + 1) % 256) rest

/-- `GetNextAmsdu`: what it returns, and the queue. `first` is never removed by the loop, and stays the
first of the items that `PeekByTidAndAddress` stops at. -/
def getNextAmsdu (q : List WifiMacQueueItem) :
    Option (Option WifiMacQueueItem × List WifiMacQueueItem) :=
  if c.recipient.isBroadcast then none
  else
    match q.find? c.isNext with
    | none => some (none, q)
    | some first =>
      if c.maxAmsduSize = 0 then some (none, q)
      else
        (c.loop ⟨[], first.m_header, c.now, []⟩ 0 q).map fun r ↦
          if r.2.1 < 2 then (none, r.2.2) else (some r.1, r.2.2.eraseP c.isNext)

end Context

/-- The loop of `Deaggregate`. A subframe has at least 14 bytes, so that there are fewer turns than
bytes. -/
def deaggregateLoop (maxSize : ℕ) : ℕ → ℕ → List UInt8 →
    Option (List (List UInt8 × AmsduSubframeHeader))
  | 0, _, _ => none
  | fuel + 1, deserialized, packet =>
    if deserialized < maxSize then
      (AmsduSubframeHeader.deserialize packet).bind fun hdr ↦
        if hdr.m_length ≤ (packet.drop 14).length then
          let deserialized := deserialized + 14 + hdr.m_length
          let msdu := (packet.drop 14).take hdr.m_length
          let packet := (packet.drop 14).drop hdr.m_length
          let padding := (4 - (hdr.m_length + 14) % 4) % 4
          if padding > 0 ∧ deserialized < maxSize then
            (deaggregateLoop maxSize fuel (deserialized + padding) (packet.drop padding)).map
              ((msdu, hdr) :: ·)
          else (deaggregateLoop maxSize fuel deserialized packet).map ((msdu, hdr) :: ·)
        else none
    else some []

def deaggregate (packet : List UInt8) : Option (List (List UInt8 × AmsduSubframeHeader)) :=
  deaggregateLoop packet.length (packet.length + 1) 0 packet

/-! ## What is claimed -/

/-- The MSDUs of a queue that may be aggregated. -/
def Context.msdus (c : Context) (q : List WifiMacQueueItem) : List WifiMacQueueItem :=
  q.filter c.isNext

/-- A queue without its first `k` MSDUs. -/
def Context.dropMsdus (c : Context) : ℕ → List WifiMacQueueItem → List WifiMacQueueItem
  | 0, q => q
  | _ + 1, [] => []
  | k + 1, x :: q => if c.isNext x then c.dropMsdus k q else x :: c.dropMsdus (k + 1) q

/-- MSDUs with the subframe headers that their headers imply. -/
def subframes (l : List WifiMacQueueItem) : List (List UInt8 × AmsduSubframeHeader) :=
  l.map fun msdu ↦ (msdu.m_packet, msdu.subframeHeader)

/-- A null leaves the queue as it is. An A-MSDU is no larger than the maximum, consists of the first MSDUs
of the queue, at least two, which alone are removed from it, and is deaggregated into them. -/
def Context.Sound (c : Context) (q : List WifiMacQueueItem) : Prop :=
  match c.getNextAmsdu q with
  | none => False
  | some (none, q') => q' = q
  | some (some amsdu, q') =>
    amsdu.m_packet.length ≤ c.maxAmsduSize ∧
      ∃ k, 2 ≤ k ∧ k ≤ (c.msdus q).length ∧ q' = c.dropMsdus k q ∧
        amsdu.m_msduList = subframes ((c.msdus q).take k) ∧
        deaggregate amsdu.m_packet = some (subframes ((c.msdus q).take k))

/-! ## Sizes -/

/-- The size of an A-MSDU with a further MSDU. -/
def addSize (amsduSize msduSize : ℕ) : ℕ := amsduSize + (4 - amsduSize % 4) % 4 + 14 + msduSize

/-- The size of the A-MSDU of some MSDUs. -/
def amsduSize (l : List WifiMacQueueItem) : ℕ :=
  (l.map fun msdu ↦ msdu.m_packet.length).foldl addSize 0

/-- The size to which the check adds a further MSDU: a single MSDU is not wrapped yet. -/
def checkedSize : List WifiMacQueueItem → ℕ
  | [x] => x.m_packet.length
  | l => amsduSize l

/-- The checks accept a further MSDU. -/
def Context.Accepts (c : Context) (l : List WifiMacQueueItem) (x : WifiMacQueueItem) : Prop :=
  let size := getSizeIfAggregated x.m_packet.length (checkedSize l)
  size ≤ c.maxAmsduSize ∧
    c.isWithinLimits ((l.head?.getD x).m_header.getSize + size + 4) = true

/-- The checks accept each MSDU after those before it. -/
def Context.Passes (c : Context) (l : List WifiMacQueueItem) : Prop :=
  ∀ p x s, l = p ++ x :: s → c.Accepts p x

/-- Of the MSDUs that pass the checks, the first two fit together with both headers, the further ones
do not make up a size of more than 16 bits, and there are not 256 of them. -/
def Context.Fits (c : Context) (q : List WifiMacQueueItem) : Prop :=
  c.maxAmsduSize ≠ 0 → ∀ l, l <+: c.msdus q → c.Passes l →
    (l.length = 2 → amsduSize l ≤ c.maxAmsduSize) ∧ (3 ≤ l.length → amsduSize l < 65536) ∧
      l.length < 256

section Sizes

variable {c : Context} {l : List WifiMacQueueItem} {x : WifiMacQueueItem}

theorem amsduSize_concat : amsduSize (l ++ [x]) = addSize (amsduSize l) x.m_packet.length := by
  rw [amsduSize, List.map_append, List.foldl_append]
  rfl

theorem amsduSize_le_append (l s : List WifiMacQueueItem) : amsduSize l ≤ amsduSize (l ++ s) := by
  induction s using List.reverseRecOn with
  | nil => rw [List.append_nil]
  | append_singleton s x ih =>
    rw [← List.append_assoc, amsduSize_concat, addSize]
    omega

theorem length_le_amsduSize (hx : x ∈ l) : x.m_packet.length ≤ amsduSize l := by
  obtain ⟨p, s, rfl⟩ := List.append_of_mem hx
  have hle := amsduSize_le_append (p ++ [x]) s
  rw [amsduSize_concat, addSize, List.append_assoc] at hle
  have heq : p ++ ([x] ++ s) = p ++ x :: s := rfl
  rw [heq] at hle
  omega

theorem getSizeIfAggregated_eq (msduSize amsduSize : ℕ) :
    getSizeIfAggregated msduSize amsduSize = addSize amsduSize msduSize % 65536 := by
  rw [getSizeIfAggregated, calculatePadding, addSize]
  omega

theorem checkedSize_eq (hl : 2 ≤ l.length) : checkedSize l = amsduSize l := by
  match l, hl with
  | _ :: _ :: _, _ => rfl

theorem Context.Passes.nil : c.Passes [] := fun p x s h ↦
  absurd h (List.append_ne_nil_of_right_ne_nil p (List.cons_ne_nil x s)).symm

theorem Context.passes_concat : c.Passes (l ++ [x]) ↔ c.Passes l ∧ c.Accepts l x := by
  constructor
  · refine fun h ↦ ⟨fun p y s heq ↦ h p y (s ++ [x]) ?_, h l x [] rfl⟩
    rw [heq, List.append_assoc]
    rfl
  · rintro ⟨hl, hx⟩ p y s heq
    induction s using List.reverseRecOn with
    | nil =>
      obtain ⟨rfl, hlast⟩ := List.append_inj' heq rfl
      obtain rfl := List.head_eq_of_cons_eq hlast
      exact hx
    | append_singleton s z _ =>
      rw [← List.cons_append, ← List.append_assoc] at heq
      exact hl p y s (List.append_inj' heq rfl).1

theorem Context.Passes.of_append {s : List WifiMacQueueItem} (h : c.Passes (l ++ s)) : c.Passes l := by
  intro p x r heq
  refine h p x (r ++ s) ?_
  rw [heq, List.append_assoc]
  rfl

theorem Context.Fits.amsduSize_le {q : List WifiMacQueueItem} (h : c.Fits q)
    (hmax : c.maxAmsduSize ≠ 0) (hpre : l <+: c.msdus q) (hpass : c.Passes l) (hl : 2 ≤ l.length) :
    amsduSize l ≤ c.maxAmsduSize := by
  obtain ⟨htwo, hmore, -⟩ := h hmax l hpre hpass
  rcases Nat.eq_or_lt_of_le hl with heq | hlt
  · exact htwo heq.symm
  · obtain ⟨p, x, rfl⟩ := List.eq_nil_or_concat' l |>.resolve_left
      (List.ne_nil_of_length_pos (Nat.zero_lt_of_lt hlt))
    rw [List.length_append, List.length_singleton] at hlt
    have haccept := (passes_concat.mp hpass).2.1
    rw [checkedSize_eq (by omega), getSizeIfAggregated_eq, ← amsduSize_concat,
      Nat.mod_eq_of_lt (hmore (by rw [List.length_append, List.length_singleton]; omega))] at haccept
    exact haccept

end Sizes

/-! ## The payload -/

section Payload

variable {l : List WifiMacQueueItem} {x : WifiMacQueueItem}

/-- The payload of the A-MSDU of some MSDUs. -/
def payload (l : List WifiMacQueueItem) : List UInt8 := l.foldl addSubframe []

theorem payload_concat : payload (l ++ [x]) = addSubframe (payload l) x := by
  rw [payload, List.foldl_append]
  rfl

theorem length_subframe : x.subframe.length = 14 + x.m_packet.length := by
  rw [subframe, AmsduSubframeHeader.serialize]
  simp
  omega

theorem length_addSubframe (packet : List UInt8) :
    (addSubframe packet x).length = addSize packet.length x.m_packet.length := by
  rw [addSubframe, List.length_append, length_subframe, addSize]
  split_ifs with hpos
  · rw [List.length_append, List.length_replicate, calculatePadding]
    omega
  · omega

theorem length_payload (l : List WifiMacQueueItem) : (payload l).length = amsduSize l := by
  induction l using List.reverseRecOn with
  | nil => rfl
  | append_singleton l x ih => rw [payload_concat, length_addSubframe, ih, amsduSize_concat]

/-- The subframes of some MSDUs, each with the padding that comes before the next one. -/
def paddedSubframes : List WifiMacQueueItem → List UInt8
  | [] => []
  | [x] => x.subframe
  | x :: y :: l =>
    x.subframe ++ (List.replicate ((4 - (x.m_packet.length + 14) % 4) % 4) 0 ++
      paddedSubframes (y :: l))

theorem foldl_addSubframe (l : List WifiMacQueueItem) : ∀ (packet : List UInt8)
    (x : WifiMacQueueItem), packet.length % 4 = 0 →
      (x :: l).foldl addSubframe packet = packet ++ paddedSubframes (x :: l) := by
  induction l with
  | nil =>
    intro packet x hmod
    have hpad : calculatePadding packet.length = 0 := by
      rw [calculatePadding]
      omega
    rw [List.foldl_cons, List.foldl_nil, addSubframe, hpad, List.replicate_zero, List.append_nil,
      ite_self]
    rfl
  | cons y l ih =>
    intro packet x hmod
    have hpad : calculatePadding packet.length = 0 := by
      rw [calculatePadding]
      omega
    have hx : addSubframe packet x = packet ++ x.subframe := by
      rw [addSubframe, hpad, List.replicate_zero, List.append_nil, ite_self]
    have hpos : (packet ++ x.subframe).length > 0 := by
      rw [List.length_append, length_subframe]
      omega
    have hpadding : calculatePadding (packet ++ x.subframe).length =
        (4 - (x.m_packet.length + 14) % 4) % 4 := by
      rw [List.length_append, length_subframe, calculatePadding]
      omega
    have hmod' : (packet ++ x.subframe ++
        List.replicate ((4 - (x.m_packet.length + 14) % 4) % 4) (0 : UInt8)).length % 4 = 0 := by
      rw [List.length_append, List.length_append, length_subframe, List.length_replicate]
      omega
    have hrest := ih _ y hmod'
    rw [List.foldl_cons] at hrest
    rw [List.foldl_cons, hx, List.foldl_cons, paddedSubframes]
    -- the padding is added with the next subframe
    have hy : addSubframe (packet ++ x.subframe) y = addSubframe (packet ++ x.subframe ++
        List.replicate ((4 - (x.m_packet.length + 14) % 4) % 4) 0) y := by
      have hpad' : calculatePadding (packet ++ x.subframe ++
          List.replicate ((4 - (x.m_packet.length + 14) % 4) % 4) (0 : UInt8)).length = 0 := by
        rw [calculatePadding]
        omega
      rw [addSubframe, addSubframe, if_pos hpos, hpadding, hpad', List.replicate_zero,
        List.append_nil, ite_self]
    rw [hy, hrest, List.append_assoc, List.append_assoc]

/-- **The payload** is made of the padded subframes. -/
theorem payload_eq (l : List WifiMacQueueItem) : payload l = paddedSubframes l := by
  cases l with
  | nil => rfl
  | cons x l => exact foldl_addSubframe l [] x rfl

/-! ## Deaggregation -/

theorem deserialize_subframe (hx : x.m_packet.length < 65536) (bytes : List UInt8) :
    AmsduSubframeHeader.deserialize (x.subframe ++ bytes) = some x.subframeHeader := by
  have hda : x.subframeHeader.m_da.toList.length = 6 := x.subframeHeader.m_da.toList_length
  have hsa : x.subframeHeader.m_sa.toList.length = 6 := x.subframeHeader.m_sa.toList_length
  have hlen : (LittleEndian.write 2 x.subframeHeader.m_length).reverse.length = 2 := by
    rw [List.length_reverse, LittleEndian.length_write]
  have hbytes : x.subframe ++ bytes = x.subframeHeader.m_da.toList ++
      (x.subframeHeader.m_sa.toList ++
        ((LittleEndian.write 2 x.subframeHeader.m_length).reverse ++ (x.m_packet ++ bytes))) := by
    rw [subframe, AmsduSubframeHeader.serialize, List.append_assoc, List.append_assoc,
      List.append_assoc]
  have htake : (x.subframe ++ bytes).take 6 = x.subframeHeader.m_da.toList := by
    rw [hbytes, List.take_left' hda]
  have hdrop : (x.subframe ++ bytes).drop 6 = x.subframeHeader.m_sa.toList ++
      ((LittleEndian.write 2 x.subframeHeader.m_length).reverse ++ (x.m_packet ++ bytes)) := by
    rw [hbytes, List.drop_left' hda]
  have hdrop' : (x.subframe ++ bytes).drop 12 =
      (LittleEndian.write 2 x.subframeHeader.m_length).reverse ++ (x.m_packet ++ bytes) := by
    rw [show 12 = 6 + 6 from rfl, ← List.drop_drop, hdrop, List.drop_left' hsa]
  have hlt : x.subframeHeader.m_length < 256 ^ 2 := Nat.mod_lt _ (by decide)
  have hle : 14 ≤ (x.subframe ++ bytes).length := by
    rw [List.length_append, length_subframe]
    omega
  rw [AmsduSubframeHeader.deserialize, dif_pos hle]
  refine congrArg some ?_
  have hlength : LittleEndian.read (((x.subframe ++ bytes).drop 12).take 2).reverse =
      x.subframeHeader.m_length := by
    rw [hdrop', List.take_left' hlen, List.reverse_reverse, LittleEndian.read_write,
      Nat.mod_eq_of_lt hlt]
  have hsource : ((x.subframe ++ bytes).drop 6).take 6 = x.subframeHeader.m_sa.toList := by
    rw [hdrop, List.take_left' hsa]
  cases hhdr : x.subframeHeader with
  | mk da sa length =>
    rw [hhdr] at htake hsource hlength
    exact AmsduSubframeHeader.ext (Subtype.ext htake) (Subtype.ext hsource) hlength

theorem drop_subframe (x : WifiMacQueueItem) (bytes : List UInt8) :
    (x.subframe ++ bytes).drop 14 = x.m_packet ++ bytes := by
  have hlen : x.subframeHeader.serialize.length = 14 := by
    rw [AmsduSubframeHeader.serialize]
    simp
  rw [subframe, List.append_assoc, List.drop_left' hlen]

/-- **The loop of `Deaggregate`** reads the MSDUs and their headers. -/
theorem deaggregateLoop_eq (l : List WifiMacQueueItem) : ∀ {fuel maxSize deserialized : ℕ},
    l.length < fuel → (∀ x ∈ l, x.m_packet.length < 65536) →
    deserialized + (paddedSubframes l).length = maxSize →
    deaggregateLoop maxSize fuel deserialized (paddedSubframes l) = some (subframes l) := by
  induction l with
  | nil =>
    intro fuel maxSize deserialized hfuel _ hsize
    obtain ⟨fuel, rfl⟩ := Nat.exists_eq_add_one.mpr hfuel
    rw [deaggregateLoop, if_neg (by rw [← hsize]; exact lt_irrefl _)]
    rfl
  | cons x l ih =>
    intro fuel maxSize deserialized hfuel hlt hsize
    obtain ⟨fuel, rfl⟩ := Nat.exists_eq_add_one.mpr (Nat.zero_lt_of_lt hfuel)
    obtain ⟨hx, hl⟩ := List.forall_mem_cons.mp hlt
    have hlength : x.subframeHeader.m_length = x.m_packet.length := Nat.mod_eq_of_lt hx
    rw [List.length_cons, Nat.succ_lt_succ_iff] at hfuel
    cases l with
    | nil =>
      have hx' : paddedSubframes [x] = x.subframe ++ [] := (List.append_nil _).symm
      rw [hx', List.append_nil, length_subframe] at hsize
      rw [hx', deaggregateLoop, if_pos (by omega), deserialize_subframe hx, Option.bind_some,
        drop_subframe, List.append_nil, if_pos hlength.le]
      dsimp only
      have hend : deaggregateLoop maxSize fuel (deserialized + 14 + x.m_packet.length) [] =
          some (subframes []) := ih hfuel hl (by rw [← hsize, ← Nat.add_assoc]; rfl)
      rw [if_neg fun h ↦ by rw [hlength] at h; omega, hlength, List.take_length, List.drop_length,
        hend]
      rfl
    | cons y l =>
      rw [paddedSubframes, List.length_append, List.length_append, length_subframe,
        List.length_replicate] at hsize
      have hpos : 0 < (paddedSubframes (y :: l)).length := by
        cases l with
        | nil => rw [paddedSubframes, length_subframe]; omega
        | cons z l => rw [paddedSubframes, List.length_append, length_subframe]; omega
      rw [paddedSubframes, deaggregateLoop, if_pos (by omega), deserialize_subframe hx,
        Option.bind_some, drop_subframe, hlength,
        if_pos (by rw [List.length_append]; exact Nat.le_add_right _ _), List.take_left,
        List.drop_left]
      dsimp only
      by_cases hpad : (4 - (x.m_packet.length + 14) % 4) % 4 > 0
      · rw [if_pos ⟨hpad, by omega⟩, List.drop_left' List.length_replicate, ih hfuel hl (by omega)]
        rfl
      · rw [if_neg fun h ↦ hpad h.1, Nat.eq_zero_of_not_pos hpad, List.replicate_zero,
          List.nil_append, ih hfuel hl (by omega)]
        rfl

/-- **`Deaggregate`** returns the MSDUs of a payload. -/
theorem deaggregate_payload (hlt : ∀ x ∈ l, x.m_packet.length < 65536) :
    deaggregate (payload l) = some (subframes l) := by
  rw [deaggregate, payload_eq]
  refine deaggregateLoop_eq l ?_ hlt (Nat.zero_add _)
  rw [← payload_eq, length_payload]
  clear hlt
  induction l using List.reverseRecOn with
  | nil => exact Nat.zero_lt_one
  | append_singleton l x ih =>
    rw [List.length_append, List.length_singleton, amsduSize_concat, addSize]
    omega

end Payload

/-! ## The loop -/

section Loop

variable {c : Context} {l p t : List WifiMacQueueItem} {amsdu x : WifiMacQueueItem}

/-- The A-MSDU of the loop, after some MSDUs. -/
inductive Aggregated : List WifiMacQueueItem → WifiMacQueueItem → Prop
  | one (x : WifiMacQueueItem) : Aggregated [x] x
  | more {l : List WifiMacQueueItem} {amsdu : WifiMacQueueItem} (hl : 2 ≤ l.length)
      (hpacket : amsdu.m_packet = payload l) (hlist : amsdu.m_msduList = subframes l)
      (hsize : ∀ x, amsdu.m_header.getSize = (l.head?.getD x).m_header.getSize) : Aggregated l amsdu

theorem Aggregated.length_packet (h : Aggregated l amsdu) : amsdu.m_packet.length = checkedSize l := by
  cases h with
  | one => rfl
  | more hl hpacket => rw [hpacket, length_payload, checkedSize_eq hl]

theorem Aggregated.getSize (h : Aggregated l amsdu) (x : WifiMacQueueItem) :
    amsdu.m_header.getSize = (l.head?.getD x).m_header.getSize := by
  cases h with
  | one => rfl
  | more _ _ _ hsize => exact hsize x

theorem Aggregated.ne_nil (h : Aggregated l amsdu) : l ≠ [] := by
  cases h with
  | one => exact List.cons_ne_nil _ _
  | more hl => exact List.ne_nil_of_length_pos (Nat.zero_lt_of_lt hl)

theorem Aggregated.spec (h : Aggregated l amsdu) (hl : 2 ≤ l.length) :
    amsdu.m_packet = payload l ∧ amsdu.m_msduList = subframes l := by
  cases h with
  | one => exact absurd hl (Nat.not_succ_le_self 1)
  | more _ hpacket hlist => exact ⟨hpacket, hlist⟩

/-- **`Aggregate`** adds an MSDU. -/
theorem Aggregated.aggregate (h : Aggregated l amsdu) (hmsdus : ∀ y ∈ l, y.IsMsdu)
    (hdata : x.m_header.qosData = true) (hx : x.IsMsdu) :
    ∃ amsdu', amsdu.aggregate x = some amsdu' ∧ Aggregated (l ++ [x]) amsdu' := by
  have hguard : ¬(!x.m_header.qosData || x.m_header.m_amsduPresent) = true := by
    rw [hdata, hx.not_amsdu]
    exact Bool.false_ne_true
  rw [WifiMacQueueItem.aggregate, if_neg hguard]
  cases h with
  | one =>
    have hnil := (hmsdus amsdu (List.mem_singleton.mpr rfl)).msduList
    refine ⟨_, if_pos hnil, .more le_rfl rfl ?_ fun _ ↦ rfl⟩
    rw [doAggregate, wrap, doAggregate]
    dsimp only
    rw [hnil]
    rfl
  | more hl hpacket hlist hsize =>
    have hne : amsdu.m_msduList ≠ [] := by
      rw [hlist, subframes]
      exact List.ne_nil_of_length_pos (by rw [List.length_map]; omega)
    refine ⟨_, if_neg hne, .more ?_ ?_ ?_ fun y ↦ ?_⟩
    · rw [List.length_append]
      exact hl.trans (Nat.le_add_right _ _)
    · rw [payload_concat, ← hpacket]
      rfl
    · rw [doAggregate, hlist, subframes, subframes, List.map_append]
      rfl
    · rw [List.head?_append_of_ne_nil _ (List.ne_nil_of_length_pos (Nat.zero_lt_of_lt hl))]
      exact hsize y

namespace Context

theorem loop_skip (kept rest : List WifiMacQueueItem) (n : ℕ) (h : ∀ y ∈ kept, ¬c.isNext y = true) :
    c.loop amsdu n (kept ++ rest) =
      (c.loop amsdu n rest).map fun r ↦ (r.1, r.2.1, kept ++ r.2.2) := by
  induction kept with
  | nil => exact Option.map_id'.symm
  | cons y kept ih =>
    rw [List.forall_mem_cons] at h
    rw [List.cons_append, loop, if_pos (Bool.not_eq_true _ ▸ h.1), ih h.2, Option.map_map]
    rfl

theorem loop_of_accepts {rest : List WifiMacQueueItem} {n : ℕ} (hx : c.isNext x = true)
    (hlen : amsdu.m_packet.length = checkedSize l)
    (hsize : amsdu.m_header.getSize = (l.head?.getD x).m_header.getSize) (hacc : c.Accepts l x) :
    c.loop amsdu n (x :: rest) =
      if n = 0 then (c.loop x 1 rest).map fun r ↦ (r.1, r.2.1, x :: r.2.2)
      else (amsdu.aggregate x).bind fun amsdu ↦ c.loop amsdu ((n + 1) % 256) rest := by
  rw [loop, if_neg (by rw [hx]; exact Bool.noConfusion)]
  dsimp only
  rw [hlen, if_neg (not_lt.mpr hacc.1), hsize, hacc.2, Bool.not_true, if_neg Bool.false_ne_true]

theorem loop_of_not_accepts {rest : List WifiMacQueueItem} {n : ℕ} (hx : c.isNext x = true)
    (hlen : amsdu.m_packet.length = checkedSize l)
    (hsize : amsdu.m_header.getSize = (l.head?.getD x).m_header.getSize) (hacc : ¬c.Accepts l x) :
    c.loop amsdu n (x :: rest) = some (amsdu, n, x :: rest) := by
  rw [loop, if_neg (by rw [hx]; exact Bool.noConfusion)]
  dsimp only
  rw [hlen, hsize]
  by_cases hle : getSizeIfAggregated x.m_packet.length (checkedSize l) > c.maxAmsduSize
  · rw [if_pos hle]
  · have hlimit : c.isWithinLimits ((l.head?.getD x).m_header.getSize +
        getSizeIfAggregated x.m_packet.length (checkedSize l) + 4) = false := by
      rw [← Bool.not_eq_true]
      exact fun h ↦ hacc ⟨not_lt.mp hle, h⟩
    rw [if_neg hle, hlimit]
    rfl

/-! ## Dropping -/

@[simp] theorem dropMsdus_zero (q : List WifiMacQueueItem) : c.dropMsdus 0 q = q := by
  cases q with
  | _ => rfl

theorem dropMsdus_skip (kept rest : List WifiMacQueueItem) (k : ℕ)
    (h : ∀ y ∈ kept, ¬c.isNext y = true) :
    c.dropMsdus k (kept ++ rest) = kept ++ c.dropMsdus k rest := by
  cases k with
  | zero => rw [dropMsdus_zero, dropMsdus_zero]
  | succ k =>
    induction kept with
    | nil => rfl
    | cons y kept ih =>
      rw [List.forall_mem_cons] at h
      rw [List.cons_append, dropMsdus, if_neg h.1, ih h.2]
      rfl

theorem dropMsdus_cons {rest : List WifiMacQueueItem} (k : ℕ) (hx : c.isNext x = true) :
    c.dropMsdus (k + 1) (x :: rest) = c.dropMsdus k rest := by
  rw [dropMsdus, if_pos hx]

theorem length_dropMsdus (q : List WifiMacQueueItem) : ∀ {k : ℕ}, k ≤ (c.msdus q).length →
    (c.dropMsdus k q).length + k = q.length := by
  induction q with
  | nil =>
    intro k hk
    obtain rfl := Nat.le_zero.mp hk
    rfl
  | cons x q ih =>
    intro k hk
    cases k with
    | zero => rfl
    | succ k =>
      rw [msdus, List.filter_cons] at hk
      rw [dropMsdus]
      split_ifs at hk ⊢ with hx
      · rw [List.length_cons, ← ih (Nat.le_of_succ_le_succ hk), Nat.add_assoc]
      · rw [List.length_cons, List.length_cons, ← ih hk]
        omega

/-! ## Runs of MSDUs that pass the checks -/

/-- **A run of the loop** over MSDUs that pass the checks. -/
theorem loop_run (p : List WifiMacQueueItem) : ∀ {l : List WifiMacQueueItem}
    {amsdu : WifiMacQueueItem} {rest : List WifiMacQueueItem}, Aggregated l amsdu →
    (∀ y ∈ l, y.IsMsdu) → (∀ y ∈ rest, c.isNext y = true → y.IsMsdu) → c.msdus rest = p ++ t →
    c.Passes (l ++ p) → l.length + p.length ≤ 256 →
    ∃ amsdu' kept rest', Aggregated (l ++ p) amsdu' ∧ c.dropMsdus p.length rest = kept ++ rest' ∧
      c.msdus rest' = t ∧ (∀ y ∈ rest', y ∈ rest) ∧
      c.loop amsdu (l.length % 256) rest =
        (c.loop amsdu' ((l ++ p).length % 256) rest').map fun r ↦ (r.1, r.2.1, kept ++ r.2.2) := by
  induction p with
  | nil =>
    intro l amsdu rest hagg _ _ ht _ _
    rw [List.append_nil]
    exact ⟨amsdu, [], rest, hagg, dropMsdus_zero rest, ht, fun _ hy ↦ hy, Option.map_id'.symm⟩
  | cons y p ih =>
    intro l amsdu rest hagg hmsdus hrest ht hpass hlen
    obtain ⟨kept, rest, rfl, hkept, hy, ht⟩ := List.filter_eq_cons_iff.mp ht
    have hacc : c.Accepts l y := hpass l y p rfl
    have hymsdu := hrest y (List.mem_append_right _ List.mem_cons_self) hy
    have hdata : y.m_header.qosData = true := by
      rw [isNext, Bool.and_eq_true, Bool.and_eq_true, Bool.and_eq_true] at hy
      exact hy.1.1.2
    obtain ⟨amsdu₁, hstep, hagg₁⟩ := hagg.aggregate hmsdus hdata hymsdu
    have happend : l ++ y :: p = (l ++ [y]) ++ p := by rw [List.append_assoc]; rfl
    have hpos := List.length_pos_of_ne_nil hagg.ne_nil
    rw [List.length_cons] at hlen
    rw [happend] at hpass
    obtain ⟨amsdu', kept', rest', hagg', hdrop, ht', hmem, hloop⟩ := ih hagg₁
      (fun z hz ↦ (List.mem_append.mp hz).elim (hmsdus z) fun hz ↦
        List.mem_singleton.mp hz ▸ hymsdu)
      (fun z hz ↦ hrest z (List.mem_append_right _ (List.mem_cons_of_mem _ hz))) ht hpass
      (by rw [List.length_append, List.length_singleton]; omega)
    refine ⟨amsdu', kept ++ kept', rest', happend ▸ hagg', ?_, ht', fun z hz ↦
      List.mem_append_right _ (List.mem_cons_of_mem _ (hmem z hz)), ?_⟩
    · rw [List.length_cons, dropMsdus_skip _ _ _ hkept, dropMsdus_cons _ hy, hdrop, List.append_assoc]
    · have hne : ¬l.length % 256 = 0 := by
        rw [Nat.mod_eq_of_lt (by omega)]
        exact hpos.ne'
      have hcount : (l.length % 256 + 1) % 256 = (l ++ [y]).length % 256 := by
        rw [List.length_append, List.length_singleton]
        omega
      rw [loop_skip _ _ _ hkept, loop_of_accepts hy hagg.length_packet (hagg.getSize y) hacc,
        if_neg hne, hstep, Option.bind_some, hcount, hloop, Option.map_map, happend]
      refine congrFun (congrArg Option.map (funext fun r ↦ ?_)) _
      rw [Function.comp_apply, List.append_assoc]

theorem loop_stop {rest : List WifiMacQueueItem} {n : ℕ} (hagg : Aggregated l amsdu)
    (hstop : ∀ y s, c.msdus rest = y :: s → ¬c.Accepts l y) :
    c.loop amsdu n rest = some (amsdu, n, rest) := by
  induction rest with
  | nil => rfl
  | cons y rest ih =>
    by_cases hy : c.isNext y = true
    · refine loop_of_not_accepts hy hagg.length_packet (hagg.getSize y) (hstop y (c.msdus rest) ?_)
      rw [msdus, List.filter_cons_of_pos hy, ← msdus]
    · rw [msdus, List.filter_cons_of_neg hy, ← msdus] at hstop
      rw [loop, if_pos (Bool.not_eq_true _ ▸ hy), ih hstop]
      rfl

/-! ## The result of a call -/

variable {q : List WifiMacQueueItem}

theorem getNextAmsdu_of_nil (hrec : ¬c.recipient.isBroadcast = true) (hq : c.msdus q = []) :
    c.getNextAmsdu q = some (none, q) := by
  rw [getNextAmsdu, if_neg hrec, ← List.head?_filter, ← msdus, hq]
  rfl

theorem getNextAmsdu_of_disabled (hrec : ¬c.recipient.isBroadcast = true) (hmax : c.maxAmsduSize = 0) :
    c.getNextAmsdu q = some (none, q) := by
  rw [getNextAmsdu, if_neg hrec]
  split
  · rfl
  · rw [if_pos hmax]

theorem getNextAmsdu_of_not_accepts (hrec : ¬c.recipient.isBroadcast = true) (hq : c.msdus q = x :: t)
    (hacc : ¬c.Accepts [] x) : c.getNextAmsdu q = some (none, q) := by
  obtain ⟨kept, rest, rfl, hkept, hx, -⟩ := List.filter_eq_cons_iff.mp hq
  rw [getNextAmsdu, if_neg hrec, ← List.head?_filter, ← msdus, hq]
  have hloop : c.loop ⟨[], x.m_header, c.now, []⟩ 0 (x :: rest) = some (_, 0, x :: rest) :=
    loop_of_not_accepts hx rfl rfl hacc
  dsimp only [List.head?_cons]
  rw [loop_skip _ _ _ hkept, hloop]
  split_ifs
  · rfl
  · rfl

theorem getNextAmsdu_of_accepts (hrec : ¬c.recipient.isBroadcast = true) (hmax : c.maxAmsduSize ≠ 0)
    (hq : c.msdus q = x :: t) (hacc : c.Accepts [] x) :
    ∃ kept rest, q = kept ++ x :: rest ∧ (∀ y ∈ kept, ¬c.isNext y = true) ∧ c.isNext x = true ∧
      c.msdus rest = t ∧ c.getNextAmsdu q = (c.loop x 1 rest).map fun r ↦
        if r.2.1 < 2 then (none, kept ++ x :: r.2.2) else (some r.1, kept ++ r.2.2) := by
  obtain ⟨kept, rest, rfl, hkept, hx, ht⟩ := List.filter_eq_cons_iff.mp hq
  refine ⟨kept, rest, rfl, hkept, hx, ht, ?_⟩
  rw [getNextAmsdu, if_neg hrec, ← List.head?_filter, ← msdus, hq]
  have hloop : c.loop ⟨[], x.m_header, c.now, []⟩ 0 (x :: rest) =
      (c.loop x 1 rest).map fun r ↦ (r.1, r.2.1, x :: r.2.2) := by
    refine (loop_of_accepts hx ?_ ?_ hacc).trans (if_pos rfl)
    · rfl
    · rfl
  dsimp only [List.head?_cons]
  rw [if_neg hmax, loop_skip _ _ _ hkept, hloop, Option.map_map, Option.map_map]
  refine congrFun (congrArg Option.map (funext fun r ↦ ?_)) _
  have herase : (kept ++ x :: r.2.2).eraseP c.isNext = kept ++ r.2.2 := by
    rw [List.eraseP_append_right _ hkept, List.eraseP_cons_of_pos hx]
  rw [Function.comp_apply, Function.comp_apply, herase]

/-- **If fewer than 256 MSDUs pass the checks**, they are aggregated, or there are too few of them. -/
theorem getNextAmsdu_eq (hrec : ¬c.recipient.isBroadcast = true) (hmax : c.maxAmsduSize ≠ 0)
    (hmsdu : ∀ y ∈ q, c.isNext y = true → y.IsMsdu) (hq : c.msdus q = p ++ t) (hpass : c.Passes p)
    (hstop : ∀ y s, t = y :: s → ¬c.Accepts p y) (hlen : p.length < 256) :
    (p.length < 2 → c.getNextAmsdu q = some (none, q)) ∧
      (2 ≤ p.length → ∃ amsdu, Aggregated p amsdu ∧
        c.getNextAmsdu q = some (some amsdu, c.dropMsdus p.length q)) := by
  cases p with
  | nil =>
    refine ⟨fun _ ↦ ?_, fun h ↦ absurd h (by decide)⟩
    cases t with
    | nil => exact getNextAmsdu_of_nil hrec hq
    | cons y s => exact getNextAmsdu_of_not_accepts hrec hq (hstop y s rfl)
  | cons x p =>
    obtain ⟨kept, rest, rfl, hkept, hx, ht, hnext⟩ :=
      getNextAmsdu_of_accepts hrec hmax hq (hpass [] x p rfl)
    have hxmsdu := hmsdu x (List.mem_append_right _ List.mem_cons_self) hx
    rw [List.length_cons] at hlen
    obtain ⟨amsdu, kept', rest', hagg, hdrop, ht', -, hloop⟩ := loop_run (c := c) p (.one x)
      (fun y hy ↦ List.mem_singleton.mp hy ▸ hxmsdu)
      (fun y hy ↦ hmsdu y (List.mem_append_right _ (List.mem_cons_of_mem _ hy))) ht hpass
      (by rw [List.length_singleton]; omega)
    have hcount : ([x] ++ p).length % 256 = (x :: p).length :=
      Nat.mod_eq_of_lt (by rw [List.length_append, List.length_singleton]; omega)
    rw [hcount, loop_stop hagg (by rw [ht']; exact hstop)] at hloop
    have hone : [x].length % 256 = 1 := rfl
    rw [hnext, ← hone, hloop, Option.map_some, Option.map_some]
    constructor
    · intro hlt
      obtain rfl : p = [] := by
        rw [← List.length_eq_zero_iff]
        rw [List.length_cons] at hlt
        omega
      rw [if_pos hlt, ← hdrop, List.length_nil, dropMsdus_zero]
    · intro hle
      refine ⟨amsdu, hagg, ?_⟩
      rw [if_neg (not_lt.mpr hle), List.length_cons, dropMsdus_skip _ _ _ hkept,
        dropMsdus_cons _ hx, hdrop]

/-! ## The counter wraps around -/

/-- `nMsdu` is the number of MSDUs in the list, but for the first one. -/
structure Counted (amsdu : WifiMacQueueItem) (n : ℕ) : Prop where
  lt : n < 256
  one : n = 1 → amsdu.m_msduList = []
  more : 2 ≤ n → amsdu.m_msduList.length = n

theorem Counted.aggregate {amsdu' : WifiMacQueueItem} {n : ℕ} (h : Counted amsdu n) (hn : n ≠ 0)
    (hstep : amsdu.aggregate x = some amsdu') : Counted amsdu' ((n + 1) % 256) := by
  have hlen : amsdu'.m_msduList.length = n + 1 := by
    rw [WifiMacQueueItem.aggregate] at hstep
    split_ifs at hstep with _ hnil
    · obtain rfl := Option.some.inj hstep
      obtain rfl : n = 1 := by
        by_contra hne
        have hmore := h.more (by omega)
        rw [hnil, List.length_nil] at hmore
        exact hn hmore.symm
      rw [doAggregate, wrap, doAggregate, hnil]
      rfl
    · obtain rfl := Option.some.inj hstep
      have hne : n ≠ 1 := fun heq ↦ hnil (h.one heq)
      rw [doAggregate, List.length_append, h.more (by omega), List.length_singleton]
  refine ⟨Nat.mod_lt _ (by decide), fun h1 ↦ ?_, fun h2 ↦ ?_⟩
  · have hlt := h.lt
    omega
  · have hlt := h.lt
    omega

theorem loop_counted (rest : List WifiMacQueueItem) : ∀ {amsdu : WifiMacQueueItem} {n : ℕ}
    {r : WifiMacQueueItem × ℕ × List WifiMacQueueItem},
    (∀ y ∈ rest, c.isNext y = true → y.IsMsdu) → Counted amsdu n →
    c.loop amsdu n rest = some r → Counted r.1 r.2.1 ∧ r.2.2.length ≤ rest.length := by
  induction rest with
  | nil =>
    intro amsdu n r _ hcount hr
    obtain rfl := Option.some.inj hr
    exact ⟨hcount, le_rfl⟩
  | cons y rest ih =>
    intro amsdu n r hmsdu hcount hr
    rw [List.forall_mem_cons] at hmsdu
    rw [loop] at hr
    dsimp only at hr
    split_ifs at hr with hy hmax hlimit hn
    · obtain ⟨r', hr', rfl⟩ := Option.map_eq_some_iff.mp hr
      obtain ⟨hcount', hle⟩ := ih hmsdu.2 hcount hr'
      exact ⟨hcount', Nat.succ_le_succ hle⟩
    · obtain rfl := Option.some.inj hr
      exact ⟨hcount, le_rfl⟩
    · obtain rfl := Option.some.inj hr
      exact ⟨hcount, le_rfl⟩
    · obtain ⟨r', hr', rfl⟩ := Option.map_eq_some_iff.mp hr
      have hymsdu := hmsdu.1 (by rwa [Bool.not_eq_false] at hy)
      obtain ⟨hcount', hle⟩ := ih hmsdu.2
        ⟨by decide, fun _ ↦ hymsdu.msduList, fun h ↦ absurd h (by decide)⟩ hr'
      exact ⟨hcount', Nat.succ_le_succ hle⟩
    · obtain ⟨amsdu', hstep, hr'⟩ := Option.bind_eq_some_iff.mp hr
      obtain ⟨hcount', hle⟩ := ih hmsdu.2 (hcount.aggregate hn hstep) hr'
      exact ⟨hcount', hle.trans (Nat.le_succ _)⟩

/-- **If 256 MSDUs pass the checks**, the call loses MSDUs. -/
theorem not_sound_of_passes (hrec : ¬c.recipient.isBroadcast = true) (hmax : c.maxAmsduSize ≠ 0)
    (hmsdu : ∀ y ∈ q, c.isNext y = true → y.IsMsdu) (hq : c.msdus q = p ++ t) (hpass : c.Passes p)
    (hlen : p.length = 256) : ¬c.Sound q := by
  cases p with
  | nil => exact absurd hlen (by decide)
  | cons x p =>
    obtain ⟨kept, rest, rfl, hkept, hx, ht, hnext⟩ :=
      getNextAmsdu_of_accepts hrec hmax hq (hpass [] x p rfl)
    have hxmsdu := hmsdu x (List.mem_append_right _ List.mem_cons_self) hx
    have hrestmsdu : ∀ y ∈ rest, c.isNext y = true → y.IsMsdu := fun y hy ↦
      hmsdu y (List.mem_append_right _ (List.mem_cons_of_mem _ hy))
    rw [List.length_cons] at hlen
    obtain ⟨amsdu, kept', rest', hagg, hdrop, ht', hmem, hloop⟩ := loop_run (c := c) p (.one x)
      (fun y hy ↦ List.mem_singleton.mp hy ▸ hxmsdu) hrestmsdu ht hpass
      (by rw [List.length_singleton]; omega)
    have hcount : ([x] ++ p).length % 256 = 0 := by
      rw [List.length_append, List.length_singleton, Nat.add_comm, hlen]
    have hone : [x].length % 256 = 1 := rfl
    have hrest := length_dropMsdus (c := c) rest (k := p.length) (by
      rw [ht]
      exact List.IsPrefix.length_le ⟨t, rfl⟩)
    rw [hdrop, List.length_append] at hrest
    rw [hcount] at hloop
    rw [Sound, hnext, ← hone, hloop]
    cases hr : c.loop amsdu 0 rest' with
    | none => exact not_false
    | some r =>
      obtain ⟨hcounted, hle⟩ := loop_counted rest' (fun y hy ↦ hrestmsdu y (hmem y hy))
        ⟨by decide, fun h ↦ absurd h (by decide), fun h ↦ absurd h (by decide)⟩ hr
      rw [Option.map_some, Option.map_some]
      dsimp only
      split_ifs with htwo
      · intro heq
        have hlength := congrArg List.length heq
        rw [List.length_append, List.length_append, List.length_cons, List.length_cons,
          List.length_append] at hlength
        omega
      · rintro ⟨-, k, hk, hkle, heq, hlist, -⟩
        have hnumber := congrArg List.length hlist
        rw [hcounted.more (not_lt.mp htwo), subframes, List.length_map, List.length_take,
          Nat.min_eq_left hkle] at hnumber
        have hlt := hcounted.lt
        have hlength := length_dropMsdus _ hkle
        rw [← heq, List.length_append, List.length_append, List.length_append,
          List.length_cons] at hlength
        omega

/-! ## The result -/

theorem exists_maximal (t : List WifiMacQueueItem) : ∀ {p : List WifiMacQueueItem}, c.Passes p →
    ∃ s t', p ++ t = p ++ s ++ t' ∧ c.Passes (p ++ s) ∧
      ∀ y u, t' = y :: u → ¬c.Accepts (p ++ s) y := by
  induction t with
  | nil =>
    intro p hp
    refine ⟨[], [], (List.append_nil _).symm, ?_, fun y u h ↦ absurd h.symm (List.cons_ne_nil y u)⟩
    rwa [List.append_nil]
  | cons y t ih =>
    intro p hp
    by_cases hy : c.Accepts p y
    · obtain ⟨s, t', heq, hpass, hstop⟩ := ih (passes_concat.mpr ⟨hp, hy⟩)
      rw [List.append_assoc, List.append_assoc p [y] s] at heq
      rw [List.append_assoc] at hpass hstop
      exact ⟨y :: s, t', heq, hpass, hstop⟩
    · refine ⟨[], y :: t, by rw [List.append_nil], by rwa [List.append_nil], ?_⟩
      intro z u hz
      rw [List.append_nil]
      exact List.head_eq_of_cons_eq hz ▸ hy

/-- **A call of `GetNextAmsdu` is sound just if the MSDUs that pass its checks fit.** -/
theorem sound_iff (c : Context) (hrec : ¬c.recipient.isBroadcast = true) (hmax : c.maxAmsduSize < 65536)
    (q : List WifiMacQueueItem) (hmsdu : ∀ x ∈ q, c.isNext x = true → x.IsMsdu) :
    c.Sound q ↔ c.Fits q := by
  constructor
  · intro hsound hne l hpre hl
    obtain ⟨t, ht⟩ := hpre
    obtain ⟨s, t', heq, hpass, hstop⟩ := exists_maximal t hl
    rw [heq] at ht
    have hlt : (l ++ s).length < 256 := by
      by_contra hge
      have hsplit := List.take_append_drop 256 (l ++ s)
      refine not_sound_of_passes hrec hne hmsdu (p := (l ++ s).take 256)
        (t := (l ++ s).drop 256 ++ t') ?_ ?_ ?_ hsound
      · rw [← ht, ← List.append_assoc, hsplit]
      · rw [← hsplit] at hpass
        exact hpass.of_append
      · rw [List.length_take, Nat.min_eq_left (not_lt.mp hge)]
    have hle : l.length ≤ (l ++ s).length := by
      rw [List.length_append]
      exact Nat.le_add_right _ _
    have hsize : 2 ≤ l.length → amsduSize l ≤ c.maxAmsduSize := by
      intro hl2
      obtain ⟨amsdu, hagg, hres⟩ :=
        (getNextAmsdu_eq hrec hne hmsdu ht.symm hpass hstop hlt).2 (hl2.trans hle)
      rw [Sound, hres] at hsound
      have hbound := hsound.1
      rw [(hagg.spec (hl2.trans hle)).1, length_payload] at hbound
      exact (amsduSize_le_append l s).trans hbound
    exact ⟨fun h2 ↦ hsize h2.ge, fun h3 ↦ (hsize (Nat.le_of_succ_le h3)).trans_lt hmax,
      hle.trans_lt hlt⟩
  · intro hfits
    by_cases hne : c.maxAmsduSize = 0
    · rw [Sound, getNextAmsdu_of_disabled hrec hne]
    · obtain ⟨p, t, heq, hpass, hstop⟩ := exists_maximal (c.msdus q) (Passes.nil (c := c))
      rw [List.nil_append, List.nil_append] at heq
      have hpre : p <+: c.msdus q := ⟨t, heq.symm⟩
      obtain ⟨hfew, hmany⟩ :=
        getNextAmsdu_eq hrec hne hmsdu heq hpass hstop (hfits hne p hpre hpass).2.2
      rcases Nat.lt_or_ge p.length 2 with hlt | hge
      · rw [Sound, hfew hlt]
      · obtain ⟨amsdu, hagg, hres⟩ := hmany hge
        obtain ⟨hpacket, hlist⟩ := hagg.spec hge
        have hsize := hfits.amsduSize_le hne hpre hpass hge
        have htake : (c.msdus q).take p.length = p := by rw [heq, List.take_left]
        rw [Sound, hres]
        dsimp only
        rw [hpacket, length_payload]
        refine ⟨hsize, p.length, hge, hpre.length_le, rfl, ?_, ?_⟩
        · rw [hlist, htake]
        · rw [htake]
          exact deaggregate_payload fun x hx ↦
            ((length_le_amsduSize hx).trans hsize).trans_lt hmax

end Context

end Loop

/-! ## Two MSDUs -/

/-- An MSDU to an access point. -/
def toAccessPoint (size : ℕ) : WifiMacQueueItem where
  m_packet := List.replicate size 0
  m_header := ⟨true, 0, false, true, false, List.Vector.replicate 6 1, List.Vector.replicate 6 2,
    List.Vector.replicate 6 3, List.Vector.replicate 6 0⟩
  m_tstamp := 0
  m_msduList := []

/-- A call for the MSDUs to that access point. -/
def call (maxAmsduSize : ℕ) : Context :=
  ⟨0, 0, List.Vector.replicate 6 1, 0, maxAmsduSize, fun _ ↦ true⟩

/-- Two MSDUs of four bytes are aggregated to 38 bytes. -/
theorem sound_two : (call 38).Sound [toAccessPoint 4, toAccessPoint 4] := by
  refine (Context.sound_iff (call 38) (by decide) (by decide) _ ?_).mpr ?_
  · intro x hx _
    rw [List.mem_cons, List.mem_singleton, or_self] at hx
    exact hx ▸ ⟨rfl, rfl⟩
  · intro _ l hpre _
    have hle : l.length ≤ 2 := hpre.length_le
    refine ⟨fun h2 ↦ ?_, fun h3 ↦ absurd (h3.trans hle) (by decide), hle.trans_lt (by decide)⟩
    rw [hpre.eq_of_length h2]
    decide

/-- With a maximum of 22 bytes they are still aggregated to 38 bytes: the check adds 18 bytes to the
four of the first MSDU. -/
theorem not_sound_two : ¬(call 22).Sound [toAccessPoint 4, toAccessPoint 4] := by
  have hlen : ((call 22).getNextAmsdu [toAccessPoint 4, toAccessPoint 4]).map
      (fun r ↦ r.1.map (·.m_packet.length)) = some (some 38) := by decide +kernel
  obtain ⟨⟨r, q⟩, hr, hsome⟩ := Option.map_eq_some_iff.mp hlen
  obtain ⟨amsdu, rfl, hsize⟩ := Option.map_eq_some_iff.mp hsome
  rw [Context.Sound, hr]
  rintro ⟨hle, -⟩
  rw [hsize] at hle
  exact absurd hle (by decide)

end MsduAggregator

end Wifi

end Ns3
