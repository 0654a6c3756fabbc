import Ns3.Internet.TcpOption

/-!
# The send buffer of TCP

A `TcpTxBuffer` holds the bytes of the application that have not been acknowledged, as a list of items
that have been sent and a list of items that wait. An item is split or merged with its successor when
a segment with other boundaries is asked for. The flags of the sent items are the scoreboard; five
counters and the highest selectively acknowledged item are kept beside them.

Items are objects in memory, and `m_highestSack` refers to one: an item has its `address` as identity.
An assertion, an abort or a null pointer ends an operation without a state after it.
-/

namespace Ns3

/-- The items of the buffer. -/
structure TcpTxItem where
  address : ℕ
  m_startSeq : SequenceNumber32
  m_packet : List UInt8
  m_lost : Bool
  m_retrans : Bool
  m_lastSent : ℤ
  m_sacked : Bool
  deriving DecidableEq, Repr

/-- `m_packet->GetSize ()`. -/
def TcpTxItem.size (item : TcpTxItem) : ℕ := item.m_packet.length

/-- The members of a `TcpTxBuffer`, and the address of the next item that is allocated. In
`m_highestSack`, the iterator is the address of its item, and `none` at the end of the list. -/
structure TcpTxBuffer where
  m_appList : List TcpTxItem
  m_sentList : List TcpTxItem
  m_maxBuffer : ℕ
  m_size : ℕ
  m_sentSize : ℕ
  m_firstByteSeq : SequenceNumber32
  m_highestSack : Option ℕ × SequenceNumber32
  m_lostOut : ℕ
  m_sackedOut : ℕ
  m_retrans : ℕ
  m_dupAckThresh : ℕ
  m_renoSack : Bool
  nextAddress : ℕ
  deriving DecidableEq, Repr

namespace TcpTxBuffer

/-- Why an operation does not return. -/
inductive Failure
  /-- `NS_ASSERT`. -/
  | assertion
  /-- `NS_ABORT_MSG_IF`, `NS_ABORT_MSG_UNLESS` or `NS_FATAL_ERROR`. -/
  | aborted
  /-- A null pointer, or an iterator without an item, is dereferenced. -/
  | nullPointer
  /-- A loop does not end. -/
  | endless
  deriving DecidableEq, Repr

/-- A buffer without data, after `SetHeadSequence` with `n`. -/
def empty (n : SequenceNumber32) (m_maxBuffer m_dupAckThresh : ℕ) : TcpTxBuffer :=
  ⟨[], [], m_maxBuffer, 0, 0, n, (none, ⟨0⟩), 0, 0, 0, m_dupAckThresh, false, 0⟩

def headSequence (s : TcpTxBuffer) : SequenceNumber32 := s.m_firstByteSeq

def tailSequence (s : TcpTxBuffer) : SequenceNumber32 := s.m_firstByteSeq.add s.m_size

def available (s : TcpTxBuffer) : ℕ := sub32 s.m_maxBuffer s.m_size

/-- The difference of two sequence numbers, cast to `uint32_t`. -/
def castSub (a b : SequenceNumber32) : ℕ := (a.sub b % 2 ^ 32).toNat

def add (s : TcpTxBuffer) (p : List UInt8) : Bool × TcpTxBuffer :=
  if p.length ≤ s.available then
    if 0 < p.length then
      (true, { s with
        m_appList := s.m_appList ++ [⟨s.nextAddress, ⟨0⟩, p, false, false, 2 ^ 63 - 1, false⟩]
        m_size := add32 s.m_size p.length
        nextAddress := s.nextAddress + 1 })
    else (true, s)
  else (false, s)

def sizeFromSequence (s : TcpTxBuffer) (seq : SequenceNumber32) : ℕ :=
  if s.tailSequence.ge seq then castSub s.tailSequence seq else 0

/-! ## Segments -/

/-- `SplitItems`: the new item `t1` with the first `size` bytes of `t2`, and `t2` with the rest. -/
def splitItems (address : ℕ) (t2 : TcpTxItem) (size : ℕ) : TcpTxItem × TcpTxItem :=
  ({ t2 with
      address := address
      m_packet := t2.m_packet.take size },
    { t2 with
      m_packet := t2.m_packet.drop size
      m_startSeq := t2.m_startSeq.add size })

/-- `MergeItems`: `m_retrans` of the buffer, and `t1` with the bytes of `t2` at its end. -/
def mergeItems (retransOut : ℕ) (t1 t2 : TcpTxItem) : Except Failure (ℕ × TcpTxItem) :=
  if t1.m_sacked ≠ t2.m_sacked then .error .assertion
  else if t1.m_lost ≠ t2.m_lost then .error .assertion
  else
    let t := { t1 with
      m_lastSent := max t1.m_lastSent t2.m_lastSent
      m_packet := t1.m_packet ++ t2.m_packet }
    if t1.m_retrans = t2.m_retrans then .ok (retransOut, t)
    else if t1.m_retrans then .ok (sub32 retransOut t1.size, { t with m_retrans := false })
    else .ok (sub32 retransOut t2.size, t)

/-- What is found in a list: the items before an item, the item, and the items after it. -/
abbrev Found := List TcpTxItem × TcpTxItem × List TcpTxItem

/-- The loop of `GetPacketFromList` up to the item with the byte `seq`, and the number of the first
byte of that item. -/
def findPacket (inSentList : Bool) (firstByteSeq seq : SequenceNumber32) :
    SequenceNumber32 → List TcpTxItem → Except Failure (Found × SequenceNumber32)
  | _, [] => .error .aborted
  | beginOfCurrentPacket, currentItem :: rest =>
    if inSentList = true ∧ currentItem.m_startSeq.ge firstByteSeq = false then .error .assertion
    else if seq.lt (beginOfCurrentPacket.add currentItem.size) then
      .ok (([], currentItem, rest), beginOfCurrentPacket)
    else do
      let ((before, item, after), begin') ← findPacket inSentList firstByteSeq seq
        (beginOfCurrentPacket.add currentItem.size) rest
      return ((currentItem :: before, item, after), begin')

/-- `GetPacketFromList`: the buffer with its `m_retrans`, and the list around the item. -/
def getPacketFromList (inSentList : Bool) (listStartFrom : SequenceNumber32) (numBytes : ℕ)
    (seq : SequenceNumber32) : ℕ → TcpTxBuffer → List TcpTxItem → Except Failure (TcpTxBuffer × Found)
  | 0, _, _ => .error .endless
  | fuel + 1, s, list => do
    let ((before, currentItem, after), beginOfCurrentPacket) ←
      findPacket inSentList s.m_firstByteSeq seq listStartFrom list
    if seq = beginOfCurrentPacket then
      if (seq.add numBytes).le (beginOfCurrentPacket.add currentItem.size) then
        -- here `currentItem` is `outItem`, so the branch that merges it with the previous item is dead
        if numBytes = currentItem.size then return (s, before, currentItem, after)
        else if numBytes < currentItem.size then
          let (firstPart, currentItem) := splitItems s.nextAddress currentItem numBytes
          return ({ s with nextAddress := s.nextAddress + 1 }, before, firstPart,
            currentItem :: after)
        else throw .endless
      else
        match after with
        | [] => return (s, before, currentItem, [])
        | next :: after => do
          let (retransOut, currentItem) ← mergeItems s.m_retrans currentItem next
          getPacketFromList inSentList listStartFrom numBytes seq fuel
            { s with m_retrans := retransOut } (before ++ currentItem :: after)
    else if seq.gt beginOfCurrentPacket then
      let (firstPart, currentItem) :=
        splitItems s.nextAddress currentItem (castSub seq beginOfCurrentPacket)
      getPacketFromList inSentList listStartFrom numBytes seq fuel
        { s with nextAddress := s.nextAddress + 1 } (before ++ firstPart :: currentItem :: after)
    else throw .aborted

/-- Enough turns for `GetPacketFromList`: one split, and a merge for each item. -/
def turns (list : List TcpTxItem) : ℕ := list.length + 2

/-- `GetNewSegment`: the buffer, and its sent list around the item. -/
def getNewSegment (s : TcpTxBuffer) (numBytes : ℕ) : Except Failure (TcpTxBuffer × Found) := do
  let startOfAppList := s.m_firstByteSeq.add s.m_sentSize
  let (s, before, item, after) ← getPacketFromList false startOfAppList numBytes startOfAppList
    (turns s.m_appList) s s.m_appList
  let item := { item with m_startSeq := startOfAppList }
  return ({ s with
    m_appList := before ++ after
    m_sentSize := add32 s.m_sentSize item.size }, s.m_sentList, item, [])

/-- The loop of `GetTransmittedSegment`: how many bytes are merged at most. -/
def sizeToMerge (numBytes : ℕ) (seq : SequenceNumber32) : List TcpTxItem → ℕ
  | [] => numBytes
  | item :: rest =>
    if item.m_startSeq = seq then
      match rest with
      | next :: _ =>
        if next.m_sacked = false then min numBytes (add32 item.size next.size)
        else min numBytes item.size
      | [] => min numBytes item.size
    else sizeToMerge numBytes seq rest

/-- `GetTransmittedSegment`: the buffer, and its sent list around the item. -/
def getTransmittedSegment (s : TcpTxBuffer) (numBytes : ℕ) (seq : SequenceNumber32) :
    Except Failure (TcpTxBuffer × Found) :=
  if seq.ge s.m_firstByteSeq = false ∨ s.m_sentSize < numBytes ∨ s.m_sentList = [] then
    .error .assertion
  else do
    let (s, before, item, after) ← getPacketFromList true s.m_firstByteSeq
      (sizeToMerge numBytes seq s.m_sentList) seq (turns s.m_sentList) s s.m_sentList
    if item.m_retrans then return (s, before, item, after)
    else return ({ s with m_retrans := add32 s.m_retrans item.size }, before,
      { item with m_retrans := true }, after)

/-- The end of `CopyFromSequence`, with the sent list around the item. -/
def markSent (now : ℤ) : TcpTxBuffer × Found → Except Failure (TcpTxBuffer × Option TcpTxItem)
  | (s, before, outItem, after) =>
    let outItem := { outItem with m_lastSent := now }
    if outItem.m_startSeq.ge s.m_firstByteSeq = false then .error .assertion
    else .ok ({ s with m_sentList := before ++ outItem :: after }, some outItem)

/-- `CopyFromSequence` with a bound for the depth of its recursion. -/
def copyFromSequenceAux (now : ℤ) : ℕ → TcpTxBuffer → ℕ → SequenceNumber32 →
    Except Failure (TcpTxBuffer × Option TcpTxItem)
  | 0, _, _, _ => .error .endless
  | depth + 1, s, numBytes, seq =>
    if s.m_firstByteSeq.gt seq then .error .aborted
    else
      let n := min numBytes (s.sizeFromSequence seq)
      let endOfSent := s.m_firstByteSeq.add s.m_sentSize
      if n = 0 then .ok (s, none)
      else if endOfSent.ge (seq.add n) then do
        let found ← s.getTransmittedSegment n seq
        if found.2.2.1.m_sacked then throw .assertion
        markSent now found
      else if endOfSent.le seq then do
        if endOfSent ≠ seq then throw .aborted
        let found ← s.getNewSegment n
        if found.2.2.1.m_retrans then throw .assertion
        markSent now found
      else if seq.m_value < endOfSent.m_value ∧ endOfSent.m_value < (seq.add n).m_value then
        -- the numbers are compared as they are, without regard to a wrap
        copyFromSequenceAux now depth s (endOfSent.m_value - seq.m_value).toNat seq
      else .error .nullPointer

/-- `CopyFromSequence`, which calls itself at most once. -/
def copyFromSequence (now : ℤ) (s : TcpTxBuffer) (numBytes : ℕ) (seq : SequenceNumber32) :
    Except Failure (TcpTxBuffer × Option TcpTxItem) :=
  copyFromSequenceAux now 2 s numBytes seq

/-! ## The scoreboard -/

def addRenoSack (s : TcpTxBuffer) : Except Failure TcpTxBuffer :=
  match s.m_sentList with
  | head :: second :: rest =>
    let s := { s with m_renoSack := true }
    -- the head is never selectively acknowledged
    match (second :: rest).dropWhile fun item ↦ item.m_sacked with
    | [] => .ok s
    | item :: after =>
      .ok { s with
        m_sentList := head :: (second :: rest).takeWhile (fun item ↦ item.m_sacked) ++
          { item with m_sacked := true } :: after
        m_sackedOut := add32 s.m_sackedOut item.size
        m_highestSack := (some item.address, item.m_startSeq) }
  | _ => .error .assertion

def markHeadAsLost (s : TcpTxBuffer) : TcpTxBuffer :=
  match s.m_sentList with
  | [] => s
  | head :: rest =>
    { s with
      m_sentList := { head with m_sacked := false, m_retrans := false, m_lost := true } :: rest
      m_sackedOut := if head.m_sacked then sub32 s.m_sackedOut head.size else s.m_sackedOut
      m_retrans := if head.m_retrans then sub32 s.m_retrans head.size else s.m_retrans
      m_lostOut := if head.m_lost then s.m_lostOut else add32 s.m_lostOut head.size }

def removeFromCounts (s : TcpTxBuffer) (item : TcpTxItem) (size : ℕ) :
    Except Failure TcpTxBuffer :=
  if item.m_sacked = true ∧ s.m_sackedOut < size ∨ item.m_retrans = true ∧ s.m_retrans < size ∨
      item.m_lost = true ∧ s.m_lostOut < size then .error .assertion
  else .ok { s with
    m_sackedOut := if item.m_sacked then sub32 s.m_sackedOut size else s.m_sackedOut
    m_retrans := if item.m_retrans then sub32 s.m_retrans size else s.m_retrans
    m_lostOut := if item.m_lost then sub32 s.m_lostOut size else s.m_lostOut }

/-- The loop of `DiscardUpTo`, for the head of the sent list: the buffer, and how many bytes are left
to remove. -/
def discardHead (s : TcpTxBuffer) (offset : ℕ) : Except Failure (TcpTxBuffer × ℕ) :=
  match s.m_sentList with
  | [] => .error .assertion
  | item :: rest =>
    if item.m_startSeq ≠ s.m_firstByteSeq then .error .assertion
    else if item.size ≤ offset then do
      let s ← removeFromCounts { s with
        m_size := sub32 s.m_size item.size
        m_sentSize := sub32 s.m_sentSize item.size
        m_firstByteSeq := s.m_firstByteSeq.add item.size
        m_sentList := rest } item item.size
      return (s, offset - item.size)
    else do
      let s ← removeFromCounts { s with
        m_size := sub32 s.m_size offset
        m_sentSize := sub32 s.m_sentSize offset
        m_firstByteSeq := s.m_firstByteSeq.add offset
        m_sentList := { item with
          m_packet := item.m_packet.drop offset
          m_startSeq := item.m_startSeq.add offset } :: rest } item offset
      -- the loop is left with `break`
      return (s, 0)

/-- The loop of `DiscardUpTo`: data that has never been sent moves to the sent list first. -/
def moveToSent (now : ℤ) (s : TcpTxBuffer) (offset : ℕ) : Except Failure TcpTxBuffer :=
  if s.m_sentList = [] then do
    let (s, item) ← copyFromSequence now s offset s.m_firstByteSeq
    if item = none then .error .nullPointer else .ok s
  else .ok s

/-- The loop of `DiscardUpTo`, with `offset` bytes left to remove. -/
def discardLoop (now : ℤ) : ℕ → TcpTxBuffer → ℕ → Except Failure TcpTxBuffer
  | 0, _, _ => .error .endless
  | fuel + 1, s, offset =>
    if s.m_size = 0 ∨ offset = 0 then .ok s
    else do
      let s ← moveToSent now s offset
      let (s, offset) ← discardHead s offset
      discardLoop now fuel s offset

/-- `DiscardUpTo`, for a head that it finds selectively acknowledged. -/
def moveSack (s : TcpTxBuffer) (head : TcpTxItem) (rest : List TcpTxItem) :
    Except Failure TcpTxBuffer :=
  if head.m_lost then .error .assertion
  else do
    let s ← addRenoSack { s with
      m_sentList := { head with m_sacked := false } :: rest
      m_sackedOut := sub32 s.m_sackedOut head.size }
    return s.markHeadAsLost

/-- `DiscardUpTo`, for the head that is left. -/
def checkHead (s : TcpTxBuffer) (seq : SequenceNumber32) : Except Failure TcpTxBuffer :=
  match s.m_sentList with
  | [] => .ok s
  | head :: rest =>
    if head.m_startSeq ≠ seq then .error .assertion
    else if head.m_sacked then moveSack s head rest
    else .ok s

/-- `DiscardUpTo`, for `m_highestSack`. -/
def forgetHighestSack (s : TcpTxBuffer) : TcpTxBuffer :=
  if s.m_highestSack.2.le s.m_firstByteSeq then { s with m_highestSack := (none, ⟨0⟩) } else s

/-- The assertions at the end of `DiscardUpTo`. -/
def checkDiscarded (s : TcpTxBuffer) (seq : SequenceNumber32) : Except Failure TcpTxBuffer :=
  if s.m_firstByteSeq.ge seq = false ∨ s.m_sentSize < add32 s.m_sackedOut s.m_lostOut then
    .error .assertion
  else .ok s

def discardUpTo (now : ℤ) (s : TcpTxBuffer) (seq : SequenceNumber32) :
    Except Failure TcpTxBuffer :=
  if s.m_firstByteSeq.ge seq then .ok s
  else do
    let s ← discardLoop now (s.m_sentList.length + s.m_appList.length + 3) s
      (castSub seq s.m_firstByteSeq)
    let s ← checkHead (if s.m_size = 0 then { s with m_firstByteSeq := seq } else s) seq
    checkDiscarded s.forgetHighestSack seq

/-- `Update`, for an item that has not been selectively acknowledged before. -/
def sackItem (s : TcpTxBuffer) (item : TcpTxItem)
    (beginOfCurrentPacket endOfCurrentPacket : SequenceNumber32) : TcpTxBuffer :=
  { s with
    m_lostOut := if item.m_lost then sub32 s.m_lostOut item.size else s.m_lostOut
    m_sackedOut := add32 s.m_sackedOut item.size
    m_highestSack :=
      if s.m_highestSack.1 = none ∨ s.m_highestSack.2.le endOfCurrentPacket then
        (some item.address, beginOfCurrentPacket)
      else s.m_highestSack }

/-- The loop of `Update` over the sent list, for one block: the buffer, `bytesSacked` and the list. -/
def updateItems (block : SackBlock) : SequenceNumber32 → TcpTxBuffer → ℕ → List TcpTxItem →
    Except Failure (TcpTxBuffer × ℕ × List TcpTxItem)
  | _, s, bytesSacked, [] => .ok (s, bytesSacked, [])
  | beginOfCurrentPacket, s, bytesSacked, item :: rest =>
    let endOfCurrentPacket := beginOfCurrentPacket.add item.size
    if beginOfCurrentPacket.ge block.1 && endOfCurrentPacket.le block.2 then
      if item.m_sacked then
        if item.m_lost then .error .assertion
        else do
          let (s, bytesSacked, rest) ← updateItems block endOfCurrentPacket s bytesSacked rest
          return (s, bytesSacked, item :: rest)
      else do
        let (s, bytesSacked, rest) ← updateItems block endOfCurrentPacket
          (s.sackItem item beginOfCurrentPacket endOfCurrentPacket) (add32 bytesSacked item.size) rest
        return (s, bytesSacked, { item with m_lost := false, m_sacked := true } :: rest)
    else if endOfCurrentPacket.gt block.2 then .ok (s, bytesSacked, item :: rest)
    else do
      let (s, bytesSacked, rest) ← updateItems block endOfCurrentPacket s bytesSacked rest
      return (s, bytesSacked, item :: rest)

/-- The loop of `Update` over the blocks: the buffer, `bytesSacked`, and whether the loop has come to
its end, not to the `return` in it. -/
def updateBlocks : List SackBlock → TcpTxBuffer → ℕ → Except Failure (TcpTxBuffer × ℕ × Bool)
  | [], s, bytesSacked => .ok (s, bytesSacked, true)
  | block :: list, s, bytesSacked =>
    if (s.m_firstByteSeq.add s.m_sentSize).lt block.1 then .ok (s, bytesSacked, false)
    else do
      let (s, bytesSacked, sentList) ←
        updateItems block s.m_firstByteSeq s bytesSacked s.m_sentList
      updateBlocks list { s with m_sentList := sentList } bytesSacked

/-- The loop of `UpdateLostCount` from the end of a list to its front: the list, `m_lostOut`, and how
many items of the list are selectively acknowledged. -/
def markLost (dupAckThresh : ℕ) : List TcpTxItem → ℕ → List TcpTxItem × ℕ × ℕ
  | [], lostOut => ([], lostOut, 0)
  | item :: rest, lostOut =>
    let (rest, lostOut, sacked) := markLost dupAckThresh rest lostOut
    let sacked := if item.m_sacked then sacked + 1 else sacked
    if dupAckThresh ≤ sacked ∧ item.m_sacked = false ∧ item.m_lost = false then
      ({ item with m_lost := true } :: rest, add32 lostOut item.size, sacked)
    else (item :: rest, lostOut, sacked)

def updateLostCount (s : TcpTxBuffer) : Except Failure TcpTxBuffer :=
  let isHighest := fun item : TcpTxItem ↦ decide (s.m_highestSack.1 = some item.address)
  match s.m_sentList.takeWhile (!isHighest ·), s.m_sentList.dropWhile (!isHighest ·) with
  | _, [] => .error .nullPointer
  | before, highest :: after =>
    match before ++ [highest] with
    | [] => .error .nullPointer
    | head :: rest =>
      let (rest, lostOut, sacked) := markLost s.m_dupAckThresh rest s.m_lostOut
      if s.m_dupAckThresh ≤ sacked ∧ head.m_lost = false then
        .ok { s with
          m_sentList := { head with m_lost := true } :: rest ++ after
          m_lostOut := add32 lostOut head.size }
      else .ok { s with
        m_sentList := head :: rest ++ after
        m_lostOut := lostOut }

/-- `Update`, after its loop: what is lost is marked, if anything has been acknowledged. -/
def markUpdated (s : TcpTxBuffer) (bytesSacked : ℕ) : Except Failure TcpTxBuffer :=
  if 0 < bytesSacked then
    if s.m_highestSack.1 = none then .error .assertion else s.updateLostCount
  else .ok s

/-- The assertions at the end of `Update`. -/
def checkUpdated (s : TcpTxBuffer) : Except Failure TcpTxBuffer :=
  match s.m_sentList with
  | [] => .error .nullPointer
  | head :: _ =>
    if head.m_sacked = true ∨ s.m_sentSize < add32 s.m_sackedOut s.m_lostOut then .error .assertion
    else .ok s

/-- `Update`: the buffer and `bytesSacked`. -/
def update (s : TcpTxBuffer) (list : List SackBlock) : Except Failure (TcpTxBuffer × ℕ) := do
  let (s, bytesSacked, atEnd) ← updateBlocks list s 0
  if atEnd then
    let s ← markUpdated s bytesSacked
    let s ← checkUpdated s
    return (s, bytesSacked)
  else return (s, bytesSacked)

def resetRenoSack (s : TcpTxBuffer) : TcpTxBuffer :=
  { s with
    m_sackedOut := 0
    m_sentList := s.m_sentList.map fun item ↦ { item with m_sacked := false }
    m_highestSack := (none, ⟨0⟩) }

def resetSentList (s : TcpTxBuffer) : TcpTxBuffer :=
  { s with
    m_appList := s.m_sentList.map (fun item ↦
      { item with m_retrans := false, m_sacked := false, m_lost := false }) ++ s.m_appList
    m_sentList := []
    m_sentSize := 0
    m_lostOut := 0
    m_retrans := 0
    m_sackedOut := 0
    m_highestSack := (none, ⟨0⟩) }

def resetLastSegmentSent (s : TcpTxBuffer) : TcpTxBuffer :=
  match s.m_sentList.getLast? with
  | none => s
  | some item =>
    { s with
      m_sentList := s.m_sentList.dropLast
      m_sentSize := sub32 s.m_sentSize item.size
      m_retrans := if item.m_retrans then sub32 s.m_retrans item.size else s.m_retrans
      m_appList := item :: s.m_appList }

/-- The loop of `SetSentListLost` that counts `m_lostOut` anew. -/
def countLost : List TcpTxItem → ℕ → List TcpTxItem × ℕ
  | [], lostOut => ([], lostOut)
  | item :: rest, lostOut =>
    let lost := item.m_lost || !item.m_sacked
    let (rest, lostOut) := countLost rest (if lost then add32 lostOut item.size else lostOut)
    ({ item with m_lost := lost, m_retrans := false } :: rest, lostOut)

def setSentListLost (s : TcpTxBuffer) (resetSack : Bool) : Except Failure TcpTxBuffer :=
  let s :=
    if resetSack then
      { s with
        m_retrans := 0
        m_sackedOut := 0
        m_lostOut := s.m_sentSize
        m_highestSack := (none, ⟨0⟩)
        m_sentList := s.m_sentList.map fun item ↦
          { item with m_sacked := false, m_lost := true, m_retrans := false } }
    else
      let (sentList, lostOut) := countLost s.m_sentList 0
      { s with
        m_retrans := 0
        m_lostOut := lostOut
        m_sentList := sentList }
  if s.m_sentSize < add32 s.m_sackedOut s.m_lostOut then .error .assertion else .ok s

def deleteRetransmittedFlagFromHead (s : TcpTxBuffer) : Except Failure TcpTxBuffer :=
  if s.m_sentSize = 0 then .ok s
  else
    match s.m_sentList with
    | [] => .error .nullPointer
    | head :: rest =>
      if head.m_retrans then
        .ok { s with
          m_sentList := { head with m_retrans := false } :: rest
          m_retrans := sub32 s.m_retrans head.size }
      else .ok s

/-! ## The machine -/

/-- The operations on a buffer, at the time `now` where the time matters. -/
inductive Op
  | add (p : List UInt8)
  | copyFromSequence (now : ℤ) (numBytes : ℕ) (seq : SequenceNumber32)
  | discardUpTo (now : ℤ) (seq : SequenceNumber32)
  | update (list : List SackBlock)
  | resetLastSegmentSent
  | deleteRetransmittedFlagFromHead
  | markHeadAsLost
  | setSentListLost (resetSack : Bool)
  | resetRenoSack
  | resetSentList
  deriving DecidableEq, Repr

/-- The step of an operation, where it returns. The blocks of `Update` start after the head. -/
def next (s : TcpTxBuffer) : Op → Option TcpTxBuffer
  | .add p => some (s.add p).2
  | .copyFromSequence now numBytes seq =>
    ((copyFromSequence now s numBytes seq).map Prod.fst).toOption
  | .discardUpTo now seq => (discardUpTo now s seq).toOption
  | .update list =>
    if ∀ block ∈ list, block.1.gt s.headSequence = true then
      ((s.update list).map Prod.fst).toOption
    else none
  | .resetLastSegmentSent => some s.resetLastSegmentSent
  | .deleteRetransmittedFlagFromHead => s.deleteRetransmittedFlagFromHead.toOption
  | .markHeadAsLost => some s.markHeadAsLost
  | .setSentListLost resetSack => (s.setSentListLost resetSack).toOption
  | .resetRenoSack => some s.resetRenoSack
  | .resetSentList => some s.resetSentList

/-- A buffer that starts empty. -/
def machine (isn : SequenceNumber32) (maxBuffer dupAckThresh : UInt32) : Machine TcpTxBuffer Op where
  init := empty isn maxBuffer.toNat dupAckThresh.toNat
  next := next

end TcpTxBuffer

end Ns3
