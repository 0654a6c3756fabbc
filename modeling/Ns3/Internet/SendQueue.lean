import Ns3.Internet.TcpTxSegment

/-!
# The send buffer as a queue of bytes

For the application a send buffer is a queue: `Add` appends bytes as long as there is room, an
acknowledgement removes bytes from the front, and nothing else changes it. `SendQueue` is that queue,
and the buffer refines it in every run, whatever segments are asked for and whatever happens to the
scoreboard.
-/

namespace Ns3

open TcpTxBuffer (Op castSub)

/-- The bytes that have not been acknowledged, and the sequence number of the first of them. -/
structure SendQueue where
  head : SequenceNumber32
  bytes : List UInt8
  deriving DecidableEq

namespace SendQueue

/-- The application writes `p`. -/
def write (capacity : ℕ) (q : SendQueue) (p : List UInt8) : SendQueue :=
  if q.bytes.length + p.length ≤ capacity then { q with bytes := q.bytes ++ p } else q

/-- All bytes before `seq` are acknowledged. -/
def acknowledge (q : SendQueue) (seq : SequenceNumber32) : SendQueue :=
  if q.head.ge seq then q else ⟨seq, q.bytes.drop (castSub seq q.head)⟩

/-- What an operation on a send buffer means for the queue. -/
def step (capacity : ℕ) (q : SendQueue) : Op → SendQueue
  | .add p => q.write capacity p
  | .discardUpTo _ seq => q.acknowledge seq
  | _ => q

end SendQueue

namespace TcpTxBuffer

/-- The queue that a buffer stands for. -/
def queue (s : TcpTxBuffer) : SendQueue :=
  ⟨s.m_firstByteSeq, bytes s.m_sentList ++ bytes s.m_appList⟩

variable {s s' : TcpTxBuffer} {now : ℤ}

/-- The sizes of the buffer, and the sequence numbers of the data that has been sent. -/
structure Stored (s : TcpTxBuffer) : Prop where
  size : s.m_size = totalSize s.m_sentList + totalSize s.m_appList
  sentSize : s.m_sentSize = totalSize s.m_sentList
  le_maxBuffer : s.m_size ≤ s.m_maxBuffer
  maxBuffer_lt : s.m_maxBuffer < 2 ^ 32
  size_pos : ∀ item ∈ s.m_sentList ++ s.m_appList, 0 < item.size
  contiguous : Contiguous s.m_firstByteSeq s.m_sentList

namespace Stored

theorem size_lt (hs : s.Stored) : totalSize s.m_sentList + totalSize s.m_appList < 2 ^ 32 := by
  rw [← hs.size]
  exact hs.le_maxBuffer.trans_lt hs.maxBuffer_lt

theorem congr (hs : s.Stored) (hsent : s'.m_sentList.map segment = s.m_sentList.map segment)
    (happ : s'.m_appList = s.m_appList) (hsize : s'.m_size = s.m_size)
    (hsentSize : s'.m_sentSize = s.m_sentSize) (hmax : s'.m_maxBuffer = s.m_maxBuffer)
    (hfirst : s'.m_firstByteSeq = s.m_firstByteSeq) : s'.Stored where
  size := by rw [hsize, totalSize_congr hsent, happ, hs.size]
  sentSize := by rw [hsentSize, totalSize_congr hsent, hs.sentSize]
  le_maxBuffer := by rw [hsize, hmax]; exact hs.le_maxBuffer
  maxBuffer_lt := by rw [hmax]; exact hs.maxBuffer_lt
  size_pos := by
    have hpos := hs.size_pos
    rw [List.forall_mem_append] at hpos ⊢
    rw [happ]
    exact ⟨size_pos_congr hsent hpos.1, hpos.2⟩
  contiguous := by
    rw [hfirst]
    exact contiguous_congr hsent hs.contiguous

theorem length_queue (hs : s.Stored) : s.queue.bytes.length = s.m_size := by
  rw [queue, List.length_append, length_bytes, length_bytes, hs.size]

theorem available_eq (hs : s.Stored) : s.available = s.m_maxBuffer - s.m_size :=
  sub32_eq hs.le_maxBuffer hs.maxBuffer_lt

/-! ## Segments -/

theorem edits (hs : s.Stored) {retransOut address retransOut' address' : ℕ}
    {sentList : List TcpTxItem} (h : Edits ⟨retransOut, address, s.m_sentList⟩
      ⟨retransOut', address', sentList⟩) : { s with m_sentList := sentList }.Stored where
  size := by
    rw [hs.size]
    exact congrArg (· + _) h.totalSize.symm
  sentSize := hs.sentSize.trans h.totalSize.symm
  le_maxBuffer := hs.le_maxBuffer
  maxBuffer_lt := hs.maxBuffer_lt
  size_pos := by
    have hpos := hs.size_pos
    rw [List.forall_mem_append] at hpos ⊢
    exact ⟨h.size_pos hpos.1, hpos.2⟩
  contiguous := h.contiguous hs.contiguous

theorem copied (hs : s.Stored) {out : Option TcpTxItem} (h : Copied now s s' out) :
    s'.Stored ∧ s'.queue = s.queue ∧ s'.m_maxBuffer = s.m_maxBuffer := by
  cases h with
  | nothing => exact ⟨hs, rfl, rfl⟩
  | @again retransOut address before after item hedits hsacked =>
    have hsegments : (before ++ { item with
        m_retrans := true
        m_lastSent := now } :: after).map segment = (before ++ item :: after).map segment := by
      rw [List.map_append, List.map_append, List.map_cons, List.map_cons]
      rfl
    refine ⟨(hs.edits hedits).congr hsegments rfl rfl rfl rfl rfl, ?_, rfl⟩
    rw [queue, queue, bytes_congr hsegments]
    exact congrArg (SendQueue.mk _ <| · ++ _) hedits.bytes
  | @new retransOut address after item hedits hretrans =>
    have hsize : totalSize (item :: after) = totalSize s.m_appList := hedits.totalSize
    have hbytes : bytes (item :: after) = bytes s.m_appList := hedits.bytes
    have hpos := hs.size_pos
    have hlt := hs.size_lt
    rw [List.forall_mem_append] at hpos
    have hpos' := hedits.size_pos hpos.2
    rw [totalSize_cons] at hsize
    rw [List.forall_mem_cons] at hpos'
    refine ⟨⟨?_, ?_, hs.le_maxBuffer, hs.maxBuffer_lt, ?_, ?_⟩, ?_, rfl⟩
    · change s.m_size = totalSize (_ ++ [_]) + totalSize after
      rw [hs.size, totalSize_append, totalSize_cons, totalSize_nil, ← hsize]
      change _ = _ + (item.size + 0) + _
      omega
    · change add32 s.m_sentSize item.size = totalSize (_ ++ [_])
      rw [totalSize_append, totalSize_cons, totalSize_nil, hs.sentSize, add32_eq (by omega)]
      rfl
    · simp only [List.forall_mem_append, List.forall_mem_singleton]
      exact ⟨⟨hpos.1, hpos'.1⟩, hpos'.2⟩
    · refine contiguous_append.mpr ⟨hs.contiguous, ?_, trivial⟩
      rw [← hs.sentSize]
    · rw [queue, queue, bytes_append, ← hbytes]
      simp only [bytes_cons, bytes_nil, List.append_nil, List.append_assoc]

/-! ## Discarding -/

theorem remove (hs : s.Stored) {item : TcpTxItem} {rest : List TcpTxItem}
    (hsent : s.m_sentList = item :: rest) (hcounts : removeFromCounts { s with
      m_size := sub32 s.m_size item.size
      m_sentSize := sub32 s.m_sentSize item.size
      m_firstByteSeq := s.m_firstByteSeq.add item.size
      m_sentList := rest } item item.size = .ok s') :
    s'.Stored ∧ s'.queue = ⟨s.m_firstByteSeq.add item.size, s.queue.bytes.drop item.size⟩ ∧
      s'.m_maxBuffer = s.m_maxBuffer ∧ s'.m_size + item.size = s.m_size := by
  have hlt := hs.size_lt
  have hsize := hs.size
  have hsentSize := hs.sentSize
  have hpos := hs.size_pos
  have hcontiguous := hs.contiguous
  rw [hsent, totalSize_cons] at hlt hsize hsentSize
  rw [hsent, List.cons_append, List.forall_mem_cons] at hpos
  rw [hsent, Contiguous] at hcontiguous
  have hm : sub32 s.m_size item.size = totalSize rest + totalSize s.m_appList := by
    rw [sub32_eq (by omega) (by omega)]
    omega
  have hm' : sub32 s.m_sentSize item.size = totalSize rest := by
    rw [sub32_eq (by omega) (by omega)]
    omega
  have hle := hs.le_maxBuffer
  rw [(removeFromCounts_eq_ok hcounts).2.2.2]
  refine ⟨⟨hm, hm', ?_, hs.maxBuffer_lt, hpos.2, hcontiguous.2⟩, ?_, rfl, ?_⟩
  · change sub32 s.m_size item.size ≤ s.m_maxBuffer
    omega
  · rw [queue, queue, hsent, bytes_cons, List.append_assoc, TcpTxItem.size, List.drop_left]
  · change sub32 s.m_size item.size + item.size = s.m_size
    omega

theorem trim (hs : s.Stored) {item : TcpTxItem} {rest : List TcpTxItem} {n : ℕ}
    (hlt : n < item.size) (hsent : s.m_sentList = item :: rest) (hcounts : removeFromCounts { s with
      m_size := sub32 s.m_size n
      m_sentSize := sub32 s.m_sentSize n
      m_firstByteSeq := s.m_firstByteSeq.add n
      m_sentList := { item with
        m_packet := item.m_packet.drop n
        m_startSeq := item.m_startSeq.add n } :: rest } item n = .ok s') :
    s'.Stored ∧ s'.queue = ⟨s.m_firstByteSeq.add n, s.queue.bytes.drop n⟩ ∧
      s'.m_maxBuffer = s.m_maxBuffer ∧ s'.m_size + n = s.m_size := by
  have hsize_lt := hs.size_lt
  have hsize := hs.size
  have hsentSize := hs.sentSize
  have hpos := hs.size_pos
  have hcontiguous := hs.contiguous
  rw [hsent, totalSize_cons] at hsize_lt hsize hsentSize
  rw [hsent, List.cons_append, List.forall_mem_cons] at hpos
  rw [hsent, Contiguous] at hcontiguous
  have hrest : (item.m_packet.drop n).length = item.size - n := List.length_drop
  have hm : sub32 s.m_size n = item.size - n + totalSize rest + totalSize s.m_appList := by
    rw [sub32_eq (by omega) (by omega)]
    omega
  have hm' : sub32 s.m_sentSize n = item.size - n + totalSize rest := by
    rw [sub32_eq (by omega) (by omega)]
    omega
  have hle := hs.le_maxBuffer
  rw [(removeFromCounts_eq_ok hcounts).2.2.2]
  refine ⟨⟨?_, ?_, ?_, hs.maxBuffer_lt, ?_, ?_⟩, ?_, rfl, ?_⟩
  · change sub32 s.m_size n = (item.m_packet.drop n).length + totalSize rest + _
    rw [hm, hrest]
  · change sub32 s.m_sentSize n = (item.m_packet.drop n).length + totalSize rest
    rw [hm', hrest]
  · change sub32 s.m_size n ≤ s.m_maxBuffer
    omega
  · refine List.forall_mem_cons.mpr ⟨?_, hpos.2⟩
    change 0 < (item.m_packet.drop n).length
    omega
  · refine ⟨congrArg (SequenceNumber.add · n) hcontiguous.1, ?_⟩
    change Contiguous ((s.m_firstByteSeq.add n).add (item.m_packet.drop n).length) rest
    rw [hrest, SequenceNumber.add_add, Nat.add_sub_cancel' hlt.le]
    exact hcontiguous.2
  · have hle' : n ≤ item.m_packet.length := hlt.le
    rw [queue, queue, hsent, bytes_cons, bytes_cons, List.append_assoc, List.append_assoc,
      List.drop_append_of_le_length hle']
  · change sub32 s.m_size n + n = s.m_size
    omega

theorem discarded (hs : s.Stored) {n : ℕ} (h : Discarded now s n s') :
    s'.Stored ∧ s'.queue = ⟨s.m_firstByteSeq.add n, s.queue.bytes.drop n⟩ ∧
      s'.m_maxBuffer = s.m_maxBuffer ∧ s'.m_size + n = s.m_size := by
  induction h with
  | done => exact ⟨hs, by rw [SequenceNumber.add_zero, List.drop_zero]; rfl, rfl, rfl⟩
  | @move s s₁ s' n item hsent hcopied hrest ih =>
    obtain ⟨hs₁, hqueue, hmax⟩ := hs.copied hcopied
    obtain ⟨hs', hqueue', hmax', hsize⟩ := ih hs₁
    have hhead : s₁.m_firstByteSeq = s.m_firstByteSeq := congrArg SendQueue.head hqueue
    have hsize₁ : s₁.m_size = s.m_size := by rw [← hs₁.length_queue, hqueue, hs.length_queue]
    rw [hqueue, hhead] at hqueue'
    exact ⟨hs', hqueue', hmax'.trans hmax, hsize.trans hsize₁⟩
  | @remove s s₁ s' n item rest hsent hcounts hrest ih =>
    obtain ⟨hs₁, hqueue, hmax, hsize⟩ := hs.remove hsent hcounts
    obtain ⟨hs', hqueue', hmax', hsize'⟩ := ih hs₁
    have hhead : s₁.m_firstByteSeq = s.m_firstByteSeq.add item.size :=
      congrArg SendQueue.head hqueue
    rw [hqueue, hhead, SequenceNumber.add_add, List.drop_drop] at hqueue'
    exact ⟨hs', hqueue', hmax'.trans hmax, by omega⟩
  | trim hlt hsent hcounts => exact hs.trim hlt hsent hcounts

theorem discardLoop_zero {fuel : ℕ} (h : discardLoop now fuel s 0 = .ok s') : s' = s := by
  cases fuel with
  | zero => exact absurd h Except.error_ne_ok
  | succ fuel =>
    rw [discardLoop, if_pos (.inr rfl)] at h
    exact (Except.ok.inj h).symm

/-- A turn of the loop removes the head or a part of it, and the rest of the loop the rest. -/
theorem discardHead_spec (hs : s.Stored) {s₁ : TcpTxBuffer} {fuel offset offset' : ℕ}
    (ih : s₁.Stored → ∀ {offset}, discardLoop now fuel s₁ offset = .ok s' →
      ∃ n, Discarded now s₁ n s' ∧ (n = offset ∨ n < offset ∧ s'.m_size = 0))
    (hhead : discardHead s offset = .ok (s₁, offset'))
    (hloop : discardLoop now fuel s₁ offset' = .ok s') :
    ∃ n, Discarded now s n s' ∧ (n = offset ∨ n < offset ∧ s'.m_size = 0) := by
  rw [discardHead] at hhead
  cases hsent : s.m_sentList with
  | nil =>
    rw [hsent] at hhead
    exact absurd hhead Except.error_ne_ok
  | cons item rest =>
    rw [hsent] at hhead
    dsimp only at hhead
    split_ifs at hhead with hstart hle
    · obtain ⟨s₂, hcounts, hret⟩ := Except.bind_eq_ok.mp hhead
      cases hret
      obtain ⟨n, hn, hdone⟩ := ih (hs.remove hsent hcounts).1 hloop
      exact ⟨item.size + n, .remove hsent hcounts hn, by omega⟩
    · obtain ⟨s₂, hcounts, hret⟩ := Except.bind_eq_ok.mp hhead
      cases hret
      rw [discardLoop_zero hloop]
      exact ⟨offset, .trim (not_le.mp hle) hsent hcounts, .inl rfl⟩

theorem discardLoop_spec (hs : s.Stored) {fuel offset : ℕ}
    (h : discardLoop now fuel s offset = .ok s') :
    ∃ n, Discarded now s n s' ∧ (n = offset ∨ n < offset ∧ s'.m_size = 0) := by
  induction fuel generalizing s offset with
  | zero => exact absurd h Except.error_ne_ok
  | succ fuel ih =>
    rw [discardLoop, ite_eq_iff] at h
    obtain ⟨hstop, h⟩ | ⟨-, h⟩ := h
    · cases h
      refine ⟨0, .done, ?_⟩
      omega
    obtain ⟨s₁, hmove, hturn⟩ := Except.bind_eq_ok.mp h
    obtain ⟨⟨s₂, offset'⟩, hhead, hloop⟩ := Except.bind_eq_ok.mp hturn
    rw [moveToSent] at hmove
    split_ifs at hmove with hsent
    · obtain ⟨⟨s₃, out⟩, hcopy, hret⟩ := Except.bind_eq_ok.mp hmove
      dsimp only at hret
      split_ifs at hret with hnone
      cases hret
      obtain ⟨item, rfl⟩ := Option.ne_none_iff_exists'.mp hnone
      have hlt := hs.size_lt
      rw [← totalSize_append] at hlt
      have hcopied := copyFromSequenceAux_spec hs.size_pos hlt hcopy
      obtain ⟨n, hn, hdone⟩ := discardHead_spec (hs.copied hcopied).1 ih hhead hloop
      exact ⟨n, .move hsent hcopied hn, hdone⟩
    · cases hmove
      exact discardHead_spec hs ih hhead hloop

/-- No data is left: a buffer that is empty may have any first sequence number. -/
theorem of_empty (hs : s.Stored) (hempty : s.m_size = 0) (seq : SequenceNumber32) :
    { s with m_firstByteSeq := seq }.Stored ∧ s.m_sentList = [] ∧ s.m_appList = [] := by
  have hsize := hs.size
  have hpos := hs.size_pos
  rw [List.forall_mem_append] at hpos
  have hnil : ∀ items : List TcpTxItem, (∀ item ∈ items, 0 < item.size) → totalSize items = 0 →
      items = [] := by
    rintro (_ | ⟨item, items⟩) hitems htotal
    · rfl
    · rw [List.forall_mem_cons] at hitems
      rw [totalSize_cons] at htotal
      omega
  have hsent := hnil _ hpos.1 (by omega)
  have happ := hnil _ hpos.2 (by omega)
  refine ⟨⟨hs.size, hs.sentSize, hs.le_maxBuffer, hs.maxBuffer_lt, hs.size_pos, ?_⟩, hsent, happ⟩
  change Contiguous seq s.m_sentList
  rw [hsent]
  trivial

end Stored

/-! ## The scoreboard -/

/-- `s'` has the data of `s`, with other flags and counters. -/
structure SameData (s s' : TcpTxBuffer) : Prop where
  sentList : s'.m_sentList.map segment = s.m_sentList.map segment
  appList : s'.m_appList = s.m_appList
  size : s'.m_size = s.m_size
  sentSize : s'.m_sentSize = s.m_sentSize
  maxBuffer : s'.m_maxBuffer = s.m_maxBuffer
  firstByteSeq : s'.m_firstByteSeq = s.m_firstByteSeq

namespace SameData

theorem refl (s : TcpTxBuffer) : SameData s s := ⟨rfl, rfl, rfl, rfl, rfl, rfl⟩

theorem trans {s₁ : TcpTxBuffer} (h : SameData s s₁) (h' : SameData s₁ s') : SameData s s' :=
  ⟨h'.1.trans h.1, h'.2.trans h.2, h'.3.trans h.3, h'.4.trans h.4, h'.5.trans h.5, h'.6.trans h.6⟩

theorem stored (h : SameData s s') (hs : s.Stored) : s'.Stored :=
  hs.congr h.1 h.2 h.3 h.4 h.5 h.6

theorem queue (h : SameData s s') : s'.queue = s.queue := by
  rw [TcpTxBuffer.queue, TcpTxBuffer.queue, bytes_congr h.sentList, h.appList, h.firstByteSeq]

end SameData

/-- `AddRenoSack` finds the first item after the head that is not selectively acknowledged, if there
is one. -/
theorem addRenoSack_eq_ok (h : addRenoSack s = .ok s') : ∃ head rest, s.m_sentList = head :: rest ∧
    rest ≠ [] ∧ (rest.dropWhile (fun item ↦ item.m_sacked) = [] ∧ s' = { s with m_renoSack := true } ∨
      ∃ before item after, rest = before ++ item :: after ∧
        rest.dropWhile (fun item ↦ item.m_sacked) = item :: after ∧
        (∀ item ∈ before, item.m_sacked = true) ∧ item.m_sacked = false ∧ s' = { s with
          m_renoSack := true
          m_sentList := head :: (before ++ { item with m_sacked := true } :: after)
          m_sackedOut := add32 s.m_sackedOut item.size
          m_highestSack := (some item.address, item.m_startSeq) }) := by
  rw [addRenoSack] at h
  split at h
  case h_2 => exact absurd h Except.error_ne_ok
  case h_1 head second rest hsent =>
    refine ⟨head, second :: rest, hsent, List.cons_ne_nil _ _, ?_⟩
    dsimp only at h
    split at h
    case h_1 hdrop =>
      cases h
      exact .inl ⟨hdrop, rfl⟩
    case h_2 item after hdrop =>
      cases h
      have hsplit := List.takeWhile_append_dropWhile (p := fun item : TcpTxItem ↦ item.m_sacked)
        (l := second :: rest)
      have hnot := List.head?_dropWhile_not (fun item : TcpTxItem ↦ item.m_sacked) (second :: rest)
      rw [hdrop] at hsplit hnot
      refine .inr ⟨_, item, after, hsplit.symm, hdrop, fun item hitem ↦ ?_, ?_, rfl⟩
      · exact List.mem_takeWhile_imp (p := fun item : TcpTxItem ↦ item.m_sacked) hitem
      · simpa using hnot

theorem addRenoSack_sameData (h : addRenoSack s = .ok s') : SameData s s' := by
  obtain ⟨head, rest, hsent, -, ⟨-, rfl⟩ | ⟨before, item, after, rfl, -, -, -, rfl⟩⟩ :=
    addRenoSack_eq_ok h
  · exact ⟨rfl, rfl, rfl, rfl, rfl, rfl⟩
  · refine ⟨?_, rfl, rfl, rfl, rfl, rfl⟩
    rw [hsent]
    simp only [List.map_append, List.map_cons]
    rfl

theorem markHeadAsLost_sameData (s : TcpTxBuffer) : SameData s s.markHeadAsLost := by
  rw [markHeadAsLost]
  cases hsent : s.m_sentList with
  | nil => exact .refl s
  | cons head rest => exact ⟨by rw [hsent]; rfl, rfl, rfl, rfl, rfl, rfl⟩

theorem checkHead_sameData {seq : SequenceNumber32} (h : checkHead s seq = .ok s') :
    SameData s s' := by
  rw [checkHead] at h
  cases hsent : s.m_sentList with
  | nil =>
    rw [hsent] at h
    cases h
    exact .refl s
  | cons head rest =>
    rw [hsent] at h
    dsimp only at h
    split_ifs at h with hstart hsacked
    · rw [moveSack] at h
      split_ifs at h with hlost
      obtain ⟨s₁, hreno, hret⟩ := Except.bind_eq_ok.mp h
      cases hret
      have hhead : SameData s { s with
          m_sentList := { head with m_sacked := false } :: rest
          m_sackedOut := sub32 s.m_sackedOut head.size } :=
        ⟨by rw [hsent]; rfl, rfl, rfl, rfl, rfl, rfl⟩
      exact (hhead.trans (addRenoSack_sameData hreno)).trans (markHeadAsLost_sameData s₁)
    · cases h
      exact .refl s

theorem forgetHighestSack_sameData (s : TcpTxBuffer) : SameData s s.forgetHighestSack := by
  rw [forgetHighestSack]
  split_ifs
  · exact ⟨rfl, rfl, rfl, rfl, rfl, rfl⟩
  · exact .refl s

theorem updateItems_sameData {block : SackBlock} {items items' : List TcpTxItem}
    {begin' : SequenceNumber32} {bytesSacked bytesSacked' : ℕ}
    (h : updateItems block begin' s bytesSacked items = .ok (s', bytesSacked', items')) :
    items'.map segment = items.map segment ∧ s' = { s with
      m_lostOut := s'.m_lostOut
      m_sackedOut := s'.m_sackedOut
      m_highestSack := s'.m_highestSack } := by
  induction items generalizing s begin' bytesSacked items' with
  | nil =>
    cases h
    exact ⟨rfl, rfl⟩
  | cons item items ih =>
    rw [updateItems] at h
    dsimp only at h
    split_ifs at h with hin hsacked hlost hpassed
    · obtain ⟨⟨s₁, bytesSacked₁, rest⟩, hrest, hret⟩ := Except.bind_eq_ok.mp h
      cases hret
      obtain ⟨hmap, hs'⟩ := ih hrest
      exact ⟨congrArg (segment item :: ·) hmap, hs'⟩
    · obtain ⟨⟨s₁, bytesSacked₁, rest⟩, hrest, hret⟩ := Except.bind_eq_ok.mp h
      cases hret
      obtain ⟨hmap, hs'⟩ := ih hrest
      exact ⟨congrArg (segment item :: ·) hmap, hs'⟩
    · cases h
      exact ⟨rfl, rfl⟩
    · obtain ⟨⟨s₁, bytesSacked₁, rest⟩, hrest, hret⟩ := Except.bind_eq_ok.mp h
      cases hret
      obtain ⟨hmap, hs'⟩ := ih hrest
      exact ⟨congrArg (segment item :: ·) hmap, hs'⟩

theorem updateBlocks_sameData {list : List SackBlock} {bytesSacked bytesSacked' : ℕ} {atEnd : Bool}
    (h : updateBlocks list s bytesSacked = .ok (s', bytesSacked', atEnd)) : SameData s s' := by
  induction list generalizing s bytesSacked with
  | nil =>
    cases h
    exact .refl _
  | cons block list ih =>
    rw [updateBlocks] at h
    split_ifs at h with hout
    · cases h
      exact .refl _
    · obtain ⟨⟨s₁, bytesSacked₁, sentList⟩, hitems, hrest⟩ := Except.bind_eq_ok.mp h
      obtain ⟨hmap, hs₁⟩ := updateItems_sameData hitems
      have hdata : SameData s { s₁ with m_sentList := sentList } := by
        rw [hs₁]
        exact ⟨hmap, rfl, rfl, rfl, rfl, rfl⟩
      exact hdata.trans (ih hrest)

theorem segment_markLost (dupAckThresh : ℕ) (items : List TcpTxItem) (lostOut : ℕ) :
    (markLost dupAckThresh items lostOut).1.map segment = items.map segment := by
  induction items with
  | nil => rfl
  | cons item items ih =>
    rw [markLost]
    dsimp only
    split_ifs
    · exact congrArg (segment item :: ·) ih
    · exact congrArg (segment item :: ·) ih
    · exact congrArg (segment item :: ·) ih
    · exact congrArg (segment item :: ·) ih

theorem segment_countLost (items : List TcpTxItem) (lostOut : ℕ) :
    (countLost items lostOut).1.map segment = items.map segment := by
  induction items generalizing lostOut with
  | nil => rfl
  | cons item items ih => exact congrArg (segment item :: ·) (ih _)

/-- `UpdateLostCount` goes from the highest selectively acknowledged item to the head. -/
theorem updateLostCount_eq_ok (h : updateLostCount s = .ok s') : ∃ before highest after head rest,
    s.m_sentList = before ++ highest :: after ∧ s.m_highestSack.1 = some highest.address ∧
      (∀ item ∈ before, s.m_highestSack.1 ≠ some item.address) ∧
      before ++ [highest] = head :: rest ∧
      ((s.m_dupAckThresh ≤ (markLost s.m_dupAckThresh rest s.m_lostOut).2.2 ∧ head.m_lost = false ∧
        s' = { s with
          m_sentList := { head with m_lost := true } ::
            (markLost s.m_dupAckThresh rest s.m_lostOut).1 ++ after
          m_lostOut := add32 (markLost s.m_dupAckThresh rest s.m_lostOut).2.1 head.size }) ∨
      (¬(s.m_dupAckThresh ≤ (markLost s.m_dupAckThresh rest s.m_lostOut).2.2 ∧
          head.m_lost = false) ∧
        s' = { s with
          m_sentList := head :: (markLost s.m_dupAckThresh rest s.m_lostOut).1 ++ after
          m_lostOut := (markLost s.m_dupAckThresh rest s.m_lostOut).2.1 })) := by
  rw [updateLostCount] at h
  dsimp only at h
  split at h
  case h_1 => exact absurd h Except.error_ne_ok
  case h_2 highest after hdrop =>
    have hsplit := List.takeWhile_append_dropWhile
      (p := fun item : TcpTxItem ↦ !decide (s.m_highestSack.1 = some item.address))
      (l := s.m_sentList)
    have hnot := List.head?_dropWhile_not
      (fun item : TcpTxItem ↦ !decide (s.m_highestSack.1 = some item.address)) s.m_sentList
    rw [hdrop] at hsplit hnot
    split at h
    case h_1 => exact absurd h Except.error_ne_ok
    case h_2 head rest hfront =>
      refine ⟨_, highest, after, head, rest, hsplit.symm, by simpa using hnot, ?_, hfront, ?_⟩
      · intro item hitem
        simpa using List.mem_takeWhile_imp hitem
      · split_ifs at h with hlost
        · cases h
          exact .inl ⟨hlost.1, hlost.2, rfl⟩
        · cases h
          exact .inr ⟨hlost, rfl⟩

theorem updateLostCount_sameData (h : updateLostCount s = .ok s') : SameData s s' := by
  obtain ⟨before, highest, after, head, rest, hsent, -, -, hfront, hs'⟩ := updateLostCount_eq_ok h
  have hmap := segment_markLost s.m_dupAckThresh rest s.m_lostOut
  have hlist : s.m_sentList = head :: rest ++ after := by
    rw [← hfront, List.append_assoc]
    exact hsent
  rcases hs' with ⟨-, -, rfl⟩ | ⟨-, rfl⟩
  · refine ⟨?_, rfl, rfl, rfl, rfl, rfl⟩
    rw [hlist, List.map_append, List.map_append, List.map_cons, List.map_cons, hmap]
    rfl
  · refine ⟨?_, rfl, rfl, rfl, rfl, rfl⟩
    rw [hlist, List.map_append, List.map_append, List.map_cons, List.map_cons, hmap]

/-- `Update`, where it returns: the blocks, and then what is lost. -/
theorem update_eq_ok {list : List SackBlock} {bytesSacked : ℕ}
    (h : s.update list = .ok (s', bytesSacked)) : ∃ s₁ atEnd,
    updateBlocks list s 0 = .ok (s₁, bytesSacked, atEnd) ∧
      (0 < bytesSacked ∧ atEnd = true ∧ updateLostCount s₁ = .ok s' ∨
        (bytesSacked = 0 ∨ atEnd = false) ∧ s' = s₁) := by
  obtain ⟨⟨s₁, bytesSacked₁, atEnd⟩, hblocks, hret⟩ := Except.bind_eq_ok.mp h
  dsimp only at hret
  cases atEnd with
  | true =>
    rw [if_pos rfl] at hret
    obtain ⟨s₂, hmark, hret⟩ := Except.bind_eq_ok.mp hret
    obtain ⟨s₃, hcheck, hret⟩ := Except.bind_eq_ok.mp hret
    cases hret
    have hchecked : s' = s₂ := by
      rw [checkUpdated] at hcheck
      split at hcheck
      · exact absurd hcheck Except.error_ne_ok
      · split_ifs at hcheck with hassert
        cases hcheck
        rfl
    rw [hchecked]
    refine ⟨s₁, true, hblocks, ?_⟩
    rw [markUpdated] at hmark
    split_ifs at hmark with hbytes hnone
    · exact .inl ⟨hbytes, rfl, hmark⟩
    · cases hmark
      exact .inr ⟨.inl (Nat.eq_zero_of_not_pos hbytes), rfl⟩
  | false =>
    rw [if_neg Bool.false_ne_true] at hret
    cases hret
    exact ⟨s', false, hblocks, .inr ⟨.inr rfl, rfl⟩⟩

theorem update_sameData {list : List SackBlock} {bytesSacked : ℕ}
    (h : s.update list = .ok (s', bytesSacked)) : SameData s s' := by
  obtain ⟨s₁, atEnd, hblocks, ⟨-, -, hlost⟩ | ⟨-, rfl⟩⟩ := update_eq_ok h
  · exact (updateBlocks_sameData hblocks).trans (updateLostCount_sameData hlost)
  · exact updateBlocks_sameData hblocks

theorem setSentListLost_sameData {resetSack : Bool} (h : s.setSentListLost resetSack = .ok s') :
    SameData s s' := by
  rw [setSentListLost] at h
  dsimp only at h
  cases resetSack with
  | true =>
    rw [if_pos rfl] at h
    split_ifs at h with hassert
    cases h
    exact ⟨by rw [List.map_map]; rfl, rfl, rfl, rfl, rfl, rfl⟩
  | false =>
    rw [if_neg Bool.false_ne_true] at h
    split_ifs at h with hassert
    cases h
    exact ⟨segment_countLost _ _, rfl, rfl, rfl, rfl, rfl⟩

theorem deleteRetransmittedFlagFromHead_sameData (h : s.deleteRetransmittedFlagFromHead = .ok s') :
    SameData s s' := by
  rw [deleteRetransmittedFlagFromHead] at h
  split_ifs at h with hzero
  · cases h
    exact .refl _
  · cases hsent : s.m_sentList with
    | nil =>
      rw [hsent] at h
      exact absurd h Except.error_ne_ok
    | cons head rest =>
      rw [hsent] at h
      dsimp only at h
      split_ifs at h with hretrans
      · cases h
        exact ⟨by rw [hsent]; rfl, rfl, rfl, rfl, rfl, rfl⟩
      · cases h
        exact .refl _

theorem resetRenoSack_sameData (s : TcpTxBuffer) : SameData s s.resetRenoSack :=
  ⟨by rw [resetRenoSack, List.map_map]; rfl, rfl, rfl, rfl, rfl, rfl⟩

/-! ## All steps -/

namespace Stored

theorem step_add (hs : s.Stored) (p : List UInt8) :
    (s.add p).2.Stored ∧ (s.add p).2.queue = s.queue.write s.m_maxBuffer p ∧
      (s.add p).2.m_maxBuffer = s.m_maxBuffer := by
  have hle := hs.le_maxBuffer
  have hlt := hs.maxBuffer_lt
  rw [SendQueue.write, hs.length_queue, add, hs.available_eq]
  split_ifs with hroom hpos hfit hfit hfit
  · have hsize : add32 s.m_size p.length = s.m_size + p.length := add32_eq (by omega)
    refine ⟨⟨?_, hs.sentSize, ?_, hlt, ?_, hs.contiguous⟩, ?_, rfl⟩
    · change add32 s.m_size p.length = _ + totalSize (_ ++ [_])
      rw [hsize, totalSize_append, ← add_assoc, hs.size]
      rfl
    · change add32 s.m_size p.length ≤ s.m_maxBuffer
      omega
    · have hitems := hs.size_pos
      simp only [List.forall_mem_append, List.forall_mem_singleton] at hitems ⊢
      exact ⟨hitems.1, hitems.2, hpos⟩
    · rw [queue, queue, bytes_append, ← List.append_assoc]
      exact congrArg (SendQueue.mk _ <| _ ++ ·) (List.append_nil p)
  · omega
  · obtain rfl := List.eq_nil_of_length_eq_zero (Nat.eq_zero_of_not_pos hpos)
    exact ⟨hs, by rw [List.append_nil], rfl⟩
  · exact ⟨hs, rfl, rfl⟩
  · omega
  · exact ⟨hs, rfl, rfl⟩

theorem step_discardUpTo (hs : s.Stored) {seq : SequenceNumber32}
    (h : discardUpTo now s seq = .ok s') :
    s'.Stored ∧ s'.queue = s.queue.acknowledge seq ∧ s'.m_maxBuffer = s.m_maxBuffer := by
  rw [discardUpTo, ite_eq_iff] at h
  rw [SendQueue.acknowledge]
  change _ ∧ s'.queue = (if s.m_firstByteSeq.ge seq = true then _ else _) ∧ _
  obtain ⟨hge, h⟩ | ⟨hge, h⟩ := h
  · cases h
    rw [if_pos hge]
    exact ⟨hs, rfl, rfl⟩
  rw [if_neg hge]
  obtain ⟨s₁, hloop, h⟩ := Except.bind_eq_ok.mp h
  obtain ⟨s₂, hhead, h⟩ := Except.bind_eq_ok.mp h
  obtain ⟨n, hn, hdone⟩ := hs.discardLoop_spec hloop
  obtain ⟨hs₁, hqueue, hmax, hsize⟩ := hs.discarded hn
  have hseq : s.m_firstByteSeq.add (castSub seq s.m_firstByteSeq) = seq := by
    rw [castSub_eq, SequenceNumber.add, BitVec.ofNat_toNat, BitVec.setWidth_eq]
    exact congrArg SequenceNumber.mk (add_sub_cancel _ _)
  -- after the jump to `seq`, if there is one, the buffer stands for the queue
  have hjump : (if s₁.m_size = 0 then { s₁ with m_firstByteSeq := seq } else s₁).Stored ∧
      (if s₁.m_size = 0 then { s₁ with m_firstByteSeq := seq } else s₁).queue =
        ⟨seq, s.queue.bytes.drop (castSub seq s.m_firstByteSeq)⟩ ∧
      (if s₁.m_size = 0 then { s₁ with m_firstByteSeq := seq } else s₁).m_maxBuffer =
        s.m_maxBuffer := by
    split_ifs with hempty
    · obtain ⟨hs₂, hsent, happ⟩ := hs₁.of_empty hempty seq
      refine ⟨hs₂, ?_, hmax⟩
      have hlen : (s.queue.bytes.drop (castSub seq s.m_firstByteSeq)) = [] := by
        rw [List.drop_eq_nil_iff, hs.length_queue]
        omega
      rw [hlen, queue, hsent, happ]
      rfl
    · obtain rfl := hdone.resolve_right fun h ↦ hempty h.2
      rw [hseq] at hqueue
      exact ⟨hs₁, hqueue, hmax⟩
  have hdata := (checkHead_sameData hhead).trans (forgetHighestSack_sameData s₂)
  rw [checkDiscarded, ite_eq_iff] at h
  obtain ⟨-, h⟩ | ⟨-, h⟩ := h
  · exact absurd h Except.error_ne_ok
  cases h
  exact ⟨hdata.stored hjump.1, hdata.queue.trans hjump.2.1, hdata.maxBuffer.trans hjump.2.2⟩

theorem step_resetSentList (hs : s.Stored) :
    s.resetSentList.Stored ∧ s.resetSentList.queue = s.queue := by
  have hmap : (s.m_sentList.map fun item ↦
      ({ item with m_retrans := false, m_sacked := false, m_lost := false } : TcpTxItem)).map
        segment = s.m_sentList.map segment := by
    rw [List.map_map]
    rfl
  have hpos := hs.size_pos
  rw [List.forall_mem_append] at hpos
  refine ⟨⟨?_, rfl, hs.le_maxBuffer, hs.maxBuffer_lt, ?_, trivial⟩, ?_⟩
  · change s.m_size = totalSize [] + totalSize (_ ++ _)
    rw [totalSize_append, totalSize_congr hmap, totalSize_nil, zero_add, hs.size]
  · change ∀ item ∈ [] ++ (_ ++ _), _
    rw [List.nil_append, List.forall_mem_append]
    exact ⟨size_pos_congr hmap hpos.1, hpos.2⟩
  · rw [queue, queue]
    change SendQueue.mk _ (bytes [] ++ bytes (_ ++ _)) = _
    rw [bytes_append, bytes_congr hmap]
    rfl

theorem step_resetLastSegmentSent (hs : s.Stored) :
    s.resetLastSegmentSent.Stored ∧ s.resetLastSegmentSent.queue = s.queue := by
  rw [resetLastSegmentSent]
  cases hlast : s.m_sentList.getLast? with
  | none => exact ⟨hs, rfl⟩
  | some item =>
    have hsent : s.m_sentList = s.m_sentList.dropLast ++ [item] :=
      (List.dropLast_append_getLast? item hlast).symm
    have hlt := hs.size_lt
    have hsize := hs.size
    have hsentSize := hs.sentSize
    have hpos := hs.size_pos
    have hcontiguous := hs.contiguous
    rw [hsent, totalSize_append, totalSize_cons, totalSize_nil] at hlt hsize hsentSize
    rw [hsent] at hpos
    rw [hsent, contiguous_append] at hcontiguous
    have hm : sub32 s.m_sentSize item.size = totalSize s.m_sentList.dropLast := by
      rw [sub32_eq (by omega) (by omega)]
      omega
    refine ⟨⟨?_, hm, hs.le_maxBuffer, hs.maxBuffer_lt, ?_, hcontiguous.1⟩, ?_⟩
    · change s.m_size = totalSize s.m_sentList.dropLast + totalSize (item :: s.m_appList)
      rw [totalSize_cons]
      omega
    · rw [List.append_assoc] at hpos
      exact hpos
    · rw [queue, queue]
      conv_rhs => rw [hsent]
      change SendQueue.mk _ (_ ++ bytes (item :: _)) = _
      simp only [bytes_append, bytes_cons, bytes_nil, List.append_nil, List.append_assoc]

/-- **Every step is the step of the queue.** -/
theorem step (hs : s.Stored) {op : Op} (h : s.next op = some s') :
    s'.Stored ∧ s'.queue = s.queue.step s.m_maxBuffer op ∧ s'.m_maxBuffer = s.m_maxBuffer := by
  have hsame : ∀ {s₁ : TcpTxBuffer}, SameData s s₁ →
      s₁.Stored ∧ s₁.queue = s.queue ∧ s₁.m_maxBuffer = s.m_maxBuffer :=
    fun hdata ↦ ⟨hdata.stored hs, hdata.queue, hdata.maxBuffer⟩
  have hlt := hs.size_lt
  rw [← totalSize_append] at hlt
  cases op with
  | add p =>
    cases h
    exact hs.step_add p
  | copyFromSequence now numBytes seq =>
    obtain ⟨⟨s₁, out⟩, hcopy, rfl⟩ := Except.map_eq_ok.mp (Except.toOption_eq_some.mp h)
    exact hs.copied (copyFromSequenceAux_spec hs.size_pos hlt hcopy)
  | discardUpTo now seq => exact hs.step_discardUpTo (Except.toOption_eq_some.mp h)
  | update list =>
    rw [next, Option.ite_none_right_eq_some] at h
    obtain ⟨⟨s₁, bytesSacked⟩, hupdate, rfl⟩ :=
      Except.map_eq_ok.mp (Except.toOption_eq_some.mp h.2)
    exact hsame (update_sameData hupdate)
  | resetLastSegmentSent =>
    cases h
    refine ⟨hs.step_resetLastSegmentSent.1, hs.step_resetLastSegmentSent.2, ?_⟩
    rw [resetLastSegmentSent]
    split <;> rfl
  | deleteRetransmittedFlagFromHead =>
    exact hsame (deleteRetransmittedFlagFromHead_sameData (Except.toOption_eq_some.mp h))
  | markHeadAsLost =>
    cases h
    exact hsame (markHeadAsLost_sameData s)
  | setSentListLost resetSack =>
    exact hsame (setSentListLost_sameData (Except.toOption_eq_some.mp h))
  | resetRenoSack =>
    cases h
    exact hsame (resetRenoSack_sameData s)
  | resetSentList =>
    cases h
    exact ⟨hs.step_resetSentList.1, hs.step_resetSentList.2, rfl⟩

theorem init (isn : SequenceNumber32) (maxBuffer dupAckThresh : UInt32) :
    (machine isn maxBuffer dupAckThresh).init.Stored where
  size := rfl
  sentSize := rfl
  le_maxBuffer := Nat.zero_le _
  maxBuffer_lt := maxBuffer.toNat_lt
  size_pos _ hitem := absurd hitem List.not_mem_nil
  contiguous := trivial

end Stored

end TcpTxBuffer

end Ns3
