import Ns3.Internet.TcpTxBookkeeping

/-!
# Bytes in flight

`BytesInFlight` estimates the pipe from the counters: what has been sent, without what is selectively
acknowledged or lost, and with what has been sent again. The pipe itself is a sum over the items, and
the retained `BytesInFlightRFC` computes it so.

The two agree while only lost items count as sent again (`bytesInFlight_eq_pipe_iff`). A selective
acknowledgement takes an item from the lost ones and leaves it counted as sent again. In a run without
such an acknowledgement, and in which no item is sent again before it is lost, the estimate is the pipe
(`inFlight_of_run`).
-/

namespace Ns3.TcpTxBuffer

def bytesInFlight (s : TcpTxBuffer) : Except Failure ℕ :=
  if s.m_sentSize < add32 s.m_sackedOut s.m_lostOut then .error .assertion
  else
    let leftOut := add32 s.m_sackedOut s.m_lostOut
    .ok (add32 (sub32 s.m_sentSize leftOut) s.m_retrans)

/-- The variables of `BytesInFlightRFC`. -/
structure RfcCounts where
  size : ℕ
  sackedOut : ℕ
  lostOut : ℕ
  retrans : ℕ
  totalSize : ℕ

/-- The loop of `BytesInFlightRFC`, with a test whether the item at an iterator is lost. -/
def countRfc (isLost : SequenceNumber32 → List TcpTxItem → Bool) :
    SequenceNumber32 → RfcCounts → List TcpTxItem → RfcCounts
  | _, c, [] => c
  | beginOfCurrentPkt, c, item :: rest =>
    let lost := isLost beginOfCurrentPkt (item :: rest)
    countRfc isLost (beginOfCurrentPkt.add item.size)
      { size :=
          if item.m_sacked = false ∧ (lost = false ∨ item.m_retrans = true) then
            add32 c.size item.size
          else c.size
        sackedOut := if item.m_sacked then add32 c.sackedOut item.size else c.sackedOut
        lostOut :=
          if item.m_sacked = false ∧ lost = true then add32 c.lostOut item.size else c.lostOut
        retrans := if item.m_retrans then add32 c.retrans item.size else c.retrans
        totalSize := add32 c.totalSize item.size } rest

def bytesInFlightRFC (isLost : SequenceNumber32 → List TcpTxItem → Bool) (s : TcpTxBuffer) :
    Except Failure ℕ :=
  let c := countRfc isLost s.m_firstByteSeq ⟨0, 0, 0, 0, 0⟩ s.m_sentList
  if c.lostOut = s.m_lostOut ∧ c.retrans = s.m_retrans ∧ c.sackedOut = s.m_sackedOut ∧
      c.totalSize = s.m_sentSize then .ok c.size
  else .error .assertion

/-! ## What is promised -/

/-- An item is in the pipe: it is not selectively acknowledged, and not lost or sent again. -/
def inPipe (item : TcpTxItem) : Bool := !item.m_sacked && (!item.m_lost || item.m_retrans)

/-- The test for a lost item that reads its flag. -/
def flaggedLost (_ : SequenceNumber32) (items : List TcpTxItem) : Bool :=
  items.head?.any TcpTxItem.m_lost

/-- The estimate is the pipe, and the reference computes the same from the flags. -/
def InFlight (s : TcpTxBuffer) : Prop :=
  s.bytesInFlight = .ok (flagged inPipe s.m_sentList) ∧
    s.bytesInFlightRFC flaggedLost = .ok (flagged inPipe s.m_sentList)

/-- For each byte of the items, whether it is lost. -/
def lostBytes (items : List TcpTxItem) : List Bool :=
  items.flatMap fun item ↦ List.replicate item.size item.m_lost

/-- Whether `Update` finds an item that has been sent again within a block. -/
def coversRetransmitted (block : SackBlock) : SequenceNumber32 → List TcpTxItem → Bool
  | _, [] => false
  | beginOfCurrentPacket, item :: rest =>
    let endOfCurrentPacket := beginOfCurrentPacket.add item.size
    if beginOfCurrentPacket.ge block.1 && endOfCurrentPacket.le block.2 then
      item.m_retrans || coversRetransmitted block endOfCurrentPacket rest
    else if endOfCurrentPacket.gt block.2 then false
    else coversRetransmitted block endOfCurrentPacket rest

/-- Data is only sent again when it is lost, and what has been sent again is not selectively
acknowledged. -/
def KeepsPipe (s : TcpTxBuffer) : Op → Prop
  | .copyFromSequence _ _ seq =>
    (lostBytes s.m_sentList)[castSub seq s.m_firstByteSeq]? ≠ some false
  | .update list =>
    ∀ block ∈ list.takeWhile fun block ↦ !(s.m_firstByteSeq.add s.m_sentSize).lt block.1,
      coversRetransmitted block s.m_firstByteSeq s.m_sentList = false
  | _ => True

instance : ∀ s op, Decidable (KeepsPipe s op)
  | s, .copyFromSequence _ _ seq => inferInstanceAs
    (Decidable ((lostBytes s.m_sentList)[castSub seq s.m_firstByteSeq]? ≠ some false))
  | s, .update list => inferInstanceAs (Decidable (∀ block ∈ list.takeWhile fun block ↦
      !(s.m_firstByteSeq.add s.m_sentSize).lt block.1,
        coversRetransmitted block s.m_firstByteSeq s.m_sentList = false))
  | _, .add _ | _, .discardUpTo _ _ | _, .resetLastSegmentSent
  | _, .deleteRetransmittedFlagFromHead | _, .markHeadAsLost | _, .setSentListLost _
  | _, .resetRenoSack | _, .resetSentList => .isTrue trivial

/-- The steps that keep the counters exact and the pipe estimated right. -/
def KeepsInFlight (s : TcpTxBuffer) (op : Op) : Prop := KeepsFlags s op ∧ KeepsPipe s op

instance : ∀ s op, Decidable (KeepsInFlight s op) := fun _ _ ↦ inferInstanceAs (Decidable (_ ∧ _))

/-! ## The estimate in one state -/

section State

variable {s : TcpTxBuffer} {items : List TcpTxItem}

/-- The items that are counted once too often. -/
def overcounted (item : TcpTxItem) : Bool := item.m_retrans && !item.m_lost

theorem pipe_add (hboth : ∀ item ∈ items, ¬(item.m_sacked = true ∧ item.m_lost = true)) :
    flagged inPipe items + flagged overcounted items +
        (flagged TcpTxItem.m_sacked items + flagged TcpTxItem.m_lost items) =
      totalSize items + flagged TcpTxItem.m_retrans items := by
  induction items with
  | nil => rfl
  | cons item items ih =>
    rw [List.forall_mem_cons] at hboth
    have hrest := ih hboth.2
    have hnot := hboth.1
    obtain ⟨address, m_startSeq, m_packet, m_lost, m_retrans, m_lastSent, m_sacked⟩ := item
    rw [flagged_cons, flagged_cons, flagged_cons, flagged_cons, flagged_cons, totalSize_cons]
    cases m_sacked <;> cases m_lost <;> cases m_retrans <;>
      first
      | exact absurd ⟨rfl, rfl⟩ hnot
      | simp only [inPipe, overcounted, Bool.not_true, Bool.not_false, Bool.and_true, Bool.and_false,
          Bool.or_true, Bool.or_false, Bool.false_eq_true, if_true, if_false]
        omega

theorem sacked_add_lost_le (hboth : ∀ item ∈ items, ¬(item.m_sacked = true ∧ item.m_lost = true)) :
    flagged TcpTxItem.m_sacked items + flagged TcpTxItem.m_lost items ≤ totalSize items := by
  induction items with
  | nil => exact le_rfl
  | cons item items ih =>
    rw [List.forall_mem_cons] at hboth
    have hrest := ih hboth.2
    have hnot := hboth.1
    rw [flagged_cons, flagged_cons, totalSize_cons]
    by_cases hsacked : item.m_sacked = true
    · rw [if_pos hsacked, if_neg fun hlost ↦ hnot ⟨hsacked, hlost⟩]
      omega
    · rw [if_neg hsacked]
      split_ifs <;> omega

theorem flagged_eq_zero_iff {flag : TcpTxItem → Bool} (hpos : ∀ item ∈ items, 0 < item.size) :
    flagged flag items = 0 ↔ ∀ item ∈ items, flag item = false := by
  refine ⟨fun h item hitem ↦ ?_, flagged_eq_zero⟩
  obtain ⟨before, after, rfl⟩ := List.append_of_mem hitem
  rw [flagged_append, flagged_cons] at h
  have hsize := hpos item hitem
  by_contra hflag
  rw [if_pos (Bool.eq_true_of_not_eq_false hflag)] at h
  omega

/-- **The estimate is right just if only lost items count as sent again.** -/
theorem bytesInFlight_eq_pipe_iff (hk : s.Kept) :
    s.bytesInFlight = .ok (flagged inPipe s.m_sentList) ↔
      ∀ item ∈ s.m_sentList, item.m_retrans = true → item.m_lost = true := by
  have hlt := hk.stored.size_lt
  have hpos : ∀ item ∈ s.m_sentList, 0 < item.size := fun item hitem ↦
    hk.stored.size_pos item (List.mem_append_left _ hitem)
  have hsum := pipe_add hk.counted.notBoth
  have hle := sacked_add_lost_le hk.counted.notBoth
  have hpipe := flagged_le inPipe s.m_sentList
  have hover := flagged_le overcounted s.m_sentList
  have hleft : add32 s.m_sackedOut s.m_lostOut =
      flagged TcpTxItem.m_sacked s.m_sentList + flagged TcpTxItem.m_lost s.m_sentList := by
    rw [hk.counted.sackedOut, hk.counted.lostOut]
    exact add32_eq (by omega)
  have hestimate : s.bytesInFlight =
      .ok ((flagged inPipe s.m_sentList + flagged overcounted s.m_sentList) % 2 ^ 32) := by
    rw [bytesInFlight, hleft, hk.stored.sentSize, if_neg (by omega), hk.counted.retrans]
    dsimp only
    rw [sub32_eq (by omega) (by omega), add32]
    congr 2
    omega
  have hzero : flagged overcounted s.m_sentList = 0 ↔
      ∀ item ∈ s.m_sentList, item.m_retrans = true → item.m_lost = true := by
    rw [flagged_eq_zero_iff hpos]
    refine forall₂_congr fun item _ ↦ ?_
    rw [overcounted]
    cases item.m_retrans <;> cases item.m_lost <;> decide
  rw [hestimate, ← hzero, Except.ok.injEq]
  constructor
  · intro h
    omega
  · intro h
    rw [h, add_zero]
    exact Nat.mod_eq_of_lt (by omega)

theorem countRfc_eq {begin' : SequenceNumber32} {c : RfcCounts}
    (hboth : ∀ item ∈ items, ¬(item.m_sacked = true ∧ item.m_lost = true))
    (hsize : c.size + totalSize items < 2 ^ 32) (hsacked : c.sackedOut + totalSize items < 2 ^ 32)
    (hlost : c.lostOut + totalSize items < 2 ^ 32) (hretrans : c.retrans + totalSize items < 2 ^ 32)
    (htotal : c.totalSize + totalSize items < 2 ^ 32) : countRfc flaggedLost begin' c items =
      ⟨c.size + flagged inPipe items, c.sackedOut + flagged TcpTxItem.m_sacked items,
        c.lostOut + flagged TcpTxItem.m_lost items, c.retrans + flagged TcpTxItem.m_retrans items,
        c.totalSize + totalSize items⟩ := by
  induction items generalizing begin' c with
  | nil => rfl
  | cons item items ih =>
    rw [List.forall_mem_cons] at hboth
    have hnot := hboth.1
    rw [totalSize_cons] at hsize hsacked hlost hretrans htotal
    rw [countRfc, show flaggedLost begin' (item :: items) = item.m_lost from rfl,
      add32_eq (a := c.size) (by omega), add32_eq (a := c.sackedOut) (by omega),
      add32_eq (a := c.lostOut) (by omega), add32_eq (a := c.retrans) (by omega),
      add32_eq (a := c.totalSize) (by omega)]
    have hmove : ∀ (p : Prop) [Decidable p] (x : ℕ), (if p then x + item.size else x) =
        x + if p then item.size else 0 := fun p _ x ↦ by
      split_ifs <;> rfl
    have hpart : ∀ (p : Prop) [Decidable p], (if p then item.size else 0) ≤ item.size := fun p _ ↦ by
      split_ifs <;> omega
    simp only [hmove]
    rw [ih hboth.2]
    · have hpipe : (item.m_sacked = false ∧ (item.m_lost = false ∨ item.m_retrans = true)) =
          (inPipe item = true) := by
        rw [inPipe]
        cases item.m_sacked <;> cases item.m_lost <;> cases item.m_retrans <;> simp
      have hflag : (item.m_sacked = false ∧ item.m_lost = true) = (item.m_lost = true) :=
        propext ⟨And.right, fun h ↦ ⟨Bool.eq_false_of_not_eq_true fun h' ↦ hnot ⟨h', h⟩, h⟩⟩
      simp only [flagged_cons, totalSize_cons, hpipe, hflag, Nat.add_assoc]
    · have := hpart (item.m_sacked = false ∧ (item.m_lost = false ∨ item.m_retrans = true))
      dsimp only
      omega
    · have := hpart (item.m_sacked = true)
      dsimp only
      omega
    · have := hpart (item.m_sacked = false ∧ item.m_lost = true)
      dsimp only
      omega
    · have := hpart (item.m_retrans = true)
      dsimp only
      omega
    · dsimp only
      omega

theorem bytesInFlightRFC_eq (hk : s.Kept) :
    s.bytesInFlightRFC flaggedLost = .ok (flagged inPipe s.m_sentList) := by
  have hlt : 0 + totalSize s.m_sentList < 2 ^ 32 := by
    have := hk.stored.size_lt
    omega
  rw [bytesInFlightRFC, countRfc_eq hk.counted.notBoth hlt hlt hlt hlt hlt]
  dsimp only
  rw [Nat.zero_add, Nat.zero_add, Nat.zero_add, Nat.zero_add, Nat.zero_add, if_pos]
  exact ⟨hk.counted.lostOut.symm, hk.counted.retrans.symm, hk.counted.sackedOut.symm,
    hk.stored.sentSize.symm⟩

end State

/-! ## Items that are sent again -/

section Retransmitted

variable {s s' : TcpTxBuffer} {now : ℤ} {items items' : List TcpTxItem}

/-- What has been sent again is lost. -/
def RetransLost (items : List TcpTxItem) : Prop :=
  ∀ item ∈ items, item.m_retrans = true → item.m_lost = true

theorem Edit.retransLost {p p' : Pile} (h : Edit p p') (hp : RetransLost p.items) :
    RetransLost p'.items := by
  cases h with
  | split hpos hlt =>
    simp only [RetransLost, List.forall_mem_append, List.forall_mem_cons] at hp ⊢
    exact ⟨hp.1, hp.2.1, hp.2.1, hp.2.2⟩
  | merge hmerge =>
    simp only [RetransLost, List.forall_mem_append, List.forall_mem_cons] at hp ⊢
    rw [(mergeItems_eq_ok hmerge).2.2.1]
    exact ⟨hp.1, fun hretrans ↦ hp.2.1 (Bool.and_eq_true_iff.mp hretrans).1, hp.2.2.2⟩

@[simp] theorem lostBytes_append :
    lostBytes (items ++ items') = lostBytes items ++ lostBytes items' := List.flatMap_append

@[simp] theorem lostBytes_cons (item : TcpTxItem) :
    lostBytes (item :: items) = List.replicate item.size item.m_lost ++ lostBytes items := rfl

theorem length_lostBytes : (lostBytes items).length = totalSize items := by
  induction items with
  | nil => rfl
  | cons item items ih =>
    rw [lostBytes_cons, List.length_append, List.length_replicate, ih, totalSize_cons]

theorem Edit.lostBytes {p p' : Pile} (h : Edit p p') :
    TcpTxBuffer.lostBytes p'.items = TcpTxBuffer.lostBytes p.items := by
  cases h with
  | @split retransOut address n before after item hpos hlt =>
    simp only [lostBytes_append, lostBytes_cons, splitItems_fst_size hlt.le, splitItems_snd_size]
    rw [← List.append_assoc (List.replicate n _)]
    change _ ++ (List.replicate n item.m_lost ++ List.replicate (item.size - n) item.m_lost ++ _) = _
    rw [List.replicate_append_replicate, Nat.add_sub_cancel' hlt.le]
  | @merge retransOut retransOut' address before after t1 t2 t hmerge =>
    obtain ⟨-, hlost, ht, -⟩ := mergeItems_eq_ok hmerge
    have ht1 : t.m_lost = t1.m_lost := by rw [ht]
    simp only [lostBytes_append, lostBytes_cons, mergeItems_size hmerge, ht1, ← hlost]
    rw [List.replicate_add, List.append_assoc]

theorem getElem?_lostBytes {before after : List TcpTxItem} {item : TcpTxItem}
    (hpos : 0 < item.size) :
    (lostBytes (before ++ item :: after))[totalSize before]? = some item.m_lost := by
  rw [lostBytes_append, lostBytes_cons, List.getElem?_append_right (le_of_eq length_lostBytes),
    length_lostBytes, Nat.sub_self, List.getElem?_append_left (by rwa [List.length_replicate]),
    List.getElem?_replicate, if_pos hpos]

theorem getPacketFromList_begin {inSentList : Bool} {listStartFrom seq : SequenceNumber32}
    {numBytes fuel : ℕ} {list before after : List TcpTxItem} {item : TcpTxItem}
    (h : getPacketFromList inSentList listStartFrom numBytes seq fuel s list =
      .ok (s', before, item, after)) : seq = listStartFrom.add (totalSize before) := by
  induction fuel generalizing s list with
  | zero => exact absurd h Except.error_ne_ok
  | succ fuel ih =>
    obtain ⟨⟨⟨before', current, after'⟩, begin'⟩, hfind, hget⟩ := Except.bind_eq_ok.mp h
    obtain ⟨-, hbegin, -⟩ := findPacket_spec hfind
    dsimp only at hget
    split_ifs at hget with heq hle hnumEq hnumLt hgt
    · cases hget
      exact heq.trans hbegin
    · cases hget
      exact heq.trans hbegin
    · cases after' with
      | nil =>
        cases hget
        exact heq.trans hbegin
      | cons next after' =>
        obtain ⟨⟨retransOut, t⟩, -, hrec⟩ := Except.bind_eq_ok.mp hget
        exact ih hrec
    · exact ih hget

theorem getTransmittedSegment_begin {seq : SequenceNumber32} {numBytes : ℕ}
    {before after : List TcpTxItem} {item : TcpTxItem}
    (h : s.getTransmittedSegment numBytes seq = .ok (s', before, item, after)) :
    seq = s.m_firstByteSeq.add (totalSize before) := by
  rw [getTransmittedSegment] at h
  split_ifs at h with hassert
  obtain ⟨⟨s₁, before', item', after'⟩, hget, hret⟩ := Except.bind_eq_ok.mp h
  dsimp only at hret
  split_ifs at hret with hretrans
  · cases hret
    exact getPacketFromList_begin hget
  · cases hret
    exact getPacketFromList_begin hget

/-- **Sending keeps the promise** if what it sends again is lost. -/
theorem copyFromSequenceAux_retransLost {depth numBytes : ℕ} {seq : SequenceNumber32}
    {out : Option TcpTxItem} (hs : s.Stored) (hr : RetransLost s.m_sentList)
    (hlost : (lostBytes s.m_sentList)[castSub seq s.m_firstByteSeq]? ≠ some false)
    (h : copyFromSequenceAux now depth s numBytes seq = .ok (s', out)) :
    RetransLost s'.m_sentList := by
  have hlt := hs.size_lt
  have hpos := hs.size_pos
  rw [List.forall_mem_append] at hpos
  induction depth generalizing numBytes with
  | zero => exact absurd h Except.error_ne_ok
  | succ depth ih =>
    rw [copyFromSequenceAux] at h
    dsimp only at h
    rw [ite_eq_iff] at h
    obtain ⟨-, h⟩ | ⟨-, h⟩ := h
    · exact absurd h Except.error_ne_ok
    rw [ite_eq_iff] at h
    obtain ⟨-, h⟩ | ⟨hnum, h⟩ := h
    · cases h
      exact hr
    have hnum := Nat.pos_of_ne_zero hnum
    rw [ite_eq_iff] at h
    obtain ⟨-, h⟩ | ⟨-, h⟩ := h
    · obtain ⟨⟨s₁, before, item, after⟩, hget, hret⟩ := Except.bind_eq_ok.mp h
      obtain ⟨retransOut, address, item', hedits, rfl, hs₁⟩ :=
        getTransmittedSegment_spec hnum hpos.1 (by omega) hget
      have hbegin := getTransmittedSegment_begin hget
      have hretrans := Edits.invariant (I := fun p ↦ RetransLost p.items)
        (fun _ _ ↦ Edit.retransLost) hedits hr
      have hbytes := Edits.invariant
        (I := fun p ↦ TcpTxBuffer.lostBytes p.items = TcpTxBuffer.lostBytes s.m_sentList)
        (fun _ _ hedit hp ↦ hedit.lostBytes.trans hp) hedits rfl
      have hsize := hedits.totalSize
      have hitem : 0 < item'.size := hedits.size_pos hpos.1 item' (by simp)
      simp only [totalSize_append, totalSize_cons] at hsize
      simp only [RetransLost, List.forall_mem_append, List.forall_mem_cons] at hretrans
      -- the item that is sent again is the one with the byte `seq`
      have hflag : item'.m_lost = true := by
        rw [hbegin, castSub_add_self (by omega), ← hbytes, getElem?_lostBytes hitem] at hlost
        exact Bool.eq_true_of_not_eq_false fun h ↦ hlost (congrArg some h)
      dsimp only at hret
      split_ifs at hret with hsacked
      · exact absurd hret Except.error_ne_ok
      · rw [markSent] at hret
        dsimp only at hret
        split_ifs at hret with hstart
        cases hret
        simp only [RetransLost, List.forall_mem_append, List.forall_mem_cons]
        exact ⟨hretrans.1, fun _ ↦ hflag, hretrans.2.2⟩
    rw [ite_eq_iff] at h
    obtain ⟨-, h⟩ | ⟨-, h⟩ := h
    · split_ifs at h with hend
      · exact absurd h Except.error_ne_ok
      obtain ⟨⟨s₁, before, item, after⟩, hget, hret⟩ := Except.bind_eq_ok.mp h
      obtain ⟨retransOut, address, item', rest, hedits, rfl, rfl, rfl, hs₁⟩ :=
        getNewSegment_spec hnum hpos.2 (by omega) hget
      dsimp only at hret
      split_ifs at hret with hretrans
      · exact absurd hret Except.error_ne_ok
      · rw [markSent] at hret
        dsimp only at hret
        split_ifs at hret with hstart
        cases hret
        simp only [RetransLost, List.forall_mem_append, List.forall_mem_singleton]
        exact ⟨hr, fun h ↦ absurd h hretrans⟩
    rw [ite_eq_iff] at h
    obtain ⟨-, h⟩ | ⟨-, h⟩ := h
    · exact ih h
    · exact absurd h Except.error_ne_ok

/-! ## Discarding -/

theorem Copied.retransLost_of_nil (hs : s.Stored) (hsent : s.m_sentList = [])
    {out : Option TcpTxItem} (h : Copied now s s' out) : RetransLost s'.m_sentList := by
  cases h with
  | nothing =>
    rw [hsent]
    exact fun item hitem ↦ absurd hitem List.not_mem_nil
  | @again retransOut address before after item hedits hsacked =>
    have hsize := hedits.totalSize
    have hitem : 0 < item.size := hedits.size_pos (fun t ht ↦
      hs.size_pos t (List.mem_append_left _ ht)) item (by simp)
    rw [hsent, totalSize_append, totalSize_cons, totalSize_nil] at hsize
    omega
  | @new retransOut address after item hedits hretrans =>
    rw [RetransLost, hsent, List.nil_append, List.forall_mem_singleton]
    exact fun h ↦ absurd (hretrans.symm.trans h) Bool.false_ne_true

theorem Discarded.retransLost (hs : s.Stored) (hr : RetransLost s.m_sentList) {n : ℕ}
    (h : Discarded now s n s') : RetransLost s'.m_sentList := by
  induction h with
  | done => exact hr
  | move hsent hcopied hrest ih => exact ih (hs.copied hcopied).1 (hcopied.retransLost_of_nil hs hsent)
  | @remove s s₁ s' n item rest hsent hcounts hrest ih =>
    refine ih (hs.remove hsent hcounts).1 ?_
    rw [hsent, RetransLost, List.forall_mem_cons] at hr
    obtain ⟨-, -, -, rfl⟩ := removeFromCounts_eq_ok hcounts
    exact hr.2
  | @trim s s' n item rest hlt hsent hcounts =>
    rw [hsent, RetransLost, List.forall_mem_cons] at hr
    obtain ⟨-, -, -, rfl⟩ := removeFromCounts_eq_ok hcounts
    exact List.forall_mem_cons.mpr hr

theorem markHeadAsLost_retransLost (hr : RetransLost s.m_sentList) :
    RetransLost s.markHeadAsLost.m_sentList := by
  rw [markHeadAsLost]
  cases hsent : s.m_sentList with
  | nil => rwa [hsent] at hr ⊢
  | cons head rest =>
    rw [hsent, RetransLost, List.forall_mem_cons] at hr
    exact List.forall_mem_cons.mpr ⟨fun _ ↦ rfl, hr.2⟩

theorem addRenoSack_retransLost (hr : RetransLost s.m_sentList) (h : addRenoSack s = .ok s') :
    RetransLost s'.m_sentList := by
  obtain ⟨head, rest, hsent, -, ⟨-, rfl⟩ | ⟨before, item, after, rfl, -, -, -, rfl⟩⟩ :=
    addRenoSack_eq_ok h
  · exact hr
  · rw [hsent] at hr
    simp only [RetransLost, List.forall_mem_append, List.forall_mem_cons] at hr ⊢
    exact hr

theorem checkHead_retransLost {seq : SequenceNumber32} (hr : RetransLost s.m_sentList)
    (h : checkHead s seq = .ok s') : RetransLost s'.m_sentList := by
  rw [checkHead] at h
  cases hsent : s.m_sentList with
  | nil =>
    rw [hsent] at h
    cases h
    exact hr
  | cons head rest =>
    rw [hsent] at h
    dsimp only at h
    split_ifs at h with hstart hsacked
    · rw [moveSack] at h
      split_ifs at h with hlost
      obtain ⟨s₁, hreno, hret⟩ := Except.bind_eq_ok.mp h
      cases hret
      rw [hsent, RetransLost, List.forall_mem_cons] at hr
      have hhead : RetransLost ({ head with m_sacked := false } :: rest) :=
        List.forall_mem_cons.mpr hr
      exact markHeadAsLost_retransLost (addRenoSack_retransLost hhead hreno)
    · cases h
      exact hr

theorem discardUpTo_retransLost (hs : s.Stored) (hr : RetransLost s.m_sentList)
    {seq : SequenceNumber32} (h : discardUpTo now s seq = .ok s') : RetransLost s'.m_sentList := by
  rw [discardUpTo, ite_eq_iff] at h
  obtain ⟨-, h⟩ | ⟨-, h⟩ := h
  · cases h
    exact hr
  obtain ⟨s₁, hloop, h⟩ := Except.bind_eq_ok.mp h
  obtain ⟨s₂, hhead, h⟩ := Except.bind_eq_ok.mp h
  obtain ⟨n, hn, -⟩ := hs.discardLoop_spec hloop
  have hdiscarded := hn.retransLost hs hr
  have hjump : RetransLost
      (if s₁.m_size = 0 then { s₁ with m_firstByteSeq := seq } else s₁).m_sentList := by
    split_ifs <;> exact hdiscarded
  rw [checkDiscarded, ite_eq_iff] at h
  obtain ⟨-, h⟩ | ⟨-, h⟩ := h
  · exact absurd h Except.error_ne_ok
  cases h
  rw [sentList_forgetHighestSack]
  exact checkHead_retransLost hjump hhead

/-! ## The scoreboard -/

theorem updateItems_retransLost {block : SackBlock} {begin' : SequenceNumber32}
    {bytesSacked bytesSacked' : ℕ}
    (h : updateItems block begin' s bytesSacked items = .ok (s', bytesSacked', items'))
    (hcovers : coversRetransmitted block begin' items = false) (hr : RetransLost items) :
    RetransLost items' ∧ items'.map TcpTxItem.m_retrans = items.map TcpTxItem.m_retrans := by
  induction items generalizing s begin' bytesSacked items' with
  | nil =>
    cases h
    exact ⟨hr, rfl⟩
  | cons item items ih =>
    rw [RetransLost, List.forall_mem_cons] at hr
    rw [coversRetransmitted] at hcovers
    rw [updateItems] at h
    dsimp only at h hcovers
    split_ifs at h hcovers with hin hsacked hassert hpassed
    · obtain ⟨⟨s₁, bytesSacked₁, rest⟩, hrest, hret⟩ := Except.bind_eq_ok.mp h
      cases hret
      obtain ⟨hlost, hmap⟩ := ih hrest (Bool.or_eq_false_iff.mp hcovers).2 hr.2
      exact ⟨List.forall_mem_cons.mpr ⟨hr.1, hlost⟩, congrArg (item.m_retrans :: ·) hmap⟩
    · obtain ⟨⟨s₁, bytesSacked₁, rest⟩, hrest, hret⟩ := Except.bind_eq_ok.mp h
      cases hret
      obtain ⟨hlost, hmap⟩ := ih hrest (Bool.or_eq_false_iff.mp hcovers).2 hr.2
      refine ⟨List.forall_mem_cons.mpr ⟨fun hretrans ↦ ?_, hlost⟩,
        congrArg (item.m_retrans :: ·) hmap⟩
      exact absurd ((Bool.or_eq_false_iff.mp hcovers).1.symm.trans hretrans) Bool.false_ne_true
    · cases h
      exact ⟨List.forall_mem_cons.mpr hr, rfl⟩
    · obtain ⟨⟨s₁, bytesSacked₁, rest⟩, hrest, hret⟩ := Except.bind_eq_ok.mp h
      cases hret
      obtain ⟨hlost, hmap⟩ := ih hrest hcovers hr.2
      exact ⟨List.forall_mem_cons.mpr ⟨hr.1, hlost⟩, congrArg (item.m_retrans :: ·) hmap⟩

theorem coversRetransmitted_congr {block : SackBlock} {begin' : SequenceNumber32}
    (hsegment : items'.map segment = items.map segment)
    (hretrans : items'.map TcpTxItem.m_retrans = items.map TcpTxItem.m_retrans) :
    coversRetransmitted block begin' items' = coversRetransmitted block begin' items := by
  induction items generalizing items' begin' with
  | nil => rw [List.map_eq_nil_iff.mp hsegment]
  | cons item items ih =>
    obtain ⟨item', items', rfl, hitem, hsegment⟩ := List.map_eq_cons_iff.mp hsegment
    obtain ⟨hflag, hretrans⟩ := List.cons.inj hretrans
    have hsize : item'.size = item.size :=
      congrArg (fun t : ℕ × SequenceNumber32 × List UInt8 ↦ t.2.2.length) hitem
    rw [coversRetransmitted, coversRetransmitted, hsize, hflag, ih hsegment hretrans]

theorem updateBlocks_retransLost {list : List SackBlock} {bytesSacked bytesSacked' : ℕ}
    {atEnd : Bool} (hr : RetransLost s.m_sentList)
    (hcovers : ∀ block ∈ list.takeWhile fun block ↦ !(s.m_firstByteSeq.add s.m_sentSize).lt block.1,
      coversRetransmitted block s.m_firstByteSeq s.m_sentList = false)
    (h : updateBlocks list s bytesSacked = .ok (s', bytesSacked', atEnd)) :
    RetransLost s'.m_sentList := by
  induction list generalizing s bytesSacked with
  | nil =>
    cases h
    exact hr
  | cons block list ih =>
    rw [updateBlocks] at h
    split_ifs at h with hout
    · cases h
      exact hr
    · obtain ⟨⟨s₁, bytesSacked₁, sentList⟩, hitems, hrest⟩ := Except.bind_eq_ok.mp h
      rw [List.takeWhile_cons_of_pos (by simpa using hout), List.forall_mem_cons] at hcovers
      obtain ⟨hsegment, hs₁⟩ := updateItems_sameData hitems
      obtain ⟨hlost, hretrans⟩ := updateItems_retransLost hitems hcovers.1 hr
      refine ih (s := { s₁ with m_sentList := sentList }) hlost ?_ hrest
      rw [hs₁]
      intro block' hblock'
      rw [coversRetransmitted_congr hsegment hretrans]
      exact hcovers.2 block' hblock'

theorem markLost_retransLost (dupAckThresh lostOut : ℕ) (hr : RetransLost items) :
    RetransLost (markLost dupAckThresh items lostOut).1 := by
  induction items with
  | nil => exact hr
  | cons item items ih =>
    rw [RetransLost, List.forall_mem_cons] at hr
    rw [markLost]
    dsimp only
    generalize (if item.m_sacked = true then _ else _) = sacked
    by_cases hmark : dupAckThresh ≤ sacked ∧ item.m_sacked = false ∧ item.m_lost = false
    · rw [if_pos hmark]
      exact List.forall_mem_cons.mpr ⟨fun _ ↦ rfl, ih hr.2⟩
    · rw [if_neg hmark]
      exact List.forall_mem_cons.mpr ⟨hr.1, ih hr.2⟩

theorem updateLostCount_retransLost (hr : RetransLost s.m_sentList)
    (h : updateLostCount s = .ok s') : RetransLost s'.m_sentList := by
  obtain ⟨before, highest, after, head, rest, hsent, -, -, hfront, hs'⟩ := updateLostCount_eq_ok h
  have hlist : s.m_sentList = head :: (rest ++ after) := by
    rw [← List.cons_append, ← hfront, List.append_assoc]
    exact hsent
  rw [hlist, RetransLost, List.forall_mem_cons, List.forall_mem_append] at hr
  have hmarked := markLost_retransLost s.m_dupAckThresh s.m_lostOut hr.2.1
  rcases hs' with ⟨-, -, rfl⟩ | ⟨-, rfl⟩
  · rw [RetransLost, List.cons_append, List.forall_mem_cons, List.forall_mem_append]
    exact ⟨fun _ ↦ rfl, hmarked, hr.2.2⟩
  · rw [RetransLost, List.cons_append, List.forall_mem_cons, List.forall_mem_append]
    exact ⟨hr.1, hmarked, hr.2.2⟩

theorem countLost_retrans (lostOut : ℕ) :
    ∀ item ∈ (countLost items lostOut).1, item.m_retrans = false := by
  induction items generalizing lostOut with
  | nil => exact fun item hitem ↦ absurd hitem List.not_mem_nil
  | cons item items ih => exact List.forall_mem_cons.mpr ⟨rfl, ih _⟩

theorem retransLost_of_false (h : ∀ item ∈ items, item.m_retrans = false) : RetransLost items :=
  fun item hitem hretrans ↦ absurd ((h item hitem).symm.trans hretrans) Bool.false_ne_true

theorem setSentListLost_retransLost {resetSack : Bool}
    (h : s.setSentListLost resetSack = .ok s') : RetransLost s'.m_sentList := by
  rw [setSentListLost] at h
  dsimp only at h
  cases resetSack with
  | true =>
    rw [if_pos rfl] at h
    split_ifs at h with hassert
    cases h
    refine retransLost_of_false ?_
    rw [List.forall_mem_map]
    exact fun _ _ ↦ rfl
  | false =>
    rw [if_neg Bool.false_ne_true] at h
    split_ifs at h with hassert
    cases h
    exact retransLost_of_false (countLost_retrans 0)

theorem deleteRetransmittedFlagFromHead_retransLost (hr : RetransLost s.m_sentList)
    (h : s.deleteRetransmittedFlagFromHead = .ok s') : RetransLost s'.m_sentList := by
  rw [deleteRetransmittedFlagFromHead] at h
  split_ifs at h with hzero
  · cases h
    exact hr
  · cases hsent : s.m_sentList with
    | nil =>
      rw [hsent] at h
      exact absurd h Except.error_ne_ok
    | cons head rest =>
      rw [hsent] at h
      dsimp only at h
      split_ifs at h with hflag
      · cases h
        rw [hsent, RetransLost, List.forall_mem_cons] at hr
        exact List.forall_mem_cons.mpr ⟨fun h ↦ absurd h Bool.false_ne_true, hr.2⟩
      · cases h
        exact hr

end Retransmitted

/-! ## All steps -/

/-- **An operation within the guard** leaves only lost items counted as sent again. -/
theorem Kept.step_retransLost {s s' : TcpTxBuffer} (hk : s.Kept) (hr : RetransLost s.m_sentList)
    {op : Op} (hok : KeepsPipe s op) (h : s.next op = some s') : RetransLost s'.m_sentList := by
  cases op with
  | add p =>
    cases h
    rw [sentList_add]
    exact hr
  | copyFromSequence now numBytes seq =>
    obtain ⟨⟨s₁, out⟩, hcopy, rfl⟩ := Except.map_eq_ok.mp (Except.toOption_eq_some.mp h)
    exact copyFromSequenceAux_retransLost hk.stored hr hok hcopy
  | discardUpTo now seq =>
    exact discardUpTo_retransLost hk.stored hr (Except.toOption_eq_some.mp h)
  | update list =>
    rw [next, Option.ite_none_right_eq_some] at h
    obtain ⟨⟨s₁, bytesSacked⟩, hupdate, rfl⟩ :=
      Except.map_eq_ok.mp (Except.toOption_eq_some.mp h.2)
    obtain ⟨s₂, atEnd, hblocks, ⟨-, -, hlost⟩ | ⟨-, rfl⟩⟩ := update_eq_ok hupdate
    · exact updateLostCount_retransLost (updateBlocks_retransLost hr hok hblocks) hlost
    · exact updateBlocks_retransLost hr hok hblocks
  | resetLastSegmentSent =>
    cases h
    rw [resetLastSegmentSent]
    cases hlast : s.m_sentList.getLast? with
    | none => exact hr
    | some item => exact fun t ht ↦ hr t (List.mem_of_mem_dropLast ht)
  | deleteRetransmittedFlagFromHead =>
    exact deleteRetransmittedFlagFromHead_retransLost hr (Except.toOption_eq_some.mp h)
  | markHeadAsLost =>
    cases h
    exact markHeadAsLost_retransLost hr
  | setSentListLost resetSack => exact setSentListLost_retransLost (Except.toOption_eq_some.mp h)
  | resetRenoSack =>
    cases h
    rw [RetransLost, resetRenoSack, List.forall_mem_map]
    exact hr
  | resetSentList =>
    cases h
    exact fun item hitem ↦ absurd hitem List.not_mem_nil

/-- **The estimate is the pipe in every state of a run whose steps are within the guard.** -/
theorem inFlight_of_run {isn : SequenceNumber32} {maxBuffer dupAckThresh : UInt32} {ops : List Op}
    {s : TcpTxBuffer} (hr : Machine.Run (machine isn maxBuffer dupAckThresh) KeepsInFlight ops s) :
    s.InFlight := by
  have hkept : s.Kept ∧ RetransLost s.m_sentList :=
    hr.invariant (I := fun s : TcpTxBuffer ↦ s.Kept ∧ RetransLost s.m_sentList)
      ⟨Kept.init isn maxBuffer dupAckThresh, fun item hitem ↦ absurd hitem List.not_mem_nil⟩
      fun _ _ _ hi hok hs ↦ ⟨hi.1.step hok.1 hs, hi.1.step_retransLost hi.2 hok.2 hs⟩
  exact ⟨(bytesInFlight_eq_pipe_iff hkept.1).mpr hkept.2, bytesInFlightRFC_eq hkept.1⟩

/-- A lost item is sent again and acknowledged with what is before it. -/
theorem inFlight_of_run_retransmitted : ∃ s, Machine.Run (machine ⟨2 ^ 32 - 3⟩ 100 1) KeepsInFlight
    [.add [1, 2, 3, 4, 5, 6], .copyFromSequence 0 2 ⟨2 ^ 32 - 3⟩,
      .copyFromSequence 0 2 ⟨2 ^ 32 - 1⟩, .copyFromSequence 0 2 ⟨1⟩, .update [(⟨1⟩, ⟨3⟩)],
      .copyFromSequence 1 2 ⟨2 ^ 32 - 3⟩] s ∧ s.bytesInFlight = .ok 2 ∧ s.InFlight := by
  refine Machine.exists_run_and_allowed (p := fun s ↦ s.bytesInFlight = .ok 2) (by decide +kernel)
    (by decide +kernel) fun s hr hs ↦ ?_
  exact ⟨hs, inFlight_of_run hr⟩

/-- **A lost item is sent again and then selectively acknowledged**: nothing of it is in flight, and it
is counted. -/
theorem not_inFlight_sacked : ∃ s, Machine.Run (machine ⟨1⟩ 100 1) Machine.unguarded
    [.add [1, 2, 3, 4, 5, 6], .copyFromSequence 0 2 ⟨1⟩, .copyFromSequence 0 2 ⟨3⟩,
      .copyFromSequence 0 2 ⟨5⟩, .update [(⟨5⟩, ⟨7⟩)], .copyFromSequence 1 2 ⟨3⟩,
      .update [(⟨3⟩, ⟨5⟩)]] s ∧ s.bytesInFlight = .ok 2 ∧ ¬s.InFlight := by
  refine Machine.exists_run_and
    (p := fun s ↦ s.bytesInFlight = .ok 2 ∧ flagged inPipe s.m_sentList ≠ 2) (by decide +kernel)
    fun s hr hs ↦ ?_
  refine ⟨hs.1, fun hflight ↦ hs.2 ?_⟩
  exact (Except.ok.inj (hs.1.symm.trans hflight.1)).symm

end Ns3.TcpTxBuffer
