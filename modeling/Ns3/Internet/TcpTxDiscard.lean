import Ns3.Internet.TcpTxCopy

/-!
# What is discarded from the send buffer

`DiscardUpTo` has an assertion in every turn of its loop, and after it. As long as the counters are
exact they all hold, with one exception: the acknowledgement of a selectively acknowledged head has to
go to another item. With that, the buffer serves the bytes of its queue in every run.
-/

namespace Ns3

namespace TcpTxBuffer

variable {s s' : TcpTxBuffer} {now : ℤ} {k numBytes f : ℕ}

/-- The head that is left, if it is selectively acknowledged, can give its acknowledgement to an item
that is not lost. -/
def CanDiscard (items : List TcpTxItem) : Prop :=
  CanMoveSack items ∧ ∀ head ∈ items.head?, head.m_sacked = true → items.tail ≠ []

instance : DecidablePred CanDiscard := fun _ ↦ inferInstanceAs (Decidable (_ ∧ _))

/-! ## The loop -/

theorem removeFromCounts_ok (s : TcpTxBuffer) {item : TcpTxItem} {n : ℕ}
    (hsacked : item.m_sacked = true → n ≤ s.m_sackedOut)
    (hretrans : item.m_retrans = true → n ≤ s.m_retrans)
    (hlost : item.m_lost = true → n ≤ s.m_lostOut) : ∃ s', removeFromCounts s item n = .ok s' := by
  refine ⟨_, if_neg ?_⟩
  rintro (⟨h, hlt⟩ | ⟨h, hlt⟩ | ⟨h, hlt⟩)
  · exact absurd (hsacked h) (not_le.mpr hlt)
  · exact absurd (hretrans h) (not_le.mpr hlt)
  · exact absurd (hlost h) (not_le.mpr hlt)

theorem le_flagged_cons {flag : TcpTxItem → Bool} {item : TcpTxItem} {rest : List TcpTxItem}
    (h : flag item = true) : item.size ≤ flagged flag (item :: rest) := by
  rw [flagged_cons, if_pos h]
  exact Nat.le_add_right _ _

theorem Counted.discardHead_returns (hc : s.Counted) (hs : s.Stored) {item : TcpTxItem}
    {rest : List TcpTxItem} (hsent : s.m_sentList = item :: rest) (hle : k ≤ s.m_size) :
    (∃ s₁, discardHead s k = .ok (s₁, 0)) ∨ ∃ s₁,
      discardHead s k = .ok (s₁, k - item.size) ∧ s₁.m_sentList = rest ∧ s₁.Stored ∧
        s₁.Counted ∧ k - item.size ≤ s₁.m_size ∧ s₁.m_size ≤ s.m_size := by
  have hsack := hc.sackedOut
  have hlost := hc.lostOut
  have hretrans := hc.retrans
  have hcontiguous := hs.contiguous
  rw [hsent] at hsack hlost hretrans hcontiguous
  have hcounts : ∀ {t : TcpTxBuffer} {n : ℕ}, t.m_sackedOut = s.m_sackedOut →
      t.m_lostOut = s.m_lostOut → t.m_retrans = s.m_retrans → n ≤ item.size →
      ∃ s₁, removeFromCounts t item n = .ok s₁ := by
    intro t n h1 h2 h3 hn
    refine removeFromCounts_ok t (fun hflag ↦ ?_) (fun hflag ↦ ?_) fun hflag ↦ ?_
    · rw [h1, hsack]
      exact hn.trans (le_flagged_cons hflag)
    · rw [h3, hretrans]
      exact hn.trans (le_flagged_cons hflag)
    · rw [h2, hlost]
      exact hn.trans (le_flagged_cons hflag)
  rw [discardHead, hsent]
  dsimp only
  rw [if_neg (not_not.mpr hcontiguous.1)]
  by_cases hhead : item.size ≤ k
  · rw [if_pos hhead]
    obtain ⟨s₁, hremove⟩ := hcounts (t := { s with
      m_size := sub32 s.m_size item.size
      m_sentSize := sub32 s.m_sentSize item.size
      m_firstByteSeq := s.m_firstByteSeq.add item.size
      m_sentList := rest }) rfl rfl rfl le_rfl
    obtain ⟨hs₁, -, -, hsize⟩ := hs.remove hsent hremove
    have hone : Discarded 0 s _ s₁ := .remove hsent hremove .done
    refine .inr ⟨s₁, ?_, ?_, hs₁, hc.discarded hs hone, by omega, by omega⟩
    · rw [hremove]
      rfl
    · rw [(removeFromCounts_eq_ok hremove).2.2.2]
  · rw [if_neg hhead]
    obtain ⟨s₁, htrim⟩ := hcounts (t := { s with
      m_size := sub32 s.m_size k
      m_sentSize := sub32 s.m_sentSize k
      m_firstByteSeq := s.m_firstByteSeq.add k
      m_sentList := { item with
        m_packet := item.m_packet.drop k
        m_startSeq := item.m_startSeq.add k } :: rest }) rfl rfl rfl (not_le.mp hhead).le
    refine .inl ⟨s₁, ?_⟩
    rw [htrim]
    rfl

theorem canCopyNew_of_clear {items : List TcpTxItem} {n : ℕ} (hclear : ∀ item ∈ items, item.Clear)
    (hn : 0 < n) (hitems : items ≠ []) : CanCopyNew n items := by
  obtain ⟨item, rest, rfl⟩ := List.exists_cons_of_ne_nil hitems
  rw [List.forall_mem_cons] at hclear
  rw [canCopyNew_cons item rest hn, hclear.1.1, hclear.1.2.1, hclear.1.2.2]
  refine ⟨fun t ht ↦ ?_, fun h ↦ Bool.false_ne_true h.1⟩
  have ht := hclear.2 t (reached_subset _ _ ht)
  exact ⟨ht.1, ht.2.1⟩

theorem discardLoop_of_zero (now : ℤ) (s : TcpTxBuffer) (hfuel : 0 < f) :
    discardLoop now f s 0 = .ok s := by
  obtain ⟨f, rfl⟩ := Nat.exists_eq_add_of_lt hfuel
  rw [zero_add, discardLoop, if_pos (.inr rfl)]

theorem Counted.discardLoop_returns (hc : s.Counted) (now : ℤ) (hs : s.Stored) (hsize : s.m_size < 2 ^ 31)
    (hle : k ≤ s.m_size) (hfuel : s.m_sentList.length + 1 < f) :
    ∃ s', discardLoop now f s k = .ok s' := by
  induction hsent : s.m_sentList generalizing s f k with
  | nil =>
    rw [hsent] at hfuel
    obtain ⟨f, rfl⟩ := Nat.exists_eq_succ_of_ne_zero (Nat.ne_zero_of_lt hfuel)
    rw [List.length_nil] at hfuel
    rw [discardLoop]
    by_cases hstop : s.m_size = 0 ∨ k = 0
    · rw [if_pos hstop]
      exact ⟨s, rfl⟩
    have hzero : s.m_sentSize = 0 := by rw [hs.sentSize, hsent, totalSize_nil]
    have happ : s.m_appList ≠ [] := by
      intro happ
      have := hs.size
      rw [hsent, happ, totalSize_nil] at this
      omega
    obtain ⟨s₁, item, hcopy, hlist, hitem⟩ := hs.copyFromSequenceAux_new_eq_ok now 1 hsize
      (show 0 < k by omega) (by omega) (canCopyNew_of_clear hc.clear (by omega) happ)
    have hlt := hs.size_lt
    rw [← totalSize_append] at hlt
    have hcopied := copyFromSequenceAux_spec hs.size_pos hlt hcopy
    obtain ⟨hs₁, hqueue, -⟩ := hs.copied hcopied
    have hsize₁ : s₁.m_size = s.m_size := by rw [← hs₁.length_queue, hqueue, hs.length_queue]
    rw [hzero, SequenceNumber.add_zero] at hcopy
    rw [hsent, List.nil_append] at hlist
    have hmove : moveToSent now s k = .ok s₁ := by
      rw [moveToSent, if_pos hsent, copyFromSequence, hcopy]
      rfl
    rw [if_neg hstop, hmove, Except.ok_bind]
    rcases (hc.copied hs hcopied).discardHead_returns hs₁ hlist (k := k) (by omega) with
      ⟨s₂, hhead⟩ | ⟨s₂, hhead, -⟩
    · rw [hhead, Except.ok_bind]
      exact ⟨s₂, discardLoop_of_zero now s₂ (by omega)⟩
    · rw [hhead, Except.ok_bind, hitem, hzero, Nat.sub_zero, min_eq_left hle, Nat.sub_self]
      exact ⟨s₂, discardLoop_of_zero now s₂ (by omega)⟩
  | cons item rest ih =>
    rw [hsent] at hfuel
    obtain ⟨f, rfl⟩ := Nat.exists_eq_succ_of_ne_zero (Nat.ne_zero_of_lt hfuel)
    rw [List.length_cons] at hfuel
    rw [discardLoop]
    by_cases hstop : s.m_size = 0 ∨ k = 0
    · rw [if_pos hstop]
      exact ⟨s, rfl⟩
    have hmove : moveToSent now s k = .ok s := by
      rw [moveToSent, if_neg (by rw [hsent]; exact List.cons_ne_nil _ _)]
    rw [if_neg hstop, hmove, Except.ok_bind]
    rcases hc.discardHead_returns hs hsent hle with
      ⟨s₁, hhead⟩ | ⟨s₁, hhead, hrest, hs₁, hc₁, hle₁, hsize₁⟩
    · rw [hhead, Except.ok_bind]
      exact ⟨s₁, discardLoop_of_zero now s₁ (by omega)⟩
    · rw [hhead, Except.ok_bind]
      exact ih hc₁ hs₁ (by omega) hle₁ (by rw [hrest]; omega) hrest

/-! ## After the loop -/

theorem addRenoSack_returns {head second : TcpTxItem} {rest : List TcpTxItem}
    (h : s.m_sentList = head :: second :: rest) : ∃ s', addRenoSack s = .ok s' := by
  rw [addRenoSack, h]
  dsimp only
  split
  · exact ⟨_, rfl⟩
  · exact ⟨_, rfl⟩

theorem Counted.checkHead_returns (hc : s.Counted) (hs : s.Stored) (hcan : CanDiscard s.m_sentList) :
    ∃ s', TcpTxBuffer.checkHead s s.m_firstByteSeq = .ok s' := by
  have hboth := hc.notBoth
  have hcontiguous := hs.contiguous
  rw [TcpTxBuffer.checkHead]
  cases hsent : s.m_sentList with
  | nil => exact ⟨s, rfl⟩
  | cons head rest =>
    rw [hsent] at hboth hcan hcontiguous
    dsimp only
    rw [if_neg (not_not.mpr hcontiguous.1)]
    by_cases hsacked : head.m_sacked = true
    · rw [if_pos hsacked, moveSack,
        if_neg fun hlost ↦ hboth head List.mem_cons_self ⟨hsacked, hlost⟩]
      obtain ⟨second, rest, rfl⟩ := List.exists_cons_of_ne_nil (hcan.2 head rfl hsacked)
      obtain ⟨s₁, hreno⟩ := addRenoSack_returns (s := { s with
        m_sentList := { head with m_sacked := false } :: second :: rest
        m_sackedOut := sub32 s.m_sackedOut head.size }) rfl
      rw [hreno]
      exact ⟨_, rfl⟩
    · rw [if_neg hsacked]
      exact ⟨s, rfl⟩

theorem flagged_add_le {items : List TcpTxItem}
    (hboth : ∀ item ∈ items, ¬(item.m_sacked = true ∧ item.m_lost = true)) :
    flagged TcpTxItem.m_sacked items + flagged TcpTxItem.m_lost items ≤ totalSize items := by
  induction items with
  | nil => exact le_rfl
  | cons item items ih =>
    rw [List.forall_mem_cons] at hboth
    have hrest := ih hboth.2
    rw [flagged_cons, flagged_cons, totalSize_cons]
    split_ifs with hsacked hlost
    · exact absurd ⟨hsacked, hlost⟩ hboth.1
    · omega
    · omega
    · omega

theorem Counted.checkDiscarded_returns (hc : s.Counted) (hs : s.Stored) {seq : SequenceNumber32}
    (hseq : s.m_firstByteSeq = seq) : checkDiscarded s seq = .ok s := by
  have hle := flagged_add_le hc.notBoth
  have hlt := hs.size_lt
  rw [checkDiscarded, if_neg]
  rintro (hge | hless)
  · rw [SequenceNumber.ge, hseq, decide_eq_true rfl, Bool.or_true] at hge
    exact Bool.noConfusion hge
  · rw [hs.sentSize, hc.sackedOut, hc.lostOut, add32_eq (by omega)] at hless
    omega

/-- **An acknowledgement of bytes of the buffer removes them.** -/
theorem Kept.discardUpTo_returns (hk : s.Kept) (now : ℤ) (hsize : s.m_size < 2 ^ 31) (hle : k ≤ s.m_size)
    (hcan : CanDiscard (remaining k s.m_sentList)) :
    ∃ s', discardUpTo now s (s.m_firstByteSeq.add k) = .ok s' ∧
      s'.queue = ⟨s.m_firstByteSeq.add k, s.queue.bytes.drop k⟩ := by
  have hhalf : SequenceNumber.halfMaxValue 32 = 2 ^ 31 - 1 := rfl
  obtain ⟨hs, hc, -⟩ := hk
  suffices ∃ s', discardUpTo now s (s.m_firstByteSeq.add k) = .ok s' by
    obtain ⟨s', h⟩ := this
    refine ⟨s', h, ?_⟩
    rw [(hs.step_discardUpTo h).2.1, SendQueue.acknowledge]
    change (if s.m_firstByteSeq.ge (s.m_firstByteSeq.add k) = true then _ else
      SendQueue.mk _ (s.queue.bytes.drop (castSub _ s.m_firstByteSeq))) = _
    have hge := SequenceNumber.ge_add s.m_firstByteSeq (x := 0) (y := k) (by omega) (by omega)
    rw [SequenceNumber.add_zero] at hge
    rw [hge, castSub_add_self (by omega)]
    split_ifs with hzero
    · rw [decide_eq_true_iff, Nat.le_zero] at hzero
      rw [hzero, SequenceNumber.add_zero, List.drop_zero]
      rfl
    · rfl
  rw [discardUpTo]
  split_ifs with hge
  · exact ⟨s, rfl⟩
  rw [castSub_add_self (by omega)]
  obtain ⟨s₁, hloop⟩ := hc.discardLoop_returns now hs hsize hle
    (f := s.m_sentList.length + s.m_appList.length + 3) (by omega)
  rw [hloop, Except.ok_bind]
  obtain ⟨n, hn, hdone⟩ := hs.discardLoop_spec hloop
  obtain ⟨hs₁, hqueue, -, hleft⟩ := hs.discarded hn
  have hc₁ := hc.discarded hs hn
  -- the buffer that `checkHead` gets
  have hjump : ∃ s₂ : TcpTxBuffer, (if s₁.m_size = 0
      then { s₁ with m_firstByteSeq := s.m_firstByteSeq.add k } else s₁) = s₂ ∧ s₂.Stored ∧
        s₂.Counted ∧ CanDiscard s₂.m_sentList ∧ s₂.m_firstByteSeq = s.m_firstByteSeq.add k := by
    split_ifs with hempty
    · obtain ⟨hs₂, hsent, -⟩ := hs₁.of_empty hempty (s.m_firstByteSeq.add k)
      refine ⟨_, rfl, hs₂, hc₁.congr rfl rfl rfl rfl rfl, ?_, rfl⟩
      change CanDiscard s₁.m_sentList
      rw [hsent]
      exact ⟨trivial, fun _ hhead ↦ absurd hhead (Option.not_mem_none _)⟩
    · obtain rfl := hdone.resolve_right fun h ↦ hempty h.2
      refine ⟨s₁, rfl, hs₁, hc₁, ?_, congrArg SendQueue.head hqueue⟩
      have hlist := hc.discarded_sentList hs hn
      refine ⟨canMoveSack_discarded hcan.1 hlist, fun head hhead hsacked ↦ ?_⟩
      rcases hlist with ⟨first, rest, j, hremaining, hsent⟩ | ⟨-, hunsacked⟩
      · rw [hsent] at hhead ⊢
        obtain rfl := Option.some.inj hhead
        rw [hremaining] at hcan
        exact hcan.2 first rfl hsacked
      · exact absurd ((hunsacked head (List.mem_of_mem_head? hhead)).symm.trans hsacked)
          Bool.false_ne_true
  obtain ⟨s₂, hs₂, hstored, hcounted, hcan₂, hfirst⟩ := hjump
  obtain ⟨s₃, hcheck⟩ := hcounted.checkHead_returns hstored hcan₂
  rw [hs₂, ← hfirst, hcheck, Except.ok_bind]
  have hdata := (checkHead_sameData hcheck).trans (forgetHighestSack_sameData s₃)
  have hc₃ := (hcounted.checkHead hstored hcan₂.1 hcheck).1.forgetHighestSack
  exact ⟨_, hc₃.checkDiscarded_returns (hdata.stored hstored) hdata.firstByteSeq⟩

/-! ## All runs -/

theorem firstByteSeq_add_castSub (s : TcpTxBuffer) (seq : SequenceNumber32) :
    s.m_firstByteSeq.add (castSub seq s.m_firstByteSeq) = seq := by
  rw [castSub_eq, SequenceNumber.add, BitVec.ofNat_toNat, BitVec.setWidth_eq]
  exact congrArg SequenceNumber.mk (add_sub_cancel _ _)

theorem castSub_lt_size {seq : SequenceNumber32} (hsize : s.m_size < 2 ^ 31)
    (hhead : seq.ge s.headSequence = true) (htail : seq.lt s.tailSequence = true) :
    castSub seq s.m_firstByteSeq < s.m_size := by
  rw [SequenceNumber.ge, Bool.or_eq_true, decide_eq_true_iff] at hhead
  rw [castSub_eq]
  rcases hhead with hgt | heq
  · exact (SequenceNumber.toNat_sub_lt_of_gt_of_lt hgt htail (by omega)).2
  · obtain rfl := SequenceNumber.ext heq
    have hzero : s.m_size ≠ 0 := by
      intro hzero
      rw [tailSequence, hzero, SequenceNumber.add_zero, SequenceNumber.lt, Bool.and_eq_true,
        decide_eq_true_iff] at htail
      exact htail.2 rfl
    change (s.m_firstByteSeq.m_value - s.m_firstByteSeq.m_value).toNat < _
    rw [sub_self]
    exact Nat.pos_of_ne_zero hzero

theorem castSub_le_size {seq : SequenceNumber32} (hsize : s.m_size < 2 ^ 31)
    (hhead : seq.ge s.headSequence = true) (htail : seq.le s.tailSequence = true) :
    castSub seq s.m_firstByteSeq ≤ s.m_size := by
  by_cases heq : seq.m_value = s.tailSequence.m_value
  · obtain rfl := SequenceNumber.ext heq
    rw [tailSequence, castSub_add_self (by omega)]
  · refine (castSub_lt_size hsize hhead ?_).le
    rw [SequenceNumber.lt, Bool.and_eq_true, decide_eq_true_iff]
    exact ⟨htail, heq⟩

theorem queue_of_run {isn : SequenceNumber32} {maxBuffer dupAckThresh : UInt32} {ops : List Op}
    {ok : TcpTxBuffer → Op → Prop}
    (hr : Machine.Run (machine isn maxBuffer dupAckThresh) ok ops s) :
    s.Stored ∧ s.m_maxBuffer = maxBuffer.toNat ∧
      s.queue = ops.foldl (SendQueue.step maxBuffer.toNat) ⟨isn, []⟩ := by
  induction hr with
  | nil => exact ⟨.init isn maxBuffer dupAckThresh, rfl, rfl⟩
  | @snoc ops s s' op hr hok hnext ih =>
    obtain ⟨hs, hmax, hqueue⟩ := ih
    obtain ⟨hs', hqueue', hmax'⟩ := hs.step hnext
    refine ⟨hs', hmax'.trans hmax, ?_⟩
    rw [hqueue', hmax, hqueue, List.foldl_append]
    rfl

/-- **The buffer serves the bytes of its queue.** In every state, only `Add` and `DiscardUpTo` have
changed the queue; a segment that begins between the head and the end of the sent data is served if
and only if it can be copied, and, as long as the counters are exact, an acknowledgement removes the
bytes before it. -/
theorem serves_of_run {isn : SequenceNumber32} {maxBuffer dupAckThresh : UInt32} {ops : List Op}
    {s : TcpTxBuffer} (hr : Machine.Run (machine isn maxBuffer dupAckThresh) Machine.unguarded ops s)
    (hsize : s.m_size < 2 ^ 31) :
    s.queue = ops.foldl (SendQueue.step maxBuffer.toNat) ⟨isn, []⟩ ∧
      (∀ (now : ℤ) (numBytes : ℕ) (seq : SequenceNumber32) (s' : TcpTxBuffer)
        (out : Option TcpTxItem), copyFromSequence now s numBytes seq = .ok (s', out) →
          s'.queue = s.queue) ∧
      (∀ (now : ℤ) (numBytes : ℕ) (seq : SequenceNumber32), 0 < numBytes →
        seq.ge s.headSequence = true → seq.lt s.tailSequence = true →
        seq.le (s.headSequence.add s.m_sentSize) = true →
        HeadUnsacked (remaining (castSub seq s.headSequence) s.m_sentList) →
        (Serves now s numBytes seq ↔ CanCopy s numBytes (castSub seq s.headSequence))) ∧
      (Machine.Run (machine isn maxBuffer dupAckThresh) KeepsFlags ops s →
        ∀ (now : ℤ) (seq : SequenceNumber32), seq.ge s.headSequence = true →
        seq.le s.tailSequence = true → CanDiscard (remaining (castSub seq s.headSequence) s.m_sentList) →
        ∃ s', discardUpTo now s seq = .ok s' ∧
          s'.queue = ⟨seq, s.queue.bytes.drop (castSub seq s.headSequence)⟩) := by
  have hhalf : SequenceNumber.halfMaxValue 32 = 2 ^ 31 - 1 := rfl
  obtain ⟨hs, -, hqueue⟩ := queue_of_run hr
  have hlt := hs.size_lt
  rw [← totalSize_append] at hlt
  refine ⟨hqueue, fun now numBytes seq s' out hcopy ↦ ?_, fun now numBytes seq hnum hhead htail hend
    hunsacked ↦ ?_, fun hkeeps now seq hhead htail hcan ↦ ?_⟩
  · exact (hs.copied (copyFromSequenceAux_spec hs.size_pos hlt hcopy)).2.1
  · have hoffset := castSub_lt_size hsize hhead htail
    have hsent : castSub seq s.m_firstByteSeq ≤ s.m_sentSize := by
      have hsum := hs.size
      have hsentSize := hs.sentSize
      have hle := SequenceNumber.le_add s.m_firstByteSeq (x := castSub seq s.m_firstByteSeq)
        (y := s.m_sentSize) (by omega) (by omega)
      rw [firstByteSeq_add_castSub] at hle
      exact of_decide_eq_true (hle.symm.trans hend)
    have hiff := hs.serves_iff_canCopy now hsize hnum hoffset hsent hunsacked
    rw [firstByteSeq_add_castSub] at hiff
    exact hiff
  · have hk : s.Kept := hkeeps.invariant (I := Kept) (Kept.init isn maxBuffer dupAckThresh)
      fun _ _ _ hi hok hs ↦ hi.step hok hs
    have hdiscard := hk.discardUpTo_returns now hsize (castSub_le_size hsize hhead htail) hcan
    rw [firstByteSeq_add_castSub] at hdiscard
    exact hdiscard

/-- Data that has been sent is copied across the wrap, and then acknowledged. -/
theorem serves_of_run_wrap : ∃ s, Machine.Run (machine ⟨2 ^ 32 - 2⟩ 100 3) KeepsFlags
    [.add [1, 2, 3, 4, 5, 6], .copyFromSequence 0 4 ⟨2 ^ 32 - 2⟩] s ∧
      Serves 1 s 2 ⟨2 ^ 32 - 1⟩ ∧ ∃ s', discardUpTo 2 s ⟨1⟩ = .ok s' ∧ s'.queue = ⟨⟨1⟩, [4, 5, 6]⟩ := by
  refine Machine.exists_run_and_allowed
    (p := fun s ↦ s.m_size < 2 ^ 31 ∧ (SequenceNumber.ge ⟨2 ^ 32 - 1⟩ s.headSequence = true ∧
      SequenceNumber.lt ⟨2 ^ 32 - 1⟩ s.tailSequence = true ∧
      SequenceNumber.le ⟨2 ^ 32 - 1⟩ (s.headSequence.add s.m_sentSize) = true ∧
      HeadUnsacked (remaining (castSub ⟨2 ^ 32 - 1⟩ s.headSequence) s.m_sentList) ∧
      CanCopy s 2 (castSub ⟨2 ^ 32 - 1⟩ s.headSequence)) ∧
      SequenceNumber.ge ⟨1⟩ s.headSequence = true ∧ SequenceNumber.le ⟨1⟩ s.tailSequence = true ∧
      CanDiscard (remaining (castSub ⟨1⟩ s.headSequence) s.m_sentList) ∧
      s.queue.bytes.drop (castSub ⟨1⟩ s.headSequence) = [4, 5, 6])
    (by decide +kernel) (by decide +kernel) fun s hr ⟨hsize, ⟨h1, h2, h3, h4, h5⟩, h6, h7, h8, h9⟩ ↦ ?_
  obtain ⟨-, -, hserves, hdiscard⟩ := serves_of_run (hr.mono fun _ _ _ ↦ trivial) hsize
  obtain ⟨s', hok, hqueue⟩ := hdiscard hr 2 ⟨1⟩ h6 h7 h8
  exact ⟨(hserves 1 2 ⟨2 ^ 32 - 1⟩ Nat.two_pos h1 h2 h3 h4).mpr h5, s', hok,
    hqueue.trans (congrArg _ h9)⟩

/-- A segment that ends with new data is not served if its numbers wrap. -/
theorem not_serves_wrap : ∃ s, Machine.Run (machine ⟨2 ^ 32 - 2⟩ 100 3) Machine.unguarded
    [.add [1, 2, 3, 4, 5, 6], .copyFromSequence 0 4 ⟨2 ^ 32 - 2⟩] s ∧
      (SequenceNumber.ge ⟨2 ^ 32 - 1⟩ s.headSequence = true ∧
        SequenceNumber.lt ⟨2 ^ 32 - 1⟩ s.tailSequence = true ∧
        SequenceNumber.le ⟨2 ^ 32 - 1⟩ (s.headSequence.add s.m_sentSize) = true ∧
        HeadUnsacked (remaining (castSub ⟨2 ^ 32 - 1⟩ s.headSequence) s.m_sentList)) ∧
      ¬Serves 1 s 5 ⟨2 ^ 32 - 1⟩ := by
  refine Machine.exists_run_and
    (p := fun s ↦ (SequenceNumber.ge ⟨2 ^ 32 - 1⟩ s.headSequence = true ∧
      SequenceNumber.lt ⟨2 ^ 32 - 1⟩ s.tailSequence = true ∧
      SequenceNumber.le ⟨2 ^ 32 - 1⟩ (s.headSequence.add s.m_sentSize) = true ∧
      HeadUnsacked (remaining (castSub ⟨2 ^ 32 - 1⟩ s.headSequence) s.m_sentList)) ∧
      (copyFromSequence 1 s 5 ⟨2 ^ 32 - 1⟩).toOption = none)
    (by decide +kernel) fun s hr ⟨hrange, hnone⟩ ↦ ?_
  refine ⟨hrange, ?_⟩
  rintro ⟨s', item, hcopy, -⟩
  rw [hcopy] at hnone
  exact Option.some_ne_none _ hnone

end TcpTxBuffer

end Ns3
