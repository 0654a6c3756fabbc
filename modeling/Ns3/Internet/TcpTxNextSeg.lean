import Ns3.Internet.TcpTxSegment

/-!
# The next segment to send

`NextSeg` chooses by three rules: the first lost item, else data that has not been sent, else, in
recovery, the first item that has not been acknowledged. One pass over the sent list serves the first
and the third rule.

The pass remembers its item for the third rule by the sequence number, and takes the number 0 for "none
yet". An item that starts with 0 is forgotten when another one follows it. And unsent data is measured
by a comparison of sequence numbers, which takes half of the number space or more for nothing. Just if
neither decides the result, the rules are followed (`followsRules_iff`).
-/

namespace Ns3.TcpTxBuffer

/-- The loop of `NextSeg`: the start of a lost item, `seqPerRule3` and `isSeqPerRule3Valid`. -/
def nextSegLoop (isRecovery : Bool) : SequenceNumber32 → SequenceNumber32 → Bool → List TcpTxItem →
    Option SequenceNumber32 × SequenceNumber32 × Bool
  | _, seqPerRule3, isSeqPerRule3Valid, [] => (none, seqPerRule3, isSeqPerRule3Valid)
  | beginOfCurrentPkt, seqPerRule3, isSeqPerRule3Valid, item :: rest =>
    if item.m_retrans = false ∧ item.m_sacked = false then
      if item.m_lost then (some beginOfCurrentPkt, seqPerRule3, isSeqPerRule3Valid)
      else if seqPerRule3.m_value = 0 ∧ isRecovery = true then
        nextSegLoop isRecovery (beginOfCurrentPkt.add item.size) beginOfCurrentPkt true rest
      else
        nextSegLoop isRecovery (beginOfCurrentPkt.add item.size) seqPerRule3 isSeqPerRule3Valid rest
    else nextSegLoop isRecovery (beginOfCurrentPkt.add item.size) seqPerRule3 isSeqPerRule3Valid rest

/-- `NextSeg`: the range of sequence numbers, where it returns `true`. The segment size and the window
that the callback returns are arguments. -/
def nextSeg (m_segmentSize rWnd : ℕ) (isRecovery : Bool) (s : TcpTxBuffer) :
    Option (SequenceNumber32 × SequenceNumber32) :=
  match nextSegLoop isRecovery s.m_firstByteSeq ⟨0⟩ false s.m_sentList with
  | (some seq, _, _) => some (seq, seq.add m_segmentSize)
  | (none, seqPerRule3, isSeqPerRule3Valid) =>
    if 0 < s.sizeFromSequence (s.m_firstByteSeq.add s.m_sentSize) then
      if s.m_sentSize ≤ rWnd then
        let seq := s.m_firstByteSeq.add s.m_sentSize
        some (seq, seq.add (min m_segmentSize (sub32 rWnd s.m_sentSize)))
      else none
    else if isSeqPerRule3Valid then some (seqPerRule3, seqPerRule3.add m_segmentSize)
    else none

/-! ## What is promised -/

/-- The starts of the items with a property. -/
def starts (p : TcpTxItem → Bool) : SequenceNumber32 → List TcpTxItem → List SequenceNumber32
  | _, [] => []
  | begin', item :: rest =>
    if p item then begin' :: starts p (begin'.add item.size) rest
    else starts p (begin'.add item.size) rest

/-- The item has been neither acknowledged nor sent again. -/
def outstanding (item : TcpTxItem) : Bool := !item.m_retrans && !item.m_sacked

/-- The item is lost, and has been neither acknowledged nor sent again. -/
def toRetransmit (item : TcpTxItem) : Bool := outstanding item && item.m_lost

/-- The sizes of the buffer with its unsent data. -/
structure Sized (s : TcpTxBuffer) (unsent : ℕ) : Prop where
  sentSize : s.m_sentSize = totalSize s.m_sentList
  size : s.m_size = s.m_sentSize + unsent
  size_lt : s.m_size < 2 ^ 32
  size_pos : ∀ item ∈ s.m_sentList, 0 < item.size

/-- The first three rules. -/
structure FollowsRules (rWnd : ℕ) (isRecovery : Bool) (s : TcpTxBuffer) (unsent : ℕ)
    (r : Option (SequenceNumber32 × SequenceNumber32)) : Prop where
  /-- The first lost item is sent again. -/
  lost : ∀ seq, (starts toRetransmit s.m_firstByteSeq s.m_sentList).head? = some seq →
    ∃ seqHigh, r = some (seq, seqHigh)
  /-- Else data that has not been sent is sent within the window. -/
  newData : starts toRetransmit s.m_firstByteSeq s.m_sentList = [] → 0 < unsent →
    if s.m_sentSize ≤ rWnd then ∃ seqHigh, r = some (s.m_firstByteSeq.add s.m_sentSize, seqHigh) ∧
      castSub seqHigh s.headSequence ≤ rWnd
    else r = none
  /-- Else, in recovery, the first outstanding item is sent again. -/
  recovery : starts toRetransmit s.m_firstByteSeq s.m_sentList = [] → unsent = 0 →
    isRecovery = true → ∀ seq, (starts outstanding s.m_firstByteSeq s.m_sentList).head? = some seq →
      ∃ seqHigh, r = some (seq, seqHigh)
  /-- Else nothing is sent. -/
  nothing : starts toRetransmit s.m_firstByteSeq s.m_sentList = [] → unsent = 0 →
    (isRecovery = false ∨ starts outstanding s.m_firstByteSeq s.m_sentList = []) → r = none

/-- Without a lost item, the number 0 is not the first of several outstanding starts where the third
rule decides, and unsent data compares as more than nothing, or there is neither window nor another
choice. -/
def Decides (rWnd : ℕ) (isRecovery : Bool) (s : TcpTxBuffer) (unsent : ℕ) : Prop :=
  starts toRetransmit s.m_firstByteSeq s.m_sentList = [] →
    (unsent = 0 → isRecovery = true → ∀ seq rest,
      starts outstanding s.m_firstByteSeq s.m_sentList ≠ ⟨0⟩ :: seq :: rest) ∧
    (0 < unsent → s.tailSequence.gt (s.m_firstByteSeq.add s.m_sentSize) = true ∨
      rWnd < s.m_sentSize ∧
        (isRecovery = true → starts outstanding s.m_firstByteSeq s.m_sentList = []))

/-! ## The pass over the sent list -/

section Loop

variable {isRecovery valid : Bool} {begin' seq : SequenceNumber32} {items : List TcpTxItem}
  {p : TcpTxItem → Bool}

theorem exists_of_mem_starts (hpos : ∀ item ∈ items, 0 < item.size) (h : seq ∈ starts p begin' items) :
    ∃ k < totalSize items, seq = begin'.add k := by
  induction items generalizing begin' with
  | nil => exact absurd h List.not_mem_nil
  | cons item items ih =>
    rw [List.forall_mem_cons] at hpos
    rw [totalSize_cons]
    have hrest : seq ∈ starts p (begin'.add item.size) items →
        ∃ k < item.size + totalSize items, seq = begin'.add k := by
      intro hmem
      obtain ⟨k, hk, rfl⟩ := ih hpos.2 hmem
      exact ⟨item.size + k, by omega, SequenceNumber.add_add _ _ _⟩
    rw [starts] at h
    split_ifs at h with hp
    · rcases List.mem_cons.mp h with rfl | hmem
      · exact ⟨0, Nat.add_pos_left hpos.1 _, (SequenceNumber.add_zero _).symm⟩
      · exact hrest hmem
    · exact hrest h

theorem add_ne_self {a : SequenceNumber32} {k : ℕ} (hpos : 0 < k) (hlt : k < 2 ^ 32) : a.add k ≠ a := by
  intro h
  have hsub := castSub_add_self (a := a) hlt
  rw [h] at hsub
  have hself := castSub_add_self (a := a) (k := 0) (by decide)
  rw [SequenceNumber.add_zero] at hself
  omega

theorem ne_zero_of_starts {rest : List SequenceNumber32} (hpos : ∀ item ∈ items, 0 < item.size)
    (hlt : totalSize items < 2 ^ 32) (h : starts p begin' items = ⟨0⟩ :: seq :: rest) : seq ≠ ⟨0⟩ := by
  induction items generalizing begin' with
  | nil => exact absurd h (List.cons_ne_nil _ _).symm
  | cons item items ih =>
    rw [List.forall_mem_cons] at hpos
    rw [totalSize_cons] at hlt
    rw [starts] at h
    split_ifs at h with hp
    · obtain ⟨rfl, hrest⟩ := List.cons.inj h
      have hmem : seq ∈ starts p (SequenceNumber.add ⟨0⟩ item.size) items := by
        rw [hrest]
        exact List.mem_cons_self
      obtain ⟨k, hk, rfl⟩ := exists_of_mem_starts hpos.2 hmem
      rw [SequenceNumber.add_add]
      exact add_ne_self (by omega) (by omega)
    · exact ih hpos.2 (by omega) h

theorem nextSegLoop_lost {seqPerRule3 : SequenceNumber32}
    (h : (starts toRetransmit begin' items).head? = some seq) :
    (nextSegLoop isRecovery begin' seqPerRule3 valid items).1 = some seq := by
  induction items generalizing begin' seqPerRule3 valid with
  | nil => exact absurd h (by simp [starts])
  | cons item items ih =>
    rw [starts, toRetransmit, outstanding] at h
    rw [nextSegLoop]
    cases hretrans : item.m_retrans <;> cases hsacked : item.m_sacked <;> cases hlost : item.m_lost <;>
      simp only [hretrans, hsacked, hlost, Bool.not_true, Bool.not_false, Bool.and_true,
        Bool.and_false, Bool.false_eq_true, Bool.true_eq_false, and_true, and_false,
        and_self, if_true, if_false, List.head?_cons] at h ⊢
    case false.false.true => exact h
    case false.false.false => split_ifs <;> exact ih h
    all_goals exact ih h

theorem nextSegLoop_keep {seqPerRule3 : SequenceNumber32}
    (h : starts toRetransmit begin' items = [])
    (hkeep : ¬(seqPerRule3.m_value = 0 ∧ isRecovery = true)) :
    nextSegLoop isRecovery begin' seqPerRule3 valid items = (none, seqPerRule3, valid) := by
  induction items generalizing begin' with
  | nil => rfl
  | cons item items ih =>
    rw [starts] at h
    split_ifs at h with hlost
    rw [nextSegLoop, if_neg hkeep]
    split_ifs with houtstanding hlost'
    · refine absurd ?_ hlost
      rw [toRetransmit, outstanding, houtstanding.1, houtstanding.2, hlost']
      rfl
    · exact ih h
    · exact ih h

/-- The start for the third rule: the first one, or the second if the first is 0. -/
def remembered : List SequenceNumber32 → SequenceNumber32
  | [] => ⟨0⟩
  | [seq] => seq
  | seq :: seq' :: _ => if seq = ⟨0⟩ then seq' else seq

theorem remembered_mem {seqs : List SequenceNumber32} (h : seqs ≠ []) : remembered seqs ∈ seqs := by
  rcases seqs with _ | ⟨seq, _ | ⟨seq', rest⟩⟩
  · exact absurd rfl h
  · exact List.mem_cons_self
  · change (if seq = ⟨0⟩ then seq' else seq) ∈ _
    split_ifs
    · exact List.mem_cons_of_mem _ List.mem_cons_self
    · exact List.mem_cons_self

/-- The first start is remembered, unless it is 0 and another one follows. -/
theorem remembered_eq {seqs : List SequenceNumber32} (hhead : seqs.head? = some seq)
    (hzero : ∀ seq' rest, seqs ≠ ⟨0⟩ :: seq' :: rest) : remembered seqs = seq := by
  rcases seqs with _ | ⟨first, _ | ⟨seq', rest⟩⟩
  · exact absurd hhead (Option.some_ne_none _).symm
  · exact Option.some.inj hhead
  · obtain rfl : first = seq := Option.some.inj hhead
    exact if_neg fun h ↦ hzero seq' rest (by rw [h])

theorem nextSegLoop_recovery (hpos : ∀ item ∈ items, 0 < item.size)
    (hlt : totalSize items < 2 ^ 32) (h : starts toRetransmit begin' items = []) :
    nextSegLoop true begin' ⟨0⟩ valid items = (none, remembered (starts outstanding begin' items),
      valid || !(starts outstanding begin' items).isEmpty) := by
  induction items generalizing begin' valid with
  | nil => exact Prod.ext rfl (Prod.ext rfl (Bool.or_false _).symm)
  | cons item items ih =>
    have hpos' := (List.forall_mem_cons.mp hpos).2
    have hlt' : totalSize items < 2 ^ 32 := by
      rw [totalSize_cons] at hlt
      omega
    have hnot := h
    rw [starts] at hnot
    split_ifs at hnot with hlost
    rw [nextSegLoop, starts]
    by_cases houtstanding : outstanding item = true
    · have hflags : item.m_retrans = false ∧ item.m_sacked = false := by
        simpa [outstanding] using houtstanding
      have hlost' : ¬item.m_lost = true := fun hlost' ↦ hlost (by
        rw [toRetransmit, houtstanding, hlost']
        rfl)
      rw [if_pos houtstanding, if_pos hflags, if_neg hlost', if_pos ⟨rfl, rfl⟩]
      by_cases hzero : begin' = ⟨0⟩
      · -- the next outstanding item takes the place of this one
        have hstarts : starts outstanding begin' (item :: items) =
            begin' :: starts outstanding (begin'.add item.size) items := by
          rw [starts, if_pos houtstanding]
        rw [hzero] at hnot hstarts ⊢
        rw [ih hpos' hlt' hnot]
        cases hrest : starts outstanding (SequenceNumber.add ⟨0⟩ item.size) items with
        | nil => exact Prod.ext rfl (Prod.ext rfl (Bool.or_true _).symm)
        | cons seq rest =>
          rw [hrest] at hstarts
          have hne := ne_zero_of_starts hpos hlt hstarts
          refine Prod.ext rfl (Prod.ext ?_ (Bool.or_true _).symm)
          cases rest with
          | nil =>
            change seq = if (⟨0⟩ : SequenceNumber32) = ⟨0⟩ then seq else ⟨0⟩
            rw [if_pos rfl]
          | cons seq' rest =>
            change (if seq = ⟨0⟩ then seq' else seq) = if (⟨0⟩ : SequenceNumber32) = ⟨0⟩ then seq else ⟨0⟩
            rw [if_neg hne, if_pos rfl]
      · have hkeep : ¬(begin'.m_value = 0 ∧ true = true) := fun hvalue ↦
          hzero (SequenceNumber.ext hvalue.1)
        rw [nextSegLoop_keep hnot hkeep]
        refine Prod.ext rfl (Prod.ext ?_ (Bool.or_true _).symm)
        cases starts outstanding (begin'.add item.size) items with
        | nil => rfl
        | cons seq rest => exact (if_neg hzero).symm
    · have hflags : ¬(item.m_retrans = false ∧ item.m_sacked = false) := by
        simpa [outstanding] using houtstanding
      rw [if_neg houtstanding, if_neg hflags]
      exact ih hpos' hlt' hnot

end Loop

/-! ## The rules -/

section Rules

variable {m_segmentSize rWnd unsent : ℕ} {isRecovery : Bool} {s : TcpTxBuffer}

theorem Sized.sizeFromSequence_pos_iff (hs : s.Sized unsent) :
    0 < s.sizeFromSequence (s.m_firstByteSeq.add s.m_sentSize) ↔
      0 < unsent ∧ s.tailSequence.gt (s.m_firstByteSeq.add s.m_sentSize) = true := by
  have hsize := hs.size
  have hlt := hs.size_lt
  have htail : s.tailSequence = (s.m_firstByteSeq.add s.m_sentSize).add unsent := by
    rw [tailSequence, hsize, SequenceNumber.add_add]
  have hunsent : castSub s.tailSequence (s.m_firstByteSeq.add s.m_sentSize) = unsent := by
    rw [htail, castSub_add_self (by omega)]
  rw [sizeFromSequence, hunsent, SequenceNumber.ge]
  by_cases hgt : s.tailSequence.gt (s.m_firstByteSeq.add s.m_sentSize) = true
  · rw [if_pos (by rw [hgt, Bool.true_or])]
    exact ⟨fun h ↦ ⟨h, hgt⟩, And.left⟩
  · rw [Bool.eq_false_of_not_eq_true hgt, Bool.false_or]
    constructor
    · intro h
      split_ifs at h with heq
      · rw [decide_eq_true_iff] at heq
        rw [← hunsent, castSub_eq, heq, BitVec.sub_self] at h
        exact absurd h (lt_irrefl 0)
      · exact absurd h (lt_irrefl 0)
    · exact fun h ↦ absurd h.2 Bool.false_ne_true

theorem castSub_seqHigh_le {a : SequenceNumber32} {x : ℕ} (hle : x ≤ rWnd) (hlt : rWnd < 2 ^ 32) :
    castSub ((a.add x).add (min m_segmentSize (sub32 rWnd x))) a ≤ rWnd := by
  have hmin : min m_segmentSize (sub32 rWnd x) ≤ rWnd - x :=
    (min_le_right _ _).trans (sub32_eq hle hlt).le
  rw [SequenceNumber.add_add, castSub_add_self (by omega)]
  omega

theorem nextSeg_lost {seq : SequenceNumber32}
    (h : (starts toRetransmit s.m_firstByteSeq s.m_sentList).head? = some seq) :
    nextSeg m_segmentSize rWnd isRecovery s = some (seq, seq.add m_segmentSize) := by
  have hloop : (nextSegLoop isRecovery s.m_firstByteSeq ⟨0⟩ false s.m_sentList).1 = some seq :=
    nextSegLoop_lost h
  rw [nextSeg]
  generalize nextSegLoop isRecovery s.m_firstByteSeq ⟨0⟩ false s.m_sentList = loop at hloop ⊢
  obtain ⟨first, rest⟩ := loop
  obtain rfl : first = some seq := hloop
  rfl

theorem nextSeg_not_lost (hs : s.Sized unsent)
    (hlost : starts toRetransmit s.m_firstByteSeq s.m_sentList = []) :
    nextSeg m_segmentSize rWnd isRecovery s =
      if 0 < s.sizeFromSequence (s.m_firstByteSeq.add s.m_sentSize) then
        if s.m_sentSize ≤ rWnd then some (s.m_firstByteSeq.add s.m_sentSize,
          (s.m_firstByteSeq.add s.m_sentSize).add (min m_segmentSize (sub32 rWnd s.m_sentSize)))
        else none
      else if isRecovery = true ∧ starts outstanding s.m_firstByteSeq s.m_sentList ≠ [] then
        some (remembered (starts outstanding s.m_firstByteSeq s.m_sentList),
          (remembered (starts outstanding s.m_firstByteSeq s.m_sentList)).add m_segmentSize)
      else none := by
  have htotal : totalSize s.m_sentList < 2 ^ 32 := by
    have := hs.size
    have := hs.size_lt
    rw [← hs.sentSize]
    omega
  rw [nextSeg]
  cases isRecovery with
  | false =>
    rw [nextSegLoop_keep hlost fun h ↦ Bool.false_ne_true h.2]
    dsimp only
    rw [if_neg Bool.false_ne_true]
    congr 1
  | true =>
    rw [nextSegLoop_recovery hs.size_pos htotal hlost]
    dsimp only
    congr 1
    cases starts outstanding s.m_firstByteSeq s.m_sentList with
    | nil => exact (if_neg Bool.false_ne_true).trans (if_neg fun h ↦ h.2 rfl).symm
    | cons seq rest => exact (if_pos rfl).trans (if_pos ⟨rfl, List.cons_ne_nil _ _⟩).symm

end Rules

/-- **The rules are followed** just if neither the number 0 nor half of the number space decides. -/
theorem followsRules_iff {m_segmentSize rWnd unsent : ℕ} {isRecovery : Bool} {s : TcpTxBuffer}
    (hs : s.Sized unsent) (hwnd : rWnd < 2 ^ 32) :
    FollowsRules rWnd isRecovery s unsent (nextSeg m_segmentSize rWnd isRecovery s) ↔
      Decides rWnd isRecovery s unsent := by
  cases hlost : starts toRetransmit s.m_firstByteSeq s.m_sentList with
  | cons seq rest =>
    have hne : starts toRetransmit s.m_firstByteSeq s.m_sentList ≠ [] := by
      rw [hlost]
      exact List.cons_ne_nil _ _
    refine ⟨fun _ hnil ↦ absurd hnil hne, fun _ ↦ ⟨fun seq' hseq ↦ ⟨_, nextSeg_lost hseq⟩,
      fun hnil ↦ absurd hnil hne, fun hnil ↦ absurd hnil hne, fun hnil ↦ absurd hnil hne⟩⟩
  | nil =>
    have hnext : nextSeg m_segmentSize rWnd isRecovery s = _ := nextSeg_not_lost hs hlost
    have hcount := hs.sizeFromSequence_pos_iff
    have hsize := hs.size
    have hlt := hs.size_lt
    have htotal := hs.sentSize
    have hnoLost : ∀ seq, (starts toRetransmit s.m_firstByteSeq s.m_sentList).head? = some seq →
        ∃ seqHigh, nextSeg m_segmentSize rWnd isRecovery s = some (seq, seqHigh) := fun seq hseq ↦ by
      rw [hlost] at hseq
      exact absurd hseq (Option.some_ne_none _).symm
    by_cases hunsent : 0 < unsent
    · by_cases hgt : s.tailSequence.gt (s.m_firstByteSeq.add s.m_sentSize) = true
      · -- the second rule decides
        rw [if_pos (hcount.mpr ⟨hunsent, hgt⟩)] at hnext
        refine ⟨fun _ _ ↦ ⟨fun h ↦ absurd h hunsent.ne', fun _ ↦ .inl hgt⟩, fun _ ↦ ⟨hnoLost, ?_,
          fun _ h ↦ absurd h hunsent.ne', fun _ h ↦ absurd h hunsent.ne'⟩⟩
        intro _ _
        rw [hnext]
        split_ifs with hwindow
        · exact ⟨_, rfl, castSub_seqHigh_le hwindow hwnd⟩
        · rfl
      · -- the unsent data is taken for nothing
        rw [if_neg fun h ↦ hgt (hcount.mp h).2] at hnext
        constructor
        · intro hrules _
          refine ⟨fun h ↦ absurd h hunsent.ne', fun _ ↦ .inr ?_⟩
          have hdata := hrules.newData hlost hunsent
          rw [hnext] at hdata
          split_ifs at hdata with hwindow hrecovery hrecovery
          · obtain ⟨seqHigh, hseq, -⟩ := hdata
            obtain ⟨k, hk, heq⟩ := exists_of_mem_starts hs.size_pos (remembered_mem hrecovery.2)
            rw [heq, Option.some_inj, Prod.mk.injEq] at hseq
            have hcast := congrArg (castSub · s.m_firstByteSeq) hseq.1
            rw [castSub_add_self (by omega), castSub_add_self (by omega)] at hcast
            omega
          · obtain ⟨seqHigh, hseq, -⟩ := hdata
            exact hseq.elim
          · refine ⟨not_le.mp hwindow, fun hrec ↦ ?_⟩
            by_contra hne
            exact hrecovery ⟨hrec, hne⟩
        · intro hdecides
          obtain ⟨hwindow, hnone⟩ := ((hdecides hlost).2 hunsent).resolve_left hgt
          refine ⟨hnoLost, fun _ _ ↦ ?_, fun _ h ↦ absurd h hunsent.ne', fun _ h ↦
            absurd h hunsent.ne'⟩
          rw [if_neg (not_le.mpr hwindow), hnext, if_neg fun h ↦ h.2 (hnone h.1)]
    · -- all data has been sent
      rw [if_neg fun h ↦ hunsent (hcount.mp h).1] at hnext
      have hzero := Nat.eq_zero_of_not_pos hunsent
      constructor
      · intro hrules _
        refine ⟨fun _ hrec seq rest hstarts ↦ ?_, fun h ↦ absurd h hunsent⟩
        obtain ⟨seqHigh, hseq⟩ := hrules.recovery hlost hzero hrec ⟨0⟩ (by rw [hstarts]; rfl)
        rw [hnext, hstarts, if_pos ⟨hrec, List.cons_ne_nil _ _⟩, Option.some_inj, Prod.mk.injEq] at hseq
        exact ne_zero_of_starts hs.size_pos (by omega) hstarts hseq.1
      · intro hdecides
        refine ⟨hnoLost, fun _ h ↦ absurd h hunsent, ?_, ?_⟩
        · intro _ _ hrec seq hhead
          have hne : starts outstanding s.m_firstByteSeq s.m_sentList ≠ [] := by
            intro hnil
            rw [hnil] at hhead
            exact absurd hhead (Option.some_ne_none _).symm
          rw [hnext, if_pos ⟨hrec, hne⟩, remembered_eq hhead ((hdecides hlost).1 hzero hrec)]
          exact ⟨_, rfl⟩
        · rintro - - (hrec | hnil)
          · rw [hnext, if_neg fun h ↦ Bool.false_ne_true (hrec.symm.trans h.1)]
          · rw [hnext, if_neg fun h ↦ h.2 hnil]

/-- Two items at the wrap of the sequence numbers, the second one lost. -/
theorem followsRules_iff_lost : FollowsRules 100 true
    { empty ⟨2 ^ 32 - 2⟩ 100 3 with
      m_sentList := [⟨0, ⟨2 ^ 32 - 2⟩, [1, 2], false, false, 0, false⟩,
        ⟨1, ⟨0⟩, [3, 4], true, false, 0, false⟩]
      m_size := 6
      m_sentSize := 4 } 2
    (nextSeg 536 100 true { empty ⟨2 ^ 32 - 2⟩ 100 3 with
      m_sentList := [⟨0, ⟨2 ^ 32 - 2⟩, [1, 2], false, false, 0, false⟩,
        ⟨1, ⟨0⟩, [3, 4], true, false, 0, false⟩]
      m_size := 6
      m_sentSize := 4 }) :=
  (followsRules_iff ⟨by decide, by decide, by decide, by decide⟩ (by decide)).mpr
    fun h ↦ absurd h (by decide)

/-- **An item that starts with the sequence number 0** is passed over for the one after it. -/
theorem not_followsRules_zero : ¬FollowsRules 100 true
    { empty ⟨0⟩ 100 3 with
      m_sentList := [⟨0, ⟨0⟩, [1, 2], false, false, 0, false⟩,
        ⟨1, ⟨2⟩, [3, 4], false, false, 0, false⟩]
      m_size := 4
      m_sentSize := 4 } 0
    (nextSeg 536 100 true { empty ⟨0⟩ 100 3 with
      m_sentList := [⟨0, ⟨0⟩, [1, 2], false, false, 0, false⟩,
        ⟨1, ⟨2⟩, [3, 4], false, false, 0, false⟩]
      m_size := 4
      m_sentSize := 4 }) := by
  intro h
  obtain ⟨seqHigh, hseq⟩ := h.recovery (by decide) rfl rfl ⟨0⟩ (by decide)
  have hfirst : some (⟨2⟩ : SequenceNumber32) = some ⟨0⟩ := congrArg (Option.map Prod.fst) hseq
  exact absurd hfirst (by decide)

end Ns3.TcpTxBuffer
