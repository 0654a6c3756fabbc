import Ns3.Internet.SendQueue

/-!
# The bookkeeping of the send buffer

The counters of a send buffer are the sizes of the items with the flags that they count. Two
operations break that. `ResetLastSegmentSent` takes an item from the sent list with its flags: the
item is counted no more as retransmitted, but still as lost or selectively acknowledged, and it waits
with its flags in the other list. `DiscardUpTo`, when it finds the new head selectively acknowledged,
gives the acknowledgement to the first item after it that has none, even if that item counts as lost.
In a run without these two cases the counters are exact in every state.
-/

namespace Ns3

/-- No flag is set. -/
def TcpTxItem.Clear (item : TcpTxItem) : Prop :=
  item.m_sacked = false ∧ item.m_lost = false ∧ item.m_retrans = false

instance : DecidablePred TcpTxItem.Clear := fun _ ↦ inferInstanceAs (Decidable (_ ∧ _ ∧ _))

namespace TcpTxBuffer

/-- The size of the items with a flag. -/
def flagged (flag : TcpTxItem → Bool) (items : List TcpTxItem) : ℕ :=
  totalSize (items.filter fun item ↦ flag item)

/-- The counters are exact, an item is not both selectively acknowledged and lost, and an item that
waits has no flag. -/
structure Bookkeeping (s : TcpTxBuffer) : Prop where
  size : s.m_size = totalSize s.m_sentList + totalSize s.m_appList
  sentSize : s.m_sentSize = totalSize s.m_sentList
  sackedOut : s.m_sackedOut = flagged TcpTxItem.m_sacked s.m_sentList
  lostOut : s.m_lostOut = flagged TcpTxItem.m_lost s.m_sentList
  retrans : s.m_retrans = flagged TcpTxItem.m_retrans s.m_sentList
  notBoth : ∀ item ∈ s.m_sentList, ¬(item.m_sacked = true ∧ item.m_lost = true)
  clear : ∀ item ∈ s.m_appList, item.Clear
  contiguous : Contiguous s.m_firstByteSeq s.m_sentList

/-- What is left of the items when their first `n` bytes are acknowledged, from the item on that has
the next byte. -/
def remaining : ℕ → List TcpTxItem → List TcpTxItem
  | _, [] => []
  | n, item :: rest => if item.size ≤ n then remaining (n - item.size) rest else item :: rest

/-- If the first of the items is selectively acknowledged, then the first one after it that is not is
not lost. -/
def CanMoveSack : List TcpTxItem → Prop
  | [] => True
  | head :: rest => head.m_sacked = true →
    ∀ item ∈ (rest.dropWhile fun item ↦ item.m_sacked).head?, item.m_lost = false

instance : DecidablePred CanMoveSack
  | [] => .isTrue trivial
  | head :: rest => inferInstanceAs (Decidable (head.m_sacked = true →
    ∀ item ∈ (rest.dropWhile fun item ↦ item.m_sacked).head?, item.m_lost = false))

/-- The last item of the sent list has no flag when it goes back, and the head that `DiscardUpTo`
leaves can give its acknowledgement to another item. -/
def KeepsFlags (s : TcpTxBuffer) : Op → Prop
  | .resetLastSegmentSent => ∀ item ∈ s.m_sentList.getLast?, item.Clear
  | .discardUpTo _ seq => s.m_firstByteSeq.ge seq = false →
    CanMoveSack (remaining (castSub seq s.m_firstByteSeq) s.m_sentList)
  | _ => True

instance : ∀ s op, Decidable (KeepsFlags s op)
  | s, .resetLastSegmentSent =>
    inferInstanceAs (Decidable (∀ item ∈ s.m_sentList.getLast?, item.Clear))
  | s, .discardUpTo _ seq => inferInstanceAs (Decidable (s.m_firstByteSeq.ge seq = false →
    CanMoveSack (remaining (castSub seq s.m_firstByteSeq) s.m_sentList)))
  | _, .add _ | _, .copyFromSequence _ _ _ | _, .update _ | _, .deleteRetransmittedFlagFromHead
  | _, .markHeadAsLost | _, .setSentListLost _ | _, .resetRenoSack | _, .resetSentList =>
    .isTrue trivial

/-! ## Sizes of flagged items -/

section Flagged

variable {flag : TcpTxItem → Bool} {items items' : List TcpTxItem} {item : TcpTxItem}

@[simp] theorem flagged_nil : flagged flag [] = 0 := rfl

@[simp] theorem flagged_cons : flagged flag (item :: items) =
    (if flag item then item.size else 0) + flagged flag items := by
  rw [flagged, List.filter_cons]
  split_ifs
  · rfl
  · rw [zero_add]
    rfl

@[simp] theorem flagged_append :
    flagged flag (items ++ items') = flagged flag items + flagged flag items' := by
  rw [flagged, List.filter_append, totalSize_append]
  rfl

theorem flagged_le (flag : TcpTxItem → Bool) (items : List TcpTxItem) :
    flagged flag items ≤ totalSize items := by
  induction items with
  | nil => exact le_rfl
  | cons item items ih =>
    rw [flagged_cons, totalSize_cons]
    split_ifs <;> omega

theorem flagged_eq_zero (h : ∀ item ∈ items, flag item = false) : flagged flag items = 0 := by
  rw [flagged, List.filter_eq_nil_iff.mpr fun item hitem ↦ by simp [h item hitem]]
  rfl

theorem flagged_eq_totalSize (h : ∀ item ∈ items, flag item = true) :
    flagged flag items = totalSize items := by
  rw [flagged, List.filter_eq_self.mpr h]

end Flagged

/-! ## Edits -/

section Edits

variable {p p' : Pile}

theorem Edit.flagged_sacked (h : Edit p p') :
    flagged TcpTxItem.m_sacked p'.items = flagged TcpTxItem.m_sacked p.items := by
  cases h with
  | @split retransOut address n before after item hpos hlt =>
    simp only [flagged_append, flagged_cons, splitItems_fst_size hlt.le, splitItems_snd_size]
    change _ + ((if item.m_sacked then _ else _) + ((if item.m_sacked then _ else _) + _)) = _
    split_ifs <;> omega
  | @merge retransOut retransOut' address before after t1 t2 t hmerge =>
    obtain ⟨hsacked, -, ht, -⟩ := mergeItems_eq_ok hmerge
    have ht1 : t.m_sacked = t1.m_sacked := by rw [ht]
    simp only [flagged_append, flagged_cons, mergeItems_size hmerge, ht1, ← hsacked]
    split_ifs <;> omega

theorem Edit.flagged_lost (h : Edit p p') :
    flagged TcpTxItem.m_lost p'.items = flagged TcpTxItem.m_lost p.items := by
  cases h with
  | @split retransOut address n before after item hpos hlt =>
    simp only [flagged_append, flagged_cons, splitItems_fst_size hlt.le, splitItems_snd_size]
    change _ + ((if item.m_lost then _ else _) + ((if item.m_lost then _ else _) + _)) = _
    split_ifs <;> omega
  | @merge retransOut retransOut' address before after t1 t2 t hmerge =>
    obtain ⟨-, hlost, ht, -⟩ := mergeItems_eq_ok hmerge
    have ht1 : t.m_lost = t1.m_lost := by rw [ht]
    simp only [flagged_append, flagged_cons, mergeItems_size hmerge, ht1, ← hlost]
    split_ifs <;> omega

theorem Edit.retrans (h : Edit p p') (htotal : TcpTxBuffer.totalSize p.items < 2 ^ 32)
    (hp : p.m_retrans = flagged TcpTxItem.m_retrans p.items) :
    p'.m_retrans = flagged TcpTxItem.m_retrans p'.items := by
  cases h with
  | @split retransOut address n before after item hpos hlt =>
    simp only [flagged_append, flagged_cons, splitItems_fst_size hlt.le, splitItems_snd_size] at hp ⊢
    change _ = _ + ((if item.m_retrans then _ else _) + ((if item.m_retrans then _ else _) + _))
    split_ifs at hp ⊢ <;> omega
  | @merge retransOut retransOut' address before after t1 t2 t hmerge =>
    obtain ⟨-, -, ht, hout⟩ := mergeItems_eq_ok hmerge
    have ht1 : t.m_retrans = (t1.m_retrans && t2.m_retrans) := by rw [ht]
    have hbefore := flagged_le TcpTxItem.m_retrans before
    have hafter := flagged_le TcpTxItem.m_retrans after
    simp only [totalSize_append, totalSize_cons] at htotal
    simp only [flagged_append, flagged_cons] at hp
    simp only [flagged_append, flagged_cons, mergeItems_size hmerge, ht1, hout]
    cases h1 : t1.m_retrans <;> cases h2 : t2.m_retrans <;>
      simp only [h1, h2, Bool.false_eq_true, if_false, if_true, zero_add, Bool.and_false,
        Bool.false_and, Bool.and_self, Bool.true_eq_false] at hp ⊢
    · exact hp
    · rw [sub32_eq (by omega) (by omega)]
      omega
    · rw [sub32_eq (by omega) (by omega)]
      omega
    · omega

theorem Edit.notBoth (h : Edit p p')
    (hp : ∀ item ∈ p.items, ¬(item.m_sacked = true ∧ item.m_lost = true)) :
    ∀ item ∈ p'.items, ¬(item.m_sacked = true ∧ item.m_lost = true) := by
  cases h with
  | split hpos hlt =>
    simp only [List.forall_mem_append, List.forall_mem_cons] at hp ⊢
    exact ⟨hp.1, hp.2.1, hp.2.1, hp.2.2⟩
  | merge hmerge =>
    simp only [List.forall_mem_append, List.forall_mem_cons] at hp ⊢
    rw [(mergeItems_eq_ok hmerge).2.2.1]
    exact ⟨hp.1, hp.2.1, hp.2.2.2⟩

theorem Edit.clear (h : Edit p p') (hp : ∀ item ∈ p.items, item.Clear) :
    (∀ item ∈ p'.items, item.Clear) ∧ p'.m_retrans = p.m_retrans := by
  cases h with
  | split hpos hlt =>
    simp only [List.forall_mem_append, List.forall_mem_cons] at hp ⊢
    exact ⟨⟨hp.1, hp.2.1, hp.2.1, hp.2.2⟩, trivial⟩
  | merge hmerge =>
    obtain ⟨-, -, ht, hout⟩ := mergeItems_eq_ok hmerge
    simp only [List.forall_mem_append, List.forall_mem_cons] at hp ⊢
    rw [if_pos (hp.2.1.2.2.trans hp.2.2.1.2.2.symm)] at hout
    refine ⟨⟨hp.1, ?_, hp.2.2.2⟩, hout⟩
    rw [ht]
    refine ⟨hp.2.1.1, hp.2.1.2.1, ?_⟩
    change (_ && _) = false
    rw [hp.2.1.2.2, Bool.false_and]

theorem Edit.head_sacked (h : Edit p p') (hp : ∀ head ∈ p.items.head?, head.m_sacked = false) :
    ∀ head ∈ p'.items.head?, head.m_sacked = false := by
  cases h with
  | @split retransOut address n before after item hpos hlt =>
    cases before with
    | nil =>
      rintro head ⟨⟩
      exact hp item rfl
    | cons first before => exact hp
  | @merge retransOut retransOut' address before after t1 t2 t hmerge =>
    cases before with
    | nil =>
      rintro head ⟨⟩
      rw [(mergeItems_eq_ok hmerge).2.2.1]
      exact hp t1 rfl
    | cons first before => exact hp

end Edits

/-! ## The counters -/

/-- The part of the bookkeeping that is about flags. -/
structure Counted (s : TcpTxBuffer) : Prop where
  sackedOut : s.m_sackedOut = flagged TcpTxItem.m_sacked s.m_sentList
  lostOut : s.m_lostOut = flagged TcpTxItem.m_lost s.m_sentList
  retrans : s.m_retrans = flagged TcpTxItem.m_retrans s.m_sentList
  notBoth : ∀ item ∈ s.m_sentList, ¬(item.m_sacked = true ∧ item.m_lost = true)
  clear : ∀ item ∈ s.m_appList, item.Clear

/-- The first item of the list is not selectively acknowledged. -/
def HeadUnsacked (items : List TcpTxItem) : Prop := ∀ head ∈ items.head?, head.m_sacked = false

instance : DecidablePred HeadUnsacked := fun items ↦
  inferInstanceAs (Decidable (∀ head ∈ items.head?, head.m_sacked = false))

variable {s s' : TcpTxBuffer} {now : ℤ}

namespace Counted

theorem copied (hc : s.Counted) (hs : s.Stored) {out : Option TcpTxItem} (h : Copied now s s' out) :
    s'.Counted := by
  have hlt := hs.size_lt
  cases h with
  | nothing => exact hc
  | @again retransOut address before after item hedits hsacked =>
    have hsack := Edits.invariant (I := fun p ↦
      flagged TcpTxItem.m_sacked p.items = flagged TcpTxItem.m_sacked s.m_sentList)
      (fun _ _ hedit hp ↦ hedit.flagged_sacked.trans hp) hedits rfl
    have hlost := Edits.invariant (I := fun p ↦
      flagged TcpTxItem.m_lost p.items = flagged TcpTxItem.m_lost s.m_sentList)
      (fun _ _ hedit hp ↦ hedit.flagged_lost.trans hp) hedits rfl
    have hboth := Edits.invariant (fun _ _ ↦ Edit.notBoth) hedits hc.notBoth
    have hretrans := (Edits.invariant (I := fun p ↦ totalSize p.items < 2 ^ 32 ∧
      p.m_retrans = flagged TcpTxItem.m_retrans p.items) (fun _ _ hedit hp ↦
        ⟨hedit.totalSize.trans_lt hp.1, hedit.retrans hp.1 hp.2⟩) hedits
          ⟨show totalSize s.m_sentList < _ by omega, hc.retrans⟩)
    have hbefore := flagged_le TcpTxItem.m_retrans before
    have hafter := flagged_le TcpTxItem.m_retrans after
    simp only [flagged_append, flagged_cons, totalSize_append, totalSize_cons] at hretrans
    simp only [List.forall_mem_append, List.forall_mem_cons] at hboth
    refine ⟨?_, ?_, ?_, ?_, hc.clear⟩
    · rw [hc.sackedOut, ← hsack]
      simp only [flagged_append, flagged_cons]
      rfl
    · rw [hc.lostOut, ← hlost]
      simp only [flagged_append, flagged_cons]
      rfl
    · simp only [flagged_append, flagged_cons]
      change (if item.m_retrans = true then retransOut else add32 retransOut item.size) =
        _ + (item.size + _)
      split_ifs at hretrans ⊢ with hflag
      · exact hretrans.2
      · rw [add32_eq (by omega)]
        omega
    · simp only [List.forall_mem_append, List.forall_mem_cons]
      exact hboth
  | @new retransOut address after item hedits hretrans =>
    obtain ⟨hclear, hout⟩ := Edits.invariant (I := fun p ↦
      (∀ item ∈ p.items, item.Clear) ∧ p.m_retrans = s.m_retrans) (fun _ _ hedit hp ↦
        ⟨(hedit.clear hp.1).1, (hedit.clear hp.1).2.trans hp.2⟩) hedits ⟨hc.clear, rfl⟩
    rw [List.forall_mem_cons] at hclear
    obtain ⟨⟨hsacked, hlost, hretrans⟩, hclear⟩ := hclear
    refine ⟨?_, ?_, ?_, ?_, hclear⟩
    · simp only [flagged_append, flagged_cons, flagged_nil, hsacked, hc.sackedOut]
      rfl
    · simp only [flagged_append, flagged_cons, flagged_nil, hlost, hc.lostOut]
      rfl
    · simp only [flagged_append, flagged_cons, flagged_nil, hretrans]
      exact hout.trans hc.retrans
    · simp only [List.forall_mem_append, List.forall_mem_singleton]
      exact ⟨hc.notBoth, fun h ↦ Bool.false_ne_true (hsacked.symm.trans h.1)⟩

end Counted

theorem headUnsacked_copied (hc : s.Counted) (hh : HeadUnsacked s.m_sentList)
    {out : Option TcpTxItem} (h : Copied now s s' out) : HeadUnsacked s'.m_sentList := by
  cases h with
  | nothing => exact hh
  | @again retransOut address before after item hedits hsacked =>
    have hhead := Edits.invariant (I := fun p ↦ HeadUnsacked p.items)
      (fun _ _ ↦ Edit.head_sacked) hedits hh
    cases before with
    | nil =>
      rintro head ⟨⟩
      exact hsacked
    | cons first before => exact hhead
  | @new retransOut address after item hedits hretrans =>
    obtain ⟨hclear, -⟩ := Edits.invariant (I := fun p ↦
      (∀ item ∈ p.items, item.Clear) ∧ p.m_retrans = s.m_retrans) (fun _ _ hedit hp ↦
        ⟨(hedit.clear hp.1).1, (hedit.clear hp.1).2.trans hp.2⟩) hedits ⟨hc.clear, rfl⟩
    cases hsent : s.m_sentList with
    | nil =>
      rintro head ⟨⟩
      exact (hclear item List.mem_cons_self).1
    | cons first rest =>
      rw [hsent] at hh
      exact hh

/-! ## Discarding -/

theorem counted_remove {flag : TcpTxItem → Bool} {item : TcpTxItem} {rest : List TcpTxItem}
    {out n : ℕ} (hlt : totalSize (item :: rest) < 2 ^ 32) (hn : n ≤ item.size)
    (hout : out = flagged flag (item :: rest)) :
    (if flag item then sub32 out n else out) =
      (if flag item then item.size - n else 0) + flagged flag rest := by
  have hle := flagged_le flag rest
  rw [flagged_cons] at hout
  rw [totalSize_cons] at hlt
  split_ifs at hout ⊢
  · rw [sub32_eq (by omega) (by omega)]
    omega
  · exact hout

theorem Counted.discarded (hc : s.Counted) (hs : s.Stored) {n : ℕ} (h : Discarded now s n s') :
    s'.Counted := by
  induction h with
  | done => exact hc
  | move hsent hcopied hrest ih => exact ih (hc.copied hs hcopied) (hs.copied hcopied).1
  | @remove s s₁ s' n item rest hsent hcounts hrest ih =>
    have hlt := hs.size_lt
    have hsack := hc.sackedOut
    have hlost := hc.lostOut
    have hretrans := hc.retrans
    have hboth := hc.notBoth
    rw [hsent] at hsack hlost hretrans hboth
    rw [hsent] at hlt
    refine ih ?_ (hs.remove hsent hcounts).1
    rw [(removeFromCounts_eq_ok hcounts).2.2.2]
    have hzero : ∀ flag : Bool, (if flag = true then item.size - item.size else 0) = 0 := by
      rintro (_ | _)
      · rfl
      · exact Nat.sub_self _
    refine ⟨?_, ?_, ?_, (List.forall_mem_cons.mp hboth).2, hc.clear⟩
    · exact (counted_remove (by omega) le_rfl hsack).trans (by rw [hzero, zero_add])
    · exact (counted_remove (by omega) le_rfl hlost).trans (by rw [hzero, zero_add])
    · exact (counted_remove (by omega) le_rfl hretrans).trans (by rw [hzero, zero_add])
  | @trim s s' n item rest hle hsent hcounts =>
    have hlt := hs.size_lt
    have hsack := hc.sackedOut
    have hlost := hc.lostOut
    have hretrans := hc.retrans
    have hboth := hc.notBoth
    rw [hsent] at hsack hlost hretrans hboth
    rw [hsent] at hlt
    have hsize : (item.m_packet.drop n).length = item.size - n := List.length_drop
    rw [(removeFromCounts_eq_ok hcounts).2.2.2]
    refine ⟨?_, ?_, ?_, List.forall_mem_cons.mpr (List.forall_mem_cons.mp hboth), hc.clear⟩
    · refine (counted_remove (by omega) hle.le hsack).trans ?_
      rw [← hsize, flagged_cons]
      rfl
    · refine (counted_remove (by omega) hle.le hlost).trans ?_
      rw [← hsize, flagged_cons]
      rfl
    · refine (counted_remove (by omega) hle.le hretrans).trans ?_
      rw [← hsize, flagged_cons]
      rfl

theorem remaining_suffix (n : ℕ) (items : List TcpTxItem) : remaining n items <:+ items := by
  induction items generalizing n with
  | nil => exact List.suffix_rfl
  | cons item rest ih =>
    rw [remaining]
    split_ifs
    · exact (ih _).trans (List.suffix_cons _ _)
    · exact List.suffix_rfl

theorem Counted.copied_unsacked (hc : s.Counted) (hsent : s.m_sentList = [])
    {out : Option TcpTxItem} (h : Copied now s s' out) :
    ∀ item ∈ s'.m_sentList, item.m_sacked = false := by
  cases h with
  | nothing => exact fun item hitem ↦ absurd (hsent ▸ hitem) List.not_mem_nil
  | @again retransOut address before after item hedits hsacked =>
    have hnil := Edits.invariant (I := fun p ↦ p.items = []) (fun p p' hedit hp ↦ by
      cases hedit with
      | split => exact absurd hp (List.append_ne_nil_of_right_ne_nil _ (List.cons_ne_nil _ _))
      | merge => exact absurd hp (List.append_ne_nil_of_right_ne_nil _ (List.cons_ne_nil _ _))) hedits hsent
    exact absurd hnil (List.append_ne_nil_of_right_ne_nil _ (List.cons_ne_nil _ _))
  | @new retransOut address after item hedits hretrans =>
    obtain ⟨hclear, -⟩ := Edits.invariant (I := fun p ↦
      (∀ item ∈ p.items, item.Clear) ∧ p.m_retrans = s.m_retrans) (fun _ _ hedit hp ↦
        ⟨(hedit.clear hp.1).1, (hedit.clear hp.1).2.trans hp.2⟩) hedits ⟨hc.clear, rfl⟩
    change ∀ item ∈ s.m_sentList ++ [_], _
    rw [hsent, List.nil_append, List.forall_mem_singleton]
    exact (hclear item List.mem_cons_self).1

/-- What the sent list is when `n` bytes have been removed: what remains of it, with the first item
trimmed, or else items that have just been sent. -/
theorem Counted.discarded_sentList (hc : s.Counted) (hs : s.Stored) {n : ℕ}
    (h : Discarded now s n s') :
    (∃ head rest k, remaining n s.m_sentList = head :: rest ∧ s'.m_sentList = { head with
        m_packet := head.m_packet.drop k
        m_startSeq := head.m_startSeq.add k } :: rest) ∨
      remaining n s.m_sentList = [] ∧ ∀ item ∈ s'.m_sentList, item.m_sacked = false := by
  induction h with
  | @done s =>
    cases hsent : s.m_sentList with
    | nil => exact .inr ⟨rfl, fun item hitem ↦ absurd hitem List.not_mem_nil⟩
    | cons item rest =>
      have hpos := hs.size_pos item (List.mem_append_left _ (hsent ▸ List.mem_cons_self))
      refine .inl ⟨item, rest, 0, ?_, ?_⟩
      · rw [remaining, if_neg (by omega)]
      · rw [List.drop_zero, SequenceNumber.add_zero]
  | @move s s₁ s' n item hsent hcopied hrest ih =>
    have hunsacked := hc.copied_unsacked hsent hcopied
    refine .inr ⟨by rw [hsent]; rfl, ?_⟩
    rcases ih (hc.copied hs hcopied) (hs.copied hcopied).1 with ⟨head, rest, k, hrem, hs'⟩ | ⟨-, hs'⟩
    · have hsuffix := hrem ▸ remaining_suffix n s₁.m_sentList
      rw [hs', List.forall_mem_cons]
      exact ⟨hunsacked head (hsuffix.subset List.mem_cons_self),
        fun item hitem ↦ hunsacked item (hsuffix.subset (List.mem_cons_of_mem _ hitem))⟩
    · exact hs'
  | @remove s s₁ s' n item rest hsent hcounts hrest ih =>
    have hs₁ := hs.remove hsent hcounts
    have hsent₁ : s₁.m_sentList = rest := by rw [(removeFromCounts_eq_ok hcounts).2.2.2]
    have hone : Discarded now s (item.size + 0) s₁ := .remove hsent hcounts .done
    rw [hsent, remaining, if_pos (Nat.le_add_right _ _), Nat.add_sub_cancel_left, ← hsent₁]
    exact ih (hc.discarded hs hone) hs₁.1
  | @trim s s' n item rest hlt hsent hcounts =>
    refine .inl ⟨item, rest, n, ?_, ?_⟩
    · rw [hsent, remaining, if_neg (by omega)]
    · rw [(removeFromCounts_eq_ok hcounts).2.2.2]

theorem Counted.addRenoSack (hc : s.Counted) (hs : s.Stored)
    (hmove : ∀ head rest, s.m_sentList = head :: rest →
      ∀ item ∈ (rest.dropWhile fun item ↦ item.m_sacked).head?, item.m_lost = false)
    (h : TcpTxBuffer.addRenoSack s = .ok s') : s'.Counted := by
  obtain ⟨head, rest, hsent, -, ⟨-, rfl⟩ | ⟨before, item, after, hrest, hdrop, -, hsacked, rfl⟩⟩ :=
    addRenoSack_eq_ok h
  · exact ⟨hc.sackedOut, hc.lostOut, hc.retrans, hc.notBoth, hc.clear⟩
  · have hlost : item.m_lost = false := hmove head rest hsent item (by rw [hdrop]; rfl)
    have hlt := hs.size_lt
    have hsack := hc.sackedOut
    have hlostOut := hc.lostOut
    have hretrans := hc.retrans
    have hboth := hc.notBoth
    rw [hsent, hrest] at hlt hsack hlostOut hretrans hboth
    simp only [totalSize_append, totalSize_cons] at hlt
    simp only [flagged_append, flagged_cons, hsacked, Bool.false_eq_true, if_false] at hsack
    simp only [List.forall_mem_append, List.forall_mem_cons] at hboth
    have hhead : (if head.m_sacked = true then head.size else 0) ≤ head.size := by
      split_ifs
      · exact le_rfl
      · exact Nat.zero_le _
    have hbefore := flagged_le TcpTxItem.m_sacked before
    have hafter := flagged_le TcpTxItem.m_sacked after
    refine ⟨?_, ?_, ?_, ?_, hc.clear⟩
    · change add32 s.m_sackedOut item.size = _
      simp only [flagged_append, flagged_cons]
      rw [add32_eq (by omega), hsack, if_pos trivial]
      change _ = _ + (_ + (item.size + _))
      omega
    · rw [hlostOut]
      simp only [flagged_append, flagged_cons]
      rfl
    · rw [hretrans]
      simp only [flagged_append, flagged_cons]
      rfl
    · simp only [List.forall_mem_append, List.forall_mem_cons]
      refine ⟨hboth.1, hboth.2.1, fun h ↦ ?_, hboth.2.2.2⟩
      exact Bool.false_ne_true (hlost.symm.trans h.2)

theorem Counted.markHeadAsLost (hc : s.Counted) (hs : s.Stored) :
    s.markHeadAsLost.Counted ∧ HeadUnsacked s.markHeadAsLost.m_sentList := by
  rw [TcpTxBuffer.markHeadAsLost]
  cases hsent : s.m_sentList with
  | nil =>
    refine ⟨hc, fun head hhead ↦ ?_⟩
    rw [hsent] at hhead
    exact absurd hhead (Option.not_mem_none _)
  | cons head rest =>
    have hlt := hs.size_lt
    have hsack := hc.sackedOut
    have hlost := hc.lostOut
    have hretrans := hc.retrans
    have hboth := hc.notBoth
    rw [hsent] at hlt hsack hlost hretrans hboth
    have hrest := flagged_le TcpTxItem.m_lost rest
    rw [totalSize_cons] at hlt
    have hfull : ∀ {flag : TcpTxItem → Bool} {out : ℕ}, out = flagged flag (head :: rest) →
        (if flag head then sub32 out head.size else out) = flagged flag rest := by
      intro flag out hout
      rw [counted_remove (by rw [totalSize_cons]; omega) le_rfl hout, Nat.sub_self, ite_self,
        zero_add]
    refine ⟨⟨?_, ?_, ?_, ?_, hc.clear⟩, ?_⟩
    · change (if head.m_sacked then _ else _) = _
      rw [hfull hsack, flagged_cons]
      exact (zero_add _).symm
    · change (if head.m_lost then _ else _) = _
      rw [flagged_cons] at hlost ⊢
      change _ = head.size + _
      split_ifs at hlost ⊢
      · exact hlost
      · rw [add32_eq (by omega)]
        omega
    · change (if head.m_retrans then _ else _) = _
      rw [hfull hretrans, flagged_cons]
      exact (zero_add _).symm
    · rw [List.forall_mem_cons] at hboth ⊢
      exact ⟨fun h ↦ Bool.false_ne_true h.1, hboth.2⟩
    · rintro first ⟨⟩
      rfl

theorem Counted.congr (hc : s.Counted) (hsent : s'.m_sentList = s.m_sentList)
    (happ : s'.m_appList = s.m_appList) (hsacked : s'.m_sackedOut = s.m_sackedOut)
    (hlost : s'.m_lostOut = s.m_lostOut) (hretrans : s'.m_retrans = s.m_retrans) : s'.Counted where
  sackedOut := by rw [hsacked, hsent, hc.sackedOut]
  lostOut := by rw [hlost, hsent, hc.lostOut]
  retrans := by rw [hretrans, hsent, hc.retrans]
  notBoth := by rw [hsent]; exact hc.notBoth
  clear := by rw [happ]; exact hc.clear

theorem Counted.checkHead (hc : s.Counted) (hs : s.Stored) (hmove : CanMoveSack s.m_sentList)
    {seq : SequenceNumber32} (h : TcpTxBuffer.checkHead s seq = .ok s') :
    s'.Counted ∧ HeadUnsacked s'.m_sentList := by
  rw [TcpTxBuffer.checkHead] at h
  cases hsent : s.m_sentList with
  | nil =>
    rw [hsent] at h
    cases h
    refine ⟨hc, fun head hhead ↦ ?_⟩
    rw [hsent] at hhead
    exact absurd hhead (Option.not_mem_none _)
  | cons head rest =>
    rw [hsent] at h hmove
    dsimp only at h
    split_ifs at h with hstart hsacked
    · rw [moveSack] at h
      split_ifs at h with hlost
      obtain ⟨s₁, hreno, hret⟩ := Except.bind_eq_ok.mp h
      cases hret
      -- the buffer with the acknowledgement taken from the head
      have hlt := hs.size_lt
      have hsack := hc.sackedOut
      have hlostOut := hc.lostOut
      have hretrans := hc.retrans
      have hboth := hc.notBoth
      rw [hsent] at hlt hsack hlostOut hretrans hboth
      have hdata : SameData s { s with
          m_sentList := { head with m_sacked := false } :: rest
          m_sackedOut := sub32 s.m_sackedOut head.size } :=
        ⟨by rw [hsent]; rfl, rfl, rfl, rfl, rfl, rfl⟩
      have hc₀ : Counted { s with
          m_sentList := { head with m_sacked := false } :: rest
          m_sackedOut := sub32 s.m_sackedOut head.size } := by
        refine ⟨?_, ?_, ?_, ?_, hc.clear⟩
        · have hremove := counted_remove (by omega) le_rfl hsack
          rw [if_pos hsacked, if_pos hsacked, Nat.sub_self] at hremove
          refine hremove.trans ?_
          rw [flagged_cons]
          rfl
        · refine hlostOut.trans ?_
          rw [flagged_cons, flagged_cons]
          rfl
        · refine hretrans.trans ?_
          rw [flagged_cons, flagged_cons]
          rfl
        · rw [List.forall_mem_cons] at hboth ⊢
          exact ⟨fun h ↦ Bool.false_ne_true h.1, hboth.2⟩
      have hc₁ := hc₀.addRenoSack (hdata.stored hs) (fun head' rest' heq ↦ by
        cases heq
        exact hmove hsacked) hreno
      exact hc₁.markHeadAsLost ((addRenoSack_sameData hreno).stored (hdata.stored hs))
    · cases h
      refine ⟨hc, ?_⟩
      rw [hsent]
      rintro first ⟨⟩
      exact Bool.eq_false_of_not_eq_true hsacked

theorem Counted.forgetHighestSack (hc : s.Counted) : s.forgetHighestSack.Counted := by
  rw [TcpTxBuffer.forgetHighestSack]
  split_ifs
  · exact hc.congr rfl rfl rfl rfl rfl
  · exact hc

theorem sentList_forgetHighestSack (s : TcpTxBuffer) :
    s.forgetHighestSack.m_sentList = s.m_sentList := by
  rw [forgetHighestSack]
  split_ifs <;> rfl

/-- The flags of the head that is left, and of the first item after it that has no acknowledgement,
are those of items that remain. -/
theorem canMoveSack_discarded {items items' : List TcpTxItem}
    (hmove : CanMoveSack items) (h : (∃ head rest k, items = head :: rest ∧ items' = { head with
        m_packet := head.m_packet.drop k
        m_startSeq := head.m_startSeq.add k } :: rest) ∨
      items = [] ∧ ∀ item ∈ items', item.m_sacked = false) : CanMoveSack items' := by
  rcases h with ⟨head, rest, k, rfl, rfl⟩ | ⟨-, hunsacked⟩
  · exact hmove
  · cases items' with
    | nil => trivial
    | cons head rest =>
      intro hsacked
      exact absurd ((hunsacked head List.mem_cons_self).symm.trans hsacked) Bool.false_ne_true

theorem Counted.discardUpTo (hc : s.Counted) (hs : s.Stored) (hh : HeadUnsacked s.m_sentList)
    {seq : SequenceNumber32} (hmove : s.m_firstByteSeq.ge seq = false →
      CanMoveSack (remaining (castSub seq s.m_firstByteSeq) s.m_sentList))
    (h : TcpTxBuffer.discardUpTo now s seq = .ok s') : s'.Counted ∧ HeadUnsacked s'.m_sentList := by
  rw [TcpTxBuffer.discardUpTo, ite_eq_iff] at h
  obtain ⟨-, h⟩ | ⟨hge, h⟩ := h
  · cases h
    exact ⟨hc, hh⟩
  obtain ⟨s₁, hloop, h⟩ := Except.bind_eq_ok.mp h
  obtain ⟨s₂, hhead, h⟩ := Except.bind_eq_ok.mp h
  obtain ⟨n, hn, hdone⟩ := hs.discardLoop_spec hloop
  have hs₁ := (hs.discarded hn).1
  have hc₁ := hc.discarded hs hn
  -- an empty buffer jumps to `seq`; its lists do not change
  have hjump : ∃ s₃ : TcpTxBuffer, (if s₁.m_size = 0 then { s₁ with m_firstByteSeq := seq } else s₁) =
      s₃ ∧ s₃.Stored ∧ s₃.Counted ∧ CanMoveSack s₃.m_sentList := by
    split_ifs with hempty
    · obtain ⟨hs₃, hsent, -⟩ := hs₁.of_empty hempty seq
      refine ⟨_, rfl, hs₃, hc₁.congr rfl rfl rfl rfl rfl, ?_⟩
      change CanMoveSack s₁.m_sentList
      rw [hsent]
      trivial
    · obtain rfl := hdone.resolve_right fun h ↦ hempty h.2
      exact ⟨_, rfl, hs₁, hc₁, canMoveSack_discarded (hmove (Bool.eq_false_of_not_eq_true hge))
        (hc.discarded_sentList hs hn)⟩
  obtain ⟨s₃, hs₃, hstored, hcounted, hcan⟩ := hjump
  rw [hs₃] at hhead
  obtain ⟨hc₂, hh₂⟩ := hcounted.checkHead hstored hcan hhead
  rw [checkDiscarded, ite_eq_iff] at h
  obtain ⟨-, h⟩ | ⟨-, h⟩ := h
  · exact absurd h Except.error_ne_ok
  cases h
  refine ⟨hc₂.forgetHighestSack, ?_⟩
  rw [sentList_forgetHighestSack]
  exact hh₂

/-! ## The scoreboard -/

/-- A block takes what it acknowledges from the lost items; `m` and `n` are the sizes of the flagged
items outside of the list. -/
theorem updateItems_counted {block : SackBlock} {items items' : List TcpTxItem}
    {begin' : SequenceNumber32} {bytesSacked bytesSacked' m n : ℕ}
    (h : updateItems block begin' s bytesSacked items = .ok (s', bytesSacked', items'))
    (hm : s.m_sackedOut = m + flagged TcpTxItem.m_sacked items)
    (hn : s.m_lostOut = n + flagged TcpTxItem.m_lost items)
    (hlt : m + totalSize items < 2 ^ 32) (hlt' : n + totalSize items < 2 ^ 32)
    (hboth : ∀ item ∈ items, ¬(item.m_sacked = true ∧ item.m_lost = true)) :
    s'.m_sackedOut = m + flagged TcpTxItem.m_sacked items' ∧
      s'.m_lostOut = n + flagged TcpTxItem.m_lost items' ∧
      flagged TcpTxItem.m_retrans items' = flagged TcpTxItem.m_retrans items ∧
      ∀ item ∈ items', ¬(item.m_sacked = true ∧ item.m_lost = true) := by
  induction items generalizing s begin' bytesSacked items' m n with
  | nil =>
    cases h
    exact ⟨hm, hn, rfl, hboth⟩
  | cons item items ih =>
    have hle := flagged_le TcpTxItem.m_sacked items
    have hle' := flagged_le TcpTxItem.m_lost items
    rw [flagged_cons] at hm hn
    rw [totalSize_cons] at hlt hlt'
    rw [List.forall_mem_cons] at hboth
    have hsize : ∀ flag : Bool, (if flag = true then item.size else 0) ≤ item.size := by
      rintro (_ | _)
      · exact Nat.zero_le _
      · exact le_rfl
    have hsack := hsize item.m_sacked
    have hlost := hsize item.m_lost
    -- where the item is left as it is, it counts with what is outside
    have hkeep : ∀ {begin₁ : SequenceNumber32} {bytes₁ : ℕ} {rest : List TcpTxItem},
        updateItems block begin₁ s bytes₁ items = .ok (s', bytesSacked', rest) →
        s'.m_sackedOut = m + flagged TcpTxItem.m_sacked (item :: rest) ∧
          s'.m_lostOut = n + flagged TcpTxItem.m_lost (item :: rest) ∧
          flagged TcpTxItem.m_retrans (item :: rest) = flagged TcpTxItem.m_retrans (item :: items) ∧
          ∀ item' ∈ item :: rest, ¬(item'.m_sacked = true ∧ item'.m_lost = true) := by
      intro begin₁ bytes₁ rest hrest
      obtain ⟨h1, h2, h3, h4⟩ := ih hrest (hm.trans (Nat.add_assoc _ _ _).symm)
        (hn.trans (Nat.add_assoc _ _ _).symm) (by omega) (by omega) hboth.2
      simp only [flagged_cons, List.forall_mem_cons]
      exact ⟨h1.trans (Nat.add_assoc _ _ _), h2.trans (Nat.add_assoc _ _ _), congrArg (_ + ·) h3,
        hboth.1, h4⟩
    rw [updateItems] at h
    dsimp only at h
    split_ifs at h with hin hsacked hassert hpassed
    · obtain ⟨⟨s₁, bytesSacked₁, rest⟩, hrest, hret⟩ := Except.bind_eq_ok.mp h
      cases hret
      exact hkeep hrest
    · obtain ⟨⟨s₁, bytesSacked₁, rest⟩, hrest, hret⟩ := Except.bind_eq_ok.mp h
      cases hret
      rw [if_neg hsacked] at hm
      have hm₁ : add32 s.m_sackedOut item.size =
          m + item.size + flagged TcpTxItem.m_sacked items := by
        rw [add32_eq (by omega)]
        omega
      have hn₁ : (if item.m_lost = true then sub32 s.m_lostOut item.size else s.m_lostOut) =
          n + flagged TcpTxItem.m_lost items := by
        split_ifs at hn ⊢
        · rw [sub32_eq (by omega) (by omega)]
          omega
        · omega
      obtain ⟨h1, h2, h3, h4⟩ := ih hrest hm₁ hn₁ (by omega) (by omega) hboth.2
      simp only [flagged_cons, List.forall_mem_cons]
      exact ⟨h1.trans (Nat.add_assoc _ _ _), h2.trans (congrArg (n + ·) (zero_add _).symm),
        congrArg (_ + ·) h3, fun hflags ↦ Bool.false_ne_true hflags.2, h4⟩
    · cases h
      rw [flagged_cons, flagged_cons]
      exact ⟨hm, hn, rfl, List.forall_mem_cons.mpr hboth⟩
    · obtain ⟨⟨s₁, bytesSacked₁, rest⟩, hrest, hret⟩ := Except.bind_eq_ok.mp h
      cases hret
      exact hkeep hrest

theorem updateItems_head {block : SackBlock} {items items' : List TcpTxItem}
    {begin' : SequenceNumber32} {bytesSacked bytesSacked' : ℕ} (hblock : begin'.ge block.1 = false)
    (h : updateItems block begin' s bytesSacked items = .ok (s', bytesSacked', items')) :
    items'.head? = items.head? := by
  cases items with
  | nil =>
    cases h
    rfl
  | cons item items =>
    rw [updateItems] at h
    dsimp only at h
    rw [hblock, Bool.false_and, if_neg Bool.false_ne_true] at h
    split_ifs at h with hpassed
    · cases h
      rfl
    · obtain ⟨⟨s₁, bytesSacked₁, rest⟩, hrest, hret⟩ := Except.bind_eq_ok.mp h
      cases hret
      rfl

theorem Counted.updateBlocks (hc : s.Counted) (hs : s.Stored) (hh : HeadUnsacked s.m_sentList)
    {list : List SackBlock} {bytesSacked bytesSacked' : ℕ} {atEnd : Bool}
    (hblocks : ∀ block ∈ list, block.1.gt s.m_firstByteSeq = true)
    (h : TcpTxBuffer.updateBlocks list s bytesSacked = .ok (s', bytesSacked', atEnd)) :
    s'.Counted ∧ HeadUnsacked s'.m_sentList := by
  induction list generalizing s bytesSacked with
  | nil =>
    cases h
    exact ⟨hc, hh⟩
  | cons block list ih =>
    rw [TcpTxBuffer.updateBlocks] at h
    split_ifs at h with hout
    · cases h
      exact ⟨hc, hh⟩
    · obtain ⟨⟨s₁, bytesSacked₁, sentList⟩, hitems, hrest⟩ := Except.bind_eq_ok.mp h
      have hlt := hs.size_lt
      obtain ⟨hmap, hs₁⟩ := updateItems_sameData hitems
      obtain ⟨hsack, hlost, hretrans, hboth⟩ := updateItems_counted (m := 0) (n := 0) hitems
        (hc.sackedOut.trans (zero_add _).symm) (hc.lostOut.trans (zero_add _).symm)
        (by omega) (by omega) hc.notBoth
      have hhead := updateItems_head (SequenceNumber.ge_eq_false_of_gt
        (hblocks block List.mem_cons_self)) hitems
      have hdata : SameData s { s₁ with m_sentList := sentList } := by
        rw [hs₁]
        exact ⟨hmap, rfl, rfl, rfl, rfl, rfl⟩
      refine ih (s := { s₁ with m_sentList := sentList }) ⟨?_, ?_, ?_, hboth, ?_⟩ (hdata.stored hs)
        ?_ ?_ hrest
      · exact hsack.trans (zero_add _)
      · exact hlost.trans (zero_add _)
      · change s₁.m_retrans = flagged _ sentList
        rw [hretrans, hs₁]
        exact hc.retrans
      · change ∀ item ∈ s₁.m_appList, _
        rw [hs₁]
        exact hc.clear
      · change HeadUnsacked sentList
        rw [HeadUnsacked, hhead]
        exact hh
      · change ∀ block ∈ list, block.1.gt s₁.m_firstByteSeq = true
        rw [hs₁]
        exact fun block hblock ↦ hblocks block (List.mem_cons_of_mem _ hblock)

/-- Only items that are not selectively acknowledged are marked; `n` is the size of the lost items
outside of the list. -/
theorem markLost_counted (dupAckThresh : ℕ) {items : List TcpTxItem} (lostOut : ℕ) {n : ℕ}
    (hn : lostOut = n + flagged TcpTxItem.m_lost items) (hlt : n + totalSize items < 2 ^ 32)
    (hboth : ∀ item ∈ items, ¬(item.m_sacked = true ∧ item.m_lost = true)) :
    (markLost dupAckThresh items lostOut).2.1 =
        n + flagged TcpTxItem.m_lost (markLost dupAckThresh items lostOut).1 ∧
      flagged TcpTxItem.m_sacked (markLost dupAckThresh items lostOut).1 =
        flagged TcpTxItem.m_sacked items ∧
      flagged TcpTxItem.m_retrans (markLost dupAckThresh items lostOut).1 =
        flagged TcpTxItem.m_retrans items ∧
      ∀ item ∈ (markLost dupAckThresh items lostOut).1,
        ¬(item.m_sacked = true ∧ item.m_lost = true) := by
  induction items generalizing n with
  | nil => exact ⟨hn, rfl, rfl, hboth⟩
  | cons item items ih =>
    rw [flagged_cons] at hn
    rw [totalSize_cons] at hlt
    rw [List.forall_mem_cons] at hboth
    have hitem : (if item.m_lost = true then item.size else 0) ≤ item.size := by
      split_ifs
      · exact le_rfl
      · exact Nat.zero_le _
    obtain ⟨h1, h2, h3, h4⟩ := ih (hn.trans (Nat.add_assoc _ _ _).symm) (by omega) hboth.2
    have hle := flagged_le TcpTxItem.m_lost (markLost dupAckThresh items lostOut).1
    rw [totalSize_congr (segment_markLost dupAckThresh items lostOut)] at hle
    rw [markLost]
    generalize markLost dupAckThresh items lostOut = marked at h1 h2 h3 h4 hle ⊢
    obtain ⟨rest, lostOut', sacked⟩ := marked
    dsimp only at h1 h2 h3 h4 hle ⊢
    generalize (if item.m_sacked = true then sacked + 1 else sacked) = sacked
    by_cases hmark : dupAckThresh ≤ sacked ∧ item.m_sacked = false ∧ item.m_lost = false
    · rw [if_pos hmark]
      rw [hmark.2.2, if_neg Bool.false_ne_true] at h1
      simp only [flagged_cons, h2, h3, List.forall_mem_cons]
      refine ⟨?_, rfl, rfl, fun hflags ↦ ?_, h4⟩
      · rw [add32_eq (by omega), if_pos trivial]
        change _ = n + (item.size + _)
        omega
      · exact Bool.false_ne_true (hmark.2.1.symm.trans hflags.1)
    · rw [if_neg hmark]
      simp only [flagged_cons, h2, h3, List.forall_mem_cons]
      exact ⟨h1.trans (Nat.add_assoc _ _ _), trivial, trivial, hboth.1, h4⟩

theorem Counted.updateLostCount (hc : s.Counted) (hs : s.Stored) (hh : HeadUnsacked s.m_sentList)
    (h : TcpTxBuffer.updateLostCount s = .ok s') : s'.Counted ∧ HeadUnsacked s'.m_sentList := by
  obtain ⟨before, highest, after, head, rest, hsent, -, -, hfront, hs'⟩ := updateLostCount_eq_ok h
  have hlist : s.m_sentList = head :: (rest ++ after) := by
    rw [← List.cons_append, ← hfront, List.append_assoc]
    exact hsent
  have hlt := hs.size_lt
  have hsack := hc.sackedOut
  have hlost := hc.lostOut
  have hretrans := hc.retrans
  have hboth := hc.notBoth
  rw [hlist] at hlt hsack hlost hretrans hboth hh
  have hafter := flagged_le TcpTxItem.m_lost after
  simp only [totalSize_cons, totalSize_append] at hlt
  simp only [flagged_cons, flagged_append] at hsack hlost hretrans
  simp only [List.forall_mem_cons, List.forall_mem_append] at hboth
  have hhead : (if head.m_lost = true then head.size else 0) ≤ head.size := by
    split_ifs
    · exact le_rfl
    · exact Nat.zero_le _
  obtain ⟨h1, h2, h3, h4⟩ := markLost_counted s.m_dupAckThresh s.m_lostOut
    (n := (if head.m_lost = true then head.size else 0) + flagged TcpTxItem.m_lost after)
    (show s.m_lostOut = _ + flagged _ rest by omega) (by omega) hboth.2.1
  have hle := flagged_le TcpTxItem.m_lost (markLost s.m_dupAckThresh rest s.m_lostOut).1
  rw [totalSize_congr (segment_markLost _ _ _)] at hle
  rcases hs' with ⟨-, hnotLost, rfl⟩ | ⟨-, rfl⟩
  · rw [hnotLost, if_neg Bool.false_ne_true] at h1 hlost
    refine ⟨⟨?_, ?_, ?_, ?_, hc.clear⟩, ?_⟩
    · rw [List.cons_append, flagged_cons, flagged_append, h2]
      exact hsack
    · rw [List.cons_append, flagged_cons, flagged_append]
      change add32 _ _ = head.size + _
      rw [add32_eq (by omega)]
      omega
    · rw [List.cons_append, flagged_cons, flagged_append, h3]
      exact hretrans
    · rw [List.cons_append, List.forall_mem_cons, List.forall_mem_append]
      refine ⟨fun hflags ↦ Bool.false_ne_true ((hh head rfl).symm.trans hflags.1), h4, hboth.2.2⟩
    · rintro first ⟨⟩
      exact hh head rfl
  · refine ⟨⟨?_, ?_, ?_, ?_, hc.clear⟩, ?_⟩
    · rw [List.cons_append, flagged_cons, flagged_append, h2]
      exact hsack
    · rw [List.cons_append, flagged_cons, flagged_append]
      change (markLost _ _ _).2.1 = _
      omega
    · rw [List.cons_append, flagged_cons, flagged_append, h3]
      exact hretrans
    · rw [List.cons_append, List.forall_mem_cons, List.forall_mem_append]
      exact ⟨hboth.1, h4, hboth.2.2⟩
    · rintro first ⟨⟩
      exact hh head rfl

theorem Counted.update (hc : s.Counted) (hs : s.Stored) (hh : HeadUnsacked s.m_sentList)
    {list : List SackBlock} {bytesSacked : ℕ}
    (hblocks : ∀ block ∈ list, block.1.gt s.m_firstByteSeq = true)
    (h : s.update list = .ok (s', bytesSacked)) : s'.Counted ∧ HeadUnsacked s'.m_sentList := by
  obtain ⟨s₁, atEnd, hupdate, hlost⟩ := update_eq_ok h
  obtain ⟨hc₁, hh₁⟩ := hc.updateBlocks hs hh hblocks hupdate
  rcases hlost with ⟨-, -, hlost⟩ | ⟨-, rfl⟩
  · exact hc₁.updateLostCount ((updateBlocks_sameData hupdate).stored hs) hh₁ hlost
  · exact ⟨hc₁, hh₁⟩

theorem countLost_counted (items : List TcpTxItem) {n : ℕ} (hlt : n + totalSize items < 2 ^ 32)
    (hboth : ∀ item ∈ items, ¬(item.m_sacked = true ∧ item.m_lost = true)) :
    (countLost items n).2 = n + flagged TcpTxItem.m_lost (countLost items n).1 ∧
      flagged TcpTxItem.m_sacked (countLost items n).1 = flagged TcpTxItem.m_sacked items ∧
      flagged TcpTxItem.m_retrans (countLost items n).1 = 0 ∧
      ∀ item ∈ (countLost items n).1, ¬(item.m_sacked = true ∧ item.m_lost = true) := by
  induction items generalizing n with
  | nil => exact ⟨rfl, rfl, rfl, hboth⟩
  | cons item items ih =>
    rw [totalSize_cons] at hlt
    rw [List.forall_mem_cons] at hboth
    have hcount : (if (item.m_lost || !item.m_sacked) = true then add32 n item.size else n) =
        n + if (item.m_lost || !item.m_sacked) = true then item.size else 0 := by
      split_ifs
      · rw [add32_eq (by omega)]
      · rfl
    have hle : (if (item.m_lost || !item.m_sacked) = true then item.size else 0) ≤ item.size := by
      split_ifs
      · exact le_rfl
      · exact Nat.zero_le _
    rw [countLost]
    dsimp only
    rw [hcount]
    obtain ⟨h1, h2, h3, h4⟩ := ih (n := n + if (item.m_lost || !item.m_sacked) = true
      then item.size else 0) (by omega) hboth.2
    simp only [flagged_cons, List.forall_mem_cons]
    refine ⟨h1.trans (Nat.add_assoc _ _ _), congrArg (_ + ·) h2, ?_, ?_, h4⟩
    · exact (zero_add _).trans h3
    · rintro ⟨hsacked, hlost⟩
      change item.m_sacked = true at hsacked
      change (item.m_lost || !item.m_sacked) = true at hlost
      rw [hsacked, Bool.not_true, Bool.or_false] at hlost
      exact hboth.1 ⟨hsacked, hlost⟩

theorem Counted.setSentListLost (hc : s.Counted) (hs : s.Stored) (hh : HeadUnsacked s.m_sentList)
    {resetSack : Bool} (h : s.setSentListLost resetSack = .ok s') :
    s'.Counted ∧ HeadUnsacked s'.m_sentList := by
  have hlt := hs.size_lt
  rw [TcpTxBuffer.setSentListLost] at h
  dsimp only at h
  cases resetSack with
  | true =>
    rw [if_pos rfl] at h
    split_ifs at h with hassert
    cases h
    have hmap : (s.m_sentList.map fun item ↦
        ({ item with m_sacked := false, m_lost := true, m_retrans := false } : TcpTxItem)).map
          segment = s.m_sentList.map segment := by
      rw [List.map_map]
      rfl
    refine ⟨⟨?_, ?_, ?_, ?_, hc.clear⟩, ?_⟩
    · refine (flagged_eq_zero ?_).symm
      rw [List.forall_mem_map]
      exact fun _ _ ↦ rfl
    · refine hs.sentSize.trans ((totalSize_congr hmap).symm.trans (flagged_eq_totalSize ?_).symm)
      rw [List.forall_mem_map]
      exact fun _ _ ↦ rfl
    · refine (flagged_eq_zero ?_).symm
      rw [List.forall_mem_map]
      exact fun _ _ ↦ rfl
    · rw [List.forall_mem_map]
      exact fun _ _ hflags ↦ Bool.false_ne_true hflags.1
    · intro head hhead
      change head ∈ (s.m_sentList.map _).head? at hhead
      rw [List.head?_map, Option.mem_map] at hhead
      obtain ⟨item, -, rfl⟩ := hhead
      rfl
  | false =>
    rw [if_neg Bool.false_ne_true] at h
    split_ifs at h with hassert
    cases h
    obtain ⟨h1, h2, h3, h4⟩ := countLost_counted s.m_sentList (n := 0) (by omega)
      hc.notBoth
    refine ⟨⟨?_, ?_, h3.symm, h4, hc.clear⟩, ?_⟩
    · exact hc.sackedOut.trans h2.symm
    · exact h1.trans (zero_add _)
    · cases hsent : s.m_sentList with
      | nil => exact fun head hhead ↦ absurd hhead (Option.not_mem_none _)
      | cons item rest =>
        rw [hsent] at hh
        rintro head ⟨⟩
        exact hh item rfl

theorem Counted.deleteRetransmittedFlagFromHead (hc : s.Counted) (hs : s.Stored)
    (hh : HeadUnsacked s.m_sentList) (h : s.deleteRetransmittedFlagFromHead = .ok s') :
    s'.Counted ∧ HeadUnsacked s'.m_sentList := by
  rw [TcpTxBuffer.deleteRetransmittedFlagFromHead] at h
  split_ifs at h with hzero
  · cases h
    exact ⟨hc, hh⟩
  · cases hsent : s.m_sentList with
    | nil =>
      rw [hsent] at h
      exact absurd h Except.error_ne_ok
    | cons head rest =>
      rw [hsent] at h
      dsimp only at h
      split_ifs at h with hflag
      · cases h
        have hlt := hs.size_lt
        have hsack := hc.sackedOut
        have hlost := hc.lostOut
        have hretrans := hc.retrans
        have hboth := hc.notBoth
        rw [hsent] at hlt hsack hlost hretrans hboth hh
        have hremove := counted_remove (by omega) le_rfl hretrans
        rw [if_pos hflag, if_pos hflag, Nat.sub_self] at hremove
        refine ⟨⟨?_, ?_, ?_, ?_, hc.clear⟩, ?_⟩
        · rw [flagged_cons] at hsack ⊢
          exact hsack
        · rw [flagged_cons] at hlost ⊢
          exact hlost
        · rw [flagged_cons]
          exact hremove
        · exact List.forall_mem_cons.mpr (List.forall_mem_cons.mp hboth)
        · rintro first ⟨⟩
          exact hh head rfl
      · cases h
        exact ⟨hc, hh⟩

/-! ## What goes back -/

theorem Counted.resetRenoSack (hc : s.Counted) :
    s.resetRenoSack.Counted ∧ HeadUnsacked s.resetRenoSack.m_sentList := by
  have hkeep : ∀ {flag : TcpTxItem → Bool}, (∀ item : TcpTxItem,
      flag { item with m_sacked := false } = flag item) → flagged flag (s.m_sentList.map fun item ↦
        { item with m_sacked := false }) = flagged flag s.m_sentList := by
    intro flag hflag
    induction s.m_sentList with
    | nil => rfl
    | cons item items ih =>
      rw [List.map_cons, flagged_cons, flagged_cons, ih, hflag]
      rfl
  refine ⟨⟨?_, ?_, ?_, ?_, hc.clear⟩, ?_⟩
  · refine (flagged_eq_zero ?_).symm
    rw [TcpTxBuffer.resetRenoSack, List.forall_mem_map]
    exact fun _ _ ↦ rfl
  · exact hc.lostOut.trans (hkeep fun _ ↦ rfl).symm
  · exact hc.retrans.trans (hkeep fun _ ↦ rfl).symm
  · rw [TcpTxBuffer.resetRenoSack, List.forall_mem_map]
    exact fun _ _ hflags ↦ Bool.false_ne_true hflags.1
  · intro head hhead
    rw [TcpTxBuffer.resetRenoSack, List.head?_map, Option.mem_map] at hhead
    obtain ⟨item, -, rfl⟩ := hhead
    rfl

theorem Counted.resetSentList (hc : s.Counted) :
    s.resetSentList.Counted ∧ HeadUnsacked s.resetSentList.m_sentList := by
  refine ⟨⟨rfl, rfl, rfl, fun _ hitem ↦ absurd hitem List.not_mem_nil, ?_⟩,
    fun _ hhead ↦ absurd hhead (Option.not_mem_none _)⟩
  rw [TcpTxBuffer.resetSentList, List.forall_mem_append, List.forall_mem_map]
  exact ⟨fun _ _ ↦ ⟨rfl, rfl, rfl⟩, hc.clear⟩

theorem Counted.resetLastSegmentSent (hc : s.Counted) (hh : HeadUnsacked s.m_sentList)
    (hclear : ∀ item ∈ s.m_sentList.getLast?, item.Clear) :
    s.resetLastSegmentSent.Counted ∧ HeadUnsacked s.resetLastSegmentSent.m_sentList := by
  rw [TcpTxBuffer.resetLastSegmentSent]
  cases hlast : s.m_sentList.getLast? with
  | none => exact ⟨hc, hh⟩
  | some item =>
    have hsent : s.m_sentList = s.m_sentList.dropLast ++ [item] :=
      (List.dropLast_append_getLast? item hlast).symm
    obtain ⟨hsacked, hlost, hretrans⟩ := hclear item hlast
    have hkeep : ∀ {flag : TcpTxItem → Bool}, flag item = false →
        flagged flag s.m_sentList = flagged flag s.m_sentList.dropLast := by
      intro flag hflag
      conv_lhs => rw [hsent]
      rw [flagged_append, flagged_cons, hflag]
      rfl
    refine ⟨⟨?_, ?_, ?_, ?_, ?_⟩, ?_⟩
    · exact hc.sackedOut.trans (hkeep hsacked)
    · exact hc.lostOut.trans (hkeep hlost)
    · change (if item.m_retrans = true then _ else _) = _
      rw [hretrans, if_neg Bool.false_ne_true]
      exact hc.retrans.trans (hkeep hretrans)
    · exact fun item hitem ↦ hc.notBoth item (List.mem_of_mem_dropLast hitem)
    · exact List.forall_mem_cons.mpr ⟨⟨hsacked, hlost, hretrans⟩, hc.clear⟩
    · intro head hhead
      refine hh head ?_
      rw [hsent, List.head?_append]
      change head ∈ s.m_sentList.dropLast.head? at hhead
      rw [hhead]
      rfl

theorem Counted.add (hc : s.Counted) (p : List UInt8) : (s.add p).2.Counted := by
  rw [TcpTxBuffer.add]
  split_ifs
  · refine ⟨hc.sackedOut, hc.lostOut, hc.retrans, hc.notBoth, ?_⟩
    rw [List.forall_mem_append, List.forall_mem_singleton]
    exact ⟨hc.clear, rfl, rfl, rfl⟩
  · exact hc
  · exact hc

theorem sentList_add (s : TcpTxBuffer) (p : List UInt8) :
    (s.add p).2.m_sentList = s.m_sentList := by
  rw [add]
  split_ifs <;> rfl

/-! ## All steps -/

/-- The invariant of the guarded runs. -/
structure Kept (s : TcpTxBuffer) : Prop where
  stored : s.Stored
  counted : s.Counted
  headUnsacked : HeadUnsacked s.m_sentList

namespace Kept

theorem init (isn : SequenceNumber32) (maxBuffer dupAckThresh : UInt32) :
    (machine isn maxBuffer dupAckThresh).init.Kept where
  stored := .init isn maxBuffer dupAckThresh
  counted := ⟨rfl, rfl, rfl, fun _ hitem ↦ absurd hitem List.not_mem_nil,
    fun _ hitem ↦ absurd hitem List.not_mem_nil⟩
  headUnsacked _ hhead := absurd hhead (Option.not_mem_none _)

/-- **An operation within the guard keeps the counters exact.** -/
theorem step (hk : s.Kept) {op : Op} (hok : KeepsFlags s op) (h : s.next op = some s') :
    s'.Kept := by
  obtain ⟨hs, hc, hh⟩ := hk
  have hs' := (hs.step h).1
  have hlt := hs.size_lt
  rw [← totalSize_append] at hlt
  suffices s'.Counted ∧ HeadUnsacked s'.m_sentList from ⟨hs', this.1, this.2⟩
  cases op with
  | add p =>
    cases h
    exact ⟨hc.add p, by rw [sentList_add]; exact hh⟩
  | copyFromSequence now numBytes seq =>
    obtain ⟨⟨s₁, out⟩, hcopy, rfl⟩ := Except.map_eq_ok.mp (Except.toOption_eq_some.mp h)
    have hcopied := copyFromSequenceAux_spec hs.size_pos hlt hcopy
    exact ⟨hc.copied hs hcopied, headUnsacked_copied hc hh hcopied⟩
  | discardUpTo now seq => exact hc.discardUpTo hs hh hok (Except.toOption_eq_some.mp h)
  | update list =>
    rw [next, Option.ite_none_right_eq_some] at h
    obtain ⟨⟨s₁, bytesSacked⟩, hupdate, rfl⟩ :=
      Except.map_eq_ok.mp (Except.toOption_eq_some.mp h.2)
    exact hc.update hs hh h.1 hupdate
  | resetLastSegmentSent =>
    cases h
    exact hc.resetLastSegmentSent hh hok
  | deleteRetransmittedFlagFromHead =>
    exact hc.deleteRetransmittedFlagFromHead hs hh (Except.toOption_eq_some.mp h)
  | markHeadAsLost =>
    cases h
    exact hc.markHeadAsLost hs
  | setSentListLost resetSack =>
    exact hc.setSentListLost hs hh (Except.toOption_eq_some.mp h)
  | resetRenoSack =>
    cases h
    exact hc.resetRenoSack
  | resetSentList =>
    cases h
    exact hc.resetSentList

end Kept

/-- **The counters are exact in every state of a run whose steps are within the guard.** -/
theorem bookkeeping_of_run {isn : SequenceNumber32} {maxBuffer dupAckThresh : UInt32}
    {ops : List Op} {s : TcpTxBuffer}
    (hr : Machine.Run (machine isn maxBuffer dupAckThresh) KeepsFlags ops s) : s.Bookkeeping := by
  have hk : s.Kept := hr.invariant (I := Kept) (Kept.init isn maxBuffer dupAckThresh)
    fun _ _ _ hi hok hs ↦ hi.step hok hs
  exact ⟨hk.stored.size, hk.stored.sentSize, hk.counted.sackedOut, hk.counted.lostOut,
    hk.counted.retrans, hk.counted.notBoth, hk.counted.clear, hk.stored.contiguous⟩

/-- A run within the guard that sends, loses, acknowledges and discards data. -/
theorem bookkeeping_of_run_discardUpTo : ∃ s, Machine.Run (machine ⟨2 ^ 32 - 3⟩ 100 1) KeepsFlags
    [.add [1, 2, 3, 4, 5, 6], .copyFromSequence 0 2 ⟨2 ^ 32 - 3⟩,
      .copyFromSequence 0 2 ⟨2 ^ 32 - 1⟩, .copyFromSequence 0 2 ⟨1⟩, .update [(⟨1⟩, ⟨3⟩)],
      .copyFromSequence 1 2 ⟨2 ^ 32 - 3⟩, .discardUpTo 2 ⟨2 ^ 32 - 1⟩] s ∧
      (s.m_lostOut = 2 ∧ s.m_sackedOut = 2) ∧ s.Bookkeeping := by
  refine Machine.exists_run_and_allowed (p := fun s ↦ s.m_lostOut = 2 ∧ s.m_sackedOut = 2)
    (by decide +kernel) (by decide +kernel) fun s hr hs ↦ ?_
  exact ⟨hs, bookkeeping_of_run hr⟩

/-- A lost item goes back, and is counted as lost for ever. -/
theorem not_bookkeeping_resetLastSegmentSent : ∃ s,
    Machine.Run (machine ⟨1⟩ 100 3) Machine.unguarded [.add [1, 2, 3, 4], .copyFromSequence 0 4 ⟨1⟩,
      .markHeadAsLost, .resetLastSegmentSent] s ∧ ¬s.Bookkeeping := by
  refine Machine.exists_run_and (p := fun s ↦ s.m_lostOut ≠ flagged TcpTxItem.m_lost s.m_sentList)
    (by decide +kernel) fun s hr hs ↦ ?_
  exact fun hbook ↦ hs hbook.lostOut

end TcpTxBuffer

end Ns3
