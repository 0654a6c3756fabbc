import Ns3.Internet.TcpTxBookkeeping

/-!
# What is copied from the send buffer

A segment of the send buffer is assembled by merging the items that it overlaps. Items merge only if
they agree in their flags, and a segment that begins with data already sent and ends with new data is
cut where the new data begins by a comparison of numbers that ignores the wrap. So a segment is
served if and only if its items agree and there is no wrap in it, and then its bytes are those of the
queue.
-/

namespace Ns3

namespace TcpTxBuffer

/-! ## Items that a segment overlaps -/

/-- The items with some of the first `n` bytes. -/
def reached : ℕ → List TcpTxItem → List TcpTxItem
  | _, [] => []
  | n, item :: rest => if n = 0 then [] else item :: reached (n - item.size) rest

/-- Whether `n` bytes of the sent list can be merged from byte `offset` on. From the start of an item
at most the next item is merged with it, if that is not selectively acknowledged. -/
def CanCopySent (n : ℕ) : ℕ → List TcpTxItem → Prop
  | _, [] => True
  | offset, item :: rest =>
    if item.size ≤ offset then CanCopySent n (offset - item.size) rest
    else if offset = 0 then
      n ≤ item.size ∨ ∀ next ∈ rest.head?, next.m_sacked = true ∨ next.m_lost = item.m_lost
    else ∀ t ∈ reached (offset + n - item.size) rest, t.m_sacked = false ∧ t.m_lost = item.m_lost

/-- Whether the first `n` bytes of the other list can be merged, and have not been sent before. -/
def CanCopyNew (n : ℕ) (items : List TcpTxItem) : Prop :=
  (∀ t ∈ reached n items, ∀ t' ∈ reached n items, t.m_sacked = t'.m_sacked ∧ t.m_lost = t'.m_lost) ∧
    ∃ t ∈ reached n items, t.m_retrans = false

/-- Whether at most `numBytes` bytes can be copied from byte `offset` on. -/
def CanCopy (s : TcpTxBuffer) (numBytes offset : ℕ) : Prop :=
  let n := min numBytes (s.m_size - offset)
  if offset = s.m_sentSize then CanCopyNew n s.m_appList
  else CanCopySent (min n (s.m_sentSize - offset)) offset s.m_sentList ∧
    (offset + n ≤ s.m_sentSize ∨ (s.m_firstByteSeq.add offset).m_value.toNat + n < 2 ^ 32)

instance (n : ℕ) : ∀ offset items, Decidable (CanCopySent n offset items)
  | _, [] => .isTrue trivial
  | offset, item :: rest =>
    have := instDecidableCanCopySent n (offset - item.size) rest
    inferInstanceAs (Decidable (if item.size ≤ offset then _ else if offset = 0 then _ else _))

instance (n : ℕ) : DecidablePred (CanCopyNew n) := fun _ ↦ inferInstanceAs (Decidable (_ ∧ _))

instance (s : TcpTxBuffer) (numBytes offset : ℕ) : Decidable (CanCopy s numBytes offset) :=
  inferInstanceAs (Decidable (if offset = s.m_sentSize then _ else _))

section Reached

variable {n k : ℕ} {items before after : List TcpTxItem} {item : TcpTxItem}

theorem reached_zero (items : List TcpTxItem) : reached 0 items = [] := by
  cases items with
  | nil => rfl
  | cons item rest => rw [reached, if_pos rfl]

theorem reached_cons (hn : 0 < n) : reached n (item :: items) =
    item :: reached (n - item.size) items := by
  rw [reached, if_neg hn.ne']

theorem reached_subset (n : ℕ) (items : List TcpTxItem) : reached n items ⊆ items := by
  induction items generalizing n with
  | nil => exact List.Subset.refl _
  | cons item items ih =>
    rw [reached]
    split_ifs
    · exact List.nil_subset _
    · exact List.cons_subset_cons _ (ih _)

theorem exists_split (h : k < totalSize items) : ∃ before item after,
    items = before ++ item :: after ∧ totalSize before ≤ k ∧
      k < totalSize before + item.size := by
  induction items generalizing k with
  | nil => exact absurd h (Nat.not_lt_zero _)
  | cons first items ih =>
    rw [totalSize_cons] at h
    by_cases hfirst : k < first.size
    · exact ⟨[], first, items, rfl, Nat.zero_le _, hfirst.trans_le (Nat.le_add_left _ _)⟩
    · obtain ⟨before, item, after, rfl, hle, hlt⟩ := ih (k := k - first.size) (by omega)
      refine ⟨first :: before, item, after, rfl, ?_, ?_⟩
      · rw [totalSize_cons]
        omega
      · rw [totalSize_cons]
        omega

theorem remaining_append (hle : totalSize before ≤ k) :
    remaining k (before ++ items) = remaining (k - totalSize before) items := by
  induction before generalizing k with
  | nil => rfl
  | cons first before ih =>
    rw [totalSize_cons] at hle
    rw [List.cons_append, remaining, if_pos (by omega), ih (by omega), totalSize_cons, Nat.sub_sub]

theorem canCopySent_append (hle : totalSize before ≤ k) :
    CanCopySent n k (before ++ items) ↔ CanCopySent n (k - totalSize before) items := by
  induction before generalizing k with
  | nil => rfl
  | cons first before ih =>
    rw [totalSize_cons] at hle
    rw [List.cons_append, CanCopySent, if_pos (by omega), ih (by omega), totalSize_cons, Nat.sub_sub]

end Reached

/-! ## Looking for a segment -/

section Find

variable (inSentList : Bool) (firstByteSeq a : SequenceNumber32) {b k n f : ℕ}
  {s s' : TcpTxBuffer} {before after : List TcpTxItem} {item : TcpTxItem}

theorem findPacket_append (hstart : inSentList = true →
      ∀ t ∈ before ++ item :: after, t.m_startSeq.ge firstByteSeq = true)
    (hle : b + totalSize before ≤ k) (hlt : k < b + totalSize before + item.size)
    (hsize : b + totalSize before + item.size < 2 ^ 31) :
    findPacket inSentList firstByteSeq (a.add k) (a.add b) (before ++ item :: after) =
      .ok ((before, item, after), a.add (b + totalSize before)) := by
  have hhalf : SequenceNumber.halfMaxValue 32 = 2 ^ 31 - 1 := rfl
  induction before generalizing b with
  | nil =>
    rw [totalSize_nil, add_zero] at hle hlt hsize
    rw [List.nil_append, findPacket, if_neg, SequenceNumber.add_add,
      SequenceNumber.lt_add _ (by omega) (by omega), if_pos (decide_eq_true hlt), totalSize_nil,
      add_zero]
    rintro ⟨hin, hge⟩
    exact Bool.false_ne_true (hge.symm.trans (hstart hin item List.mem_cons_self))
  | cons first before ih =>
    rw [totalSize_cons, ← add_assoc] at hle hlt hsize
    have hrest := ih (b := b + first.size)
      (fun hin t ht ↦ hstart hin t (List.mem_cons_of_mem _ ht)) hle hlt hsize
    rw [List.cons_append, findPacket, if_neg, SequenceNumber.add_add,
      SequenceNumber.lt_add _ (by omega) (by omega), if_neg, hrest, Except.ok_bind, totalSize_cons,
      ← add_assoc]
    · rfl
    · rw [decide_eq_true_iff]
      omega
    · rintro ⟨hin, hge⟩
      exact Bool.false_ne_true (hge.symm.trans (hstart hin first List.mem_cons_self))

theorem getPacketFromList_turn (hstart : inSentList = true →
      ∀ t ∈ before ++ item :: after, t.m_startSeq.ge s.m_firstByteSeq = true) (hpos : 0 < item.size)
    (hn : totalSize before + n < 2 ^ 31) (hsize : totalSize before + item.size < 2 ^ 31) :
    getPacketFromList inSentList a n (a.add (totalSize before)) (f + 1) s
        (before ++ item :: after) =
      if n = item.size then .ok (s, before, item, after)
      else if n < item.size then .ok ({ s with nextAddress := s.nextAddress + 1 }, before,
        (splitItems s.nextAddress item n).1, (splitItems s.nextAddress item n).2 :: after)
      else
        match after with
        | [] => .ok (s, before, item, [])
        | next :: after => mergeItems s.m_retrans item next >>= fun merged ↦
          getPacketFromList inSentList a n (a.add (totalSize before)) f
            { s with m_retrans := merged.1 } (before ++ merged.2 :: after) := by
  have hhalf : SequenceNumber.halfMaxValue 32 = 2 ^ 31 - 1 := rfl
  have hfind := findPacket_append inSentList s.m_firstByteSeq a (b := 0)
    (k := totalSize before) hstart (by omega) (by omega)
    (by omega)
  rw [SequenceNumber.add_zero, zero_add] at hfind
  rw [getPacketFromList, hfind, Except.ok_bind]
  dsimp only
  rw [if_pos rfl, SequenceNumber.add_add, SequenceNumber.add_add,
    SequenceNumber.le_add _ (by omega) (by omega)]
  by_cases hle : n ≤ item.size
  · rw [if_pos (decide_eq_true (Nat.add_le_add_left hle _))]
    by_cases heq : n = item.size
    · rw [if_pos heq, if_pos heq]
      rfl
    · rw [if_neg heq, if_neg heq, if_pos (by omega), if_pos (by omega)]
      rfl
  · rw [if_neg (by rw [decide_eq_true_iff]; omega), if_neg (by omega), if_neg (by omega)]
    cases after with
    | nil => rfl
    | cons next after => rfl

theorem mergeItems_of_agree (retransOut : ℕ) {t1 t2 : TcpTxItem}
    (hsacked : t1.m_sacked = t2.m_sacked) (hlost : t1.m_lost = t2.m_lost) :
    ∃ retransOut' t, mergeItems retransOut t1 t2 = .ok (retransOut', t) := by
  rw [mergeItems, if_neg (not_not.mpr hsacked), if_neg (not_not.mpr hlost)]
  dsimp only
  split_ifs
  · exact ⟨_, _, rfl⟩
  · exact ⟨_, _, rfl⟩
  · exact ⟨_, _, rfl⟩

theorem mergeItems_of_not_agree {retransOut : ℕ} {t1 t2 : TcpTxItem}
    (h : ¬(t2.m_sacked = t1.m_sacked ∧ t2.m_lost = t1.m_lost)) :
    mergeItems retransOut t1 t2 = .error .assertion := by
  rw [mergeItems]
  by_cases hsacked : t1.m_sacked = t2.m_sacked
  · rw [if_neg (not_not.mpr hsacked), if_pos fun hlost ↦ h ⟨hsacked.symm, hlost.symm⟩]
  · rw [if_pos hsacked]

variable (before) in
/-- A segment that begins with an item: the items that it overlaps are merged, or two of them do not
agree. The induction is on the items after the first one. -/
theorem getPacketFromList_start (hstart : inSentList = true →
      ∀ t ∈ before ++ item :: after, t.m_startSeq.ge s.m_firstByteSeq = true)
    (hpos : 0 < item.size) (hle : n ≤ totalSize (item :: after))
    (hsize : totalSize (before ++ item :: after) < 2 ^ 31) (hfuel : after.length < f) :
    (∀ t ∈ reached (n - item.size) after, t.m_sacked = item.m_sacked ∧ t.m_lost = item.m_lost) ∧
        (∃ s' item' after', getPacketFromList inSentList a n (a.add (totalSize before)) f s
            (before ++ item :: after) = .ok (s', before, item', after') ∧ item'.size = n ∧
          item'.m_sacked = item.m_sacked ∧ (item'.m_retrans = true ↔ item.m_retrans = true ∧
            ∀ t ∈ reached (n - item.size) after, t.m_retrans = true)) ∨
      ¬(∀ t ∈ reached (n - item.size) after,
          t.m_sacked = item.m_sacked ∧ t.m_lost = item.m_lost) ∧
        ∃ e, getPacketFromList inSentList a n (a.add (totalSize before)) f s
          (before ++ item :: after) = .error e := by
  induction after generalizing item s f with
  | nil =>
    obtain ⟨f, rfl⟩ := Nat.exists_eq_succ_of_ne_zero (Nat.ne_zero_of_lt hfuel)
    rw [totalSize_append] at hsize
    rw [totalSize_cons, totalSize_nil] at hle hsize
    rw [getPacketFromList_turn inSentList a hstart hpos (by omega) (by omega), Nat.sub_eq_zero_of_le (by omega),
      reached_zero]
    refine .inl ⟨fun t ht ↦ absurd ht List.not_mem_nil, ?_⟩
    split_ifs with heq hlt
    · exact ⟨_, _, _, rfl, heq.symm, rfl, by simp⟩
    · exact ⟨_, _, _, rfl, splitItems_fst_size hlt.le, rfl, by simp [splitItems]⟩
    · omega
  | cons next after ih =>
    obtain ⟨f, rfl⟩ := Nat.exists_eq_succ_of_ne_zero (Nat.ne_zero_of_lt hfuel)
    have hsize' := hsize
    rw [totalSize_append] at hsize'
    rw [totalSize_cons] at hle hsize'
    rw [getPacketFromList_turn inSentList a hstart hpos (by omega) (by omega)]
    by_cases hitem : n ≤ item.size
    · rw [Nat.sub_eq_zero_of_le hitem, reached_zero]
      refine .inl ⟨fun t ht ↦ absurd ht List.not_mem_nil, ?_⟩
      split_ifs with heq hlt
      · exact ⟨_, _, _, rfl, heq.symm, rfl, by simp⟩
      · exact ⟨_, _, _, rfl, splitItems_fst_size hlt.le, rfl, by simp [splitItems]⟩
      · omega
    · rw [if_neg (by omega), if_neg (by omega), reached_cons (by omega), List.forall_mem_cons]
      dsimp only
      by_cases hagree : next.m_sacked = item.m_sacked ∧ next.m_lost = item.m_lost
      · obtain ⟨retransOut, t, hmerge⟩ := mergeItems_of_agree s.m_retrans
          hagree.1.symm hagree.2.symm
        obtain ⟨-, -, ht, -⟩ := mergeItems_eq_ok hmerge
        have htsize := mergeItems_size hmerge
        have htsacked : t.m_sacked = item.m_sacked := by rw [ht]
        have htlost : t.m_lost = item.m_lost := by rw [ht]
        have htretrans : t.m_retrans = (item.m_retrans && next.m_retrans) := by rw [ht]
        have htstart : t.m_startSeq = item.m_startSeq := by rw [ht]
        rw [totalSize_cons] at hle
        rw [hmerge, Except.ok_bind]
        dsimp only
        have hrest := @ih f { s with m_retrans := retransOut } t
          (fun hin u hu ↦ ?_) (by omega) ?_ ?_ (Nat.lt_of_succ_lt_succ hfuel)
        · rw [htsize, htsacked, htlost, ← Nat.sub_sub, htretrans, Bool.and_eq_true, and_assoc] at hrest
          rw [List.forall_mem_cons]
          simp only [hagree, true_and, and_self]
          exact hrest
        · have hall := hstart hin
          simp only [List.forall_mem_append, List.forall_mem_cons] at hall
          rcases List.mem_append.mp hu with hu | hu
          · exact hall.1 u hu
          · rcases List.mem_cons.mp hu with rfl | hu
            · rw [htstart]
              exact hall.2.1
            · exact hall.2.2.2 u hu
        · rw [totalSize_cons]
          omega
        · simp only [totalSize_append, totalSize_cons] at hsize ⊢
          omega
      · rw [mergeItems_of_not_agree hagree]
        exact .inr ⟨fun h ↦ hagree h.1, _, rfl⟩

theorem ge_of_contiguous {items : List TcpTxItem} (h : Contiguous (a.add b) items)
    (hsize : b + totalSize items < 2 ^ 31) : ∀ t ∈ items, t.m_startSeq.ge a = true := by
  have hhalf : SequenceNumber.halfMaxValue 32 = 2 ^ 31 - 1 := rfl
  induction items generalizing b with
  | nil => exact fun t ht ↦ absurd ht List.not_mem_nil
  | cons item items ih =>
    obtain ⟨hstart, hrest⟩ := h
    rw [totalSize_cons] at hsize
    rw [SequenceNumber.add_add] at hrest
    rw [List.forall_mem_cons]
    refine ⟨?_, ih hrest (by omega)⟩
    have hge := SequenceNumber.ge_add a (x := b) (y := 0) (by omega) (by omega)
    rw [SequenceNumber.add_zero] at hge
    rw [hstart, hge]
    exact decide_eq_true (Nat.zero_le _)

theorem getPacketFromList_at (hstart : inSentList = true →
      Contiguous s.m_firstByteSeq (before ++ item :: after)) (hn : 0 < n)
    (hbefore : totalSize before ≤ k) (hitem : k < totalSize before + item.size)
    (hle : k + n ≤ totalSize (before ++ item :: after))
    (hsize : totalSize (before ++ item :: after) < 2 ^ 31) (hfuel : after.length + 1 < f) :
    (∀ t ∈ reached (k + n - (totalSize before + item.size)) after,
          t.m_sacked = item.m_sacked ∧ t.m_lost = item.m_lost) ∧
        (∃ s' before' item' after', getPacketFromList inSentList a n (a.add k) f s
            (before ++ item :: after) = .ok (s', before', item', after') ∧
          totalSize before' = k ∧ item'.size = n ∧ item'.m_sacked = item.m_sacked ∧
          (item'.m_retrans = true ↔ item.m_retrans = true ∧
            ∀ t ∈ reached (k + n - (totalSize before + item.size)) after,
              t.m_retrans = true)) ∨
      ¬(∀ t ∈ reached (k + n - (totalSize before + item.size)) after,
          t.m_sacked = item.m_sacked ∧ t.m_lost = item.m_lost) ∧
        ∃ e, getPacketFromList inSentList a n (a.add k) f s
          (before ++ item :: after) = .error e := by
  have hhalf : SequenceNumber.halfMaxValue 32 = 2 ^ 31 - 1 := rfl
  have hge : inSentList = true → ∀ t ∈ before ++ item :: after,
      t.m_startSeq.ge s.m_firstByteSeq = true := fun hin ↦
    ge_of_contiguous _ (b := 0) (by rw [SequenceNumber.add_zero]; exact hstart hin)
      (by rw [zero_add]; exact hsize)
  have htotal := hsize
  rw [totalSize_append] at hle htotal
  rcases hbefore.eq_or_lt with rfl | hlt
  · rw [Nat.add_sub_add_left]
    rcases getPacketFromList_start inSentList a before (n := n) (f := f) hge (by omega) (by omega) hsize
      (by omega) with
      ⟨hagree, s', item', after', hget, hrest⟩ | hnot
    · exact .inl ⟨hagree, s', before, item', after', hget, rfl, hrest⟩
    · exact .inr hnot
  · obtain ⟨f, rfl⟩ := Nat.exists_eq_succ_of_ne_zero (Nat.ne_zero_of_lt hfuel)
    rw [totalSize_cons] at hle htotal
    have hfind := findPacket_append inSentList s.m_firstByteSeq a (b := 0)
      (k := k) hge (by omega) (by omega) (by omega)
    rw [SequenceNumber.add_zero, zero_add] at hfind
    have hne : ¬a.add k = a.add (totalSize before) := by
      rw [SequenceNumber.add_inj _ (by omega) (by omega)]
      omega
    have hcast : castSub (a.add k) (a.add (totalSize before)) = k - totalSize before := by
      rw [castSub_eq, SequenceNumber.toNat_sub_add _ (by omega) (by omega)]
    have hrest : n - (item.size - (k - totalSize before)) =
        k + n - (totalSize before + item.size) := by omega
    rw [getPacketFromList, hfind, Except.ok_bind]
    dsimp only
    rw [if_neg hne, SequenceNumber.gt_add _ (by omega) (by omega), if_pos (decide_eq_true hlt),
      hcast]
    -- the segment begins with the second part
    have hfst : (splitItems s.nextAddress item (k - totalSize before)).1.size =
        k - totalSize before := splitItems_fst_size (by omega)
    have hsnd : (splitItems s.nextAddress item (k - totalSize before)).2.size =
        item.size - (k - totalSize before) := splitItems_snd_size
    have hedit : Edit ⟨s.m_retrans, s.nextAddress, before ++ item :: after⟩ _ :=
      .split (n := k - totalSize before) (by omega) (by omega)
    have hoffset : totalSize (before ++ [(splitItems s.nextAddress item
        (k - totalSize before)).1]) = k := by
      rw [totalSize_append, totalSize_cons, hfst, totalSize_nil]
      omega
    have htotal' := hedit.totalSize
    have hge' : inSentList = true → ∀ t ∈ (before ++ [(splitItems s.nextAddress item
        (k - totalSize before)).1]) ++ (splitItems s.nextAddress item
          (k - totalSize before)).2 :: after, t.m_startSeq.ge s.m_firstByteSeq = true := by
      intro hin
      rw [List.append_assoc]
      refine ge_of_contiguous _ (b := 0) ?_ (by rw [zero_add]; exact htotal'.trans_lt hsize)
      rw [SequenceNumber.add_zero]
      exact hedit.contiguous (hstart hin)
    have hsecond := getPacketFromList_start inSentList a _ (n := n) (f := f)
      (s := { s with nextAddress := s.nextAddress + 1 }) hge' (by omega)
      (by rw [totalSize_cons]; omega) (by rw [List.append_assoc]; exact htotal'.trans_lt hsize)
      (by omega)
    rw [hoffset, hsnd, hrest, List.append_assoc] at hsecond
    rcases hsecond with ⟨hagree, s', item', after', hget, hitem'⟩ | hnot
    · exact .inl ⟨hagree, s', _, item', after', hget, hoffset, hitem'⟩
    · exact .inr hnot

theorem sizeToMerge_cons (n : ℕ) (seq : SequenceNumber32) (item : TcpTxItem)
    (rest : List TcpTxItem) : sizeToMerge n seq (item :: rest) =
      if item.m_startSeq = seq then
        match rest with
        | next :: _ => if next.m_sacked = false then min n (add32 item.size next.size)
          else min n item.size
        | [] => min n item.size
      else sizeToMerge n seq rest := by
  cases rest with
  | nil => rfl
  | cons next rest => rfl

theorem sizeToMerge_of_lt {items : List TcpTxItem} (h : Contiguous (a.add b) items)
    (hlt : k < b) (hsize : b + totalSize items < 2 ^ 31) :
    sizeToMerge n (a.add k) items = n := by
  have hhalf : SequenceNumber.halfMaxValue 32 = 2 ^ 31 - 1 := rfl
  induction items generalizing b with
  | nil => rfl
  | cons item items ih =>
    obtain ⟨hstart, hrest⟩ := h
    rw [totalSize_cons] at hsize
    rw [SequenceNumber.add_add] at hrest
    rw [sizeToMerge_cons, if_neg, ih hrest (by omega) (by omega)]
    rw [hstart, SequenceNumber.add_inj _ (by omega) (by omega)]
    omega

theorem sizeToMerge_append (hpos : ∀ t ∈ before, 0 < t.size)
    (h : Contiguous (a.add b) (before ++ item :: after))
    (hle : b + totalSize before ≤ k) (hlt : k < b + totalSize before + item.size)
    (hsize : b + totalSize (before ++ item :: after) < 2 ^ 31) :
    sizeToMerge n (a.add k) (before ++ item :: after) =
      if k = b + totalSize before then
        match after with
        | next :: _ => if next.m_sacked = false then min n (item.size + next.size)
          else min n item.size
        | [] => min n item.size
      else n := by
  have hhalf : SequenceNumber.halfMaxValue 32 = 2 ^ 31 - 1 := rfl
  induction before generalizing b with
  | nil =>
    obtain ⟨hstart, hrest⟩ := h
    rw [List.nil_append, totalSize_cons] at hsize
    rw [totalSize_nil, add_zero] at hle hlt ⊢
    have hiff : item.m_startSeq = a.add k ↔ b = k := by
      rw [hstart, SequenceNumber.add_inj _ (by omega) (by omega)]
    rw [List.nil_append, sizeToMerge_cons]
    by_cases heq : k = b
    · rw [if_pos (hiff.mpr heq.symm), if_pos heq]
      cases after with
      | nil => rfl
      | cons next after =>
        rw [totalSize_cons] at hsize
        dsimp only
        rw [add32_eq (by omega)]
    · rw [SequenceNumber.add_add] at hrest
      rw [if_neg fun h ↦ heq (hiff.mp h).symm, if_neg heq,
        sizeToMerge_of_lt a hrest (by omega) (by omega)]
  | cons first before ih =>
    obtain ⟨hstart, hrest⟩ := h
    rw [List.cons_append, totalSize_cons] at hsize
    rw [totalSize_cons, ← add_assoc] at hle hlt ⊢
    rw [SequenceNumber.add_add] at hrest
    rw [List.forall_mem_cons] at hpos
    have hsize' := hsize
    rw [totalSize_append, totalSize_cons] at hsize'
    rw [List.cons_append, sizeToMerge_cons, if_neg, ih hpos.2 hrest hle hlt (by omega)]
    rw [hstart, SequenceNumber.add_inj _ (by omega) (by omega)]
    omega

end Find

/-! ## What is copied -/

section Copy

variable {s s' : TcpTxBuffer} {now : ℤ} {numBytes k d n : ℕ}

/-- A result of `CopyFromSequence`: at most `numBytes` bytes from byte `k` on. -/
def Copies (numBytes k : ℕ) (r : Except Failure (TcpTxBuffer × Option TcpTxItem)) : Prop :=
  ∃ s' before item after, r = .ok (s', some item) ∧ s'.m_sentList = before ++ item :: after ∧
    totalSize before = k ∧ 0 < item.size ∧ item.size ≤ numBytes

/-- `CopyFromSequence` returns an item of the sent list with the next bytes of the queue. -/
def Serves (now : ℤ) (s : TcpTxBuffer) (numBytes : ℕ) (seq : SequenceNumber32) : Prop :=
  ∃ s' item, copyFromSequence now s numBytes seq = .ok (s', some item) ∧ item ∈ s'.m_sentList ∧
    item.m_startSeq = seq ∧ 0 < item.size ∧ item.size ≤ numBytes ∧
    item.m_packet = (s.queue.bytes.drop (castSub seq s.m_firstByteSeq)).take item.size

theorem Stored.serves_iff (hs : s.Stored) (hoffset : k < s.m_size) :
    Serves now s numBytes (s.m_firstByteSeq.add k) ↔
      Copies numBytes k (copyFromSequence now s numBytes (s.m_firstByteSeq.add k)) := by
  have hlt := hs.size_lt
  have hlt' : s.m_size < 2 ^ 32 := hs.size ▸ hlt
  rw [← totalSize_append] at hlt
  rw [Serves, castSub_add_self (by omega)]
  have hkeep : ∀ {s' : TcpTxBuffer} {item : TcpTxItem},
      copyFromSequence now s numBytes (s.m_firstByteSeq.add k) = .ok (s', some item) →
      s'.Stored ∧ s'.queue = s.queue ∧ totalSize s'.m_sentList < 2 ^ 32 := by
    intro s' item hcopy
    obtain ⟨hs', hqueue, -⟩ := hs.copied (copyFromSequenceAux_spec hs.size_pos hlt hcopy)
    have := hs'.size_lt
    exact ⟨hs', hqueue, by omega⟩
  constructor
  · rintro ⟨s', item, hcopy, hmem, hstart, hpos, hle, -⟩
    obtain ⟨before, after, hsent⟩ := List.append_of_mem hmem
    obtain ⟨hs', hqueue, hsize⟩ := hkeep hcopy
    refine ⟨s', before, item, after, hcopy, hsent, ?_, hpos, hle⟩
    have hcontiguous := hs'.contiguous
    rw [hsent, contiguous_append, Contiguous, hstart] at hcontiguous
    rw [hsent, totalSize_append] at hsize
    rw [show s'.m_firstByteSeq = s.m_firstByteSeq from congrArg SendQueue.head hqueue]
      at hcontiguous
    have heq := congrArg (fun seq ↦ castSub seq s.m_firstByteSeq) hcontiguous.2.1
    rw [castSub_add_self (by omega), castSub_add_self (by omega)] at heq
    exact heq.symm
  · rintro ⟨s', before, item, after, hcopy, hsent, rfl, hpos, hle⟩
    obtain ⟨hs', hqueue, hsize⟩ := hkeep hcopy
    have hcontiguous := hs'.contiguous
    rw [hsent, contiguous_append, Contiguous] at hcontiguous
    refine ⟨s', item, hcopy, ?_, ?_, hpos, hle, ?_⟩
    · rw [hsent]
      exact List.mem_append_right _ List.mem_cons_self
    · rw [hcontiguous.2.1, show s'.m_firstByteSeq = s.m_firstByteSeq from
        congrArg SendQueue.head hqueue]
    · rw [← hqueue, queue, hsent, bytes_append, bytes_cons, ← length_bytes, List.append_assoc,
        List.append_assoc, List.drop_left, TcpTxItem.size, List.take_left]

/-- The items that `sizeToMerge` has merged agree if and only if the segment can be copied. -/
theorem agree_iff_canCopySent {a : SequenceNumber32} {before after : List TcpTxItem}
    {item : TcpTxItem} (hpos : ∀ t ∈ before ++ item :: after, 0 < t.size)
    (h : Contiguous a (before ++ item :: after)) (hsacked : item.m_sacked = false)
    (hle : totalSize before ≤ k) (hlt : k < totalSize before + item.size)
    (hsize : totalSize (before ++ item :: after) < 2 ^ 31) :
    (∀ t ∈ reached (k + sizeToMerge n (a.add k) (before ++ item :: after) -
        (totalSize before + item.size)) after,
      t.m_sacked = item.m_sacked ∧ t.m_lost = item.m_lost) ↔
      CanCopySent n k (before ++ item :: after) := by
  have hmerge := sizeToMerge_append a (b := 0) (n := n) (k := k)
    (List.forall_mem_append.mp hpos).1 (by rw [SequenceNumber.add_zero]; exact h) (by omega)
    (by omega) (by omega)
  rw [List.forall_mem_append, List.forall_mem_cons] at hpos
  rw [canCopySent_append hle, CanCopySent, if_neg (by omega), hmerge, zero_add]
  by_cases hbegin : k = totalSize before
  · rw [if_pos hbegin, if_pos (by omega), hbegin, Nat.add_sub_add_left]
    cases after with
    | nil =>
      refine iff_of_true (fun t ht ↦ ?_) (.inr fun t ht ↦ absurd ht (Option.not_mem_none _))
      exact absurd (reached_subset _ _ ht) List.not_mem_nil
    | cons next after =>
      have hnext := (List.forall_mem_cons.mp hpos.2.2).1
      dsimp only
      by_cases hsacked' : next.m_sacked = false
      · rw [if_pos hsacked']
        by_cases hone : n ≤ item.size
        · rw [Nat.sub_eq_zero_of_le ((min_le_left _ _).trans hone), reached_zero]
          exact iff_of_true (fun t ht ↦ absurd ht List.not_mem_nil) (.inl hone)
        · rw [reached_cons (by omega), Nat.sub_eq_zero_of_le (by omega), reached_zero,
            List.forall_mem_singleton, hsacked]
          constructor
          · rintro ⟨-, hlost⟩
            right
            rintro t ⟨⟩
            exact .inr hlost
          · rintro (hle | hlost)
            · exact absurd hle hone
            · refine ⟨hsacked', (hlost next rfl).resolve_left fun h ↦ ?_⟩
              exact Bool.false_ne_true (hsacked'.symm.trans h)
      · rw [if_neg hsacked', Nat.sub_eq_zero_of_le (min_le_right _ _), reached_zero]
        refine iff_of_true (fun t ht ↦ absurd ht List.not_mem_nil) (.inr ?_)
        rintro t ⟨⟩
        exact .inl (Bool.eq_true_of_not_eq_false hsacked')
  · rw [if_neg hbegin, if_neg (by omega), hsacked,
      show k - totalSize before + n - item.size =
        k + n - (totalSize before + item.size) by omega]

theorem sizeFromSequence_add (s : TcpTxBuffer) (hsize : s.m_size < 2 ^ 31)
    (hoffset : k ≤ s.m_size) :
    s.sizeFromSequence (s.m_firstByteSeq.add k) = s.m_size - k := by
  have hhalf : SequenceNumber.halfMaxValue 32 = 2 ^ 31 - 1 := rfl
  rw [sizeFromSequence, tailSequence, SequenceNumber.ge_add _ (by omega) (by omega),
    if_pos (decide_eq_true hoffset), castSub_eq, SequenceNumber.toNat_sub_add _ hoffset (by omega)]

theorem not_firstByteSeq_gt_add (s : TcpTxBuffer) (hoffset : k < 2 ^ 31) :
    ¬s.m_firstByteSeq.gt (s.m_firstByteSeq.add k) = true := by
  have hhalf : SequenceNumber.halfMaxValue 32 = 2 ^ 31 - 1 := rfl
  have hgt := SequenceNumber.gt_add s.m_firstByteSeq (x := 0) (y := k) (by omega) (by omega)
  rw [SequenceNumber.add_zero] at hgt
  rw [hgt, decide_eq_true_iff]
  exact Nat.not_lt_zero _

theorem add_ge_firstByteSeq (s : TcpTxBuffer) (hoffset : k < 2 ^ 31) :
    (s.m_firstByteSeq.add k).ge s.m_firstByteSeq = true := by
  have hhalf : SequenceNumber.halfMaxValue 32 = 2 ^ 31 - 1 := rfl
  have hge := SequenceNumber.ge_add s.m_firstByteSeq (x := k) (y := 0) (by omega) (by omega)
  rw [SequenceNumber.add_zero] at hge
  rw [hge]
  exact decide_eq_true (Nat.zero_le _)

theorem sizeToMerge_le (n : ℕ) (seq : SequenceNumber32) (items : List TcpTxItem) :
    sizeToMerge n seq items ≤ n := by
  induction items with
  | nil => exact le_rfl
  | cons item items ih =>
    rw [sizeToMerge_cons]
    split_ifs
    · split
      · split_ifs
        · exact min_le_left _ _
        · exact min_le_left _ _
      · exact min_le_left _ _
    · exact ih

theorem Stored.getTransmittedSegment_at (hs : s.Stored) (hsize : s.m_sentSize < 2 ^ 31)
    (hpos : 0 < n) (hle : k + n ≤ s.m_sentSize)
    (hunsacked : HeadUnsacked (remaining k s.m_sentList)) :
    CanCopySent n k s.m_sentList ∧ (∃ s' before item after,
        s.getTransmittedSegment n (s.m_firstByteSeq.add k) = .ok (s', before, item, after) ∧
          totalSize before = k ∧ 0 < item.size ∧ item.size ≤ n ∧ item.m_sacked = false ∧
          item.m_startSeq = s.m_firstByteSeq.add k ∧ s'.m_firstByteSeq = s.m_firstByteSeq) ∨
      ¬CanCopySent n k s.m_sentList ∧
        ∃ e, s.getTransmittedSegment n (s.m_firstByteSeq.add k) = .error e := by
  have hitems := (List.forall_mem_append.mp hs.size_pos).1
  have hcontiguous := hs.contiguous
  have hsent := hs.sentSize
  have hlt := hs.size_lt
  have hmerge : 0 < sizeToMerge n (s.m_firstByteSeq.add k) s.m_sentList :=
    sizeToMerge_pos hpos hitems (by omega)
  have hmergeLe := sizeToMerge_le n (s.m_firstByteSeq.add k) s.m_sentList
  obtain ⟨before, item, after, hlist, hbefore, hitem⟩ :=
    exists_split (show k < totalSize s.m_sentList by omega)
  have hsacked : item.m_sacked = false := by
    refine hunsacked item ?_
    rw [hlist, remaining_append hbefore, remaining, if_neg (by omega)]
    rfl
  have hassert : ¬((s.m_firstByteSeq.add k).ge s.m_firstByteSeq = false ∨ s.m_sentSize < n ∨
      s.m_sentList = []) := by
    rintro (hge | hless | hnil)
    · exact Bool.false_ne_true (hge.symm.trans (s.add_ge_firstByteSeq (by omega)))
    · omega
    · rw [hnil] at hsent
      rw [totalSize_nil] at hsent
      omega
  rw [getTransmittedSegment, if_neg hassert]
  rw [hlist] at hitems hcontiguous hsent hmerge hmergeLe ⊢
  have hagree := agree_iff_canCopySent (n := n) hitems hcontiguous hsacked hbefore hitem (by omega)
  rw [← hagree]
  generalize sizeToMerge n (s.m_firstByteSeq.add k) (before ++ item :: after) = m at *
  rcases getPacketFromList_at true s.m_firstByteSeq (n := m)
    (f := turns (before ++ item :: after)) (fun _ ↦ hcontiguous) hmerge hbefore hitem (by omega)
    (by omega) (by rw [turns, List.length_append, List.length_cons]; omega) with
    ⟨hyes, s₁, before', item', after', hget, hbefore', hsize', hsacked', -⟩ | ⟨hno, e, hget⟩
  · obtain ⟨hedits, hs₁⟩ := getPacketFromList_spec (by omega) hmerge hget
    have hcontiguous' := hedits.contiguous hcontiguous
    rw [contiguous_append, hbefore'] at hcontiguous'
    have hfirst : s₁.m_firstByteSeq = s.m_firstByteSeq := by rw [hs₁]
    refine .inl ⟨hyes, ?_⟩
    rw [hget, Except.ok_bind]
    dsimp only
    split_ifs with hretrans
    · exact ⟨_, _, _, _, rfl, hbefore', by omega, by omega, hsacked'.trans hsacked,
        hcontiguous'.2.1, hfirst⟩
    · refine ⟨_, _, _, _, rfl, hbefore', ?_, ?_, hsacked'.trans hsacked, hcontiguous'.2.1, hfirst⟩
      · change 0 < item'.size
        omega
      · change item'.size ≤ n
        omega
  · refine .inr ⟨hno, e, ?_⟩
    rw [hget]
    rfl

theorem Stored.copies_again (hs : s.Stored) (hsize : s.m_size < 2 ^ 31) (hnum : 0 < numBytes)
    (hn : k + min numBytes (s.m_size - k) ≤ s.m_sentSize) (hoffset : k < s.m_sentSize)
    (hunsacked : HeadUnsacked (remaining k s.m_sentList)) {bound : ℕ} (hbound : numBytes ≤ bound) :
    Copies bound k
        (copyFromSequenceAux now (d + 1) s numBytes (s.m_firstByteSeq.add k)) ↔
      CanCopySent (min numBytes (s.m_size - k)) k s.m_sentList := by
  have hhalf : SequenceNumber.halfMaxValue 32 = 2 ^ 31 - 1 := rfl
  have hsum := hs.size
  have hsent := hs.sentSize
  rw [copyFromSequenceAux, if_neg (s.not_firstByteSeq_gt_add (by omega))]
  dsimp only
  rw [s.sizeFromSequence_add hsize (by omega), if_neg (by omega), SequenceNumber.add_add,
    SequenceNumber.ge_add _ (by omega) (by omega), if_pos (decide_eq_true hn)]
  rcases hs.getTransmittedSegment_at (by omega) (by omega) hn hunsacked with
    ⟨hcan, s₁, before, item, after, hget, hbefore, hpos, hle, hsacked, hstart, hfirst⟩ |
      ⟨hno, e, hget⟩
  · refine iff_of_true ?_ hcan
    rw [hget, Except.ok_bind]
    dsimp only
    rw [hsacked, if_neg Bool.false_ne_true]
    rw [markSent]
    dsimp only
    rw [hstart, hfirst, s.add_ge_firstByteSeq (by omega), if_neg fun h ↦ Bool.false_ne_true h.symm]
    exact ⟨_, before, _, after, rfl, rfl, hbefore, hpos, hle.trans (by omega)⟩
  · refine iff_of_false ?_ hno
    rintro ⟨s', before, item, after, hcopy, -⟩
    rw [hget] at hcopy
    exact absurd hcopy Except.error_ne_ok

theorem canCopyNew_cons (item : TcpTxItem) (after : List TcpTxItem) (hn : 0 < n) :
    CanCopyNew n (item :: after) ↔
      (∀ t ∈ reached (n - item.size) after, t.m_sacked = item.m_sacked ∧ t.m_lost = item.m_lost) ∧
        ¬(item.m_retrans = true ∧ ∀ t ∈ reached (n - item.size) after, t.m_retrans = true) := by
  rw [CanCopyNew, reached_cons hn]
  refine and_congr ⟨fun h t ht ↦ ?_, fun h t ht t' ht' ↦ ?_⟩ ?_
  · exact h t (List.mem_cons_of_mem _ ht) item List.mem_cons_self
  · have hitem : ∀ u ∈ item :: reached (n - item.size) after,
        u.m_sacked = item.m_sacked ∧ u.m_lost = item.m_lost :=
      List.forall_mem_cons.mpr ⟨⟨rfl, rfl⟩, h⟩
    exact ⟨(hitem t ht).1.trans (hitem t' ht').1.symm, (hitem t ht).2.trans (hitem t' ht').2.symm⟩
  · rw [← List.forall_mem_cons (p := fun t : TcpTxItem ↦ t.m_retrans = true)]
    simp only [not_forall, exists_prop, Bool.not_eq_true]

theorem Stored.getNewSegment_at (hs : s.Stored) (hsize : s.m_size < 2 ^ 31) (hpos : 0 < n)
    (hle : s.m_sentSize + n ≤ s.m_size) :
    (∃ s' item, s.getNewSegment n = .ok (s', s.m_sentList, item, []) ∧ item.size = n ∧
        (item.m_retrans = false ↔ CanCopyNew n s.m_appList) ∧
        item.m_startSeq = s.m_firstByteSeq.add s.m_sentSize ∧
        s'.m_firstByteSeq = s.m_firstByteSeq) ∨
      ¬CanCopyNew n s.m_appList ∧ ∃ e, s.getNewSegment n = .error e := by
  have hsum := hs.size
  have hsent := hs.sentSize
  have hitems := (List.forall_mem_append.mp hs.size_pos).2
  cases happ : s.m_appList with
  | nil =>
    rw [happ, totalSize_nil] at hsum
    omega
  | cons item after =>
    rw [happ] at hsum hitems
    have hcan := canCopyNew_cons item after hpos
    rcases getPacketFromList_start false (s.m_firstByteSeq.add s.m_sentSize) [] (s := s)
      (n := n) (f := turns (item :: after))
      (fun h ↦ absurd h Bool.false_ne_true)
      (List.forall_mem_cons.mp hitems).1 (show n ≤ totalSize (item :: after) by omega) (by rw [List.nil_append]; omega)
      (by rw [turns, List.length_cons]; omega) with
      ⟨hagree, s₁, item', after', hget, hitem, -, hretrans⟩ | ⟨hno, e, hget⟩
    · rw [totalSize_nil, SequenceNumber.add_zero, List.nil_append] at hget
      obtain ⟨-, hs₁⟩ := getPacketFromList_spec (by omega) hpos hget
      have hnew : s.getNewSegment n = .ok ({ s₁ with
          m_appList := [] ++ after'
          m_sentSize := add32 s₁.m_sentSize item'.size }, s₁.m_sentList,
            { item' with m_startSeq := s.m_firstByteSeq.add s.m_sentSize }, []) := by
        rw [getNewSegment, happ, hget]
        rfl
      have hlist : s₁.m_sentList = s.m_sentList := by rw [hs₁]
      have hfirst : s₁.m_firstByteSeq = s.m_firstByteSeq := by rw [hs₁]
      rw [hlist] at hnew
      refine .inl ⟨_, _, hnew, hitem, ?_, rfl, hfirst⟩
      rw [hcan, ← hretrans, Bool.not_eq_true]
      exact (and_iff_right hagree).symm
    · rw [totalSize_nil, SequenceNumber.add_zero, List.nil_append] at hget
      refine .inr ⟨fun h ↦ hno (hcan.mp h).1, e, ?_⟩
      rw [getNewSegment, happ, hget]
      rfl

theorem copyFromSequenceAux_new (s : TcpTxBuffer) (hsize : s.m_size < 2 ^ 31) (hnum : 0 < numBytes)
    (hoffset : s.m_sentSize < s.m_size) :
    copyFromSequenceAux now (d + 1) s numBytes (s.m_firstByteSeq.add s.m_sentSize) =
      s.getNewSegment (min numBytes (s.m_size - s.m_sentSize)) >>= fun found ↦
        if found.2.2.1.m_retrans then throw .assertion else markSent now found := by
  have hhalf : SequenceNumber.halfMaxValue 32 = 2 ^ 31 - 1 := rfl
  rw [copyFromSequenceAux, if_neg (s.not_firstByteSeq_gt_add (by omega))]
  dsimp only
  rw [s.sizeFromSequence_add hsize hoffset.le, if_neg (by omega), SequenceNumber.add_add,
    SequenceNumber.ge_add _ (by omega) (by omega), if_neg (by rw [decide_eq_true_iff]; omega),
    SequenceNumber.le_add _ (by omega) (by omega), if_pos (decide_eq_true le_rfl),
    if_neg (not_not.mpr rfl)]
  rfl

theorem Stored.copyFromSequenceAux_new_eq_ok (hs : s.Stored) (now : ℤ) (d : ℕ) (hsize : s.m_size < 2 ^ 31)
    (hnum : 0 < numBytes) (hoffset : s.m_sentSize < s.m_size)
    (hcan : CanCopyNew (min numBytes (s.m_size - s.m_sentSize)) s.m_appList) :
    ∃ s' item, copyFromSequenceAux now (d + 1) s numBytes
        (s.m_firstByteSeq.add s.m_sentSize) = .ok (s', some item) ∧
      s'.m_sentList = s.m_sentList ++ [item] ∧
      item.size = min numBytes (s.m_size - s.m_sentSize) := by
  rw [copyFromSequenceAux_new s hsize hnum hoffset]
  rcases hs.getNewSegment_at hsize (n := min numBytes (s.m_size - s.m_sentSize)) (by omega)
    (by omega) with ⟨s₁, item, hget, hitem, hretrans, hstart, hfirst⟩ | ⟨hno, -⟩
  · rw [hget, Except.ok_bind]
    dsimp only
    rw [hretrans.mpr hcan, if_neg Bool.false_ne_true, markSent]
    dsimp only
    rw [hstart, hfirst, s.add_ge_firstByteSeq (by omega), if_neg fun h ↦ Bool.false_ne_true h.symm]
    exact ⟨_, _, rfl, rfl, hitem⟩
  · exact absurd hcan hno

theorem Stored.copies_new (hs : s.Stored) (hsize : s.m_size < 2 ^ 31) (hnum : 0 < numBytes)
    (hoffset : s.m_sentSize < s.m_size) :
    Copies numBytes s.m_sentSize
        (copyFromSequenceAux now (d + 1) s numBytes (s.m_firstByteSeq.add s.m_sentSize)) ↔
      CanCopyNew (min numBytes (s.m_size - s.m_sentSize)) s.m_appList := by
  constructor
  · rintro ⟨s', before, item, after, hcopy, -⟩
    rw [copyFromSequenceAux_new s hsize hnum hoffset] at hcopy
    rcases hs.getNewSegment_at hsize (n := min numBytes (s.m_size - s.m_sentSize)) (by omega)
      (by omega) with ⟨s₁, item', hget, -, hretrans, -⟩ | ⟨-, e, hget⟩
    · rw [hget, Except.ok_bind] at hcopy
      dsimp only at hcopy
      split_ifs at hcopy with hflag
      exact hretrans.mp (Bool.eq_false_of_not_eq_true hflag)
    · rw [hget] at hcopy
      exact absurd hcopy Except.error_ne_ok
  · intro hcan
    obtain ⟨s', item, hcopy, hlist, hitem⟩ :=
      hs.copyFromSequenceAux_new_eq_ok now d hsize hnum hoffset hcan
    exact ⟨s', s.m_sentList, item, [], hcopy, hlist, hs.sentSize.symm, by omega, by omega⟩

/-- Numbers compare as the bytes that they stand for if there is no wrap between them. -/
theorem lt_and_lt_iff (a : SequenceNumber32) {x y : ℕ} (hx : 0 < x) (hxy : x < y)
    (hy : y < 2 ^ 32) : (a.m_value < (a.add x).m_value ∧ (a.add x).m_value < (a.add y).m_value) ↔
      a.m_value.toNat + y < 2 ^ 32 := by
  have ha := a.m_value.isLt
  rw [BitVec.lt_def, BitVec.lt_def, SequenceNumber.toNat_add (by omega),
    SequenceNumber.toNat_add hy]
  split_ifs <;> omega

/-- A segment that ends with new data is cut where the new data begins, if its numbers allow that. -/
theorem Stored.copies_part (hs : s.Stored) (hsize : s.m_size < 2 ^ 31)
    (hoffset : k < s.m_sentSize) (hn : s.m_sentSize < k + min numBytes (s.m_size - k))
    (hunsacked : HeadUnsacked (remaining k s.m_sentList)) :
    Copies numBytes k
        (copyFromSequenceAux now (d + 2) s numBytes (s.m_firstByteSeq.add k)) ↔
      CanCopySent (s.m_sentSize - k) k s.m_sentList ∧
        (s.m_firstByteSeq.add k).m_value.toNat + min numBytes (s.m_size - k) < 2 ^ 32 := by
  have hhalf : SequenceNumber.halfMaxValue 32 = 2 ^ 31 - 1 := rfl
  have hsum := hs.size
  have hsent := hs.sentSize
  have hend : s.m_firstByteSeq.add s.m_sentSize =
      (s.m_firstByteSeq.add k).add (s.m_sentSize - k) := by
    rw [SequenceNumber.add_add, Nat.add_sub_cancel' hoffset.le]
  have hraw := lt_and_lt_iff (s.m_firstByteSeq.add k) (x := s.m_sentSize - k)
    (y := min numBytes (s.m_size - k)) (by omega) (by omega) (by omega)
  rw [← hend, SequenceNumber.add_add] at hraw
  have hcast : ((s.m_firstByteSeq.add s.m_sentSize).m_value -
      (s.m_firstByteSeq.add k).m_value).toNat = s.m_sentSize - k :=
    SequenceNumber.toNat_sub_add _ hoffset.le (by omega)
  have hshort : min (s.m_sentSize - k) (s.m_size - k) = s.m_sentSize - k := by omega
  rw [copyFromSequenceAux, if_neg (s.not_firstByteSeq_gt_add (by omega))]
  dsimp only
  rw [s.sizeFromSequence_add hsize (by omega), if_neg (by omega), ← hraw, SequenceNumber.add_add,
    SequenceNumber.ge_add _ (by omega) (by omega), if_neg (by rw [decide_eq_true_iff]; omega),
    SequenceNumber.le_add _ (by omega) (by omega), if_neg (by rw [decide_eq_true_iff]; omega),
    hcast]
  have hagain : Copies numBytes k (copyFromSequenceAux now (d + 1) s (s.m_sentSize - k) _) ↔ _ :=
    hs.copies_again hsize (by omega) (by omega) hoffset hunsacked (by omega)
  rw [hshort] at hagain
  rw [← hagain]
  split_ifs with hcond
  · exact (and_iff_left hcond).symm
  · refine iff_of_false ?_ fun h ↦ hcond h.2
    rintro ⟨s', before, item, after, hcopy, -⟩
    exact absurd hcopy Except.error_ne_ok

/-- **A segment is served if and only if it can be copied.** -/
theorem Stored.serves_iff_canCopy (hs : s.Stored) (now : ℤ) (hsize : s.m_size < 2 ^ 31) (hnum : 0 < numBytes)
    (hoffset : k < s.m_size) (hle : k ≤ s.m_sentSize)
    (hunsacked : HeadUnsacked (remaining k s.m_sentList)) :
    Serves now s numBytes (s.m_firstByteSeq.add k) ↔ CanCopy s numBytes k := by
  rw [hs.serves_iff hoffset, CanCopy]
  by_cases hnew : k = s.m_sentSize
  · subst hnew
    rw [if_pos rfl]
    exact hs.copies_new hsize hnum hoffset
  · rw [if_neg hnew]
    by_cases hsent : k + min numBytes (s.m_size - k) ≤ s.m_sentSize
    · rw [and_iff_left (Or.inl hsent),
        show min (min numBytes (s.m_size - k)) (s.m_sentSize - k) =
          min numBytes (s.m_size - k) by omega]
      exact hs.copies_again hsize hnum hsent (by omega) hunsacked le_rfl
    · rw [or_iff_right hsent, show min (min numBytes (s.m_size - k)) (s.m_sentSize - k) =
        s.m_sentSize - k by omega]
      exact hs.copies_part hsize (by omega) (by omega) hunsacked

end Copy

end TcpTxBuffer

end Ns3
