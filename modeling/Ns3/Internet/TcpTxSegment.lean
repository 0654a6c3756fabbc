import Ns3.Internet.TcpTxBuffer
import Ns3.Library.Partial

/-!
# Segments of the send buffer

Whatever segment is asked for, the items of a list are only ever split and merged: `Edit` is one such
step, and `getPacketFromList` takes some of them. An edit keeps the bytes of the list and the
sequence numbers of its items, so what an operation does to the flags and the counters can be shown
for the two steps once.
-/

namespace Ns3

namespace TcpTxBuffer

/-! ## Lists of items -/

/-- The bytes of all items. -/
def bytes (items : List TcpTxItem) : List UInt8 := items.flatMap TcpTxItem.m_packet

/-- The size of all items. -/
def totalSize (items : List TcpTxItem) : ℕ := (items.map TcpTxItem.size).sum

/-- The items start one after the other, from `seq` on. -/
def Contiguous : SequenceNumber32 → List TcpTxItem → Prop
  | _, [] => True
  | seq, item :: rest => item.m_startSeq = seq ∧ Contiguous (seq.add item.size) rest

section Lists

variable {items items' : List TcpTxItem} {item : TcpTxItem} {seq : SequenceNumber32}

@[simp] theorem bytes_nil : bytes [] = [] := rfl

@[simp] theorem bytes_cons : bytes (item :: items) = item.m_packet ++ bytes items := rfl

@[simp] theorem bytes_append : bytes (items ++ items') = bytes items ++ bytes items' :=
  List.flatMap_append

@[simp] theorem totalSize_nil : totalSize [] = 0 := rfl

@[simp] theorem totalSize_cons : totalSize (item :: items) = item.size + totalSize items := rfl

@[simp] theorem totalSize_append : totalSize (items ++ items') = totalSize items + totalSize items' := by
  rw [totalSize, List.map_append, List.sum_append]
  rfl

theorem length_bytes : (bytes items).length = totalSize items := by
  induction items with
  | nil => rfl
  | cons item items ih =>
    rw [bytes_cons, List.length_append, ih, totalSize_cons]
    rfl

theorem contiguous_append : Contiguous seq (items ++ items') ↔
    Contiguous seq items ∧ Contiguous (seq.add (totalSize items)) items' := by
  induction items generalizing seq with
  | nil =>
    rw [List.nil_append, totalSize_nil, SequenceNumber.add_zero]
    exact (true_and _).symm.to_iff
  | cons item items ih =>
    rw [List.cons_append, Contiguous, ih, Contiguous, SequenceNumber.add_add, totalSize_cons,
      and_assoc]

end Lists

/-! ## Edits -/

/-- The parts of a buffer that an edit of one of its lists can change. -/
structure Pile where
  m_retrans : ℕ
  nextAddress : ℕ
  items : List TcpTxItem

/-- An item is split, or merged with the next one. -/
inductive Edit : Pile → Pile → Prop
  | split {retransOut address n : ℕ} {before after : List TcpTxItem} {item : TcpTxItem}
      (hpos : 0 < n) (hlt : n < item.size) :
      Edit ⟨retransOut, address, before ++ item :: after⟩ ⟨retransOut, address + 1,
        before ++ (splitItems address item n).1 :: (splitItems address item n).2 :: after⟩
  | merge {retransOut retransOut' address : ℕ} {before after : List TcpTxItem}
      {t1 t2 t : TcpTxItem} (hmerge : mergeItems retransOut t1 t2 = .ok (retransOut', t)) :
      Edit ⟨retransOut, address, before ++ t1 :: t2 :: after⟩
        ⟨retransOut', address, before ++ t :: after⟩

/-- Some edits, one after the other. -/
abbrev Edits : Pile → Pile → Prop := Relation.ReflTransGen Edit

theorem mergeItems_eq_ok {retransOut retransOut' : ℕ} {t1 t2 t : TcpTxItem}
    (h : mergeItems retransOut t1 t2 = .ok (retransOut', t)) :
    t1.m_sacked = t2.m_sacked ∧ t1.m_lost = t2.m_lost ∧
      t = { t1 with
        m_lastSent := max t1.m_lastSent t2.m_lastSent
        m_packet := t1.m_packet ++ t2.m_packet
        m_retrans := t1.m_retrans && t2.m_retrans } ∧
      retransOut' = if t1.m_retrans = t2.m_retrans then retransOut
        else sub32 retransOut (if t1.m_retrans then t1.size else t2.size) := by
  rw [mergeItems] at h
  split_ifs at h with hsacked hlost hretrans hfirst
  · obtain ⟨rfl, rfl⟩ := Prod.mk.inj (Except.ok.inj h)
    rw [not_not] at hsacked hlost
    refine ⟨hsacked, hlost, ?_, (if_pos hretrans).symm⟩
    rw [← hretrans, Bool.and_self]
  · obtain ⟨rfl, rfl⟩ := Prod.mk.inj (Except.ok.inj h)
    rw [not_not] at hsacked hlost
    refine ⟨hsacked, hlost, ?_, by rw [if_neg hretrans, if_pos hfirst]⟩
    rw [Bool.eq_false_of_not_eq_true fun h2 ↦ hretrans (hfirst.trans h2.symm), Bool.and_false]
  · obtain ⟨rfl, rfl⟩ := Prod.mk.inj (Except.ok.inj h)
    rw [not_not] at hsacked hlost
    refine ⟨hsacked, hlost, ?_, by rw [if_neg hretrans, if_neg hfirst]⟩
    rw [Bool.eq_false_of_not_eq_true hfirst, Bool.false_and]

theorem mergeItems_size {retransOut retransOut' : ℕ} {t1 t2 t : TcpTxItem}
    (h : mergeItems retransOut t1 t2 = .ok (retransOut', t)) : t.size = t1.size + t2.size := by
  rw [(mergeItems_eq_ok h).2.2.1]
  exact List.length_append

section Split

variable {address n : ℕ} {item : TcpTxItem}

theorem splitItems_bytes (address : ℕ) (item : TcpTxItem) (n : ℕ) :
    (splitItems address item n).1.m_packet ++ (splitItems address item n).2.m_packet =
      item.m_packet :=
  List.take_append_drop n item.m_packet

theorem splitItems_fst_size (hle : n ≤ item.size) : (splitItems address item n).1.size = n :=
  List.length_take_of_le hle

theorem splitItems_snd_size : (splitItems address item n).2.size = item.size - n :=
  List.length_drop

end Split

section Edits

variable {p p' : Pile}

theorem Edit.bytes (h : Edit p p') : TcpTxBuffer.bytes p'.items = TcpTxBuffer.bytes p.items := by
  cases h with
  | split hpos hlt =>
    simp only [bytes_append, bytes_cons]
    rw [← List.append_assoc (splitItems _ _ _).1.m_packet, splitItems_bytes]
  | merge hmerge =>
    simp only [bytes_append, bytes_cons, (mergeItems_eq_ok hmerge).2.2.1, List.append_assoc]

theorem Edit.totalSize (h : Edit p p') :
    TcpTxBuffer.totalSize p'.items = TcpTxBuffer.totalSize p.items := by
  rw [← length_bytes, h.bytes, length_bytes]

theorem Edit.size_pos (h : Edit p p') (hpos : ∀ item ∈ p.items, 0 < item.size) :
    ∀ item ∈ p'.items, 0 < item.size := by
  cases h with
  | split hn hlt =>
    simp only [List.forall_mem_append, List.forall_mem_cons] at hpos ⊢
    rw [splitItems_fst_size hlt.le, splitItems_snd_size]
    exact ⟨hpos.1, hn, Nat.sub_pos_of_lt hlt, hpos.2.2⟩
  | merge hmerge =>
    simp only [List.forall_mem_append, List.forall_mem_cons] at hpos ⊢
    rw [mergeItems_size hmerge]
    exact ⟨hpos.1, Nat.add_pos_left hpos.2.1 _, hpos.2.2.2⟩

theorem Edit.contiguous (h : Edit p p') {seq : SequenceNumber32} (hp : Contiguous seq p.items) :
    Contiguous seq p'.items := by
  cases h with
  | split hpos hlt =>
    rw [contiguous_append, Contiguous] at hp
    rw [contiguous_append, Contiguous, Contiguous, splitItems_fst_size hlt.le, splitItems_snd_size,
      SequenceNumber.add_add _ _ (_ - _), Nat.add_sub_cancel' hlt.le]
    obtain ⟨hbefore, hstart, hafter⟩ := hp
    exact ⟨hbefore, hstart, congrArg (SequenceNumber.add · _) hstart, hafter⟩
  | merge hmerge =>
    rw [contiguous_append, Contiguous, Contiguous] at hp
    rw [contiguous_append, Contiguous, mergeItems_size hmerge, ← SequenceNumber.add_add,
      (mergeItems_eq_ok hmerge).2.2.1]
    exact ⟨hp.1, hp.2.1, hp.2.2.2⟩

theorem Edits.invariant {I : Pile → Prop} (hstep : ∀ p p', Edit p p' → I p → I p')
    (h : Edits p p') (hp : I p) : I p' := by
  induction h with
  | refl => exact hp
  | tail _ hedit ih => exact hstep _ _ hedit ih

theorem Edits.bytes (h : Edits p p') : TcpTxBuffer.bytes p'.items = TcpTxBuffer.bytes p.items :=
  Edits.invariant (I := fun q ↦ TcpTxBuffer.bytes q.items = TcpTxBuffer.bytes p.items)
    (fun _ _ hedit hq ↦ hedit.bytes.trans hq) h rfl

theorem Edits.totalSize (h : Edits p p') :
    TcpTxBuffer.totalSize p'.items = TcpTxBuffer.totalSize p.items := by
  rw [← length_bytes, h.bytes, length_bytes]

theorem Edits.size_pos (h : Edits p p') (hpos : ∀ item ∈ p.items, 0 < item.size) :
    ∀ item ∈ p'.items, 0 < item.size :=
  Edits.invariant (fun _ _ ↦ Edit.size_pos) h hpos

theorem Edits.contiguous (h : Edits p p') {seq : SequenceNumber32} (hp : Contiguous seq p.items) :
    Contiguous seq p'.items :=
  Edits.invariant (I := fun q ↦ Contiguous seq q.items) (fun _ _ hedit ↦ hedit.contiguous) h hp

end Edits

/-! ## The segments that are looked for -/

theorem castSub_eq (a b : SequenceNumber32) : castSub a b = (a.m_value - b.m_value).toNat := by
  rw [castSub, SequenceNumber.sub_eq, BitVec.toInt_eq_toNat_cond]
  have := (a.m_value - b.m_value).isLt
  split_ifs <;> omega

theorem castSub_add_self {a : SequenceNumber32} {k : ℕ} (h : k < 2 ^ 32) :
    castSub (a.add k) a = k := by
  have hsub := SequenceNumber.toNat_sub_add a (x := k) (y := 0) (Nat.zero_le _) (by omega)
  rw [SequenceNumber.add_zero] at hsub
  rw [castSub_eq, hsub, Nat.sub_zero]

variable {inSentList : Bool} {firstByteSeq listStartFrom seq start begin' : SequenceNumber32}
  {numBytes fuel : ℕ} {s s' : TcpTxBuffer} {list before after : List TcpTxItem} {item : TcpTxItem}

theorem findPacket_spec
    (h : findPacket inSentList firstByteSeq seq start list = .ok ((before, item, after), begin')) :
    list = before ++ item :: after ∧ begin' = start.add (totalSize before) ∧
      seq.lt (begin'.add item.size) = true := by
  induction list generalizing start before with
  | nil => exact absurd h Except.error_ne_ok
  | cons current rest ih =>
    rw [findPacket] at h
    split_ifs at h with hassert hlt
    · cases h
      exact ⟨rfl, (SequenceNumber.add_zero _).symm, hlt⟩
    · obtain ⟨⟨⟨before', item', after'⟩, begin''⟩, hrest, hret⟩ := Except.bind_eq_ok.mp h
      cases hret
      obtain ⟨rfl, rfl, hlt'⟩ := ih hrest
      exact ⟨rfl, by rw [SequenceNumber.add_add, totalSize_cons], hlt'⟩

/-- The item is found by edits of the list, and nothing else changes. -/
theorem getPacketFromList_spec (hsize : totalSize list < 2 ^ 32) (hnum : 0 < numBytes)
    (h : getPacketFromList inSentList listStartFrom numBytes seq fuel s list =
      .ok (s', before, item, after)) :
    Edits ⟨s.m_retrans, s.nextAddress, list⟩
        ⟨s'.m_retrans, s'.nextAddress, before ++ item :: after⟩ ∧
      s' = { s with
        m_retrans := s'.m_retrans
        nextAddress := s'.nextAddress } := by
  induction fuel generalizing s list with
  | zero => exact absurd h Except.error_ne_ok
  | succ fuel ih =>
    obtain ⟨⟨⟨before', current, after'⟩, begin'⟩, hfind, hget⟩ := Except.bind_eq_ok.mp h
    obtain ⟨rfl, hbegin, hlt⟩ := findPacket_spec hfind
    dsimp only at hget
    have hcurrent : current.size < 2 ^ 32 := by
      rw [totalSize_append, totalSize_cons] at hsize
      omega
    split_ifs at hget with heq hle hnumEq hnumLt hgt
    · cases hget
      exact ⟨.refl, rfl⟩
    · cases hget
      exact ⟨.single (.split hnum hnumLt), rfl⟩
    · cases after' with
      | nil =>
        cases hget
        exact ⟨.refl, rfl⟩
      | cons next after' =>
        obtain ⟨⟨retransOut, t⟩, hmerge, hrec⟩ := Except.bind_eq_ok.mp hget
        have hedit : Edit ⟨s.m_retrans, s.nextAddress, before' ++ current :: next :: after'⟩
          ⟨retransOut, s.nextAddress, before' ++ t :: after'⟩ := .merge hmerge
        obtain ⟨hrest, hs'⟩ := ih (hedit.totalSize.trans_lt hsize) hrec
        exact ⟨.head hedit hrest, hs'⟩
    · -- the item is split where the segment begins
      obtain ⟨hpos, hlt'⟩ := SequenceNumber.toNat_sub_lt_of_gt_of_lt hgt hlt hcurrent
      rw [← castSub_eq] at hpos hlt'
      have hedit : Edit ⟨s.m_retrans, s.nextAddress, before' ++ current :: after'⟩ _ :=
        .split hpos hlt'
      obtain ⟨hrest, hs'⟩ := ih (hedit.totalSize.trans_lt hsize) hget
      exact ⟨.head hedit hrest, hs'⟩

theorem findPacket_front (hpos : ∀ item ∈ list, 0 < item.size) (hsize : totalSize list < 2 ^ 32)
    (h : findPacket inSentList firstByteSeq seq seq list = .ok ((before, item, after), begin')) :
    before = [] := by
  obtain ⟨rfl, rfl, hlt⟩ := findPacket_spec h
  cases before with
  | nil => rfl
  | cons current before =>
    rw [List.cons_append, findPacket] at h
    simp only [List.forall_mem_append, List.forall_mem_cons, List.cons_append] at hpos
    simp only [List.cons_append, totalSize_cons, totalSize_append] at hsize
    rw [SequenceNumber.add_add, totalSize_cons] at hlt
    have hfirst := SequenceNumber.lt_add_of_lt hlt hpos.1 (by omega) (by omega)
    split_ifs at h with hassert
    cases h

theorem getPacketFromList_front (hpos : ∀ item ∈ list, 0 < item.size)
    (hsize : totalSize list < 2 ^ 32)
    (h : getPacketFromList inSentList seq numBytes seq fuel s list =
      .ok (s', before, item, after)) : before = [] := by
  induction fuel generalizing s list with
  | zero => exact absurd h Except.error_ne_ok
  | succ fuel ih =>
    obtain ⟨⟨⟨before', current, after'⟩, begin'⟩, hfind, hget⟩ := Except.bind_eq_ok.mp h
    obtain rfl := findPacket_front hpos hsize hfind
    obtain ⟨rfl, hbegin, -⟩ := findPacket_spec hfind
    rw [totalSize_nil, SequenceNumber.add_zero] at hbegin
    dsimp only at hget
    split_ifs at hget with heq hle hnumEq hnumLt hgt
    · cases hget
      rfl
    · cases hget
      rfl
    · cases after' with
      | nil =>
        cases hget
        rfl
      | cons next after' =>
        obtain ⟨⟨retransOut, t⟩, hmerge, hrec⟩ := Except.bind_eq_ok.mp hget
        have hedit : Edit ⟨s.m_retrans, s.nextAddress, [] ++ current :: next :: after'⟩
          ⟨retransOut, s.nextAddress, [] ++ t :: after'⟩ := .merge hmerge
        exact ih (hedit.size_pos hpos) (hedit.totalSize.trans_lt hsize) hrec
    · exact absurd hbegin.symm heq

/-- What `CopyFromSequence` does when it returns. -/
inductive Copied (now : ℤ) (s : TcpTxBuffer) : TcpTxBuffer → Option TcpTxItem → Prop
  /-- There is no data. -/
  | nothing : Copied now s s none
  /-- An item of the sent list is sent again. -/
  | again {retransOut address : ℕ} {before after : List TcpTxItem} {item : TcpTxItem}
      (hedits : Edits ⟨s.m_retrans, s.nextAddress, s.m_sentList⟩
        ⟨retransOut, address, before ++ item :: after⟩) (hsacked : item.m_sacked = false) :
      Copied now s { s with
          m_sentList := before ++ { item with
            m_retrans := true
            m_lastSent := now } :: after
          m_retrans := if item.m_retrans then retransOut else add32 retransOut item.size
          nextAddress := address }
        (some { item with
          m_retrans := true
          m_lastSent := now })
  /-- An item of the other list is sent for the first time. -/
  | new {retransOut address : ℕ} {after : List TcpTxItem} {item : TcpTxItem}
      (hedits : Edits ⟨s.m_retrans, s.nextAddress, s.m_appList⟩ ⟨retransOut, address, item :: after⟩)
      (hretrans : item.m_retrans = false) :
      Copied now s { s with
          m_appList := after
          m_sentList := s.m_sentList ++ [{ item with
            m_startSeq := s.m_firstByteSeq.add s.m_sentSize
            m_lastSent := now }]
          m_sentSize := add32 s.m_sentSize item.size
          m_retrans := retransOut
          nextAddress := address }
        (some { item with
          m_startSeq := s.m_firstByteSeq.add s.m_sentSize
          m_lastSent := now })

theorem sizeToMerge_pos (hnum : 0 < numBytes) (hpos : ∀ item ∈ list, 0 < item.size)
    (hsize : totalSize list < 2 ^ 32) : 0 < sizeToMerge numBytes seq list := by
  induction list with
  | nil => exact hnum
  | cons item rest ih =>
    rw [List.forall_mem_cons] at hpos
    rw [totalSize_cons] at hsize
    have hrest := ih hpos.2 (by omega)
    cases rest with
    | nil =>
      rw [sizeToMerge]
      split_ifs
      · exact lt_min hnum hpos.1
      · exact hrest
    | cons next rest =>
      rw [totalSize_cons] at hsize
      rw [sizeToMerge]
      split_ifs
      · rw [add32_eq (by omega)]
        exact lt_min hnum (Nat.add_pos_left hpos.1 _)
      · exact lt_min hnum hpos.1
      · exact hrest

theorem getTransmittedSegment_spec (hnum : 0 < numBytes) (hpos : ∀ item ∈ s.m_sentList, 0 < item.size)
    (hsize : totalSize s.m_sentList < 2 ^ 32)
    (h : s.getTransmittedSegment numBytes seq = .ok (s', before, item, after)) :
    ∃ retransOut address item', Edits ⟨s.m_retrans, s.nextAddress, s.m_sentList⟩
        ⟨retransOut, address, before ++ item' :: after⟩ ∧
      item = { item' with m_retrans := true } ∧
      s' = { s with
        m_retrans := if item'.m_retrans then retransOut else add32 retransOut item'.size
        nextAddress := address } := by
  rw [getTransmittedSegment] at h
  split_ifs at h with hassert
  obtain ⟨⟨s₁, before', item', after'⟩, hget, hret⟩ := Except.bind_eq_ok.mp h
  obtain ⟨hedits, hs₁⟩ := getPacketFromList_spec hsize (sizeToMerge_pos hnum hpos hsize) hget
  refine ⟨s₁.m_retrans, s₁.nextAddress, item', ?_⟩
  dsimp only at hret
  split_ifs at hret with hretrans
  · cases hret
    refine ⟨hedits, ?_, by rw [if_pos hretrans]; exact hs₁⟩
    rw [← hretrans]
  · cases hret
    refine ⟨hedits, rfl, ?_⟩
    rw [if_neg hretrans, hs₁]

theorem getNewSegment_spec (hnum : 0 < numBytes) (hpos : ∀ item ∈ s.m_appList, 0 < item.size)
    (hsize : totalSize s.m_appList < 2 ^ 32)
    (h : s.getNewSegment numBytes = .ok (s', before, item, after)) :
    ∃ retransOut address item' rest, Edits ⟨s.m_retrans, s.nextAddress, s.m_appList⟩
        ⟨retransOut, address, item' :: rest⟩ ∧
      before = s.m_sentList ∧ after = [] ∧
      item = { item' with m_startSeq := s.m_firstByteSeq.add s.m_sentSize } ∧
      s' = { s with
        m_appList := rest
        m_sentSize := add32 s.m_sentSize item'.size
        m_retrans := retransOut
        nextAddress := address } := by
  obtain ⟨⟨s₁, before', item', after'⟩, hget, hret⟩ := Except.bind_eq_ok.mp h
  obtain ⟨hedits, hs₁⟩ := getPacketFromList_spec hsize hnum hget
  obtain rfl := getPacketFromList_front hpos hsize hget
  cases hret
  refine ⟨s₁.m_retrans, s₁.nextAddress, item', after', hedits, ?_, rfl, rfl, ?_⟩
  · rw [hs₁]
  · rw [hs₁]
    rfl

/-- The buffer is unchanged when its recursive calls are made, so one case of each kind is enough. -/
theorem copyFromSequenceAux_spec {now : ℤ} {depth : ℕ} {out : Option TcpTxItem}
    (hpos : ∀ item ∈ s.m_sentList ++ s.m_appList, 0 < item.size)
    (hsize : totalSize (s.m_sentList ++ s.m_appList) < 2 ^ 32)
    (h : copyFromSequenceAux now depth s numBytes seq = .ok (s', out)) : Copied now s s' out := by
  rw [List.forall_mem_append] at hpos
  rw [totalSize_append] at hsize
  induction depth generalizing numBytes with
  | zero => exact absurd h Except.error_ne_ok
  | succ depth ih =>
    rw [copyFromSequenceAux] at h
    dsimp only at h
    rw [ite_eq_iff] at h
    obtain ⟨-, h⟩ | ⟨-, h⟩ := h
    · exact absurd h Except.error_ne_ok
    rw [ite_eq_iff] at h
    obtain ⟨-, h⟩ | ⟨hnum, h⟩ := h
    · cases h
      exact .nothing
    have hnum := Nat.pos_of_ne_zero hnum
    rw [ite_eq_iff] at h
    obtain ⟨-, h⟩ | ⟨-, h⟩ := h
    · obtain ⟨⟨s₁, before, item, after⟩, hget, hret⟩ := Except.bind_eq_ok.mp h
      obtain ⟨retransOut, address, item', hedits, rfl, hs₁⟩ :=
        getTransmittedSegment_spec hnum hpos.1 (by omega) hget
      dsimp only at hret
      split_ifs at hret with hsacked
      · exact absurd hret Except.error_ne_ok
      · rw [markSent] at hret
        dsimp only at hret
        split_ifs at hret with hstart
        cases hret
        rw [hs₁]
        exact .again hedits (Bool.eq_false_of_not_eq_true hsacked)
    rw [ite_eq_iff] at h
    obtain ⟨-, h⟩ | ⟨-, h⟩ := h
    · split_ifs at h with hend
      · exact absurd h Except.error_ne_ok
      obtain ⟨⟨s₁, before, item, after⟩, hget, hret⟩ := Except.bind_eq_ok.mp h
      obtain ⟨retransOut, address, item', rest, hedits, rfl, rfl, rfl, hs₁⟩ :=
        getNewSegment_spec hnum hpos.2 (by omega) hget
      dsimp only at hret
      split_ifs at hret with hretrans
      · exact absurd hret Except.error_ne_ok
      · rw [markSent] at hret
        dsimp only at hret
        split_ifs at hret with hstart
        cases hret
        rw [hs₁]
        exact .new hedits (Bool.eq_false_of_not_eq_true hretrans)
    rw [ite_eq_iff] at h
    obtain ⟨-, h⟩ | ⟨-, h⟩ := h
    · exact ih h
    · exact absurd h Except.error_ne_ok

/-! ## Data that is discarded -/

/-- The steps of the loop of `DiscardUpTo`, with the number of bytes that they remove. -/
inductive Discarded (now : ℤ) : TcpTxBuffer → ℕ → TcpTxBuffer → Prop
  /-- No more bytes are removed. -/
  | done {s : TcpTxBuffer} : Discarded now s 0 s
  /-- Data moves to the sent list, which is empty. -/
  | move {s s₁ s' : TcpTxBuffer} {n : ℕ} {item : TcpTxItem} (hsent : s.m_sentList = [])
      (hcopied : Copied now s s₁ (some item)) (hrest : Discarded now s₁ n s') : Discarded now s n s'
  /-- The head is removed. -/
  | remove {s s₁ s' : TcpTxBuffer} {n : ℕ} {item : TcpTxItem} {rest : List TcpTxItem}
      (hsent : s.m_sentList = item :: rest) (hcounts : removeFromCounts { s with
        m_size := sub32 s.m_size item.size
        m_sentSize := sub32 s.m_sentSize item.size
        m_firstByteSeq := s.m_firstByteSeq.add item.size
        m_sentList := rest } item item.size = .ok s₁) (hrest : Discarded now s₁ n s') :
      Discarded now s (item.size + n) s'
  /-- The first bytes of the head are removed. -/
  | trim {s s' : TcpTxBuffer} {n : ℕ} {item : TcpTxItem} {rest : List TcpTxItem} (hlt : n < item.size)
      (hsent : s.m_sentList = item :: rest) (hcounts : removeFromCounts { s with
        m_size := sub32 s.m_size n
        m_sentSize := sub32 s.m_sentSize n
        m_firstByteSeq := s.m_firstByteSeq.add n
        m_sentList := { item with
          m_packet := item.m_packet.drop n
          m_startSeq := item.m_startSeq.add n } :: rest } item n = .ok s') : Discarded now s n s'

theorem removeFromCounts_eq_ok {n : ℕ} (h : removeFromCounts s item n = .ok s') :
    (item.m_sacked = true → n ≤ s.m_sackedOut) ∧ (item.m_retrans = true → n ≤ s.m_retrans) ∧
      (item.m_lost = true → n ≤ s.m_lostOut) ∧ s' = { s with
        m_sackedOut := if item.m_sacked then sub32 s.m_sackedOut n else s.m_sackedOut
        m_retrans := if item.m_retrans then sub32 s.m_retrans n else s.m_retrans
        m_lostOut := if item.m_lost then sub32 s.m_lostOut n else s.m_lostOut } := by
  rw [removeFromCounts, ite_eq_iff] at h
  obtain ⟨-, h⟩ | ⟨hassert, h⟩ := h
  · exact absurd h Except.error_ne_ok
  · cases h
    simp only [not_or, not_and, not_lt] at hassert
    exact ⟨hassert.1, hassert.2.1, hassert.2.2, rfl⟩

/-! ## What is stored -/

/-- What an item has beside its flags and its time. -/
def segment (item : TcpTxItem) : ℕ × SequenceNumber32 × List UInt8 :=
  (item.address, item.m_startSeq, item.m_packet)

theorem bytes_eq (items : List TcpTxItem) :
    bytes items = (items.map segment).flatMap fun part ↦ part.2.2 := by
  rw [List.flatMap_map]
  rfl

theorem totalSize_eq (items : List TcpTxItem) :
    totalSize items = ((items.map segment).map fun part ↦ part.2.2.length).sum := by
  rw [List.map_map]
  rfl

section Congr

variable {items items' : List TcpTxItem} (h : items'.map segment = items.map segment)

include h

theorem bytes_congr : bytes items' = bytes items := by rw [bytes_eq, h, ← bytes_eq]

theorem totalSize_congr : totalSize items' = totalSize items := by
  rw [totalSize_eq, h, ← totalSize_eq]

theorem size_pos_congr (hpos : ∀ item ∈ items, 0 < item.size) : ∀ item ∈ items', 0 < item.size := by
  intro item hitem
  obtain ⟨item', hitem', heq⟩ := List.mem_map.mp (h ▸ List.mem_map_of_mem (f := segment) hitem)
  have hpacket : item'.m_packet = item.m_packet := congrArg (fun part ↦ part.2.2) heq
  rw [TcpTxItem.size, ← hpacket]
  exact hpos item' hitem'

theorem contiguous_congr {seq : SequenceNumber32} (hitems : Contiguous seq items) :
    Contiguous seq items' := by
  induction items generalizing items' seq with
  | nil =>
    rw [List.map_nil, List.map_eq_nil_iff] at h
    rw [h]
    trivial
  | cons item items ih =>
    obtain ⟨item', items'', rfl, hitem, hrest⟩ := List.map_eq_cons_iff.mp h
    obtain ⟨hstart, hcontiguous⟩ := hitems
    have hpacket : item'.m_packet = item.m_packet := congrArg (fun part ↦ part.2.2) hitem
    have hseq : item'.m_startSeq = item.m_startSeq := congrArg (fun part ↦ part.2.1) hitem
    refine ⟨hseq.trans hstart, ?_⟩
    rw [TcpTxItem.size, hpacket]
    exact ih hrest hcontiguous

end Congr

end TcpTxBuffer

end Ns3
