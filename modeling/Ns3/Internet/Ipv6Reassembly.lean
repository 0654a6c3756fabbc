import Ns3.Internet.Ipv6Extension
import Ns3.Library.Partial

/-!
# Reassembly of IPv6

The fragments of a packet follow each other, and none of them is empty unless the fragmentable part
is. `IsEntire` asks each fragment to start where the one before it ends, so a fragment that has come
twice is taken for a gap. And the extension headers are put in front of a fragment one by one, so that
they come out in the reverse order.
-/

namespace Ns3

namespace Ipv6ExtensionFragment

open Buffer

variable {s s' : Ipv6ExtensionFragment} {k : Ipv6FragmentKey} {ps : Parts} {identification : UInt32}

/-! ## The fragment header -/

theorem and_not_seven {x : UInt16} (h : x.toNat % 8 = 0) : x &&& ~~~7 = x := by
  have hbits : x.toBitVec.getLsbD 0 = false ∧ x.toBitVec.getLsbD 1 = false ∧
      x.toBitVec.getLsbD 2 = false := by
    have hnat : x.toBitVec.toNat % 8 = 0 := h
    simp only [BitVec.getLsbD, Nat.testBit, Nat.shiftRight_eq_div_pow, Nat.one_and_eq_mod_two]
    refine ⟨?_, ?_, ?_⟩ <;> simp only [bne_eq_false_iff_eq] <;> omega
  apply UInt16.toBitVec_inj.mp
  apply BitVec.eq_of_getLsbD_eq
  intro i hi
  have h7 : (~~~(7 : UInt16)).toBitVec.getLsbD i = decide (3 ≤ i) := by
    interval_cases i <;> rfl
  rw [UInt16.toBitVec_and, BitVec.getLsbD_and, h7]
  by_cases hle : 3 ≤ i
  · rw [decide_eq_true hle, Bool.and_true]
  · obtain ⟨h0, h1, h2⟩ := hbits
    interval_cases i
    · rw [h0, Bool.false_and]
    · rw [h1, Bool.false_and]
    · rw [h2, Bool.false_and]

theorem fragmentHeader_get {x : UInt16} (h : x.toNat % 8 = 0) (m_nextHeader : UInt8)
    (moreFragment : Bool) :
    (((Ipv6ExtensionFragmentHeader.mk m_nextHeader 0 identification).setOffset x).setMoreFragment
      moreFragment).getOffset = x ∧
    (((Ipv6ExtensionFragmentHeader.mk m_nextHeader 0 identification).setOffset x).setMoreFragment
      moreFragment).getMoreFragment = moreFragment := by
  have hx : x &&& ~~~1 = x := by
    have h71 : (~~~7 : UInt16) &&& ~~~1 = ~~~7 := by decide
    rw [← and_not_seven h, UInt16.and_assoc, h71]
  have hlow : x &&& 1 = 0 := by
    have h11 : (~~~1 : UInt16) &&& 1 = 0 := by decide
    rw [← hx, UInt16.and_assoc, h11, UInt16.and_zero]
  have hor : ∀ y : UInt16, (x ||| 1) &&& y = (x &&& y) ||| (1 &&& y) := fun y ↦
    UInt16.toBitVec_inj.mp BitVec.and_or_distrib_right
  have hfirst : ((0 : UInt16) &&& 1) ||| (x &&& ~~~7) = x := by
    rw [and_not_seven h]
    simp
  rw [Ipv6ExtensionFragmentHeader.setOffset, Ipv6ExtensionFragmentHeader.setMoreFragment,
    Ipv6ExtensionFragmentHeader.getOffset, Ipv6ExtensionFragmentHeader.getMoreFragment]
  dsimp only
  rw [hfirst]
  cases moreFragment with
  | false =>
    rw [if_neg Bool.false_ne_true, hx, hx, hlow]
    exact ⟨rfl, rfl⟩
  | true =>
    rw [if_pos rfl, hor, hor, hx, hlow]
    refine ⟨?_, rfl⟩
    rw [show (1 : UInt16) &&& ~~~1 = 0 from rfl, UInt16.or_zero]

theorem deserialize_serialize (h : Ipv6ExtensionFragmentHeader) (p : List UInt8) :
    Ipv6ExtensionFragmentHeader.deserialize (h.serialize ++ p) = .ok (h, p) := by
  rw [Ipv6ExtensionFragmentHeader.serialize, Ipv6ExtensionFragmentHeader.deserialize]
  simp only [List.cons_append, List.nil_append, List.append_assoc, readU8_cons, Except.ok_bind,
    readNtohU16_append, readNtohU32_append]
  rfl

/-! ## One fragment -/

/-- The extension headers as they stand in a fragment. -/
def carried (ps : Parts) : List UInt8 :=
  ps.unfragmentablePart.reverse.flatMap Ipv6ExtensionHeader.serialize

/-- The unfragmentable part of a packet. -/
def unfragmentable (ps : Parts) : List UInt8 :=
  ps.unfragmentablePart.flatMap Ipv6ExtensionHeader.serialize

theorem length_carried (ps : Parts) : (carried ps).length = (unfragmentable ps).length :=
  (ps.unfragmentablePart.reverse_perm.flatMap_right _).length_eq

/-- The fragment with a piece of the fragmentable part. -/
def build (ps : Parts) (identification : UInt32) (q : Piece UInt8) : List UInt8 :=
  addHeaders ps identification q.offset (decide (q.stop < ps.p.length)) q.data

/-- The fragment header of a piece. -/
def fragmentHeader (ps : Parts) (identification : UInt32) (q : Piece UInt8) :
    Ipv6ExtensionFragmentHeader :=
  ((Ipv6ExtensionFragmentHeader.mk ps.nextHeader 0 identification).setOffset
    (UInt16.ofNat q.offset)).setMoreFragment (decide (q.stop < ps.p.length))

theorem foldl_serialize (l : List Ipv6ExtensionHeader) (fragment : List UInt8) :
    l.foldl (fun fragment header ↦ header.serialize ++ fragment) fragment =
      l.reverse.flatMap Ipv6ExtensionHeader.serialize ++ fragment := by
  induction l generalizing fragment with
  | nil => rfl
  | cons header l ih =>
    rw [List.foldl_cons, ih, List.reverse_cons, List.flatMap_append, List.append_assoc]
    simp

theorem build_eq (q : Piece UInt8) : build ps identification q =
    carried ps ++ ((fragmentHeader ps identification q).serialize ++ q.data) :=
  foldl_serialize _ _

/-- `Process` takes apart what `GetFragments` has put together. -/
theorem receive_build {offset : UInt8} (hoffset : offset.toNat = (unfragmentable ps).length)
    (q : Piece UInt8) : receive ⟨build ps identification q, offset⟩ =
      some ⟨carried ps, fragmentHeader ps identification q, q.data⟩ := by
  rw [← length_carried] at hoffset
  rw [receive, build_eq]
  dsimp only
  rw [hoffset, List.drop_left, List.take_left, deserialize_serialize]

theorem fragmentHeader_spec {q : Piece UInt8} (haligned : q.offset % 8 = 0)
    (hlt : q.offset < 2 ^ 16) :
    (fragmentHeader ps identification q).getOffset.toNat = q.offset ∧
    (fragmentHeader ps identification q).getMoreFragment = decide (q.stop < ps.p.length) ∧
    (fragmentHeader ps identification q).m_identification = identification := by
  have hnat : (UInt16.ofNat q.offset).toNat = q.offset := by
    rw [UInt16.toNat_ofNat']
    exact Nat.mod_eq_of_lt hlt
  obtain ⟨hoffset, hmore⟩ := @fragmentHeader_get identification _ (hnat.symm ▸ haligned)
    ps.nextHeader (decide (q.stop < ps.p.length))
  exact ⟨(congrArg _ hoffset).trans hnat, hmore, rfl⟩

/-! ## All fragments of a packet -/

/-- The pieces that `GetFragments` makes of the fragmentable part. -/
structure Splits (p : List UInt8) (e : ℕ) (pieces : List (Piece UInt8)) : Prop where
  consecutive : Piece.Consecutive e pieces
  reach : Piece.reach e pieces = p.length
  of : ∀ q ∈ pieces, q.Of p
  aligned : ∀ q ∈ pieces, q.offset % 8 = 0
  ne_nil : p ≠ [] → ∀ q ∈ pieces, q.data ≠ []
  last : ∃ q ∈ pieces, q.stop = p.length

theorem fragmentLoop_ne_ok {m offset : ℕ} (hm : m - m % 8 = 0) (hoffset : offset < 2 ^ 16)
    (hlt : add32 offset m < ps.p.length) (fuel : ℕ) {l : List (List UInt8)} :
    fragmentLoop ps identification m fuel offset ≠ .ok l := by
  induction fuel generalizing l with
  | zero => exact Except.error_ne_ok
  | succ fuel ih =>
    intro h
    rw [fragmentLoop, if_pos hlt, Except.bind_eq_ok] at h
    obtain ⟨rest, hrest, -⟩ := h
    rw [hm, Nat.add_zero, Nat.mod_eq_of_lt hoffset] at hrest
    exact ih hrest

/-- **The fragments of a packet.** -/
theorem fragmentLoop_eq_ok {m : ℕ} (hm : m < 2 ^ 32) (hlen : ps.p.length < 2 ^ 16) (fuel : ℕ) :
    ∀ {offset : ℕ} {l : List (List UInt8)}, offset % 8 = 0 → offset ≤ ps.p.length →
      (offset = 0 ∨ offset < ps.p.length ∧ m < ps.p.length) →
      fragmentLoop ps identification m fuel offset = .ok l →
      ∃ pieces, l = pieces.map (build ps identification) ∧ Splits ps.p offset pieces := by
  induction fuel with
  | zero => exact fun _ _ _ h ↦ absurd h Except.error_ne_ok
  | succ fuel ih =>
    intro offset l haligned hoffset hstart h
    have hadd : add32 offset m = offset + m := Nat.mod_eq_of_lt (by omega)
    by_cases hmore : add32 offset m < ps.p.length
    · have hpos : m - m % 8 ≠ 0 := fun hm ↦
        fragmentLoop_ne_ok hm (by omega) hmore (fuel + 1) h
      rw [fragmentLoop, if_pos hmore, Except.bind_eq_ok] at h
      obtain ⟨rest, hrest, h⟩ := h
      obtain rfl := Except.ok.inj h
      rw [hadd] at hmore
      rw [Nat.mod_eq_of_lt (by omega)] at hrest
      obtain ⟨pieces, rfl, hsplits⟩ := ih (by omega) (by omega) (.inr (by omega)) hrest
      have hlength : ((ps.p.drop offset).take (m - m % 8)).length = m - m % 8 := by
        rw [List.length_take, List.length_drop]
        omega
      have hstop : (⟨offset, (ps.p.drop offset).take (m - m % 8)⟩ : Piece UInt8).stop =
          offset + (m - m % 8) := by
        rw [Piece.stop, hlength]
      refine ⟨⟨offset, (ps.p.drop offset).take (m - m % 8)⟩ :: pieces, ?_, ?_⟩
      · rw [List.map_cons, build, hstop, decide_eq_true (show offset + (m - m % 8) < _ by omega)]
      · constructor
        · exact ⟨rfl, hstop ▸ hsplits.consecutive⟩
        · rw [Piece.reach, hstop, max_eq_right (Nat.le_add_right _ _)]
          exact hsplits.reach
        · rw [List.forall_mem_cons]
          exact ⟨Piece.of_slice (by omega), hsplits.of⟩
        · rw [List.forall_mem_cons]
          exact ⟨haligned, hsplits.aligned⟩
        · intro hp
          rw [List.forall_mem_cons]
          exact ⟨fun hnil ↦ hpos (hlength.symm.trans (congrArg List.length hnil)),
            hsplits.ne_nil hp⟩
        · obtain ⟨q, hq, hqstop⟩ := hsplits.last
          exact ⟨q, List.mem_cons_of_mem _ hq, hqstop⟩
    · rw [fragmentLoop, if_neg hmore] at h
      obtain rfl := Except.ok.inj h
      have hlength : ((ps.p.drop offset).take (ps.p.length - offset)).length =
          ps.p.length - offset := by
        rw [List.length_take, List.length_drop, min_self]
      have hstop : (⟨offset, (ps.p.drop offset).take (ps.p.length - offset)⟩ : Piece UInt8).stop =
          ps.p.length := by
        rw [Piece.stop, hlength, Nat.add_sub_cancel' hoffset]
      refine ⟨[⟨offset, (ps.p.drop offset).take (ps.p.length - offset)⟩], ?_, ?_⟩
      · rw [List.map_singleton, build, hstop, decide_eq_false (lt_irrefl _)]
      · constructor
        · exact ⟨rfl, trivial⟩
        · rw [Piece.reach, hstop, max_eq_right hoffset, Piece.reach]
        · rw [List.forall_mem_singleton]
          exact Piece.of_slice (by omega)
        · rw [List.forall_mem_singleton]
          exact haligned
        · intro hp
          rw [List.forall_mem_singleton]
          intro hnil
          have hzero : ps.p.length - offset = 0 := hlength.symm.trans (congrArg List.length hnil)
          have hpos := List.length_pos_of_ne_nil hp
          omega
        · exact ⟨_, List.mem_singleton_self _, hstop⟩

theorem removeHeaders_length_le (fuel : ℕ) : ∀ {ps ps' : Parts}, removeHeaders fuel ps = .ok ps' →
    ps'.p.length ≤ ps.p.length := by
  induction fuel with
  | zero => exact fun h ↦ absurd h Except.error_ne_ok
  | succ fuel ih =>
    intro ps ps' h
    rw [removeHeaders, Except.bind_eq_ok] at h
    obtain ⟨header, -, h⟩ := h
    have hle : (ps.p.drop header.getSerializedSize).length ≤ ps.p.length := by
      rw [List.length_drop]
      exact Nat.sub_le _ _
    dsimp only at h
    split_ifs at h with hmore
    · exact (ih h).trans hle
    · obtain rfl := Except.ok.inj h
      exact hle

theorem parts_length_le {packet : List UInt8} {ipv6Header : Ipv6Header}
    (h : parts packet ipv6Header = .ok ps) : ps.p.length ≤ packet.length := by
  rw [parts] at h
  split_ifs at h with hmore
  · exact removeHeaders_length_le _ h
  · obtain rfl := Except.ok.inj h
    exact le_rfl

/-- The fragments after some arrivals. -/
def collect (arrivals : List Arrival) : Fragments :=
  (arrivals.filterMap receive).foldl Fragments.update ⟨false, [], none⟩

theorem collect_concat {a : Arrival} {r : Received} (arrivals : List Arrival)
    (hr : receive a = some r) : collect (arrivals ++ [a]) = (collect arrivals).update r := by
  rw [collect, List.filterMap_append, List.filterMap_cons_some hr, List.filterMap_nil,
    List.foldl_append]
  rfl

theorem update_m_packetFragments (f : Fragments) (r : Received) :
    (f.update r).m_packetFragments =
      Piece.place ⟨r.fragmentHeader.getOffset.toNat, r.p⟩ f.m_packetFragments := by
  rw [Fragments.update]
  dsimp only [Fragments.addFragment, Fragments.setUnfragmentablePart]
  split <;> rfl

theorem update_m_moreFragment (f : Fragments) (r : Received) :
    (f.update r).m_moreFragment =
      if ∀ it ∈ f.m_packetFragments, it.offset ≤ r.fragmentHeader.getOffset.toNat then
        r.fragmentHeader.getMoreFragment else f.m_moreFragment := by
  rw [Fragments.update]
  dsimp only [Fragments.addFragment, Fragments.setUnfragmentablePart]
  split <;> rfl

theorem update_m_unfragmentable (f : Fragments) (r : Received) :
    (f.update r).m_unfragmentable =
      if r.fragmentHeader.getOffset.toNat = 0 then some r.unfragmentablePart
        else f.m_unfragmentable := by
  rw [Fragments.update]
  dsimp only [Fragments.addFragment, Fragments.setUnfragmentablePart]
  split <;> rfl

theorem follows_iff {l : List (Piece UInt8)} (hl : ∀ q ∈ l, q.stop < 2 ^ 16) (n : ℕ) :
    Fragments.follows n l = true ↔ Piece.Consecutive n l := by
  induction l generalizing n with
  | nil => exact iff_of_true rfl trivial
  | cons q l ih =>
    rw [List.forall_mem_cons] at hl
    rw [Fragments.follows, Piece.Consecutive]
    split_ifs with hne
    · exact iff_of_false id fun hboth ↦ hne hboth.1.symm
    · rw [not_not] at hne
      have hstop : (n + q.data.length) % 2 ^ 16 = q.stop := by
        rw [hne]
        exact Nat.mod_eq_of_lt hl.1
      rw [hstop, ih hl.2, and_iff_right hne.symm]

/-! ## The arrivals of one packet -/

section Arrivals

variable {pieces : List (Piece UInt8)} {arrivals : List Arrival}

/-- The fragment header is at its place, and the packet is one of the fragments. -/
def Arrives (ps : Parts) (identification : UInt32) (pieces : List (Piece UInt8)) (a : Arrival) :
    Prop :=
  a.offset.toNat = (unfragmentable ps).length ∧ a.packet ∈ pieces.map (build ps identification)

/-- The piece that a packet brings. -/
def piece (r : Received) : Piece UInt8 := ⟨r.fragmentHeader.getOffset.toNat, r.p⟩

theorem Arrives.exists_receive {a : Arrival} (ha : Arrives ps identification pieces a)
    (hsplits : Splits ps.p 0 pieces) (hlen : ps.p.length < 2 ^ 16) :
    ∃ q ∈ pieces, a.packet = build ps identification q ∧
      receive a = some ⟨carried ps, fragmentHeader ps identification q, q.data⟩ ∧
      piece ⟨carried ps, fragmentHeader ps identification q, q.data⟩ = q := by
  obtain ⟨hoffset, hmem⟩ := ha
  obtain ⟨q, hq, hpacket⟩ := List.mem_map.mp hmem
  have hstop := (hsplits.of q hq).1
  refine ⟨q, hq, hpacket.symm, ?_, ?_⟩
  · rw [← receive_build hoffset q, hpacket]
  · rw [piece]
    dsimp only
    rw [(fragmentHeader_spec (hsplits.aligned q hq)
      ((q.offset_le_stop.trans hstop).trans_lt hlen)).1]

/-- What `Process` reads from the fragment with a piece. -/
def received (ps : Parts) (identification : UInt32) (q : Piece UInt8) : Received :=
  ⟨carried ps, fragmentHeader ps identification q, q.data⟩

theorem exists_arrived (hsplits : Splits ps.p 0 pieces) (hlen : ps.p.length < 2 ^ 16)
    (h : ∀ a ∈ arrivals, Arrives ps identification pieces a) :
    ∃ qs : List (Piece UInt8), arrivals.filterMap receive = qs.map (received ps identification) ∧
      arrivals.map Arrival.packet = qs.map (build ps identification) ∧ ∀ q ∈ qs, q ∈ pieces := by
  induction arrivals with
  | nil => exact ⟨[], rfl, rfl, fun q hq ↦ absurd hq List.not_mem_nil⟩
  | cons a arrivals ih =>
    rw [List.forall_mem_cons] at h
    obtain ⟨qs, hreceive, hpacket, hqs⟩ := ih h.2
    obtain ⟨q, hq, hbuild, hr, -⟩ := h.1.exists_receive hsplits hlen
    refine ⟨q :: qs, ?_, ?_, ?_⟩
    · rw [List.filterMap_cons_some hr, hreceive]
      rfl
    · rw [List.map_cons, List.map_cons, hpacket, hbuild]
    · rw [List.forall_mem_cons]
      exact ⟨hq, hqs⟩

theorem piece_received (hsplits : Splits ps.p 0 pieces) (hlen : ps.p.length < 2 ^ 16)
    {q : Piece UInt8} (hq : q ∈ pieces) : piece (received ps identification q) = q := by
  have hstop := (hsplits.of q hq).1
  rw [piece, received]
  dsimp only
  rw [(fragmentHeader_spec (hsplits.aligned q hq)
    ((q.offset_le_stop.trans hstop).trans_lt hlen)).1]

theorem build_inj (hsplits : Splits ps.p 0 pieces) (hlen : ps.p.length < 2 ^ 16)
    {q q' : Piece UInt8} (hq : q ∈ pieces) (hq' : q' ∈ pieces)
    (h : build ps identification q = build ps identification q') : q = q' := by
  rw [build_eq, build_eq, List.append_cancel_left_eq] at h
  have hread := congrArg Ipv6ExtensionFragmentHeader.deserialize h
  rw [deserialize_serialize, deserialize_serialize, Except.ok_inj, Prod.mk.injEq] at hread
  rw [← @piece_received _ identification _ hsplits hlen _ hq,
    ← @piece_received _ identification _ hsplits hlen _ hq', received, received, hread.1, hread.2]

theorem foldl_update_m_unfragmentable {qs : List (Piece UInt8)}
    (hpiece : ∀ q ∈ qs, piece (received ps identification q) = q) (h : ∃ q ∈ qs, q.offset = 0) :
    (qs.foldl (fun f q ↦ Fragments.update f (received ps identification q))
      ⟨false, [], none⟩).m_unfragmentable = some (carried ps) := by
  induction qs using List.reverseRecOn with
  | nil =>
    obtain ⟨q, hq, -⟩ := h
    exact absurd hq List.not_mem_nil
  | append_singleton qs b ih =>
    rw [List.foldl_append, List.foldl_cons, List.foldl_nil, update_m_unfragmentable]
    have hb : (received ps identification b).fragmentHeader.getOffset.toNat = b.offset :=
      congrArg Piece.offset (hpiece b (List.mem_append_right _ (List.mem_singleton_self b)))
    rw [hb]
    split_ifs with hzero
    · rfl
    · apply ih (fun q hq ↦ hpiece q (List.mem_append_left _ hq))
      obtain ⟨q, hq, hqzero⟩ := h
      rcases List.mem_append.mp hq with hq | hq
      · exact ⟨q, hq, hqzero⟩
      · exact absurd (List.mem_singleton.mp hq ▸ hqzero) hzero

theorem foldl_update_spec (hsplits : Splits ps.p 0 pieces) (hlen : ps.p.length < 2 ^ 16)
    {qs : List (Piece UInt8)} (hqs : ∀ q ∈ qs, q ∈ pieces) :
    Piece.Sorted ((qs.map (received ps identification)).foldl Fragments.update
      ⟨false, [], none⟩).m_packetFragments ∧
    ((qs.map (received ps identification)).foldl Fragments.update
      ⟨false, [], none⟩).m_packetFragments.Perm qs ∧
    (qs ≠ [] → (((qs.map (received ps identification)).foldl Fragments.update
      ⟨false, [], none⟩).m_moreFragment = false ↔
        Piece.TailIs Piece.offset (fun q ↦ ¬ q.stop < ps.p.length) qs)) ∧
    ((∃ q ∈ qs, q.offset = 0) → ((qs.map (received ps identification)).foldl Fragments.update
      ⟨false, [], none⟩).m_unfragmentable = some (carried ps)) := by
  have hpiece : ∀ q ∈ qs, piece (received ps identification q) = q := fun q hq ↦
    piece_received hsplits hlen (hqs q hq)
  have hmore : ∀ q ∈ qs, (fragmentHeader ps identification q).getMoreFragment =
      decide (q.stop < ps.p.length) := by
    intro q hq
    have hstop := (hsplits.of q (hqs q hq)).1
    exact (fragmentHeader_spec (hsplits.aligned q (hqs q hq))
      ((q.offset_le_stop.trans hstop).trans_lt hlen)).2.1
  rw [List.foldl_map]
  obtain ⟨hsorted, hperm, htail⟩ := Piece.foldl_place
    (fun f q ↦ Fragments.update f (received ps identification q)) Fragments.m_packetFragments
    Fragments.m_moreFragment (fun q ↦ piece (received ps identification q))
    (fun q ↦ (fragmentHeader ps identification q).getMoreFragment)
    (fun f q ↦ update_m_packetFragments f _) (fun f q ↦ update_m_moreFragment f _)
    (s := ⟨false, [], none⟩) rfl qs
  refine ⟨hsorted, ?_, fun hne ↦ (htail hne).trans ⟨?_, ?_⟩, ?_⟩
  · rwa [List.map_congr_left hpiece, List.map_id'] at hperm
  · refine Piece.TailIs.congr (fun q hq ↦ congrArg _ (hpiece q hq)) fun q hq hlook ↦ ?_
    rwa [hmore q hq, decide_eq_false_iff_not] at hlook
  · refine Piece.TailIs.congr (fun q hq ↦ congrArg _ (hpiece q hq).symm) fun q hq hlook ↦ ?_
    rwa [hmore q hq, decide_eq_false_iff_not]
  · exact foldl_update_m_unfragmentable hpiece

theorem foldl_append_data (l : List (Piece UInt8)) (p : List UInt8) :
    l.foldl (fun p it ↦ p ++ it.data) p = p ++ l.flatMap Piece.data := by
  induction l generalizing p with
  | nil => exact (List.append_nil p).symm
  | cons it l ih => rw [List.foldl_cons, ih, List.flatMap_cons, List.append_assoc]

namespace Splits

theorem getPacket_eq (hsplits : Splits ps.p 0 pieces) {f : Fragments} {qs : List (Piece UInt8)}
    (hqs : ∀ q ∈ qs, q ∈ pieces) (hall : ∀ q ∈ pieces, q ∈ qs) (hperm : f.m_packetFragments.Perm qs)
    (hpart : (∃ q ∈ qs, q.offset = 0) → f.m_unfragmentable = some (carried ps))
    (hfollows : Piece.Consecutive 0 f.m_packetFragments) :
    f.getPacket = some (carried ps ++ ps.p) := by
  have hof : ∀ q ∈ f.m_packetFragments, q.Of ps.p := fun q hq ↦
    hsplits.of q (hqs q (hperm.mem_iff.mp hq))
  obtain ⟨last, hlast, hstop⟩ := hsplits.last
  have hreach : Piece.reach 0 f.m_packetFragments = ps.p.length := by
    apply le_antisymm
    · exact Piece.reach_le (Nat.zero_le _) fun q hq ↦ (hof q hq).1
    · rw [← hstop]
      exact Piece.stop_le_reach (hperm.mem_iff.mpr (hall last hlast))
  have hfirst : ∃ q ∈ qs, q.offset = 0 := by
    cases hcons : f.m_packetFragments with
    | nil => exact absurd (hcons ▸ hperm.mem_iff.mpr (hall last hlast)) List.not_mem_nil
    | cons it rest =>
      rw [hcons] at hfollows hperm
      exact ⟨it, hperm.mem_iff.mp List.mem_cons_self, hfollows.1⟩
  have hdata := hfollows.flatMap hof (Nat.zero_le _)
  rw [List.take_zero, List.nil_append, hreach, List.take_length] at hdata
  rw [Fragments.getPacket, hpart hfirst, Option.map_some, foldl_append_data, hdata]

theorem eq_of_perm (hsplits : Splits ps.p 0 pieces) (hne : ps.p ≠ []) {l : List (Piece UInt8)}
    (hsorted : Piece.Sorted l) (hperm : l.Perm pieces) : l = pieces := by
  have hlt := hsplits.consecutive.pairwise_lt (hsplits.ne_nil hne)
  refine List.Perm.eq_of_pairwise ?_ hsorted (hlt.imp le_of_lt) hperm
  intro q q' hq hq' hle hge
  by_contra hdiffer
  have hpos := List.length_pos_of_ne_nil (hsplits.ne_nil hne q (hperm.mem_iff.mp hq))
  have hpos' := List.length_pos_of_ne_nil (hsplits.ne_nil hne q' hq')
  have hor := hsplits.consecutive.stop_le_or (hperm.mem_iff.mp hq) hq' hdiffer
  rw [Piece.stop, Piece.stop] at hor
  omega

theorem tailIs (hsplits : Splits ps.p 0 pieces) (hne : ps.p ≠ []) {qs : List (Piece UInt8)}
    (hqs : ∀ q ∈ qs, q ∈ pieces) (hall : ∀ q ∈ pieces, q ∈ qs) (hnodup : qs.Nodup) :
    Piece.TailIs Piece.offset (fun q ↦ ¬ q.stop < ps.p.length) qs := by
  obtain ⟨last, hlast, hstop⟩ := hsplits.last
  have hlt : ∀ q ∈ qs, q ≠ last → q.offset < last.offset := fun q hq hdiffer ↦
    hsplits.consecutive.offset_lt_of_stop_eq (hsplits.ne_nil hne) hlast
      (fun p hp ↦ hstop ▸ (hsplits.of p hp).1) (hqs q hq) hdiffer
  obtain ⟨before, after, rfl⟩ := List.append_of_mem (hall last hlast)
  obtain ⟨-, hafter, hdisjoint⟩ := List.nodup_append.mp hnodup
  refine ⟨before, last, after, rfl, hstop.not_lt, fun b hb ↦ ?_, fun b hb ↦ ?_⟩
  · refine (hlt b (List.mem_append_left _ hb) ?_).le
    exact hdisjoint b hb last List.mem_cons_self
  · apply hlt b (List.mem_append_right _ (List.mem_cons_of_mem _ hb))
    rintro rfl
    exact (List.nodup_cons.mp hafter).1 hb

end Splits

/-- **When the fragments are entire.** All of them have arrived, and none of them twice. -/
theorem isEntire_iff (hsplits : Splits ps.p 0 pieces) (hlen : ps.p.length < 2 ^ 16)
    (hne : ps.p ≠ []) {f : Fragments} {qs : List (Piece UInt8)} (hqs : ∀ q ∈ qs, q ∈ pieces)
    (hall : ∀ q ∈ pieces, q ∈ qs) (hsorted : Piece.Sorted f.m_packetFragments)
    (hperm : f.m_packetFragments.Perm qs)
    (hmore : qs ≠ [] → (f.m_moreFragment = false ↔
      Piece.TailIs Piece.offset (fun q ↦ ¬ q.stop < ps.p.length) qs)) :
    f.isEntire = true ↔ qs.Nodup := by
  obtain ⟨last, hlast, -⟩ := hsplits.last
  have hqsne : qs ≠ [] := List.ne_nil_of_mem (hall last hlast)
  have hpos : 0 < f.m_packetFragments.length := by
    rw [hperm.length_eq]
    exact List.length_pos_of_ne_nil hqsne
  have hscan := follows_iff (l := f.m_packetFragments)
    (fun q hq ↦ ((hsplits.of q (hqs q (hperm.mem_iff.mp hq))).1).trans_lt hlen) 0
  rw [Fragments.isEntire, Bool.and_eq_true, Bool.and_eq_true, Bool.not_eq_true', decide_eq_true_iff,
    hmore hqsne, hscan, and_iff_left hpos]
  constructor
  · rintro ⟨-, hfollows⟩
    have hlt := hfollows.pairwise_lt fun q hq ↦
      hsplits.ne_nil hne q (hqs q (hperm.mem_iff.mp hq))
    refine hperm.nodup_iff.mp (hlt.imp ?_)
    rintro q q' hlt rfl
    exact lt_irrefl _ hlt
  · intro hnodup
    refine ⟨hsplits.tailIs hne hqs hall hnodup, ?_⟩
    have hpieces : pieces.Nodup := by
      refine (hsplits.consecutive.pairwise_lt (hsplits.ne_nil hne)).imp ?_
      rintro q q' hlt rfl
      exact lt_irrefl _ hlt
    have hsame : qs.Perm pieces :=
      (List.perm_ext_iff_of_nodup hnodup hpieces).mpr fun q ↦ ⟨hqs q, hall q⟩
    rw [hsplits.eq_of_perm hne hsorted (hperm.trans hsame)]
    exact hsplits.consecutive

theorem isEntire_of_nil (hsplits : Splits ps.p 0 pieces)
    (hnil : ps.p = []) {f : Fragments} {qs : List (Piece UInt8)} (hqs : ∀ q ∈ qs, q ∈ pieces)
    (hqsne : qs ≠ []) (hperm : f.m_packetFragments.Perm qs)
    (hmore : qs ≠ [] → (f.m_moreFragment = false ↔
      Piece.TailIs Piece.offset (fun q ↦ ¬ q.stop < ps.p.length) qs)) : f.isEntire = true := by
  have hzero : ∀ q ∈ qs, q.offset = 0 ∧ q.data = [] := by
    intro q hq
    have hstop := (hsplits.of q (hqs q hq)).1
    rw [hnil, List.length_nil, Piece.stop] at hstop
    exact ⟨by omega, List.length_eq_zero_iff.mp (by omega)⟩
  have hpos : 0 < f.m_packetFragments.length := by
    rw [hperm.length_eq]
    exact List.length_pos_of_ne_nil hqsne
  have hfollows : ∀ l : List (Piece UInt8), (∀ q ∈ l, q ∈ qs) → Fragments.follows 0 l = true := by
    intro l hl
    induction l with
    | nil => rfl
    | cons q l ih =>
      rw [List.forall_mem_cons] at hl
      obtain ⟨hoffset, hdata⟩ := hzero q hl.1
      rw [Fragments.follows, hoffset, hdata, if_neg (not_not.mpr rfl)]
      exact ih hl.2
  have htail : Piece.TailIs Piece.offset (fun q ↦ ¬ q.stop < ps.p.length) qs := by
    obtain ⟨before, last, rfl⟩ := List.eq_nil_or_concat qs |>.resolve_left hqsne
    rw [List.concat_eq_append] at hzero ⊢
    refine ⟨before, last, [], rfl, ?_, fun b hb ↦ ?_, fun b hb ↦ absurd hb List.not_mem_nil⟩
    · rw [hnil]
      exact Nat.not_lt_zero _
    · rw [(hzero b (List.mem_append_left _ hb)).1]
      exact Nat.zero_le _
  rw [Fragments.isEntire, (hmore hqsne).mpr htail, decide_eq_true hpos,
    hfollows _ fun q hq ↦ hperm.mem_iff.mp hq]
  rfl

theorem nodup_iff {offset : ℕ} {arrivals : List Arrival} {pieces qs : List (Piece UInt8)}
    (hsplits : Splits ps.p 0 pieces) (hlen : ps.p.length < 2 ^ 16) (hqs : ∀ q ∈ qs, q ∈ pieces)
    (hoffset : ∀ a ∈ arrivals, a.offset.toNat = offset)
    (hpacket : arrivals.map Arrival.packet = qs.map (build ps identification)) :
    arrivals.Nodup ↔ qs.Nodup := by
  have hinj : ∀ a ∈ arrivals, ∀ b ∈ arrivals, a.packet = b.packet → a = b := by
    intro a ha b hb heq
    exact Arrival.ext heq (UInt8.toNat_inj.mp ((hoffset a ha).trans (hoffset b hb).symm))
  constructor
  · intro hnodup
    have hmap := hnodup.map_on hinj
    rw [hpacket] at hmap
    exact hmap.of_map
  · intro hnodup
    have hmap := hnodup.map_on fun q hq q' hq' heq ↦
      @build_inj _ identification _ hsplits hlen _ _ (hqs q hq) (hqs q' hq') heq
    rw [← hpacket] at hmap
    exact hmap.of_map

theorem collect_isEntire_of_nil (hsplits : Splits ps.p 0 pieces) (hnil : ps.p = [])
    (harrives : ∀ a ∈ arrivals, Arrives ps identification pieces a) (hne : arrivals ≠ []) :
    (collect arrivals).isEntire = true := by
  have hlen : ps.p.length < 2 ^ 16 := by
    rw [hnil]
    decide
  obtain ⟨qs, hreceive, hpacket, hqs⟩ := exists_arrived hsplits hlen harrives
  obtain ⟨-, hperm, hmore, -⟩ := @foldl_update_spec _ identification _ hsplits hlen _ hqs
  rw [← hreceive, ← collect] at hperm hmore
  refine isEntire_of_nil hsplits hnil hqs ?_ hperm hmore
  rintro rfl
  exact hne (List.map_eq_nil_iff.mp hpacket)

/-- **The arrivals of a packet.** When all fragments have arrived, they are entire just if none has
come twice, and then `GetPacket` joins them. -/
theorem collect_spec (hsplits : Splits ps.p 0 pieces) (hlen : ps.p.length < 2 ^ 16)
    (harrives : ∀ a ∈ arrivals, Arrives ps identification pieces a)
    (hall : ∀ fragment ∈ pieces.map (build ps identification),
      fragment ∈ arrivals.map Arrival.packet) (hone : ps.p = [] → ∃ a, arrivals = [a]) :
    ((collect arrivals).isEntire = true ↔ arrivals.Nodup) ∧
    ((collect arrivals).isEntire = true →
      (collect arrivals).getPacket = some (carried ps ++ ps.p)) := by
  obtain ⟨qs, hreceive, hpacket, hqs⟩ := exists_arrived hsplits hlen harrives
  obtain ⟨hsorted, hperm, hmore, hpart⟩ := @foldl_update_spec _ identification _ hsplits hlen _ hqs
  rw [← hreceive, ← collect] at hsorted hperm hmore hpart
  have hpieces : ∀ q ∈ pieces, q ∈ qs := by
    intro q hq
    have hmem := hall _ (List.mem_map_of_mem hq)
    rw [hpacket] at hmem
    obtain ⟨q', hq', heq⟩ := List.mem_map.mp hmem
    exact build_inj hsplits hlen (hqs q' hq') hq heq ▸ hq'
  constructor
  · by_cases hnil : ps.p = []
    · obtain ⟨a, rfl⟩ := hone hnil
      exact iff_of_true
        (collect_isEntire_of_nil hsplits hnil harrives (List.cons_ne_nil _ _))
        (List.nodup_singleton a)
    · rw [nodup_iff hsplits hlen hqs (fun a ha ↦ (harrives a ha).1) hpacket]
      exact isEntire_iff hsplits hlen hnil hqs hpieces hsorted hperm hmore
  · intro hentire
    rw [Fragments.isEntire, Bool.and_eq_true] at hentire
    have hfollows := (follows_iff
      (fun q hq ↦ ((hsplits.of q (hqs q (hperm.mem_iff.mp hq))).1).trans_lt hlen) 0).mp hentire.2
    exact hsplits.getPacket_eq hqs hpieces hperm hpart hfollows

end Arrivals

/-! ## All runs -/

/-- A state, and what has arrived for each packet that waits. -/
structure Collected where
  state : Ipv6ExtensionFragment
  got : Ipv6FragmentKey → List Arrival

/-- The key under which `Process` keeps a fragment. -/
def keyOf (a : Arrival) (ipv6Header : Ipv6Header) : Option Ipv6FragmentKey :=
  (receive a).map fun r ↦ (ipv6Header.m_sourceAddress, r.fragmentHeader.m_identification)

/-- What has arrived after a step: nothing if the packet does not wait. -/
def record (got : Ipv6FragmentKey → List Arrival) (s' : Ipv6ExtensionFragment) (op : Op)
    (k : Ipv6FragmentKey) : List Arrival :=
  if (s'.m_fragments k).isSome then
    match op with
    | .process a ipv6Header => if keyOf a ipv6Header = some k then got k ++ [a] else got k
    | .handleFragmentsTimeout _ => got k
  else []

/-- The runs from a state without fragments, with what has arrived. -/
def collected : Machine Collected Op where
  init := ⟨⟨fun _ ↦ none⟩, fun _ ↦ []⟩
  next c op := (c.state.next op).map fun s ↦ ⟨s, record c.got s op⟩

/-- The fragments of each packet that waits are those that have arrived for it, and they are not
entire. -/
def Holds (s : Ipv6ExtensionFragment) (got : Ipv6FragmentKey → List Arrival) : Prop :=
  ∀ k, (∀ f, s.m_fragments k = some f → f = collect (got k) ∧ f.isEntire = false) ∧
    (s.m_fragments k = none → got k = [])

namespace Holds

variable {got : Ipv6FragmentKey → List Arrival}

theorem getD_update (hh : Holds s got) {a : Arrival} {r : Received} (hr : receive a = some r) :
    ((s.m_fragments k).getD ⟨false, [], none⟩).update r = collect (got k ++ [a]) := by
  rw [collect_concat _ hr]
  cases hk : s.m_fragments k with
  | none =>
    rw [(hh k).2 hk]
    rfl
  | some f =>
    rw [Option.getD_some, ((hh k).1 f hk).1]

theorem process_eq (hh : Holds s got) {a : Arrival} {r : Received} (ipv6Header : Ipv6Header)
    (hr : receive a = some r)
    (hk : k = (ipv6Header.m_sourceAddress, r.fragmentHeader.m_identification)) :
    s.process a ipv6Header = if (collect (got k ++ [a])).isEntire then
        (collect (got k ++ [a])).getPacket.map fun packet ↦
          (⟨Function.update s.m_fragments k none⟩, some packet)
      else some (⟨Function.update s.m_fragments k (some (collect (got k ++ [a])))⟩, none) := by
  rw [process, hr, Option.bind_eq_bind, Option.bind_some]
  dsimp only
  rw [← hk, hh.getD_update hr]
  split_ifs
  · cases (collect (got k ++ [a])).getPacket <;> rfl
  · rfl

theorem process_m_fragments (hh : Holds s got) {a : Arrival} {ipv6Header : Ipv6Header}
    {out : Option (List UInt8)} (hs : s.process a ipv6Header = some (s', out)) :
    ∃ k, keyOf a ipv6Header = some k ∧ s'.m_fragments = Function.update s.m_fragments k
      (if (collect (got k ++ [a])).isEntire then none else some (collect (got k ++ [a]))) := by
  cases hr : receive a with
  | none =>
    rw [Ipv6ExtensionFragment.process, hr] at hs
    exact absurd hs (Option.some_ne_none _).symm
  | some r =>
    refine ⟨(ipv6Header.m_sourceAddress, r.fragmentHeader.m_identification), ?_, ?_⟩
    · rw [keyOf, hr, Option.map_some]
    · rw [hh.process_eq ipv6Header hr rfl] at hs
      split_ifs at hs with hentire
      · obtain ⟨packet, -, heq⟩ := Option.map_eq_some_iff.mp hs
        obtain ⟨rfl, -⟩ := Prod.mk.inj heq
        rw [if_pos hentire]
      · obtain ⟨rfl, -⟩ := Prod.mk.inj (Option.some.inj hs)
        rw [if_neg hentire]

theorem process (hh : Holds s got) {a : Arrival} {ipv6Header : Ipv6Header}
    {out : Option (List UInt8)} (hs : s.process a ipv6Header = some (s', out)) :
    Holds s' (record got s' (.process a ipv6Header)) := by
  obtain ⟨k₀, hkey, hfragments⟩ := hh.process_m_fragments hs
  intro k
  refine ⟨fun f hf ↦ ?_, fun hnone ↦ ?_⟩
  · rw [record, hf, if_pos Option.isSome_some]
    rw [hfragments] at hf
    by_cases hk : k = k₀
    · subst hk
      rw [Function.update_self, Option.ite_none_left_eq_some, Option.some_inj] at hf
      obtain ⟨hentire, rfl⟩ := hf
      rw [if_pos hkey]
      exact ⟨rfl, Bool.eq_false_of_not_eq_true hentire⟩
    · rw [Function.update_of_ne hk] at hf
      rw [if_neg fun heq ↦ hk (Option.some.inj (heq.symm.trans hkey))]
      exact (hh k).1 f hf
  · rw [record, hnone]
    exact if_neg Bool.false_ne_true

theorem of_shrinks (hh : Holds s got)
    (h : ∀ k, s'.m_fragments k = none ∨ s'.m_fragments k = s.m_fragments k) :
    Holds s' fun k ↦ if (s'.m_fragments k).isSome then got k else [] := by
  intro k
  refine ⟨fun f hf ↦ ?_, fun hnone ↦ ?_⟩
  · dsimp only
    rw [hf, if_pos Option.isSome_some]
    rcases h k with hnone | hsame
    · exact absurd (hnone.symm.trans hf) (Option.some_ne_none _).symm
    · exact (hh k).1 f (hsame.symm.trans hf)
  · dsimp only
    rw [hnone]
    exact if_neg Bool.false_ne_true

theorem next (hh : Holds s got) {op : Op} (hs : s.next op = some s') :
    Holds s' (record got s' op) := by
  cases op with
  | process a ipv6Header =>
    obtain ⟨⟨s₁, out⟩, hprocess, rfl⟩ := Option.map_eq_some_iff.mp hs
    exact hh.process hprocess
  | handleFragmentsTimeout fragmentKey =>
    rw [Ipv6ExtensionFragment.next, Option.ite_none_right_eq_some, Option.some_inj] at hs
    obtain ⟨-, rfl⟩ := hs
    apply hh.of_shrinks
    intro k
    by_cases hk : k = fragmentKey
    · subst hk
      exact .inl (Function.update_self ..)
    · exact .inr (Function.update_of_ne hk ..)

end Holds

theorem holds_of_run {as : List Op} {c : Collected} (hr : collected.Run Machine.unguarded as c) :
    Holds c.state c.got := by
  refine hr.invariant (I := fun c ↦ Holds c.state c.got) ?_ ?_
  · exact fun k ↦ ⟨fun f hf ↦ absurd hf (Option.some_ne_none _).symm, fun _ ↦ rfl⟩
  · intro c op c' hh _ hs
    obtain ⟨s', hs', rfl⟩ := Option.map_eq_some_iff.mp hs
    exact hh.next hs'

/-! ## When a packet is reassembled -/

/-- If each of the fragments has arrived when `a` does, then `Process` hands over the unfragmentable
part and the fragmentable part of the packet. -/
def Reassembles (s : Ipv6ExtensionFragment) (ps : Parts) (fragments : List (List UInt8))
    (arrivals : List Arrival) (a : Arrival) (ipv6Header : Ipv6Header) : Prop :=
  (∀ fragment ∈ fragments, fragment ∈ arrivals.map Arrival.packet) →
    ∃ s', s.process a ipv6Header = some (s', some (unfragmentable ps ++ ps.p))

end Ipv6ExtensionFragment

end Ns3
