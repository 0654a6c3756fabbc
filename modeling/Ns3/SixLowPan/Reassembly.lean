import Ns3.SixLowPan.Fragmentation

/-!
# Reassembly of compressed packets

A cut packet is a list of pieces, each of which starts where the one before it ends, if the first one
is taken as it is after its decompression. `IsEntire` looks for a gap and for the end of the packet, so
it is true of a part of the pieces only if no piece is missing, provided that no piece is empty.
-/

namespace Ns3

namespace SixLowPan

open Buffer (Failure readU8 readU8_cons toNat_shiftLeft_or16)

variable {tag : UInt16} {n : ℕ} {data : List UInt8}

/-! ## Fragment headers -/

theorem toNat_and_255 (x : UInt16) : (x &&& 0xff).toNat = x.toNat % 256 :=
  Nat.and_two_pow_sub_one_eq_mod x.toNat 8

theorem toNat_and_2047 (x : UInt16) : (x &&& 0x7FF).toNat = x.toNat % 2048 :=
  Nat.and_two_pow_sub_one_eq_mod x.toNat 11

theorem toNat_shiftRight_8 (x : UInt16) : (x >>> 8).toNat = x.toNat / 256 :=
  (UInt16.toNat_shiftRight x 8).trans (Nat.shiftRight_eq_div_pow x.toNat 8)

theorem octets_join (x : UInt16) :
    ((x >>> 8).toUInt8.toUInt16 <<< 8) ||| (x &&& 0xff).toUInt8.toUInt16 = x := by
  have hx := x.toNat_lt
  have hhigh : (x >>> 8).toUInt8.toNat = x.toNat / 256 := by
    rw [UInt16.toNat_toUInt8, toNat_shiftRight_8]
    omega
  have hlow : (x &&& 0xff).toUInt8.toNat = x.toNat % 256 := by
    rw [UInt16.toNat_toUInt8, toNat_and_255]
    exact Nat.mod_mod x.toNat 256
  apply UInt16.toNat_inj.mp
  rw [toNat_shiftLeft_or16 (by rw [UInt8.toNat_toUInt16]; omega), UInt8.toNat_toUInt16, hhigh, hlow]
  exact Nat.div_add_mod' x.toNat 256

@[simp] theorem readU16_writeU16 (x : UInt16) (i : List UInt8) :
    readU16 (writeU16 x ++ i) = .ok (x, i) := by
  have hmask : ((x >>> 8) &&& 0xff).toUInt8 = (x >>> 8).toUInt8 := by
    apply UInt8.toNat_inj.mp
    rw [UInt16.toNat_toUInt8, UInt16.toNat_toUInt8, toNat_and_255]
    exact Nat.mod_mod _ 256
  rw [writeU16, hmask, readU16]
  simp only [List.cons_append, List.nil_append, readU8_cons, Except.ok_bind]
  rw [octets_join]
  rfl

theorem readSize_writeSize {dispatch : UInt16} (h : (dispatch <<< 8) &&& 0x7FF = 0) (x : UInt16)
    (i : List UInt8) : readSize (writeSize dispatch x ++ i) = .ok (x &&& 0x7FF, i) := by
  have hor : ∀ y z : UInt16, (x ||| y) &&& z = (x &&& z) ||| (y &&& z) := fun y z ↦
    UInt16.toBitVec_inj.mp BitVec.and_or_distrib_right
  rw [writeSize, readSize]
  simp only [List.cons_append, List.nil_append, readU8_cons, Except.ok_bind]
  rw [octets_join, hor, h, UInt16.or_zero]
  rfl

theorem and_mask_ofNat (hn : n ≤ 2047) : UInt16.ofNat n &&& 0x7FF = UInt16.ofNat n := by
  apply UInt16.toNat_inj.mp
  rw [toNat_and_2047, UInt16.toNat_ofNat', Nat.mod_eq_of_lt (by omega), Nat.mod_eq_of_lt (by omega)]

theorem toNat_ofNat (hn : n ≤ 2047) : (UInt16.ofNat n).toNat = n := by
  rw [UInt16.toNat_ofNat']
  exact Nat.mod_eq_of_lt (by omega)

theorem deserialize_frag1 (hn : n ≤ 2047) :
    SixLowPanFrag1.deserialize (frag1 tag n data) = .ok (⟨UInt16.ofNat n, tag⟩, data) := by
  rw [frag1, SixLowPanFrag1.deserialize, SixLowPanFrag1.serialize, SixLowPanFrag1.setDatagramSize]
  dsimp only
  rw [List.append_assoc, readSize_writeSize rfl, Except.ok_bind]
  dsimp only
  rw [readU16_writeU16, Except.ok_bind, and_mask_ofNat hn, and_mask_ofNat hn]
  rfl

theorem deserialize_fragN (hn : n ≤ 2047) (offset : ℕ) :
    SixLowPanFragN.deserialize (fragN tag n offset data) =
      .ok (⟨UInt16.ofNat n, tag, UInt8.ofNat (offset >>> 3)⟩, data) := by
  rw [fragN, SixLowPanFragN.deserialize, SixLowPanFragN.serialize, SixLowPanFragN.setDatagramSize]
  dsimp only
  rw [List.append_assoc, List.append_assoc, readSize_writeSize rfl, Except.ok_bind]
  dsimp only
  rw [readU16_writeU16, Except.ok_bind, and_mask_ofNat hn, and_mask_ofNat hn]
  rfl

theorem toNat_offset {offset : ℕ} (haligned : offset % 8 = 0) (hle : offset ≤ 2047) :
    (UInt8.ofNat (offset >>> 3)).toNat <<< 3 = offset := by
  rw [UInt8.toNat_ofNat', Nat.shiftRight_eq_div_pow, Nat.shiftLeft_eq]
  omega

theorem length_frag1 (m : ℕ) : (frag1 tag m data).length = SixLowPanFrag1.serializedSize + data.length := by
  rw [frag1, List.length_append]
  rfl

theorem length_fragN (m offset : ℕ) :
    (fragN tag m offset data).length = SixLowPanFragN.serializedSize + data.length := by
  rw [fragN, List.length_append]
  rfl

/-! ## Some of the pieces of a packet -/

namespace Fragments

variable {l : List (Piece UInt8)} {q : Piece UInt8} {e : ℕ}

theorem insert_of_lt {offset : ℕ} (h : ∀ p ∈ l, offset < p.offset) :
    insert data offset l = .ok (⟨offset, data⟩ :: l) := by
  cases l with
  | nil => rfl
  | cons p l => exact if_pos (h p List.mem_cons_self)

theorem insert_filter (hl : l.Pairwise fun p q ↦ p.offset < q.offset) (hq : q ∈ l)
    (P : Piece UInt8 → Prop) [DecidablePred P] :
    insert q.data q.offset (l.filter fun p ↦ P p) = .ok (l.filter fun p ↦ P p ∨ p = q) := by
  induction l with
  | nil => exact absurd hq List.not_mem_nil
  | cons p l ih =>
    obtain ⟨hp, hl⟩ := List.pairwise_cons.mp hl
    rcases List.mem_cons.mp hq with rfl | hmem
    · have hrest : l.filter (fun p ↦ P p ∨ p = q) = l.filter fun p ↦ P p := by
        apply List.filter_congr
        intro p hmem
        have hne : p ≠ q := fun h ↦ (hp p hmem).ne (congrArg Piece.offset h.symm)
        exact decide_eq_decide.mpr (or_iff_left hne)
      rw [List.filter_cons, List.filter_cons, hrest, if_pos (decide_eq_true (Or.inr rfl))]
      by_cases hP : P q
      · rw [if_pos (decide_eq_true hP), insert, if_neg (lt_irrefl _), if_pos rfl, if_pos rfl]
      · rw [if_neg (by rwa [decide_eq_true_iff]), insert_of_lt]
        intro p hmem
        exact hp p (List.mem_filter.mp hmem).1
    · have hlt := hp q hmem
      have hne : p ≠ q := fun h ↦ hlt.ne (congrArg Piece.offset h)
      rw [List.filter_cons, List.filter_cons]
      by_cases hP : P p
      · rw [if_pos (decide_eq_true hP), if_pos (decide_eq_true (Or.inl hP)), insert,
          if_neg hlt.not_gt, if_neg hlt.ne, ih hl hmem]
        rfl
      · rw [if_neg (by rwa [decide_eq_true_iff]),
          if_neg (by rw [decide_eq_true_iff]; exact not_or.mpr ⟨hP, hne⟩), ih hl hmem]

/-- The scan comes to the end if and only if no piece is missing. -/
theorem lastEnd_filter (hl : Piece.Consecutive e l) (hne : ∀ p ∈ l, p.data ≠ [])
    (hlt : ∀ p ∈ l, p.stop < 2 ^ 16) (P : Piece UInt8 → Prop) [DecidablePred P] :
    lastEnd e (l.filter fun p ↦ P p) = some (Piece.reach e l) ↔ ∀ p ∈ l, P p := by
  induction l generalizing e with
  | nil => exact iff_of_true rfl fun p hp ↦ absurd hp List.not_mem_nil
  | cons p l ih =>
    obtain ⟨rfl, hrest⟩ := hl
    rw [List.forall_mem_cons] at hne hlt
    rw [List.forall_mem_cons, List.filter_cons, Piece.reach, max_eq_right p.offset_le_stop]
    by_cases hP : P p
    · have hstop : (p.data.length + p.offset) % 2 ^ 16 = p.stop := by
        rw [Nat.add_comm, ← Piece.stop, Nat.mod_eq_of_lt hlt.1]
      rw [if_pos (decide_eq_true hP), lastEnd, if_neg (lt_irrefl _), hstop,
        max_eq_right p.offset_le_stop, ih hrest hne.2 hlt.2, and_iff_right hP]
    · have hpos : p.offset < p.stop := Nat.lt_add_of_pos_right (List.length_pos_of_ne_nil hne.1)
      rw [if_neg (by rwa [decide_eq_true_iff])]
      refine iff_of_false ?_ fun h ↦ hP h.1
      -- what is left of the other pieces starts behind the missing one, or there is nothing left
      cases hfilter : l.filter fun p ↦ P p with
      | nil =>
        intro h
        have hle := Piece.le_reach p.stop l
        exact (hpos.trans_le hle).ne (Option.some.inj h)
      | cons r rest =>
        have hr : r ∈ l := by
          have hmem : r ∈ l.filter fun p ↦ P p := hfilter ▸ List.mem_cons_self
          exact (List.mem_filter.mp hmem).1
        rw [lastEnd, if_pos (hpos.trans_le (hrest.le_offset r hr))]
        exact Option.some_ne_none _ ∘ Eq.symm

theorem addAtEnd_eq (hl : Piece.Consecutive e l) (hlt : ∀ p ∈ l, p.stop < 2 ^ 16) :
    addAtEnd e l = .ok (l.flatMap Piece.data) := by
  induction l generalizing e with
  | nil => rfl
  | cons p l ih =>
    obtain ⟨rfl, hrest⟩ := hl
    rw [List.forall_mem_cons] at hlt
    rw [addAtEnd, if_neg (lt_irrefl _), ← Piece.stop, Nat.mod_eq_of_lt hlt.1, ih hrest hlt.2]
    rfl

/-- The fragments have no gap, so a first one of another size is too long, and `GetPacket` fails. -/
theorem getPacket_eq_error {q₀ : Piece UInt8} {n : ℕ} {first : List UInt8}
    (hlt : q₀.data.length < 2 ^ 16) (hne : q₀.data.length ≠ q.offset)
    (hentire : isEntire ⟨n, q₀ :: q :: l, some first⟩ = true) :
    getPacket ⟨n, q₀ :: q :: l, some first⟩ = .error .aborted := by
  rw [isEntire, Bool.and_eq_true, decide_eq_true_iff, decide_eq_true_iff] at hentire
  obtain ⟨-, hlast⟩ := hentire
  rw [lastEnd, lastEnd] at hlast
  split_ifs at hlast with hgap hgap'
  rw [Nat.eq_zero_of_not_pos hgap, Nat.zero_max, Nat.add_zero, Nat.mod_eq_of_lt hlt] at hgap'
  rw [getPacket]
  dsimp only
  rw [addAtEnd, Nat.mod_eq_of_lt hlt, if_pos (by omega)]
  rfl

end Fragments

/-! ## A packet that has been cut -/

/-- Pieces arrive as the fragments of a datagram, the first of them as it is after its decompression. -/
structure Arrives (d : Decompression) (key : FragmentKey) (arrival : Piece UInt8 → Arrival)
    (q₀ : Piece UInt8) (rest : List (Piece UInt8)) : Prop where
  pairwise_lt : (q₀ :: rest).Pairwise fun p q ↦ p.offset < q.offset
  receive_eq : ∀ q ∈ q₀ :: rest,
    receive d (arrival q) = .ok ⟨key, key.2.1.toNat, q.data, q.offset⟩
  isFirst_iff : ∀ q ∈ q₀ :: rest, (arrival q).isFirst = true ↔ q = q₀

/-- The pieces are those of a packet that has been cut. -/
structure Splits (d : Decompression) (key : FragmentKey) (packet : List UInt8)
    (arrival : Piece UInt8 → Arrival) (q₀ : Piece UInt8) (rest : List (Piece UInt8)) : Prop extends
    Arrives d key arrival q₀ rest where
  consecutive : Piece.Consecutive 0 (q₀ :: rest)
  ne_nil : ∀ q ∈ q₀ :: rest, q.data ≠ []
  reach_eq : Piece.reach 0 (q₀ :: rest) = key.2.1.toNat
  whole : ∃ h, SixLowPanFrag1.deserialize ((arrival q₀).packet ++ rest.flatMap Piece.data) =
    .ok (h, packet)

/-- The fragments that have been kept after some arrivals. -/
def gathered (key : FragmentKey) (arrival : Piece UInt8 → Arrival) (q₀ : Piece UInt8)
    (rest : List (Piece UInt8)) (got : List Arrival) : Fragments where
  m_packetSize := key.2.1.toNat
  m_fragments := (q₀ :: rest).filter fun q ↦ arrival q ∈ got
  m_firstFragment := if arrival q₀ ∈ got then some (arrival q₀).packet else none

theorem gathered_nil (key : FragmentKey) (arrival : Piece UInt8 → Arrival) (q₀ : Piece UInt8)
    (rest : List (Piece UInt8)) : gathered key arrival q₀ rest [] = ⟨key.2.1.toNat, [], none⟩ := by
  simp [gathered]

namespace Arrives

variable {d : Decompression} {key : FragmentKey} {arrival : Piece UInt8 → Arrival}
  {q q₀ : Piece UInt8} {rest : List (Piece UInt8)} {got : List Arrival}

theorem arrival_inj (hs : Arrives d key arrival q₀ rest) {q' : Piece UInt8}
    (hq : q ∈ q₀ :: rest) (hq' : q' ∈ q₀ :: rest) : arrival q = arrival q' ↔ q = q' := by
  refine ⟨fun h ↦ ?_, congrArg arrival⟩
  have heq := hs.receive_eq q hq
  rw [h, hs.receive_eq q' hq', Except.ok_inj, Received.mk.injEq] at heq
  obtain ⟨-, -, hdata, hoffset⟩ := heq
  cases q
  cases q'
  exact Piece.mk.injEq .. ▸ ⟨hoffset.symm, hdata.symm⟩

theorem update_gathered (hs : Arrives d key arrival q₀ rest) (hq : q ∈ q₀ :: rest) :
    SixLowPanNetDevice.update (gathered key arrival q₀ rest got) (arrival q)
        ⟨key, key.2.1.toNat, q.data, q.offset⟩ =
      .ok (gathered key arrival q₀ rest (got ++ [arrival q])) := by
  have hfilter : (q₀ :: rest).filter (fun p ↦ arrival p ∈ got ∨ p = q) =
      (q₀ :: rest).filter fun p ↦ arrival p ∈ got ++ [arrival q] := by
    apply List.filter_congr
    intro p hp
    rw [decide_eq_decide, List.mem_append, List.mem_singleton, hs.arrival_inj hp hq]
  have hinsert := Fragments.insert_filter hs.pairwise_lt hq fun p ↦ arrival p ∈ got
  rw [hfilter] at hinsert
  rw [SixLowPanNetDevice.update, Fragments.addFragment]
  dsimp only [gathered]
  rw [hinsert, Except.ok_bind, Except.pure_eq_ok.mpr rfl, Except.ok_bind, Except.pure_eq_ok]
  have hmem : arrival q₀ ∈ got ++ [arrival q] ↔ arrival q₀ ∈ got ∨ q₀ = q := by
    rw [List.mem_append, List.mem_singleton, hs.arrival_inj List.mem_cons_self hq]
  by_cases hfirst : q = q₀
  · rw [if_pos ((hs.isFirst_iff q hq).mpr hfirst), if_pos (hmem.mpr (.inr hfirst.symm)), hfirst]
    rfl
  · have hiff : arrival q₀ ∈ got ++ [arrival q] ↔ arrival q₀ ∈ got :=
      hmem.trans (or_iff_left fun h ↦ hfirst h.symm)
    rw [if_neg (mt (hs.isFirst_iff q hq).mp hfirst)]
    simp only [hiff]

end Arrives

theorem gathered_all {key : FragmentKey} {arrival : Piece UInt8 → Arrival} {q₀ : Piece UInt8}
    {rest : List (Piece UInt8)} {got : List Arrival} (hgot : ∀ q ∈ q₀ :: rest, arrival q ∈ got) :
    gathered key arrival q₀ rest got = ⟨key.2.1.toNat, q₀ :: rest, some (arrival q₀).packet⟩ := by
  have hfilter : (q₀ :: rest).filter (fun q ↦ arrival q ∈ got) = q₀ :: rest := by
    rw [List.filter_eq_self]
    exact fun q hq ↦ decide_eq_true (hgot q hq)
  rw [gathered, hfilter, if_pos (hgot q₀ List.mem_cons_self)]

namespace Splits

variable {d : Decompression} {key : FragmentKey} {packet : List UInt8}
  {arrival : Piece UInt8 → Arrival} {q q₀ : Piece UInt8} {rest : List (Piece UInt8)}
  {got : List Arrival}

theorem stop_lt (hs : Splits d key packet arrival q₀ rest) :
    ∀ q ∈ q₀ :: rest, q.stop < 2 ^ 16 := fun _ hq ↦
  ((Piece.stop_le_reach hq).trans_eq hs.reach_eq).trans_lt key.2.1.toNat_lt

/-- **The fragments are entire if and only if none is missing.** -/
theorem isEntire_gathered (hs : Splits d key packet arrival q₀ rest) :
    (gathered key arrival q₀ rest got).isEntire = true ↔ ∀ q ∈ q₀ :: rest, arrival q ∈ got := by
  have hlast := Fragments.lastEnd_filter hs.consecutive hs.ne_nil hs.stop_lt fun q ↦ arrival q ∈ got
  rw [hs.reach_eq] at hlast
  rw [Fragments.isEntire, Bool.and_eq_true, decide_eq_true_iff, decide_eq_true_iff]
  refine ⟨fun h ↦ hlast.mp h.2, fun h ↦ ⟨?_, hlast.mpr h⟩⟩
  apply List.length_pos_of_mem (a := q₀)
  exact List.mem_filter.mpr ⟨List.mem_cons_self, decide_eq_true (h q₀ List.mem_cons_self)⟩

theorem getPacket_gathered (hs : Splits d key packet arrival q₀ rest)
    (hgot : ∀ q ∈ q₀ :: rest, arrival q ∈ got) : (gathered key arrival q₀ rest got).getPacket =
      .ok ((arrival q₀).packet ++ rest.flatMap Piece.data) := by
  have hlt := hs.stop_lt
  rw [List.forall_mem_cons] at hlt
  obtain ⟨hzero, hrest⟩ := hs.consecutive
  have hstop : q₀.data.length % 2 ^ 16 = q₀.stop := by
    rw [Piece.stop, hzero, Nat.zero_add, Nat.mod_eq_of_lt]
    exact (Nat.le_add_left _ _).trans_lt hlt.1
  rw [gathered_all hgot, Fragments.getPacket]
  dsimp only
  rw [hstop, Fragments.addAtEnd_eq hrest hlt.2]
  rfl

end Splits

/-! ## The fragments of all packets -/

namespace SixLowPanNetDevice

variable {d : Decompression} {s s' : SixLowPanNetDevice} {k key : FragmentKey} {f : Fragments}
  {a : Arrival} {out : Option (List UInt8)}

theorem find_erase_self : (s.erase key).find key = none := by
  rw [find, Option.map_eq_none_iff, List.find?_eq_none]
  intro e he heq
  exact absurd (of_decide_eq_true heq) (of_decide_eq_true (List.mem_filter.mp he).2)

theorem find_erase_of_ne (h : k ≠ key) : (s.erase key).find k = s.find k := by
  rw [find, find, erase, List.find?_filter]
  congr 2
  funext e
  by_cases he : e.1 = k
  · rw [he]
    simp [h]
  · simp [he]

theorem find_store_self (h : (s.find key).isSome) : (s.store key f).find key = some f := by
  obtain ⟨fragments, hfind⟩ := Option.isSome_iff_exists.mp h
  obtain ⟨e, he, -⟩ := Option.map_eq_some_iff.mp hfind
  rw [find, store, List.find?_map]
  have hcongr : ((fun e : FragmentKey × Fragments ↦ decide (e.1 = key)) ∘
      fun e ↦ if e.1 = key then (key, f) else e) = fun e ↦ decide (e.1 = key) := by
    funext e
    by_cases hkey : e.1 = key <;> simp [hkey]
  rw [hcongr, he, Option.map_some, Option.map_some]
  have hsome := List.find?_some he
  have hkey : e.1 = key := of_decide_eq_true hsome
  rw [if_pos hkey]

theorem find_store_of_ne (h : k ≠ key) : (s.store key f).find k = s.find k := by
  have hcongr : ((fun e : FragmentKey × Fragments ↦ decide (e.1 = k)) ∘
      fun e ↦ if e.1 = key then (key, f) else e) = fun e ↦ decide (e.1 = k) := by
    funext e
    by_cases hkey : e.1 = key
    · simp [hkey, h.symm]
    · simp [hkey]
  rw [find, find, store, List.find?_map, hcongr, Option.map_map]
  cases he : s.m_fragments.find? fun e ↦ e.1 = k with
  | none => rfl
  | some e =>
    have hsome := List.find?_some he
    have hk : e.1 = k := of_decide_eq_true hsome
    rw [Option.map_some, Option.map_some, Function.comp_apply, if_neg (hk ▸ h)]

theorem obtainFragments_eq (hroom : s.find key = none → ¬ s.Full) (n : ℕ) :
    ∃ s', s.obtainFragments key n = .ok (s', (s.find key).getD ⟨n, [], none⟩) ∧
      s'.find key = some ((s.find key).getD ⟨n, [], none⟩) ∧
      ∀ k ≠ key, s'.find k = s.find k := by
  rw [obtainFragments]
  cases hfind : s.find key with
  | some f => exact ⟨s, rfl, hfind, fun _ _ ↦ rfl⟩
  | none =>
    dsimp only
    rw [if_neg (hroom hfind)]
    refine ⟨_, rfl, ?_, fun k hk ↦ ?_⟩
    · rw [find, Option.map_eq_none_iff] at hfind
      rw [find, List.find?_append, hfind, Option.none_or, List.find?_singleton,
        if_pos (decide_eq_true rfl)]
      rfl
    · rw [find, List.find?_append, List.find?_singleton,
        if_neg (by rw [decide_eq_true_iff]; exact hk.symm), Option.or_none]
      rfl

/-- The end of `ProcessFragment` is about the packet with the given key. -/
theorem find_complete_of_ne (hk : k ≠ key) (hs : s.complete key f = .ok (s', out)) :
    s'.find k = s.find k := by
  rw [complete] at hs
  split_ifs at hs
  · obtain ⟨packet, -, hs⟩ := Except.bind_eq_ok.mp hs
    obtain ⟨⟨h, rest⟩, -, hs⟩ := Except.bind_eq_ok.mp hs
    obtain ⟨rfl, -⟩ := Prod.mk.inj (Except.pure_eq_ok.mp hs)
    exact find_erase_of_ne hk
  · obtain ⟨rfl, -⟩ := Prod.mk.inj (Except.ok_inj.mp hs)
    exact find_store_of_ne hk

/-- **`ProcessFragment` leaves the fragments of other packets alone**, unless it makes room. -/
theorem find_processFragment_of_ne {r : Received} (hr : receive d a = .ok r) (hk : k ≠ r.key)
    (hroom : s.find r.key = none → ¬ s.Full) (hs : s.processFragment d a = .ok (s', out)) :
    s'.find k = s.find k := by
  obtain ⟨t, hobtain, -, hother⟩ := obtainFragments_eq hroom r.packetSize
  rw [processFragment, hr, Except.ok_bind, hobtain, Except.ok_bind] at hs
  obtain ⟨f, -, hs⟩ := Except.bind_eq_ok.mp hs
  exact (find_complete_of_ne hk hs).trans (hother k hk)

end SixLowPanNetDevice

/-! ## Runs -/

/-- A packet arrives, or fragments have waited for too long. -/
inductive Op
  | processFragment (a : Arrival)
  | handleTimeout
  deriving DecidableEq, Repr

/-- A device, the fragments of one datagram that have arrived, and what `ProcessFragment` has left in
its argument when it has returned true for that datagram. -/
structure Traffic where
  state : SixLowPanNetDevice
  got : List Arrival
  returned : List (List UInt8)
  deriving DecidableEq, Repr

/-- The key of a packet. -/
def keyOf (d : Decompression) (a : Arrival) : Option FragmentKey :=
  (receive d a).toOption.map Received.key

/-- What is known of the datagram after `ProcessFragment`. -/
def Traffic.record (d : Decompression) (key : FragmentKey) (c : Traffic) (a : Arrival)
    (r : SixLowPanNetDevice × Option (List UInt8)) : Traffic :=
  if keyOf d a = some key then ⟨r.1, c.got ++ [a], c.returned ++ r.2.toList⟩
  else { c with state := r.1 }

/-- The step of an operation. -/
def Traffic.next (d : Decompression) (key : FragmentKey) (c : Traffic) : Op → Option Traffic
  | .processFragment a => (c.state.processFragment d a).toOption.map (c.record d key a)
  | .handleTimeout => c.state.handleTimeout.map fun state ↦ { c with state := state }

/-- The runs of a device that holds at most the given number of packets, or any number for 0. -/
def traffic (d : Decompression) (key : FragmentKey) (m_fragmentReassemblyListSize : ℕ) :
    Machine Traffic Op where
  init := ⟨⟨[], [], m_fragmentReassemblyListSize⟩, [], []⟩
  next := Traffic.next d key

/-- Until a datagram is complete its key comes with its fragments only; there is no timeout and no
eviction. -/
def Undisturbed (d : Decompression) (key : FragmentKey) (arrivals : List Arrival) (c : Traffic) :
    Op → Prop
  | .processFragment a =>
    match keyOf d a with
    | none => True
    | some k => (k = key → a ∈ arrivals ∧ c.returned = []) ∧ (c.state.find k = none → ¬ c.state.Full)
  | .handleTimeout => False

instance (d : Decompression) (key : FragmentKey) (arrivals : List Arrival) (c : Traffic) :
    ∀ op, Decidable (Undisturbed d key arrivals c op)
  | .processFragment a =>
    match h : keyOf d a with
    | none => .isTrue (by rw [Undisturbed, h]; trivial)
    | some k => decidable_of_iff ((k = key → a ∈ arrivals ∧ c.returned = []) ∧
        (c.state.find k = none → ¬ c.state.Full)) (by rw [Undisturbed, h])
  | .handleTimeout => .isFalse id

/-- What is expected of a device: it returns the packet once, when the last fragment that was missing
has come, and keeps nothing of it; and no fragment makes it fail. -/
def Reassembles (d : Decompression) (key : FragmentKey) (arrivals : List Arrival)
    (packet : List UInt8) (c : Traffic) : Prop :=
  (if ∀ a ∈ arrivals, a ∈ c.got then c.returned = [packet] ∧ c.state.find key = none
    else c.returned = []) ∧
  ∀ a ∈ arrivals, Undisturbed d key arrivals c (.processFragment a) →
    (c.next d key (.processFragment a)).isSome

/-- The fragments of a datagram. -/
def arrivals (arrival : Piece UInt8 → Arrival) (q₀ : Piece UInt8) (rest : List (Piece UInt8)) :
    List Arrival := (q₀ :: rest).map arrival

namespace Arrives

variable {d : Decompression} {key : FragmentKey} {arrival : Piece UInt8 → Arrival}
  {q q₀ : Piece UInt8} {rest : List (Piece UInt8)} {c : Traffic}

theorem keyOf_arrival (hs : Arrives d key arrival q₀ rest) (hq : q ∈ q₀ :: rest) :
    keyOf d (arrival q) = some key := by
  rw [keyOf, hs.receive_eq q hq]
  rfl

/-- **A fragment of the datagram arrives**, and what has come is examined. -/
theorem next_eq (hs : Arrives d key arrival q₀ rest) (hq : q ∈ q₀ :: rest)
    (hfind : (c.state.find key).getD ⟨key.2.1.toNat, [], none⟩ = gathered key arrival q₀ rest c.got)
    (hroom : c.state.find key = none → ¬ c.state.Full) :
    ∃ s : SixLowPanNetDevice, (s.find key).isSome ∧ c.next d key (.processFragment (arrival q)) =
      (s.complete key (gathered key arrival q₀ rest (c.got ++ [arrival q]))).toOption.map fun r ↦
        ⟨r.1, c.got ++ [arrival q], c.returned ++ r.2.toList⟩ := by
  obtain ⟨s, hobtain, hself, -⟩ := SixLowPanNetDevice.obtainFragments_eq hroom key.2.1.toNat
  have hrecord : c.record d key (arrival q) = fun r ↦
      ⟨r.1, c.got ++ [arrival q], c.returned ++ r.2.toList⟩ := funext fun _ ↦
    if_pos (hs.keyOf_arrival hq)
  refine ⟨s, by rw [hself]; rfl, ?_⟩
  rw [Traffic.next, SixLowPanNetDevice.processFragment, hs.receive_eq q hq, Except.ok_bind, hobtain,
    Except.ok_bind]
  dsimp only
  rw [hfind, hs.update_gathered hq, Except.ok_bind, hrecord]

/-- While the fragments are not entire they are kept. -/
theorem next_of_not_isEntire (hs : Arrives d key arrival q₀ rest) (hq : q ∈ q₀ :: rest)
    (hfind : (c.state.find key).getD ⟨key.2.1.toNat, [], none⟩ = gathered key arrival q₀ rest c.got)
    (hroom : c.state.find key = none → ¬ c.state.Full)
    (hentire : (gathered key arrival q₀ rest (c.got ++ [arrival q])).isEntire ≠ true) :
    ∃ s : SixLowPanNetDevice, c.next d key (.processFragment (arrival q)) =
        some ⟨s, c.got ++ [arrival q], c.returned⟩ ∧
      s.find key = some (gathered key arrival q₀ rest (c.got ++ [arrival q])) := by
  obtain ⟨s, hself, hnext⟩ := hs.next_eq hq hfind hroom
  refine ⟨_, ?_, SixLowPanNetDevice.find_store_self hself⟩
  rw [hnext, SixLowPanNetDevice.complete, if_neg hentire]
  exact congrArg (fun l ↦ some (⟨_, _, l⟩ : Traffic)) (List.append_nil c.returned)

/-- The fragments are not entire without the first one. -/
theorem not_isEntire (hs : Arrives d key arrival q₀ rest) {got : List Arrival}
    (hgot : arrival q₀ ∉ got) : (gathered key arrival q₀ rest got).isEntire ≠ true := by
  rw [Fragments.isEntire, gathered, Ne, Bool.and_eq_true, decide_eq_true_iff, decide_eq_true_iff]
  dsimp only
  rw [List.filter_cons_of_neg (by rwa [decide_eq_true_iff])]
  cases hfilter : rest.filter fun q ↦ arrival q ∈ got with
  | nil => exact fun h ↦ absurd h.1 (Nat.lt_irrefl 0)
  | cons q l =>
    have hq : q ∈ rest := by
      have hmem : q ∈ rest.filter fun q ↦ arrival q ∈ got := hfilter ▸ List.mem_cons_self
      exact (List.mem_filter.mp hmem).1
    have hlt := (List.pairwise_cons.mp hs.pairwise_lt).1 q hq
    rw [Fragments.lastEnd, if_pos (Nat.zero_lt_of_lt hlt)]
    exact fun h ↦ absurd h.2.symm (Option.some_ne_none _)

/-- All the fragments but the first one arrive. -/
theorem exists_run (hs : Arrives d key arrival q₀ rest) (l : List (Piece UInt8)) (hl : l ⊆ rest) :
    ∃ c, (traffic d key 0).Run (Undisturbed d key (arrivals arrival q₀ rest))
        (l.map fun q ↦ .processFragment (arrival q)) c ∧
      c.got = l.map arrival ∧ c.returned = [] ∧
      (c.state.find key).getD ⟨key.2.1.toNat, [], none⟩ = gathered key arrival q₀ rest c.got ∧
      (c.state.find key = none → ¬ c.state.Full) := by
  induction l using List.reverseRecOn with
  | nil => exact ⟨_, .nil, rfl, rfl, (gathered_nil key arrival q₀ rest).symm, fun _ h ↦ h.1 rfl⟩
  | append_singleton l q ih =>
    obtain ⟨hl, hq⟩ := List.append_subset.mp hl
    have hmem := List.mem_cons_of_mem q₀ (hq (List.mem_singleton_self q))
    obtain ⟨c, hr, hgot, hreturned, hfind, hroom⟩ := ih hl
    have hfirst : arrival q₀ ∉ c.got ++ [arrival q] := by
      rw [hgot, ← List.map_singleton, ← List.map_append, List.mem_map]
      rintro ⟨p, hp, heq⟩
      have hp : p ∈ rest := List.append_subset.mpr ⟨hl, hq⟩ hp
      rw [hs.arrival_inj (List.mem_cons_of_mem q₀ hp) List.mem_cons_self] at heq
      exact (heq ▸ (List.pairwise_cons.mp hs.pairwise_lt).1 p hp).false
    obtain ⟨s, hnext, hkept⟩ := hs.next_of_not_isEntire hmem hfind hroom (hs.not_isEntire hfirst)
    have hok : Undisturbed d key (arrivals arrival q₀ rest) c (.processFragment (arrival q)) := by
      rw [Undisturbed, hs.keyOf_arrival hmem]
      exact ⟨fun _ ↦ ⟨List.mem_map_of_mem hmem, hreturned⟩, hroom⟩
    refine ⟨⟨s, c.got ++ [arrival q], c.returned⟩, ?_, ?_, hreturned, ?_, fun h ↦ ?_⟩
    · rw [List.map_append]
      exact hr.snoc hok hnext
    · rw [List.map_append, ← hgot]
      rfl
    · dsimp only
      rw [hkept, Option.getD_some]
    · exact absurd (h.symm.trans hkept) (Option.some_ne_none _).symm

/-- **A first fragment of another size** is not put together with the others. -/
theorem not_reassembles (hs : Arrives d key arrival q₀ rest) {e : ℕ}
    (hrest : Piece.Consecutive e rest) (hne : rest ≠ []) (hlt : q₀.data.length < 2 ^ 16)
    (hsize : q₀.data.length ≠ e) (packet : List UInt8) :
    ¬ ∀ as c, (traffic d key 0).Run (Undisturbed d key (arrivals arrival q₀ rest)) as c →
      Reassembles d key (arrivals arrival q₀ rest) packet c := by
  intro hall
  obtain ⟨c, hr, hgot, hreturned, hfind, hroom⟩ := hs.exists_run rest (List.Subset.refl rest)
  have hmem : q₀ ∈ q₀ :: rest := List.mem_cons_self
  have hevery : ∀ q ∈ q₀ :: rest, arrival q ∈ c.got ++ [arrival q₀] := by
    rw [hgot, List.forall_mem_cons]
    refine ⟨List.mem_append_right _ (List.mem_singleton_self _), fun q hq ↦ ?_⟩
    exact List.mem_append_left _ (List.mem_map_of_mem hq)
  have hok : Undisturbed d key (arrivals arrival q₀ rest) c (.processFragment (arrival q₀)) := by
    rw [Undisturbed, hs.keyOf_arrival hmem]
    exact ⟨fun _ ↦ ⟨List.mem_map_of_mem hmem, hreturned⟩, hroom⟩
  -- The first fragment comes last: the fragments then have a gap, or `GetPacket` fails.
  by_cases hentire : (gathered key arrival q₀ rest (c.got ++ [arrival q₀])).isEntire = true
  · obtain ⟨s, -, hnext⟩ := hs.next_eq hmem hfind hroom
    rw [gathered_all hevery] at hentire hnext
    cases rest with
    | nil => exact hne rfl
    | cons q l =>
      have hpacket := Fragments.getPacket_eq_error hlt (hrest.1.symm ▸ hsize) hentire
      rw [SixLowPanNetDevice.complete, if_pos hentire, hpacket] at hnext
      have hsome := (hall _ _ hr).2 _ (List.mem_map_of_mem hmem) hok
      rw [hnext] at hsome
      exact absurd hsome Bool.false_ne_true
  · obtain ⟨s, hnext, -⟩ := hs.next_of_not_isEntire hmem hfind hroom hentire
    have hgot : ∀ a ∈ arrivals arrival q₀ rest,
        a ∈ (⟨s, c.got ++ [arrival q₀], c.returned⟩ : Traffic).got := List.forall_mem_map.mpr hevery
    have hdone := (hall _ _ (hr.snoc hok hnext)).1
    rw [if_pos hgot] at hdone
    exact absurd (hreturned.symm.trans hdone.1) (List.cons_ne_nil _ _).symm

end Arrives

namespace Splits

variable {d : Decompression} {key : FragmentKey} {packet : List UInt8}
  {arrival : Piece UInt8 → Arrival} {q q₀ : Piece UInt8} {rest : List (Piece UInt8)}
  {c c' : Traffic}

/-- What holds of a device in an undisturbed run. -/
inductive Holds (key : FragmentKey) (packet : List UInt8) (arrival : Piece UInt8 → Arrival)
    (q₀ : Piece UInt8) (rest : List (Piece UInt8)) (c : Traffic) : Prop
  | waiting (hmissing : ¬ ∀ q ∈ q₀ :: rest, arrival q ∈ c.got) (hreturned : c.returned = [])
      (hfind : (c.state.find key).getD ⟨key.2.1.toNat, [], none⟩ = gathered key arrival q₀ rest c.got)
  | complete (hall : ∀ q ∈ q₀ :: rest, arrival q ∈ c.got) (hreturned : c.returned = [packet])
      (hfind : c.state.find key = none)

/-- **A fragment of the datagram arrives** while some are missing. -/
theorem next_eq (hs : Splits d key packet arrival q₀ rest) (hq : q ∈ q₀ :: rest)
    (hmissing : c.returned = [])
    (hfind : (c.state.find key).getD ⟨key.2.1.toNat, [], none⟩ = gathered key arrival q₀ rest c.got)
    (hroom : c.state.find key = none → ¬ c.state.Full) :
    ∃ c', c.next d key (.processFragment (arrival q)) = some c' ∧
      c'.got = c.got ++ [arrival q] ∧ Holds key packet arrival q₀ rest c' := by
  by_cases hentire : ∀ p ∈ q₀ :: rest, arrival p ∈ c.got ++ [arrival q]
  · obtain ⟨s', -, hnext⟩ := hs.toArrives.next_eq hq hfind hroom
    obtain ⟨h, hwhole⟩ := hs.whole
    rw [SixLowPanNetDevice.complete, if_pos (hs.isEntire_gathered.mpr hentire),
      hs.getPacket_gathered hentire, Except.ok_bind, hwhole] at hnext
    refine ⟨_, hnext, rfl, .complete hentire ?_ SixLowPanNetDevice.find_erase_self⟩
    dsimp only
    rw [hmissing]
    rfl
  · obtain ⟨s', hnext, hkept⟩ := hs.toArrives.next_of_not_isEntire hq hfind hroom
      (mt hs.isEntire_gathered.mp hentire)
    refine ⟨_, hnext, rfl, .waiting hentire hmissing ?_⟩
    dsimp only
    rw [hkept, Option.getD_some]

/-- **One step of an undisturbed run.** -/
theorem Holds.next (hs : Splits d key packet arrival q₀ rest)
    (hh : Holds key packet arrival q₀ rest c) {op : Op}
    (hok : Undisturbed d key (arrivals arrival q₀ rest) c op) (hn : c.next d key op = some c') :
    Holds key packet arrival q₀ rest c' := by
  cases op with
  | handleTimeout => exact hok.elim
  | processFragment a =>
    rw [Undisturbed] at hok
    cases hr : receive d a with
    | error e =>
      rw [Traffic.next, SixLowPanNetDevice.processFragment, hr] at hn
      exact absurd hn (Option.some_ne_none _).symm
    | ok r =>
      have hkey : keyOf d a = some r.key := by
        rw [keyOf, hr]
        rfl
      rw [hkey] at hok
      dsimp only at hok
      by_cases heq : r.key = key
      · obtain ⟨hmem, hreturned⟩ := hok.1 heq
        obtain ⟨q, hq, rfl⟩ := List.mem_map.mp hmem
        cases hh with
        | complete _ hdone _ => exact absurd (hreturned.symm.trans hdone) (List.cons_ne_nil _ _).symm
        | waiting _ _ hfind =>
          obtain ⟨c'', hnext, -, hh'⟩ := hs.next_eq hq hreturned hfind (heq ▸ hok.2)
          rw [hn] at hnext
          exact Option.some.inj hnext ▸ hh'
      · obtain ⟨⟨s', out⟩, hprocess, rfl⟩ := Option.map_eq_some_iff.mp hn
        rw [Traffic.record, hkey, if_neg fun h ↦ heq (Option.some.inj h)]
        have hfind := SixLowPanNetDevice.find_processFragment_of_ne hr (Ne.symm heq) hok.2
          (Except.toOption_eq_some.mp hprocess)
        cases hh with
        | complete hall hdone hnone => exact .complete hall hdone (hfind.trans hnone)
        | waiting hmissing hreturned hgathered =>
          refine .waiting hmissing hreturned ?_
          dsimp only
          rw [hfind, hgathered]

/-- **Every order of the fragments, with duplicates, gives the packet.** -/
theorem reassembles_of_run (hs : Splits d key packet arrival q₀ rest) {n : ℕ} {as : List Op}
    (hr : (traffic d key n).Run (Undisturbed d key (arrivals arrival q₀ rest)) as c) :
    Reassembles d key (arrivals arrival q₀ rest) packet c := by
  have hinit : Holds key packet arrival q₀ rest (traffic d key n).init := by
    refine .waiting (fun h ↦ ?_) rfl (gathered_nil key arrival q₀ rest).symm
    exact List.not_mem_nil (h q₀ List.mem_cons_self)
  have hh := hr.invariant (I := Holds key packet arrival q₀ rest) hinit fun _ _ _ h hok hn ↦
    h.next hs hok hn
  have hall : (∀ a ∈ arrivals arrival q₀ rest, a ∈ c.got) ↔ ∀ q ∈ q₀ :: rest, arrival q ∈ c.got :=
    List.forall_mem_map
  cases hh with
  | complete hgot hdone hnone =>
    refine ⟨by rw [if_pos (hall.mpr hgot)]; exact ⟨hdone, hnone⟩, fun a ha hok ↦ ?_⟩
    obtain ⟨q, hq, rfl⟩ := List.mem_map.mp ha
    rw [Undisturbed, hs.keyOf_arrival hq] at hok
    exact absurd ((hok.1 rfl).2.symm.trans hdone) (List.cons_ne_nil _ _).symm
  | waiting hmissing hreturned hfind =>
    refine ⟨by rw [if_neg (mt hall.mp hmissing)]; exact hreturned, fun a ha hok ↦ ?_⟩
    obtain ⟨q, hq, rfl⟩ := List.mem_map.mp ha
    rw [Undisturbed, hs.keyOf_arrival hq] at hok
    obtain ⟨c', hnext, -⟩ := hs.next_eq hq hreturned hfind hok.2
    rw [hnext]
    rfl

end Splits

/-! ## Cutting a packet -/

/-- How much data a fragment behind the first one takes. -/
def fragNSize (l2Mtu : ℕ) : ℕ :=
  l2Mtu - SixLowPanFragN.serializedSize - (l2Mtu - SixLowPanFragN.serializedSize) % 8

/-- The size of the compressed header. -/
def compressedHeaderSize (packet : List UInt8) (origPacketSize origHdrSize : ℕ) : ℕ :=
  packet.length - (origPacketSize - origHdrSize)

/-- How much of the packet the first fragment takes. -/
def frag1Size (l2Mtu : ℕ) (packet : List UInt8) (origPacketSize origHdrSize : ℕ) : ℕ :=
  let room := l2Mtu - SixLowPanFrag1.serializedSize -
    compressedHeaderSize packet origPacketSize origHdrSize
  room - room % 8 + compressedHeaderSize packet origPacketSize origHdrSize

/-- Data that has been cut into pieces of at most `size` bytes, from `offset` on. -/
structure Cut (size offset : ℕ) (data : List UInt8) (l : List (Piece UInt8)) : Prop where
  consecutive : Piece.Consecutive offset l
  flatMap_eq : l.flatMap Piece.data = data
  aligned : ∀ q ∈ l, q.offset % 8 = 0
  length_le : ∀ q ∈ l, q.data.length ≤ size
  ne_nil_iff : (∀ q ∈ l, q.data ≠ []) ↔ ¬ size ∣ data.length

theorem reach_eq_add {l : List (Piece UInt8)} {e : ℕ} (h : Piece.Consecutive e l) :
    Piece.reach e l = e + (l.flatMap Piece.data).length := by
  induction l generalizing e with
  | nil => rfl
  | cons p l ih =>
    obtain ⟨rfl, hrest⟩ := h
    rw [Piece.reach, max_eq_right p.offset_le_stop, ih hrest, List.flatMap_cons, List.length_append,
      Piece.stop, Nat.add_assoc]

theorem Cut.single {size offset : ℕ} (hlt : data.length < size) (haligned : offset % 8 = 0) :
    Cut size offset data [⟨offset, data⟩] where
  consecutive := ⟨rfl, trivial⟩
  flatMap_eq := List.flatMap_singleton _ _
  aligned := List.forall_mem_singleton.mpr haligned
  length_le := List.forall_mem_singleton.mpr hlt.le
  ne_nil_iff := by
    rw [List.forall_mem_singleton, not_iff_not, ← List.length_eq_zero_iff]
    refine ⟨fun h ↦ h ▸ dvd_zero size, fun h ↦ ?_⟩
    exact Nat.eq_zero_of_dvd_of_lt h hlt

theorem Cut.cons {size offset : ℕ} {l : List (Piece UInt8)} (hle : size ≤ data.length)
    (hpos : 0 < size) (haligned : offset % 8 = 0)
    (h : Cut size (offset + size) (data.drop size) l) :
    Cut size offset data (⟨offset, data.take size⟩ :: l) := by
  have hlen : (data.take size).length = size := List.length_take_of_le hle
  refine ⟨⟨rfl, ?_⟩, ?_, ?_, ?_, ?_⟩
  · rw [Piece.stop, hlen]
    exact h.consecutive
  · rw [List.flatMap_cons, h.flatMap_eq]
    exact List.take_append_drop size data
  · exact List.forall_mem_cons.mpr ⟨haligned, h.aligned⟩
  · exact List.forall_mem_cons.mpr ⟨hlen.le, h.length_le⟩
  · have hne : data.take size ≠ [] := by
      apply List.ne_nil_of_length_pos
      rw [hlen]
      exact hpos
    rw [List.forall_mem_cons, and_iff_right hne, h.ne_nil_iff, List.length_drop,
      Nat.dvd_sub_self_right]
    refine ⟨fun hn hd ↦ hn (.inl hd), fun hn ↦ not_or.mpr ⟨hn, ?_⟩⟩
    exact fun hlt ↦ hn (le_antisymm hle (by omega) ▸ dvd_rfl)

/-- **The loop cuts the rest of the packet.** -/
theorem fragmentLoop_eq {l2Mtu : ℕ} {p : List UInt8} (hmtu : 13 ≤ l2Mtu) (hlt : l2Mtu < 2 ^ 16)
    (hlen : p.length < 2 ^ 32) (hwrap : fragNSize l2Mtu ≤ 2047 → p.length < 2 ^ 16) (fuel : ℕ) :
    ∀ offset offsetData, offsetData ≤ p.length → offsetData < 2 ^ 16 →
      offset + (p.length - offsetData) ≤ 2047 → offset % 8 = 0 → p.length - offsetData < fuel →
      ∃ l, Cut (fragNSize l2Mtu) offset (p.drop offsetData) l ∧
        fragmentLoop l2Mtu tag n p fuel offset offsetData =
          .ok (l.map fun q ↦ fragN tag n q.offset q.data) := by
  have hsub : sub32 l2Mtu SixLowPanFragN.serializedSize = l2Mtu - SixLowPanFragN.serializedSize :=
    sub32_eq (le_trans (by decide) hmtu) (by omega)
  have hsize : fragNSize l2Mtu ≤ l2Mtu := (Nat.sub_le _ _).trans (Nat.sub_le _ _)
  have hdiv : fragNSize l2Mtu % 8 = 0 ∧ 0 < fragNSize l2Mtu := by
    rw [fragNSize, SixLowPanFragN.serializedSize]
    omega
  induction fuel with
  | zero => exact fun _ _ _ _ _ _ hfuel ↦ absurd hfuel (Nat.not_lt_zero _)
  | succ fuel ih =>
    intro offset offsetData hle hdata htotal haligned hfuel
    have hadd : add32 offsetData (fragNSize l2Mtu) = offsetData + fragNSize l2Mtu :=
      add32_eq (by omega)
    rw [fragmentLoop, hsub, ← fragNSize, hadd]
    by_cases hlast : p.length < offsetData + fragNSize l2Mtu
    · have hrest : add32 offsetData (p.length - offsetData) = p.length := by
        rw [add32_eq (by omega)]
        omega
      have htake : (p.drop offsetData).take (p.length - offsetData) = p.drop offsetData :=
        List.take_of_length_le (List.length_drop ..).le
      rw [if_pos hlast, sub32_eq hle hlen, createFragment, if_pos hrest.le, htake]
      refine ⟨_, .single ?_ haligned, rfl⟩
      rw [List.length_drop]
      omega
    · have hnext : (offset + fragNSize l2Mtu) % 2 ^ 16 = offset + fragNSize l2Mtu :=
        Nat.mod_eq_of_lt (by omega)
      have hnextData : (offsetData + fragNSize l2Mtu) % 2 ^ 16 = offsetData + fragNSize l2Mtu := by
        have hshort := hwrap (by omega)
        exact Nat.mod_eq_of_lt (by omega)
      obtain ⟨l, hcut, hloop⟩ := ih (offset + fragNSize l2Mtu)
        (offsetData + fragNSize l2Mtu) (by omega) (hnextData ▸ Nat.mod_lt _ (by decide))
        (by omega) (by omega) (by omega)
      rw [if_neg hlast, createFragment, hadd, if_pos (not_lt.mp hlast), Except.ok_bind, hnext,
        hnextData, hloop]
      rw [← List.drop_drop] at hcut
      refine ⟨_, hcut.cons ?_ hdiv.2 haligned, rfl⟩
      rw [List.length_drop]
      omega

/-- A compressed packet and the sizes that belong to it, on a link on which it can be cut. -/
structure Sendable (l2Mtu : ℕ) (packet : List UInt8) (origPacketSize origHdrSize : ℕ) : Prop where
  le_mtu : 13 ≤ l2Mtu
  mtu_lt : l2Mtu < 2 ^ 16
  size_le : origPacketSize ≤ 2047
  aligned : 8 ∣ origHdrSize
  hdr_pos : 0 < origHdrSize
  hdr_le : origHdrSize ≤ origPacketSize
  payload_le : origPacketSize - origHdrSize ≤ packet.length
  fits : compressedHeaderSize packet origPacketSize origHdrSize + SixLowPanFrag1.serializedSize ≤ l2Mtu

namespace Sendable

variable {l2Mtu origPacketSize origHdrSize : ℕ} {packet : List UInt8}

theorem length_eq (h : Sendable l2Mtu packet origPacketSize origHdrSize) :
    packet.length = compressedHeaderSize packet origPacketSize origHdrSize +
      (origPacketSize - origHdrSize) :=
  (Nat.sub_add_cancel h.payload_le).symm

theorem frag1Size_le (h : Sendable l2Mtu packet origPacketSize origHdrSize) :
    SixLowPanFrag1.serializedSize + frag1Size l2Mtu packet origPacketSize origHdrSize ≤ l2Mtu := by
  have hfits := h.fits
  rw [frag1Size]
  omega

theorem le_frag1Size : compressedHeaderSize packet origPacketSize origHdrSize ≤
    frag1Size l2Mtu packet origPacketSize origHdrSize := Nat.le_add_left _ _

theorem frag1Size_sub : (frag1Size l2Mtu packet origPacketSize origHdrSize -
    compressedHeaderSize packet origPacketSize origHdrSize) % 8 = 0 := by
  rw [frag1Size, Nat.add_sub_cancel]
  exact Nat.sub_mod_eq_zero_of_mod_eq (Nat.mod_mod ..).symm

/-- The machine arithmetic of `DoFragmentation` does not overflow. -/
theorem doFragmentation_eq (h : Sendable l2Mtu packet origPacketSize origHdrSize) :
    doFragmentation l2Mtu tag packet origPacketSize origHdrSize = (do
      let fragment1 ← createFragment packet 0 (frag1Size l2Mtu packet origPacketSize origHdrSize)
      let listFragments ← fragmentLoop l2Mtu tag origPacketSize packet (packet.length + 1)
        ((frag1Size l2Mtu packet origPacketSize origHdrSize -
          compressedHeaderSize packet origPacketSize origHdrSize + origHdrSize) % 2 ^ 16)
        (frag1Size l2Mtu packet origPacketSize origHdrSize)
      return frag1 tag origPacketSize fragment1 :: listFragments) := by
  have hlength := h.length_eq
  have hfrag1 := h.frag1Size_le
  have hle := @le_frag1Size l2Mtu origPacketSize origHdrSize packet
  obtain ⟨hmtu, hlt, hsize, -, -, hhdr, hpayload, hfits⟩ := h
  have hserialized : SixLowPanFrag1.serializedSize = 4 := rfl
  have hcomp : sub32 packet.length (sub32 origPacketSize origHdrSize) =
      compressedHeaderSize packet origPacketSize origHdrSize := by
    rw [sub32_eq hhdr (by omega), sub32_eq hpayload (by omega)]
    rfl
  have hroom : sub32 (sub32 l2Mtu SixLowPanFrag1.serializedSize)
      (compressedHeaderSize packet origPacketSize origHdrSize) =
      l2Mtu - SixLowPanFrag1.serializedSize -
        compressedHeaderSize packet origPacketSize origHdrSize := by
    have hinner : sub32 l2Mtu SixLowPanFrag1.serializedSize = l2Mtu - SixLowPanFrag1.serializedSize :=
      sub32_eq (by omega) (by omega)
    rw [hinner, sub32_eq (by omega) (by omega)]
  rw [doFragmentation]
  dsimp only
  rw [if_neg (by omega), hcomp, hroom, add32_eq (by omega)]
  change (do
    let fragment1 ← createFragment packet 0 (frag1Size l2Mtu packet origPacketSize origHdrSize)
    let listFragments ← fragmentLoop l2Mtu tag origPacketSize packet (packet.length + 1)
      (sub32 (add32 (frag1Size l2Mtu packet origPacketSize origHdrSize) origHdrSize)
        (compressedHeaderSize packet origPacketSize origHdrSize) % 2 ^ 16)
      (frag1Size l2Mtu packet origPacketSize origHdrSize % 2 ^ 16)
    return frag1 tag origPacketSize fragment1 :: listFragments) = _
  rw [add32_eq (by omega), sub32_eq (by omega) (by omega), Nat.sub_add_comm hle,
    Nat.mod_eq_of_lt (by omega : frag1Size l2Mtu packet origPacketSize origHdrSize < 2 ^ 16)]

theorem exists_cut (h : Sendable l2Mtu packet origPacketSize origHdrSize) (tag : UInt16)
    (hle : frag1Size l2Mtu packet origPacketSize origHdrSize ≤ packet.length) :
    ∃ l, Cut (fragNSize l2Mtu) (frag1Size l2Mtu packet origPacketSize origHdrSize -
        compressedHeaderSize packet origPacketSize origHdrSize + origHdrSize)
        (packet.drop (frag1Size l2Mtu packet origPacketSize origHdrSize)) l ∧
      doFragmentation l2Mtu tag packet origPacketSize origHdrSize =
        .ok (frag1 tag origPacketSize
            (packet.take (frag1Size l2Mtu packet origPacketSize origHdrSize)) ::
          l.map fun q ↦ fragN tag origPacketSize q.offset q.data) := by
  have hlength := h.length_eq
  have hfrag1 := h.frag1Size_le
  have hcomp := @le_frag1Size l2Mtu origPacketSize origHdrSize packet
  have hmod := @frag1Size_sub l2Mtu origPacketSize origHdrSize packet
  rw [h.doFragmentation_eq]
  obtain ⟨hmtu, hlt, hsize, haligned, -, hhdr, hpayload, hfits⟩ := h
  have hwrap : fragNSize l2Mtu ≤ 2047 → packet.length < 2 ^ 16 := by
    intro hsmall
    rw [fragNSize, SixLowPanFragN.serializedSize] at hsmall
    omega
  have hoffset : frag1Size l2Mtu packet origPacketSize origHdrSize -
      compressedHeaderSize packet origPacketSize origHdrSize + origHdrSize +
      (packet.length - frag1Size l2Mtu packet origPacketSize origHdrSize) ≤ 2047 := by
    omega
  obtain ⟨l, hcut, hloop⟩ := @fragmentLoop_eq tag origPacketSize _ _ hmtu hlt (by omega)
    hwrap (packet.length + 1) _ (frag1Size l2Mtu packet origPacketSize origHdrSize) hle (by omega)
    hoffset (by omega) (by omega)
  refine ⟨l, hcut, ?_⟩
  rw [createFragment, add32_eq (by omega), Nat.zero_add, if_pos hle, Except.ok_bind,
    Nat.mod_eq_of_lt ((Nat.le_add_right _ _).trans_lt (hoffset.trans_lt (by decide))), hloop]
  rfl

end Sendable

/-! ## Fragmentation and reassembly -/

/-- The fragments as they arrive. -/
def arrivalsOf (src dst : LinkAddress) : List (List UInt8) → List Arrival
  | [] => []
  | fragment1 :: listFragments =>
    ⟨fragment1, src, dst, true⟩ :: listFragments.map fun fragment ↦ ⟨fragment, src, dst, false⟩

/-- **Reassembly undoes fragmentation**: the fragments have data and fit into frames, and in every run
without timeouts, evictions and other packets under the same key they are put together again. -/
def Inverse (d : Decompression) (l2Mtu : ℕ) (tag : UInt16) (packet : List UInt8)
    (origPacketSize origHdrSize : ℕ) (src dst : LinkAddress) : Prop :=
  ∃ listFragments, doFragmentation l2Mtu tag packet origPacketSize origHdrSize = .ok listFragments ∧
    (∀ fragment ∈ listFragments.head?, SixLowPanFrag1.serializedSize < fragment.length) ∧
    (∀ fragment ∈ listFragments.tail, SixLowPanFragN.serializedSize < fragment.length) ∧
    (∀ fragment ∈ listFragments, fragment.length ≤ l2Mtu) ∧
    ∀ m_fragmentReassemblyListSize as c,
      (traffic d ((src, dst), (UInt16.ofNat origPacketSize, tag)) m_fragmentReassemblyListSize).Run
        (Undisturbed d ((src, dst), (UInt16.ofNat origPacketSize, tag))
          (arrivalsOf src dst listFragments)) as c →
      Reassembles d ((src, dst), (UInt16.ofNat origPacketSize, tag)) (arrivalsOf src dst listFragments)
        packet c

/-- What the first fragment is uncompressed to has the size of the bytes that it stands for. -/
def Uncompresses (d : Decompression) (l2Mtu : ℕ) (packet : List UInt8) (origPacketSize origHdrSize : ℕ)
    (src dst : LinkAddress) : Prop :=
  (d.apply (packet.take (frag1Size l2Mtu packet origPacketSize origHdrSize)) src dst).map List.length =
    .ok (frag1Size l2Mtu packet origPacketSize origHdrSize -
      compressedHeaderSize packet origPacketSize origHdrSize + origHdrSize)

namespace Sendable

variable {d : Decompression} {l2Mtu origPacketSize origHdrSize m size : ℕ}
  {packet uncompressed : List UInt8} {src dst : LinkAddress} {l : List (Piece UInt8)}

/-- The fragment with a piece. -/
def arrival (tag : UInt16) (origPacketSize : ℕ) (src dst : LinkAddress) (fragment1 : List UInt8)
    (q : Piece UInt8) : Arrival :=
  if q.offset = 0 then ⟨frag1 tag origPacketSize fragment1, src, dst, true⟩
  else ⟨fragN tag origPacketSize q.offset q.data, src, dst, false⟩

/-- The last fragment ends where the packet ends. -/
theorem reach_eq (h : Sendable l2Mtu packet origPacketSize origHdrSize) (hm : m ≤ packet.length)
    (hle : compressedHeaderSize packet origPacketSize origHdrSize ≤ m)
    (hcut : Cut size (m - compressedHeaderSize packet origPacketSize origHdrSize + origHdrSize)
      (packet.drop m) l) :
    Piece.reach (m - compressedHeaderSize packet origPacketSize origHdrSize + origHdrSize) l =
      origPacketSize := by
  have hlength := h.length_eq
  have hhdr := h.hdr_le
  rw [reach_eq_add hcut.consecutive, hcut.flatMap_eq, List.length_drop]
  omega

theorem offset_ne_zero (h : Sendable l2Mtu packet origPacketSize origHdrSize)
    (hcut : Cut size (m + origHdrSize) data l) : ∀ q ∈ l, q.offset ≠ 0 := fun q hq ↦
  (Nat.lt_of_lt_of_le (Nat.add_pos_right m h.hdr_pos) (hcut.consecutive.le_offset q hq)).ne'

/-- **A packet that has been cut arrives in its fragments**, whatever the first one is uncompressed to. -/
theorem arrives (h : Sendable l2Mtu packet origPacketSize origHdrSize) (tag : UInt16)
    (hm : m ≤ packet.length) (hle : compressedHeaderSize packet origPacketSize origHdrSize ≤ m)
    (hd : d.apply (packet.take m) src dst = .ok uncompressed)
    (hcut : Cut size (m - compressedHeaderSize packet origPacketSize origHdrSize + origHdrSize)
      (packet.drop m) l) (hne : ∀ q ∈ l, q.data ≠ []) :
    Arrives d ((src, dst), (UInt16.ofNat origPacketSize, tag))
      (arrival tag origPacketSize src dst (packet.take m)) ⟨0, uncompressed⟩ l := by
  have hoffset := h.offset_ne_zero hcut
  have hreach := h.reach_eq hm hle hcut
  have hsize := h.size_le
  refine ⟨List.pairwise_cons.mpr ⟨fun q hq ↦ Nat.pos_of_ne_zero (hoffset q hq),
    hcut.consecutive.pairwise_lt hne⟩, ?_, ?_⟩
  · rw [List.forall_mem_cons]
    constructor
    · rw [arrival, if_pos rfl, receive, if_pos rfl]
      dsimp only
      rw [deserialize_frag1 hsize, Except.ok_bind]
      dsimp only
      rw [hd, Except.ok_bind, SixLowPanFrag1.getDatagramSize, and_mask_ofNat hsize]
      rfl
    · intro q hq
      have hle : q.offset ≤ 2047 :=
        (q.offset_le_stop.trans ((Piece.stop_le_reach hq).trans_eq hreach)).trans hsize
      rw [arrival, if_neg (hoffset q hq), receive, if_neg Bool.false_ne_true]
      dsimp only
      rw [deserialize_fragN hsize, Except.ok_bind]
      dsimp only
      rw [toNat_offset (hcut.aligned q hq) hle, SixLowPanFragN.getDatagramSize, and_mask_ofNat hsize]
      rfl
  · rw [List.forall_mem_cons]
    refine ⟨iff_of_true rfl rfl, fun q hq ↦ ?_⟩
    rw [arrival, if_neg (hoffset q hq)]
    refine iff_of_false Bool.false_ne_true fun heq ↦ ?_
    exact hoffset q hq (congrArg Piece.offset heq)

/-- The fragments are those of the packet if the first one has the size of the bytes it stands for. -/
theorem splits (h : Sendable l2Mtu packet origPacketSize origHdrSize) (tag : UInt16)
    (hm : m ≤ packet.length) (hle : compressedHeaderSize packet origPacketSize origHdrSize ≤ m)
    (hd : d.apply (packet.take m) src dst = .ok uncompressed)
    (hlen : uncompressed.length =
      m - compressedHeaderSize packet origPacketSize origHdrSize + origHdrSize)
    (hcut : Cut size (m - compressedHeaderSize packet origPacketSize origHdrSize + origHdrSize)
      (packet.drop m) l) (hne : ∀ q ∈ l, q.data ≠ []) :
    Splits d ((src, dst), (UInt16.ofNat origPacketSize, tag)) packet
      (arrival tag origPacketSize src dst (packet.take m)) ⟨0, uncompressed⟩ l := by
  have hstop : Piece.stop ⟨0, uncompressed⟩ =
      m - compressedHeaderSize packet origPacketSize origHdrSize + origHdrSize := by
    rw [Piece.stop, hlen, Nat.zero_add]
  have hreach := h.reach_eq hm hle hcut
  refine ⟨h.arrives tag hm hle hd hcut hne, ⟨rfl, hstop ▸ hcut.consecutive⟩, ?_, ?_, ?_⟩
  · refine List.forall_mem_cons.mpr ⟨List.ne_nil_of_length_pos ?_, hne⟩
    rw [hlen]
    exact Nat.add_pos_right _ h.hdr_pos
  · rw [Piece.reach, max_eq_right (Nat.zero_le _), hstop, hreach]
    exact (toNat_ofNat h.size_le).symm
  · refine ⟨⟨UInt16.ofNat origPacketSize, tag⟩, ?_⟩
    rw [arrival, if_pos rfl, hcut.flatMap_eq, frag1]
    dsimp only
    rw [List.append_assoc, List.take_append_drop]
    exact deserialize_frag1 h.size_le

theorem arrivals_eq (hoffset : ∀ q ∈ l, q.offset ≠ 0) :
    arrivals (arrival tag origPacketSize src dst (packet.take m)) ⟨0, uncompressed⟩ l =
      arrivalsOf src dst (frag1 tag origPacketSize (packet.take m) ::
        l.map fun q ↦ fragN tag origPacketSize q.offset q.data) := by
  rw [arrivals, arrivalsOf, List.map_cons, List.map_map]
  congr 1
  apply List.map_congr_left
  intro q hq
  exact if_neg (hoffset q hq)

theorem inverse (h : Sendable l2Mtu packet origPacketSize origHdrSize)
    (hd : Uncompresses d l2Mtu packet origPacketSize origHdrSize src dst)
    (hle : frag1Size l2Mtu packet origPacketSize origHdrSize ≤ packet.length)
    (hrest : ¬ fragNSize l2Mtu ∣
      packet.length - frag1Size l2Mtu packet origPacketSize origHdrSize) :
    Inverse d l2Mtu tag packet origPacketSize origHdrSize src dst := by
  obtain ⟨l, hcut, hfragments⟩ := h.exists_cut tag hle
  have hne : ∀ q ∈ l, q.data ≠ [] := by
    rw [hcut.ne_nil_iff, List.length_drop]
    exact hrest
  obtain ⟨uncompressed, happly, hlen⟩ := Except.map_eq_ok.mp hd
  have hsplits := h.splits tag hle le_frag1Size happly hlen hcut hne
  have hfrag1 := h.frag1Size_le
  have hroom : 0 < frag1Size l2Mtu packet origPacketSize origHdrSize := by
    have hfits := h.fits
    have hmtu := h.le_mtu
    have hserialized : SixLowPanFrag1.serializedSize = 4 := rfl
    rw [frag1Size]
    omega
  have hlength : (packet.take (frag1Size l2Mtu packet origPacketSize origHdrSize)).length =
      frag1Size l2Mtu packet origPacketSize origHdrSize := List.length_take_of_le hle
  refine ⟨_, hfragments, ?_, ?_, ?_, fun n as c hr ↦ ?_⟩
  · intro fragment hmem
    rw [List.head?_cons, Option.mem_some] at hmem
    rw [← hmem, length_frag1, hlength]
    omega
  · rw [List.tail_cons, List.forall_mem_map]
    intro q hq
    rw [length_fragN]
    exact Nat.lt_add_of_pos_right (List.length_pos_of_ne_nil (hne q hq))
  · rw [List.forall_mem_cons, List.forall_mem_map]
    refine ⟨?_, fun q hq ↦ ?_⟩
    · rw [length_frag1, hlength]
      exact hfrag1
    · have hsize := hcut.length_le q hq
      have hmtu := h.le_mtu
      rw [fragNSize] at hsize
      rw [length_fragN, SixLowPanFragN.serializedSize] at *
      omega
  · rw [← arrivals_eq (h.offset_ne_zero hcut)] at hr ⊢
    exact hsplits.reassembles_of_run hr

theorem not_inverse (h : Sendable l2Mtu packet origPacketSize origHdrSize)
    (hrest : frag1Size l2Mtu packet origPacketSize origHdrSize ≤ packet.length →
      fragNSize l2Mtu ∣ packet.length - frag1Size l2Mtu packet origPacketSize origHdrSize) :
    ¬ Inverse d l2Mtu tag packet origPacketSize origHdrSize src dst := by
  rintro ⟨listFragments, hfragments, -, htail, -, -⟩
  by_cases hle : frag1Size l2Mtu packet origPacketSize origHdrSize ≤ packet.length
  · obtain ⟨l, hcut, heq⟩ := h.exists_cut tag hle
    rw [hfragments, Except.ok_inj] at heq
    subst heq
    rw [List.tail_cons, List.forall_mem_map] at htail
    refine hcut.ne_nil_iff.mp (fun q hq ↦ ?_) (by rw [List.length_drop]; exact hrest hle)
    have hlt := htail q hq
    rw [length_fragN] at hlt
    exact List.ne_nil_of_length_pos (Nat.lt_add_right_iff_pos.mp hlt)
  · have hfrag1 := h.frag1Size_le
    have hmtu := h.mtu_lt
    rw [h.doFragmentation_eq, createFragment, add32_eq (by omega), Nat.zero_add, if_neg hle] at hfragments
    exact Except.error_ne_ok hfragments

/-- The first fragment is put together with the others only if it has its size. -/
theorem uncompresses_of_inverse (h : Sendable l2Mtu packet origPacketSize origHdrSize)
    (hd : ∀ p, d.apply (packet.take (frag1Size l2Mtu packet origPacketSize origHdrSize)) src dst =
      .ok p → p.length < 2 ^ 16)
    (hle : frag1Size l2Mtu packet origPacketSize origHdrSize ≤ packet.length)
    (hrest : ¬ fragNSize l2Mtu ∣
      packet.length - frag1Size l2Mtu packet origPacketSize origHdrSize)
    (hinverse : Inverse d l2Mtu tag packet origPacketSize origHdrSize src dst) :
    Uncompresses d l2Mtu packet origPacketSize origHdrSize src dst := by
  obtain ⟨l, hcut, hfragments⟩ := h.exists_cut tag hle
  have hne : ∀ q ∈ l, q.data ≠ [] := by
    rw [hcut.ne_nil_iff, List.length_drop]
    exact hrest
  have hnil : l ≠ [] := by
    rintro rfl
    have hdrop := congrArg List.length hcut.flatMap_eq
    rw [List.length_drop] at hdrop
    exact hrest (hdrop ▸ dvd_zero _)
  obtain ⟨_, heq, -, -, -, hall⟩ := hinverse
  rw [hfragments, Except.ok_inj] at heq
  subst heq
  cases happly : d.apply (packet.take (frag1Size l2Mtu packet origPacketSize origHdrSize)) src dst with
  | error e =>
    -- `ProcessFragment` does not come to its end with the first fragment.
    have hreceive : receive d ⟨frag1 tag origPacketSize
        (packet.take (frag1Size l2Mtu packet origPacketSize origHdrSize)), src, dst, true⟩ = .error e := by
      rw [receive, if_pos rfl]
      dsimp only
      rw [deserialize_frag1 h.size_le, Except.ok_bind]
      dsimp only
      rw [happly]
      rfl
    have hsome := (hall 0 [] _ .nil).2 _ List.mem_cons_self (by rw [Undisturbed, keyOf, hreceive]; trivial)
    rw [Traffic.next, SixLowPanNetDevice.processFragment, hreceive] at hsome
    exact absurd hsome Bool.false_ne_true
  | ok uncompressed =>
    -- A first fragment of another size is not put together with the others.
    by_contra hsize
    refine (h.arrives tag hle le_frag1Size happly hcut hne).not_reassembles hcut.consecutive hnil
      (hd _ happly) (fun hlen ↦ hsize ?_) packet ?_
    · rw [Uncompresses, happly]
      exact congrArg Except.ok hlen
    · rw [arrivals_eq (h.offset_ne_zero hcut)]
      exact hall 0

/-- **Fragmentation is undone if and only if the last fragment is not full**: the first fragment takes no
more than there is and is uncompressed to its size, and the rest of the packet is not a multiple of what
the others take. -/
theorem inverse_iff (h : Sendable l2Mtu packet origPacketSize origHdrSize)
    (hd : ∀ p, d.apply (packet.take (frag1Size l2Mtu packet origPacketSize origHdrSize)) src dst =
      .ok p → p.length < 2 ^ 16) (tag : UInt16) :
    Inverse d l2Mtu tag packet origPacketSize origHdrSize src dst ↔
      frag1Size l2Mtu packet origPacketSize origHdrSize ≤ packet.length ∧
      ¬ fragNSize l2Mtu ∣
        packet.length - frag1Size l2Mtu packet origPacketSize origHdrSize ∧
      Uncompresses d l2Mtu packet origPacketSize origHdrSize src dst := by
  refine ⟨fun hinverse ↦ ?_, fun ⟨hle, hrest, hsize⟩ ↦ h.inverse hsize hle hrest⟩
  have hends : frag1Size l2Mtu packet origPacketSize origHdrSize ≤ packet.length ∧
      ¬ fragNSize l2Mtu ∣
        packet.length - frag1Size l2Mtu packet origPacketSize origHdrSize := by
    by_contra hcontra
    refine h.not_inverse (fun hle ↦ ?_) hinverse
    by_contra hrest
    exact hcontra ⟨hle, hrest⟩
  exact ⟨hends.1, hends.2, h.uncompresses_of_inverse hd hends.1 hends.2 hinverse⟩

end Sendable

/-! ## A packet compressed with HC1 -/

/-- **A packet compressed with HC1 is uncompressed to the right size**, however much of it comes first,
unless `::` looks like the address of its owner. -/
theorem uncompresses_hc1 {d : Decompression} {stackSrc stackDst : Octets 6}
    (hd : d.decompressLowPanHc1 = decompressLowPanHc1 stackSrc stackDst) {h : Ipv6Header}
    {src dst : LinkAddress}
    (hsrc : h.m_sourceAddress = Ipv6Address.getAny →
      h.m_sourceAddress.interfacePart ≠ src.interfacePart)
    (hdst : h.m_destinationAddress = Ipv6Address.getAny →
      h.m_destinationAddress.interfacePart ≠ dst.interfacePart)
    {payload packet : List UInt8} {origHdrSize : ℕ}
    (hcompress : compressLowPanHc1 (h.serialize ++ payload) src dst = .ok (packet, origHdrSize))
    (l2Mtu : ℕ) (hle : frag1Size l2Mtu packet (origHdrSize + payload.length) origHdrSize ≤ packet.length) :
    Uncompresses d l2Mtu packet (origHdrSize + payload.length) origHdrSize src dst := by
  obtain ⟨bytes, hbytes, hserialize⟩ := compressLowPanHc1_serialize h payload src dst
  obtain ⟨rfl, rfl⟩ := Prod.mk.inj (Except.ok_inj.mp (hcompress.symm.trans hserialize))
  have hcomp : compressedHeaderSize (bytes ++ payload) (Ipv6Header.getSerializedSize + payload.length)
      Ipv6Header.getSerializedSize = bytes.length := by
    rw [compressedHeaderSize, Nat.add_sub_cancel_left, List.length_append, Nat.add_sub_cancel]
  have hge := hcomp ▸ @Sendable.le_frag1Size l2Mtu (Ipv6Header.getSerializedSize + payload.length)
    Ipv6Header.getSerializedSize (bytes ++ payload)
  rw [Uncompresses, hcomp]
  rw [List.length_append] at hle
  generalize frag1Size .. = m at hle hge
  have hhead : ∀ rest, d.apply (bytes ++ rest) src dst =
      decompressLowPanHc1 stackSrc stackDst (bytes ++ rest) src dst := by
    obtain ⟨l, rfl⟩ : ∃ l, bytes = LOWPAN_HC1 :: l := ⟨_, (Except.ok_inj.mp hbytes).symm⟩
    exact fun rest ↦ hd ▸ rfl
  rw [List.take_append, List.take_of_length_le hge, hhead,
    length_decompress hsrc hdst stackSrc stackDst hbytes, List.length_take_of_le (by omega), Nat.add_comm]

/-- HC1 with any octets on the stack; there is no packet of another encoding here. -/
def sampleDecompression : Decompression :=
  ⟨decompressLowPanHc1 (zeros 6) (zeros 6), fun _ _ _ ↦ .error .aborted⟩

/-- The compressed header of 23 bytes between a link-local address and a global one, and a payload. -/
def samplePacket (n : ℕ) : List UInt8 :=
  [0x42, 0xC2, 64, 0x20, 1, 0, 0, 0, 0, 0, 1, 0, 0, 0, 0, 0, 0, 0, 9, 3, 0, 0, 0] ++ List.replicate n 7

theorem compress_sample : compressLowPanHc1 (sampleHeader.serialize ++ List.replicate 60 7)
    (.mac16 0 5) (.mac48 1 2 3 4 5 6) = .ok (samplePacket 60, 40) := by
  decide +kernel

theorem inverse_iff_sample : Inverse sampleDecompression 43 0x1234 (samplePacket 60) 100 40
    (.mac16 0 5) (.mac48 1 2 3 4 5 6) := by
  have hsize := uncompresses_hc1 (d := sampleDecompression) rfl (by decide) (by decide) compress_sample
    43 (by decide)
  refine (Sendable.inverse_iff (by constructor <;> decide) (fun p hp ↦ ?_) 0x1234).mpr
    ⟨by decide, by decide, hsize⟩
  obtain ⟨q, hq, hlen⟩ := Except.map_eq_ok.mp hsize
  have heq : p = q := Except.ok_inj.mp (hp.symm.trans hq)
  rw [heq, hlen]
  decide

/-- 48 bytes of payload fill a first fragment and another one. -/
theorem not_inverse_of_full : ¬ Inverse sampleDecompression 43 0x1234 (samplePacket 48) 88 40
    (.mac16 0 5) (.mac48 1 2 3 4 5 6) :=
  Sendable.not_inverse (by constructor <;> decide) (by decide)

end SixLowPan

end Ns3
