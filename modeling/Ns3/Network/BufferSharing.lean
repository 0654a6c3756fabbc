import Ns3.Network.Buffer

/-!
# Buffers that share a block do not disturb each other

The invariant of `Buffer.machine`, and the result that every buffer evolves as an independent string
of bytes.
-/

namespace Ns3

namespace Buffer

/-! ## Blocks and references -/

/-- Blocks that differ in their reference count only. -/
structure SameArea (data data' : Data) : Prop where
  size : data'.m_size = data.m_size
  dirtyStart : data'.m_dirtyStart = data.m_dirtyStart
  dirtyEnd : data'.m_dirtyEnd = data.m_dirtyEnd
  bytes : data'.m_data = data.m_data

/-- The counts of the blocks are `r`, and the free blocks are not referred to. -/
structure Heap.Counted (h : Heap) (r : ℕ → ℕ) : Prop where
  count : ∀ d, (h.data d).m_count = r d
  count_lt : ∀ d, r d < 2 ^ 32
  allocated : ∀ d, 0 < r d → d < h.allocated
  free : ∀ d ∈ h.g_freeList, r d = 0 ∧ d < h.allocated
  nodup : h.g_freeList.Nodup

section Heap

variable {memory : ℕ → ℕ → UInt8} {h : Heap} {r r' : ℕ → ℕ} {d e n : ℕ} {data : Data}

theorem SameArea.refl (data : Data) : SameArea data data := ⟨rfl, rfl, rfl, rfl⟩

@[simp] theorem Heap.setData_self : (h.setData d data).data d = data := Function.update_self _ _ _

theorem Heap.setData_of_ne (hne : e ≠ d) : (h.setData d data).data e = h.data e :=
  Function.update_of_ne hne _ _

theorem Heap.Counted.congr (hc : h.Counted r) (hr : ∀ d, r' d = r d) : h.Counted r' := by
  rwa [funext hr]

theorem Heap.Counted.setData (hc : h.Counted r) (hcount : data.m_count = (h.data d).m_count) :
    (h.setData d data).Counted r where
  count e := by
    by_cases hed : e = d
    · rw [hed, Heap.setData_self, hcount, hc.count]
    · rw [Heap.setData_of_ne hed, hc.count]
  count_lt := hc.count_lt
  allocated := hc.allocated
  free := hc.free
  nodup := hc.nodup

theorem Heap.popFree_eq_some {l rest : List ℕ} (hpop : h.popFree n l = some (d, rest)) :
    n ≤ (h.data d).m_size ∧ (d :: rest).Sublist l := by
  induction l with
  | nil => exact absurd hpop.symm (Option.some_ne_none _)
  | cons e l ih =>
    rw [popFree] at hpop
    split_ifs at hpop with hsize
    · obtain ⟨rfl, rfl⟩ := Prod.mk.inj (Option.some.inj hpop)
      exact ⟨hsize, .refl _⟩
    · obtain ⟨hd, hsub⟩ := ih hpop
      exact ⟨hd, hsub.cons e⟩

theorem Heap.Counted.take {h' : Heap} (hc : h.Counted r) (hd : r d = 0)
    (hdata : h'.data = Function.update h.data d data) (hcount : data.m_count = 1)
    (halloc : h.allocated ≤ h'.allocated) (hlt : d < h'.allocated)
    (hfree : h'.g_freeList.Sublist h.g_freeList) (hnot : d ∉ h'.g_freeList) :
    h'.Counted fun e ↦ r e + if e = d then 1 else 0 where
  count e := by
    rw [hdata]
    by_cases hed : e = d
    · rw [hed, Function.update_self, hcount, if_pos rfl, hd]
    · rw [Function.update_of_ne hed, if_neg hed]
      exact hc.count e
  count_lt e := by
    by_cases hed : e = d
    · rw [hed, hd, if_pos rfl]
      decide
    · rw [if_neg hed]
      exact hc.count_lt e
  allocated e he := by
    by_cases hed : e = d
    · rwa [hed]
    · rw [if_neg hed] at he
      exact (hc.allocated e he).trans_le halloc
  free e he := by
    obtain ⟨hr, hlt⟩ := hc.free e (hfree.subset he)
    rw [if_neg (ne_of_mem_of_not_mem he hnot)]
    exact ⟨hr, hlt.trans_le halloc⟩
  nodup := hfree.nodup hc.nodup

/-- What `Create` returns: a block that no buffer refers to. -/
structure Heap.Created (h : Heap) (n : ℕ) (d : ℕ) (h' : Heap) (r : ℕ → ℕ) : Prop where
  unused : r d = 0
  size : n ≤ (h'.data d).m_size
  other : ∀ e ≠ d, h'.data e = h.data e
  counted : h'.Counted fun e ↦ r e + if e = d then 1 else 0
  recommendedStart : h'.g_recommendedStart = h.g_recommendedStart

theorem Heap.Counted.create (hc : h.Counted r) (memory : ℕ → ℕ → UInt8) (n : ℕ) :
    h.Created n (h.create memory n).1 (h.create memory n).2 r := by
  rw [Heap.create]
  cases hpop : h.popFree n h.g_freeList with
  | some p =>
    obtain ⟨d, rest⟩ := p
    obtain ⟨hsize, hsub⟩ := Heap.popFree_eq_some hpop
    obtain ⟨hd, hlt⟩ := hc.free d (hsub.subset List.mem_cons_self)
    refine ⟨hd, ?_, fun e he ↦ Function.update_of_ne he _ _, ?_, rfl⟩
    · have hself := @Heap.setData_self h d { h.data d with m_count := 1 }
      exact hsize.trans_eq (congrArg Data.m_size hself).symm
    · exact hc.take hd rfl rfl le_rfl hlt ((List.sublist_cons_self d rest).trans hsub)
        (List.nodup_cons.mp (hsub.nodup hc.nodup)).1
  | none =>
    have hd : r h.allocated = 0 := by
      by_contra hne
      exact lt_irrefl _ (hc.allocated _ (Nat.pos_of_ne_zero hne))
    refine ⟨hd, ?_, fun e he ↦ Function.update_of_ne he _ _, ?_, rfl⟩
    · refine le_trans ?_ (congrArg Data.m_size (Function.update_self h.allocated _ h.data)).ge
      dsimp only
      split_ifs with hn
      · exact hn.trans_le (Nat.zero_le 1)
      · exact le_rfl
    · exact hc.take hd rfl rfl (Nat.le_succ _) (Nat.lt_succ_self _) (List.nil_sublist _)
        List.not_mem_nil

theorem Heap.Counted.release (hc : h.Counted r) (hd : 0 < r d) :
    (h.release d).Counted (fun e ↦ r e - if e = d then 1 else 0) ∧
      (∀ e, SameArea (h.data e) ((h.release d).data e)) ∧
      (h.release d).g_recommendedStart = h.g_recommendedStart := by
  have hcount : sub32 (h.data d).m_count 1 = r d - 1 := by
    rw [hc.count, sub32_eq hd (hc.count_lt d)]
  have hdata : (h.release d).data =
      Function.update h.data d { h.data d with m_count := r d - 1 } := by
    rw [Heap.release, hcount]
    split_ifs
    · rw [Heap.recycle]
      dsimp only
      split_ifs <;> rfl
    · rfl
  have hfree : (h.release d).g_freeList = h.g_freeList ∨
      (h.release d).g_freeList = d :: h.g_freeList ∧ r d = 1 := by
    rw [Heap.release, hcount]
    split_ifs with hone
    · rw [Heap.recycle]
      dsimp only
      split_ifs
      · exact .inl rfl
      · exact .inr ⟨rfl, by omega⟩
    · exact .inl rfl
  have halloc : (h.release d).allocated = h.allocated ∧
      (h.release d).g_recommendedStart = h.g_recommendedStart := by
    rw [Heap.release, hcount]
    split_ifs
    · rw [Heap.recycle]
      dsimp only
      split_ifs <;> exact ⟨rfl, rfl⟩
    · exact ⟨rfl, rfl⟩
  have hnot : d ∉ h.g_freeList := fun hmem ↦ hd.ne' (hc.free d hmem).1
  refine ⟨⟨fun e ↦ ?_, fun e ↦ (Nat.sub_le _ _).trans_lt (hc.count_lt e), fun e he ↦ ?_,
    fun e he ↦ ?_, ?_⟩, fun e ↦ ?_, halloc.2⟩
  · rw [hdata]
    by_cases hed : e = d
    · rw [hed, Function.update_self, if_pos rfl]
    · rw [Function.update_of_ne hed, if_neg hed]
      exact hc.count e
  · rw [halloc.1]
    exact hc.allocated e (he.trans_le (Nat.sub_le _ _))
  · rw [halloc.1]
    have hold : e ∈ h.g_freeList → _ := fun hmem ↦ hc.free e hmem
    rcases hfree with hfree | ⟨hfree, hone⟩
    · rw [hfree] at he
      exact ⟨by rw [(hold he).1, Nat.zero_sub], (hold he).2⟩
    · rw [hfree] at he
      rcases List.mem_cons.mp he with rfl | he
      · exact ⟨by rw [hone, if_pos rfl], hc.allocated e hd⟩
      · exact ⟨by rw [(hold he).1, Nat.zero_sub], (hold he).2⟩
  · rcases hfree with hfree | ⟨hfree, -⟩
    · rw [hfree]
      exact hc.nodup
    · rw [hfree]
      exact List.nodup_cons.mpr ⟨hnot, hc.nodup⟩
  · rw [hdata]
    by_cases hed : e = d
    · rw [hed, Function.update_self]
      exact ⟨rfl, rfl, rfl, rfl⟩
    · rw [Function.update_of_ne hed]
      exact .refl _

theorem Heap.Counted.acquire (hc : h.Counted r) (hd : 0 < r d) (hlt : r d + 1 < 2 ^ 32) :
    (h.acquire d).Counted (fun e ↦ r e + if e = d then 1 else 0) ∧
      ∀ e, SameArea (h.data e) ((h.acquire d).data e) := by
  have hcount : add32 (h.data d).m_count 1 = r d + 1 := by
    rw [hc.count, add32_eq hlt]
  have hnot : d ∉ h.g_freeList := fun hmem ↦ hd.ne' (hc.free d hmem).1
  rw [Heap.acquire, hcount]
  refine ⟨⟨fun e ↦ ?_, fun e ↦ ?_, fun e he ↦ ?_, fun e he ↦ ?_, hc.nodup⟩, fun e ↦ ?_⟩
  · by_cases hed : e = d
    · rw [hed, Heap.setData_self, if_pos rfl]
    · rw [Heap.setData_of_ne hed, if_neg hed]
      exact hc.count e
  · split_ifs with hed
    · rwa [hed]
    · exact hc.count_lt e
  · split_ifs at he with hed
    · rw [hed]
      exact hc.allocated d hd
    · exact hc.allocated e he
  · rw [if_neg (ne_of_mem_of_not_mem he hnot)]
    exact hc.free e he
  · by_cases hed : e = d
    · rw [hed, Heap.setData_self]
      exact ⟨rfl, rfl, rfl, rfl⟩
    · rw [Heap.setData_of_ne hed]
      exact .refl _

end Heap

/-! ## The invariant -/

/-- How buffer `x` lies in its block, whose zero areas are no longer than `z`. -/
structure Alias (data : Data) (z : ℕ) (x : Buffer) : Prop where
  ordered : Ordered x data.m_size
  dirtyStart_le : data.m_dirtyStart ≤ x.m_start
  zero_le : x.m_zeroAreaEnd - x.m_zeroAreaStart ≤ z
  end_le : x.m_end ≤ data.m_dirtyEnd
  real_le : x.m_end - (x.m_zeroAreaEnd - x.m_zeroAreaStart) + z ≤ data.m_dirtyEnd

/-- The buffers of each block lie in it. -/
def Shared (h : Heap) (live : Finset ℕ) (buffer : ℕ → Buffer) : Prop :=
  ∀ d, ∃ z, ∀ b ∈ live, (buffer b).m_data = d → Alias (h.data d) z (buffer b)

/-- The bytes just added are in no other buffer. -/
structure Exclusive (s : System) (a : Added) : Prop where
  live : a.buffer ∈ s.live
  start_le : (s.buffer a.buffer).m_start ≤ a.first
  le_end : a.last ≤ (s.buffer a.buffer).m_end
  other : (a.last ≤ (s.buffer a.buffer).m_zeroAreaStart ∧
      ∀ c ∈ s.live, c ≠ a.buffer → (s.buffer c).m_data = (s.buffer a.buffer).m_data →
        a.last ≤ (s.buffer c).m_start) ∨
    ((s.buffer a.buffer).m_zeroAreaEnd ≤ a.first ∧
      ∀ c ∈ s.live, c ≠ a.buffer → (s.buffer c).m_data = (s.buffer a.buffer).m_data →
        (s.buffer c).m_end - ((s.buffer c).m_zeroAreaEnd - (s.buffer c).m_zeroAreaStart) ≤
          a.first - ((s.buffer a.buffer).m_zeroAreaEnd - (s.buffer a.buffer).m_zeroAreaStart))

/-- The block of each buffer. -/
def System.owner (s : System) (b : ℕ) : ℕ := (s.buffer b).m_data

/-- The invariant. -/
structure Inv (s : System) : Prop where
  counted : s.heap.Counted (refs s.live s.owner)
  shared : Shared s.heap s.live s.buffer
  added : ∀ a ∈ s.added, Exclusive s a

section Inv

variable {memory : ℕ → ℕ → UInt8} {s s' : System} {h' : Heap} {x y : Buffer} {data data' : Data}
  {b c n z : ℕ}

theorem Alias.congr (ha : Alias data z x) (hs : SameArea data data') : Alias data' z x := by
  obtain ⟨h1, h2, h3, h4, h5⟩ := ha
  refine ⟨?_, ?_, h3, ?_, ?_⟩
  · rwa [hs.size]
  · rwa [hs.dirtyStart]
  · rwa [hs.dirtyEnd]
  · rwa [hs.dirtyEnd]

theorem Alias.copy (ha : Alias data z x) (m : ℕ) :
    Alias data z { x with m_maxZeroAreaStart := m } := by
  obtain ⟨⟨h1, h2, h3, h4, h5⟩, h6, h7, h8, h9⟩ := ha
  exact ⟨⟨h1, h2, h3, h4, h5⟩, h6, h7, h8, h9⟩

theorem Alias.cut (ha : Alias data z x) {first last : ℕ} (hc : Cut x y first last) :
    Alias data z y := by
  obtain ⟨h1, h2, h3, h4, h5⟩ := ha
  exact ⟨hc.ordered h1, h2.trans hc.start_le, hc.zero_le.trans h3, hc.end_le.trans h4,
    (Nat.add_le_add_right hc.internalEnd_le z).trans h5⟩

theorem bytes_of_data_eq (hd : data'.m_data = data.m_data) : x.bytes data' = x.bytes data := by
  rw [bytes, bytes]
  refine span_congr fun i _ ↦ ?_
  rw [peekU8, peekU8, hd]

theorem Inv.alias (hi : Inv s) (hb : b ∈ s.live) : ∃ z, Alias (s.data b) z (s.buffer b) ∧
    ∀ c ∈ s.live, (s.buffer c).m_data = (s.buffer b).m_data → Alias (s.data b) z (s.buffer c) := by
  obtain ⟨z, hz⟩ := hi.shared (s.buffer b).m_data
  exact ⟨z, hz b hb rfl, hz⟩

theorem Inv.ordered (hi : Inv s) (hb : b ∈ s.live) : Ordered (s.buffer b) (s.data b).m_size := by
  obtain ⟨z, hz, -⟩ := hi.alias hb
  exact hz.ordered

/-! ### A step that sets one buffer -/

theorem Inv.update (hi : Inv s) (s' : System) (hlive : s'.live = insert b s.live)
    (hbuffer : s'.buffer = Function.update s.buffer b x)
    (hcounted : s'.heap.Counted (refs s'.live s'.owner))
    (hsame : ∀ e ≠ x.m_data, SameArea (s.heap.data e) (s'.heap.data e))
    (hx : ∃ z, Alias (s'.heap.data x.m_data) z x ∧ ∀ c ∈ s.live, c ≠ b →
      (s.buffer c).m_data = x.m_data → Alias (s'.heap.data x.m_data) z (s.buffer c))
    (hbytes : ∀ c ∈ s.live, c ≠ b → (s.buffer c).m_data = x.m_data →
      (s'.heap.data x.m_data).m_data = (s.heap.data x.m_data).m_data)
    (hadded : ∀ a ∈ s'.added, Exclusive s' a) :
    Inv s' ∧
      s'.strings = Function.update s.strings b (some (x.bytes (s'.heap.data x.m_data))) := by
  have hself : s'.buffer b = x := by rw [hbuffer, Function.update_self]
  have hother : ∀ c ≠ b, s'.buffer c = s.buffer c := fun c hc ↦ by
    rw [hbuffer, Function.update_of_ne hc]
  have hmem : ∀ c ∈ s'.live, c ≠ b → c ∈ s.live := fun c hc hcb ↦ by
    rw [hlive] at hc
    exact Finset.mem_of_mem_insert_of_ne hc hcb
  refine ⟨⟨hcounted, fun d ↦ ?_, hadded⟩, funext fun c ↦ ?_⟩
  · by_cases hd : d = x.m_data
    · subst hd
      obtain ⟨z, hzx, hz⟩ := hx
      refine ⟨z, fun c hc hcd ↦ ?_⟩
      by_cases hcb : c = b
      · rw [hcb, hself]
        exact hzx
      · rw [hother c hcb] at hcd ⊢
        exact hz c (hmem c hc hcb) hcb hcd
    · obtain ⟨z, hz⟩ := hi.shared d
      refine ⟨z, fun c hc hcd ↦ ?_⟩
      have hcb : c ≠ b := by
        rintro rfl
        exact hd (hcd.symm.trans (congrArg m_data hself))
      rw [hother c hcb] at hcd ⊢
      exact (hz c (hmem c hc hcb) hcd).congr (hsame d hd)
  · by_cases hcb : c = b
    · rw [hcb, Function.update_self, System.strings, System.data, hself, hlive,
        if_pos (Finset.mem_insert_self b s.live)]
    · rw [Function.update_of_ne hcb, System.strings, System.strings, System.data, System.data,
        hother c hcb]
      by_cases hc : c ∈ s.live
      · rw [if_pos hc, if_pos (by rw [hlive]; exact Finset.mem_insert_of_mem hc)]
        congr 1
        refine bytes_of_data_eq ?_
        by_cases hd : (s.buffer c).m_data = x.m_data
        · rw [hd]
          exact hbytes c hc hcb hd
        · exact (hsame _ hd).bytes
      · rw [if_neg hc, if_neg fun hmem' ↦ hc (hmem c hmem' hcb)]

theorem owner_update (s : System) (b : ℕ) (x : Buffer) :
    (fun c ↦ (Function.update s.buffer b x c).m_data) = Function.update s.owner b x.m_data := by
  funext c
  by_cases hcb : c = b
  · rw [hcb, Function.update_self, Function.update_self]
  · rw [Function.update_of_ne hcb, Function.update_of_ne hcb]
    rfl

theorem refs_addBuffer (hb : b ∉ s.live) (x : Buffer) (e : ℕ) :
    refs (insert b s.live) (fun c ↦ (Function.update s.buffer b x c).m_data) e =
      refs s.live s.owner e + if e = x.m_data then 1 else 0 := by
  rw [owner_update]
  exact refs_insert hb

/-- The references after a buffer has been set to one of its own block. -/
theorem refs_setBuffer (hx : x.m_data = (s.buffer b).m_data) (e : ℕ) :
    refs s.live (fun c ↦ (Function.update s.buffer b x c).m_data) e = refs s.live s.owner e := by
  rw [owner_update, hx]
  exact congrArg (refs s.live · e) (Function.update_eq_self b s.owner)

theorem refs_moveBuffer (hb : b ∈ s.live) (x : Buffer) (e : ℕ) :
    refs s.live (fun c ↦ (Function.update s.buffer b x c).m_data) e +
      (if e = (s.buffer b).m_data then 1 else 0) =
        refs s.live s.owner e + if e = x.m_data then 1 else 0 := by
  rw [owner_update]
  exact refs_update hb

theorem not_added {s : System} (hn : s.added = none) : ∀ a ∈ s.added, Exclusive s a := fun a ha ↦ by
  rw [hn] at ha
  exact absurd ha (Option.not_mem_none a)

/-! ### Construction, copies and destruction -/

theorem not_alias {d : ℕ} (hd : refs s.live s.owner d = 0) (hc : c ∈ s.live) :
    (s.buffer c).m_data ≠ d := refs_eq_zero_iff.mp hd c hc

theorem Heap.create_size_eq (h : Heap) (memory : ℕ → ℕ → UInt8) :
    min ((h.create memory 0).2.data (h.create memory 0).1).m_size
      (h.create memory 0).2.g_recommendedStart = h.initialStart := by
  rw [create, initialStart]
  rcases hl : h.g_freeList with _ | ⟨d, rest⟩
  · have hself := @Heap.setData_self { h with g_freeList := [] } h.allocated
      ⟨1, 1, 0, 0, memory h.allocated⟩
    exact congrArg (fun data ↦ min (Data.m_size data) h.g_recommendedStart) hself
  · have hpop : h.popFree 0 (d :: rest) = some (d, rest) := by
      rw [popFree, if_pos (Nat.zero_le _)]
    rw [hpop]
    have hsize := congrArg Data.m_size (@Heap.setData_self h d { h.data d with m_count := 1 })
    exact congrArg (min · h.g_recommendedStart) hsize

theorem Inv.step_construct (hi : Inv s) (hb : b ∉ s.live) (hn : s.heap.initialStart + n < 2 ^ 32) :
    Inv (s.addBuffer b (initializeBuffer s.heap memory n).1
        (initializeBuffer s.heap memory n).2) ∧
      (s.addBuffer b (initializeBuffer s.heap memory n).1
        (initializeBuffer s.heap memory n).2).strings =
          Function.update s.strings b (some (List.replicate n 0)) := by
  have hcr := hi.counted.create memory 0
  have hstart := s.heap.create_size_eq memory
  rw [initializeBuffer]
  generalize s.heap.create memory 0 = p at hcr hstart
  obtain ⟨d, h⟩ := p
  dsimp only at hcr hstart ⊢
  have hle : s.heap.initialStart ≤ (h.data d).m_size := hstart ▸ min_le_left _ _
  rw [hstart, add32_eq hn]
  generalize s.heap.initialStart = start at hn hle
  set x : Buffer := ⟨d, start, start, start + n, start, start + n⟩ with hx
  have ho : Ordered x (h.data d).m_size := ⟨le_rfl, Nat.le_add_right _ _, le_rfl, hn, by
    simpa [hx] using hle⟩
  set data : Data := { h.data d with m_dirtyStart := start, m_dirtyEnd := start + n } with hdata
  have hself : (h.setData d data).data x.m_data = data := Heap.setData_self
  have hset : (h.setData d data).Counted _ := hcr.counted.setData rfl
  have hupd := hi.update (s.addBuffer b x (h.setData d data)) rfl rfl
    (hset.congr fun e ↦ refs_addBuffer hb x e)
    (fun e he ↦ ?_) ⟨n, ?_, fun c hc hcb hcd ↦ ?_⟩ (fun c hc hcb hcd ↦ ?_)
    (not_added rfl)
  · refine ⟨hupd.1, hupd.2.trans ?_⟩
    change Function.update s.strings b (some (x.bytes ((h.setData d data).data x.m_data))) = _
    rw [hself, bytes, ho.getSize_eq]
    congr 2
    have hsize : x.m_end - x.m_start = n := Nat.add_sub_cancel_left start n
    rw [hsize]
    refine span_eq_replicate fun i hi ↦ ?_
    rw [ho.peekU8_eq (by simpa [hx] using hi), if_neg (by simp [hx]), if_pos (by simpa [hx] using hi)]
  · change SameArea _ ((h.setData d data).data e)
    rw [Heap.setData_of_ne he, hcr.other e he]
    exact .refl _
  · change Alias ((h.setData d data).data x.m_data) n x
    rw [hself]
    refine ⟨ho, le_rfl, ?_, le_rfl, ?_⟩ <;> simp [hx, hdata]
  · exact absurd hcd (not_alias hcr.unused hc)
  · exact absurd hcd (not_alias hcr.unused hc)

theorem Inv.addBuffer (hi : Inv s) (hb : b ∉ s.live) (hc : c ∈ s.live)
    (hok : (s.data c).m_count + 1 < 2 ^ 32) (hx : x.m_data = (s.buffer c).m_data)
    (halias : ∀ z data, Alias data z (s.buffer c) → Alias data z x) :
    Inv (s.addBuffer b x (s.heap.acquire (s.buffer c).m_data)) ∧
      (s.addBuffer b x (s.heap.acquire (s.buffer c).m_data)).strings =
        Function.update s.strings b (some (x.bytes (s.data c))) := by
  have hpos : 0 < refs s.live s.owner (s.buffer c).m_data := refs_pos hc
  rw [System.data, hi.counted.count] at hok
  obtain ⟨hcounted, hsame⟩ := hi.counted.acquire hpos hok
  obtain ⟨z, -, hz⟩ := hi.alias hc
  have hupd := hi.update (s.addBuffer b x (s.heap.acquire (s.buffer c).m_data)) rfl rfl
    (hcounted.congr fun e ↦ (refs_addBuffer hb x e).trans (by rw [hx])) (fun e _ ↦ hsame e)
    ⟨z, ?_, fun c' hc' _ hd ↦ ?_⟩ (fun c' _ _ _ ↦ (hsame _).bytes) (not_added rfl)
  · refine ⟨hupd.1, hupd.2.trans ?_⟩
    have hbytes : x.bytes ((s.heap.acquire (s.buffer c).m_data).data x.m_data) =
        x.bytes (s.heap.data x.m_data) := bytes_of_data_eq (hsame _).bytes
    change Function.update s.strings b
      (some (x.bytes ((s.heap.acquire (s.buffer c).m_data).data x.m_data))) = _
    rw [hbytes, hx]
    rfl
  · refine Alias.congr ?_ (hsame _)
    rw [hx]
    exact halias z _ (hz c hc rfl)
  · rw [hx] at hd ⊢
    exact (hz c' hc' hd).congr (hsame _)

theorem System.strings_of_mem (hb : b ∈ s.live) :
    s.strings b = some ((s.buffer b).bytes (s.data b)) := if_pos hb

theorem Inv.step_copy (hi : Inv s) (hb : b ∉ s.live) (hc : c ∈ s.live)
    (hok : (s.data c).m_count + 1 < 2 ^ 32) :
    Inv (s.addBuffer b ((s.buffer c).copy s.heap).1 ((s.buffer c).copy s.heap).2) ∧
      (s.addBuffer b ((s.buffer c).copy s.heap).1 ((s.buffer c).copy s.heap).2).strings =
        Function.update s.strings b (s.strings c) := by
  rw [System.strings_of_mem hc]
  exact hi.addBuffer hb hc hok rfl fun z data ha ↦ ha.copy _

theorem Inv.step_createFragment (hi : Inv s) (hb : b ∉ s.live) (hc : c ∈ s.live) {start length : ℕ}
    (hok : (s.data c).m_count + 1 < 2 ^ 32) (hle : start + length ≤ (s.buffer c).getSize) :
    Inv (s.addBuffer b ((s.buffer c).createFragment s.heap start length).1
        ((s.buffer c).createFragment s.heap start length).2) ∧
      (s.addBuffer b ((s.buffer c).createFragment s.heap start length).1
        ((s.buffer c).createFragment s.heap start length).2).strings =
          Function.update s.strings b ((s.strings c).map fun l ↦ (l.drop start).take length) := by
  have ho := hi.ordered hc
  set x : Buffer := { s.buffer c with m_maxZeroAreaStart := (s.buffer c).m_zeroAreaStart } with hx
  have hox : Ordered x (s.data c).m_size := ⟨ho.1, ho.2, ho.3, ho.4, ho.5⟩
  have hsize := ho.getSize_eq
  have hlt := ho.end_lt
  have hstart : x.m_start + start < 2 ^ 32 := by
    have := ho.start_le_end
    change (s.buffer c).m_start + start < 2 ^ 32
    omega
  have hoy := (hox.removeAtStart hstart).ordered hox
  rw [System.strings_of_mem hc, Option.map_some]
  have hres := hi.addBuffer (x := (x.removeAtStart start).removeAtEnd
      (sub32 (s.buffer c).getSize (add32 start length))) hb hc hok
      (hoy.removeAtEnd.data.trans (hox.removeAtStart hstart).data) fun z data ha ↦ by
    have ha' := ha.copy (s.buffer c).m_zeroAreaStart
    have hcut := ha'.ordered.removeAtStart hstart
    exact (ha'.cut hcut).cut (hcut.ordered ha'.ordered).removeAtEnd
  refine ⟨hres.1, hres.2.trans ?_⟩
  rw [hoy.bytes_removeAtEnd, hox.bytes_removeAtStart hstart]
  have hbytes : x.bytes (s.data c) = (s.buffer c).bytes (s.data c) := rfl
  have hlen : ((s.buffer c).bytes (s.data c)).length = (s.buffer c).getSize := length_span
  rw [add32_eq (by omega), sub32_eq hle (by omega), hbytes, List.length_drop, hlen]
  congr 3
  omega

theorem Heap.Counted.recommend {h : Heap} {r : ℕ → ℕ} (hc : h.Counted r) (n : ℕ) :
    (h.recommend n).Counted r := ⟨hc.count, hc.count_lt, hc.allocated, hc.free, hc.nodup⟩

theorem Inv.step_assign (hi : Inv s) (hb : b ∈ s.live) (hc : c ∈ s.live)
    (hok : (s.buffer b).m_data ≠ (s.buffer c).m_data → (s.data c).m_count + 1 < 2 ^ 32) :
    Inv (s.setBuffer b ((s.buffer b).assign s.heap (s.buffer c)).1
        ((s.buffer b).assign s.heap (s.buffer c)).2 none) ∧
      (s.setBuffer b ((s.buffer b).assign s.heap (s.buffer c)).1
        ((s.buffer b).assign s.heap (s.buffer c)).2 none).strings =
          Function.update s.strings b (s.strings c) := by
  obtain ⟨z, hzc, hz⟩ := hi.alias hc
  rw [System.strings_of_mem hc, Buffer.assign]
  dsimp only
  split_ifs with hd
  · have hupd := hi.update (s.setBuffer b (s.buffer c)
      (s.heap.recommend (s.buffer b).m_maxZeroAreaStart) none) (Finset.insert_eq_self.mpr hb).symm rfl
      ((hi.counted.recommend _).congr fun e ↦ refs_setBuffer hd.symm e)
      (fun e _ ↦ .refl _) ⟨z, hzc, fun c' hc' _ hd' ↦ hz c' hc' hd'⟩ (fun _ _ _ _ ↦ rfl)
      (not_added rfl)
    exact hupd
  · have hlt := hok hd
    rw [System.data, hi.counted.count] at hlt
    have hposb : 0 < refs s.live s.owner (s.buffer b).m_data := refs_pos hb
    obtain ⟨hrel, hsame, -⟩ := hi.counted.release (d := (s.buffer b).m_data) hposb
    have hposc : 0 < refs s.live s.owner (s.buffer c).m_data := refs_pos hc
    obtain ⟨hacq, hsame'⟩ := hrel.acquire (d := (s.buffer c).m_data)
      (by rwa [if_neg (Ne.symm hd)]) (by rwa [if_neg (Ne.symm hd)])
    have hsame'' : ∀ e, SameArea (s.heap.data e)
        (((s.heap.release (s.buffer b).m_data).acquire (s.buffer c).m_data).data e) := fun e ↦
      ⟨(hsame' e).1.trans (hsame e).1, (hsame' e).2.trans (hsame e).2,
        (hsame' e).3.trans (hsame e).3, (hsame' e).4.trans (hsame e).4⟩
    have hupd := hi.update (s.setBuffer b (s.buffer c)
      (((s.heap.release (s.buffer b).m_data).acquire (s.buffer c).m_data).recommend
        (s.buffer b).m_maxZeroAreaStart) none) (Finset.insert_eq_self.mpr hb).symm rfl
      ((hacq.recommend _).congr fun e ↦ ?_)
      (fun e _ ↦ hsame'' e) ⟨z, hzc.congr (hsame'' _), fun c' hc' _ hd' ↦
        (hz c' hc' hd').congr (hsame'' _)⟩ (fun _ _ _ _ ↦ (hsame'' (s.buffer c).m_data).bytes) (not_added rfl)
    · have hbytes : (s.buffer c).bytes (((s.heap.release (s.buffer b).m_data).acquire
          (s.buffer c).m_data).data (s.buffer c).m_data) = (s.buffer c).bytes (s.data c) :=
        bytes_of_data_eq (hsame'' (s.buffer c).m_data).bytes
      rw [← hbytes]
      exact hupd
    · have hmove := refs_moveBuffer hb (s.buffer c) e
      change refs s.live (fun c' ↦ (Function.update s.buffer b (s.buffer c) c').m_data) e = _
      by_cases he : e = (s.buffer b).m_data
      · rw [if_pos he] at hmove
        rw [if_pos he]
        subst he
        omega
      · rw [if_neg he] at hmove
        rw [if_neg he]
        omega

theorem Inv.step_destroy (hi : Inv s) (hb : b ∈ s.live) (hs' : s' = { s with
      heap := (s.buffer b).destroy s.heap, live := s.live.erase b, added := none }) :
    Inv s' ∧ s'.strings = Function.update s.strings b none := by
  have hpos : 0 < refs s.live s.owner (s.buffer b).m_data := refs_pos hb
  obtain ⟨hrel, hsame, -⟩ := (hi.counted.recommend (s.buffer b).m_maxZeroAreaStart).release
    (d := (s.buffer b).m_data) hpos
  have hheap : s'.heap = (s.buffer b).destroy s.heap := by rw [hs']
  have hlive : s'.live = s.live.erase b := by rw [hs']
  have hbuffer : s'.buffer = s.buffer := by rw [hs']
  have hnone : s'.added = none := by rw [hs']
  have howner : s'.owner = s.owner := funext fun c ↦ congrArg m_data (congrFun hbuffer c)
  rw [Buffer.destroy] at hheap
  rw [← hheap] at hrel hsame
  refine ⟨⟨?_, fun d ↦ ?_, not_added hnone⟩, funext fun c ↦ ?_⟩
  · rw [hlive, howner]
    refine hrel.congr fun e ↦ ?_
    have herase : refs (s.live.erase b) s.owner e + (if e = s.owner b then 1 else 0) =
        refs s.live s.owner e := refs_erase hb
    exact Nat.eq_sub_of_add_eq herase
  · obtain ⟨z, hz⟩ := hi.shared d
    rw [hlive, hbuffer]
    exact ⟨z, fun c hc hd ↦ (hz c (Finset.mem_of_mem_erase hc) hd).congr (hsame d)⟩
  · by_cases hcb : c = b
    · rw [hcb, Function.update_self, System.strings, hlive]
      exact if_neg (Finset.notMem_erase b s.live)
    · rw [Function.update_of_ne hcb, System.strings, System.strings, System.data, hlive, hbuffer]
      by_cases hc : c ∈ s.live
      · rw [if_pos hc, if_pos (Finset.mem_erase.mpr ⟨hcb, hc⟩)]
        have hbytes : (s.buffer c).bytes (s'.heap.data (s.buffer c).m_data) =
            (s.buffer c).bytes (s.data c) := bytes_of_data_eq (hsame (s.buffer c).m_data).bytes
        exact congrArg some hbytes
      · rw [if_neg hc, if_neg fun hmem ↦ hc (Finset.mem_of_mem_erase hmem)]

/-! ### Removals -/

theorem Inv.cut (hi : Inv s) (hb : b ∈ s.live) {first last : ℕ}
    (hc : Cut (s.buffer b) x first last) :
    Inv (s.setBuffer b x s.heap none) ∧
      (s.setBuffer b x s.heap none).strings =
        Function.update s.strings b (some (x.bytes (s.data b))) := by
  obtain ⟨z, hzb, hz⟩ := hi.alias hb
  have hupd := hi.update (s.setBuffer b x s.heap none) (Finset.insert_eq_self.mpr hb).symm rfl
    (hi.counted.congr fun e ↦ refs_setBuffer hc.data e) (fun e _ ↦ .refl _)
    ⟨z, ?_, fun c hc' _ hd ↦ ?_⟩ (fun _ _ _ _ ↦ rfl) (not_added rfl)
  · refine ⟨hupd.1, hupd.2.trans ?_⟩
    rw [hc.data]
    rfl
  · rw [hc.data]
    exact hzb.cut hc
  · rw [hc.data] at hd ⊢
    exact hz c hc' hd

theorem Inv.step_removeAtStart (hi : Inv s) (hb : b ∈ s.live)
    (hn : (s.buffer b).m_start + n < 2 ^ 32) :
    Inv (s.setBuffer b ((s.buffer b).removeAtStart n) s.heap none) ∧
      (s.setBuffer b ((s.buffer b).removeAtStart n) s.heap none).strings =
        Function.update s.strings b ((s.strings b).map (List.drop n)) := by
  have ho := hi.ordered hb
  obtain ⟨hinv, hstr⟩ := hi.cut hb (ho.removeAtStart hn)
  refine ⟨hinv, ?_⟩
  rw [hstr, ho.bytes_removeAtStart hn, System.strings_of_mem hb, Option.map_some]

theorem Inv.step_removeAtEnd (hi : Inv s) (hb : b ∈ s.live) :
    Inv (s.setBuffer b ((s.buffer b).removeAtEnd n) s.heap none) ∧
      (s.setBuffer b ((s.buffer b).removeAtEnd n) s.heap none).strings =
        Function.update s.strings b ((s.strings b).map fun l ↦ l.take (l.length - n)) := by
  have ho := hi.ordered hb
  obtain ⟨hinv, hstr⟩ := hi.cut hb (ho.removeAtEnd (n := n))
  refine ⟨hinv, ?_⟩
  rw [hstr, ho.bytes_removeAtEnd, System.strings_of_mem hb, Option.map_some]

/-! ### Additions -/

theorem bytes_prepend {k m : ℕ} (ho : Ordered x k) (hoy : Ordered y m)
    (hsize : y.m_end - y.m_start = n + (x.m_end - x.m_start))
    (hpeek : ∀ i < x.m_end - x.m_start,
      y.peekU8 data' (y.m_start + n + i) = x.peekU8 data (x.m_start + i)) :
    y.bytes data' = span (y.peekU8 data') y.m_start n ++ x.bytes data := by
  rw [bytes, bytes, hoy.getSize_eq, ho.getSize_eq, hsize, span_add]
  exact congrArg _ (span_congr hpeek)

theorem bytes_append {k m : ℕ} (ho : Ordered x k) (hoy : Ordered y m)
    (hsize : y.m_end - y.m_start = x.m_end - x.m_start + n)
    (hpeek : ∀ i < x.m_end - x.m_start,
      y.peekU8 data' (y.m_start + i) = x.peekU8 data (x.m_start + i)) :
    y.bytes data' = x.bytes data ++
      span (y.peekU8 data') (y.m_start + (x.m_end - x.m_start)) n := by
  rw [bytes, bytes, hoy.getSize_eq, ho.getSize_eq, hsize, span_add]
  exact congrArg (· ++ _) (span_congr hpeek)

theorem Inv.one_lt_count (hi : Inv s) (hb : b ∈ s.live) (hc : c ∈ s.live) (hcb : c ≠ b)
    (hd : (s.buffer c).m_data = (s.buffer b).m_data) : 1 < (s.data b).m_count := by
  rw [System.data, hi.counted.count]
  have hpos : 0 < refs s.live s.owner (s.buffer b).m_data := refs_pos hb
  by_contra hle
  have hone : refs s.live s.owner (s.buffer b).m_data = 1 := by omega
  exact hcb (eq_of_refs_eq_one hone hc hd hb rfl)

/-- A buffer that may grow in front of itself starts before the other buffers of its block. -/
theorem Inv.start_le_of_clean (hi : Inv s) (hb : b ∈ s.live)
    (hclean : (s.buffer b).startIsClean s.heap = true) (hc : c ∈ s.live) (hcb : c ≠ b)
    (hd : (s.buffer c).m_data = (s.buffer b).m_data) :
    (s.buffer b).m_start ≤ (s.buffer c).m_start := by
  obtain ⟨z, -, hz⟩ := hi.alias hb
  have hcount := hi.one_lt_count hb hc hcb hd
  have hdirty : (s.buffer b).m_start ≤ (s.data b).m_dirtyStart := by
    rw [startIsClean, Bool.not_eq_true', Bool.and_eq_false_iff, decide_eq_false_iff_not,
      decide_eq_false_iff_not] at hclean
    exact not_lt.mp (hclean.resolve_left (not_not.mpr hcount))
  exact hdirty.trans (hz c hc hd).dirtyStart_le

/-- A buffer that may grow behind itself reaches the dirty edge, with the longest zero area. -/
theorem Inv.end_of_clean (hi : Inv s) (hb : b ∈ s.live)
    (hclean : (s.buffer b).endIsClean s.heap = true) (hc : c ∈ s.live) (hcb : c ≠ b)
    (hd : (s.buffer c).m_data = (s.buffer b).m_data) :
    (s.data b).m_dirtyEnd = (s.buffer b).m_end ∧
      Alias (s.data b) ((s.buffer b).m_zeroAreaEnd - (s.buffer b).m_zeroAreaStart)
        (s.buffer c) := by
  obtain ⟨z, hzb, hz⟩ := hi.alias hb
  have hcount := hi.one_lt_count hb hc hcb hd
  have hdirty : (s.data b).m_dirtyEnd ≤ (s.buffer b).m_end := by
    rw [endIsClean, Bool.not_eq_true', Bool.and_eq_false_iff, decide_eq_false_iff_not,
      decide_eq_false_iff_not] at hclean
    exact not_lt.mp (hclean.resolve_left (not_not.mpr hcount))
  have hend := hdirty.antisymm hzb.end_le
  have hzl : z = (s.buffer b).m_zeroAreaEnd - (s.buffer b).m_zeroAreaStart := by
    have h1 := hzb.zero_le
    have h2 := hzb.real_le
    have h3 := hzb.ordered.zeroAreaEnd_le
    omega
  exact ⟨hend, hzl ▸ hz c hc hd⟩

/-- What `moveData` does: a block of its own for `x`. -/
structure Moved (h : Heap) (x : Buffer) (newSize offset d : ℕ) (h' : Heap) (r : ℕ → ℕ) : Prop where
  unused : r d = 0
  size : newSize ≤ (h'.data d).m_size
  bytes : ∃ f, (h'.data d).m_data =
    blit f offset (fun i ↦ (h.data x.m_data).m_data (x.m_start + i)) x.getInternalSize
  other : ∀ e ≠ d, SameArea (h.data e) (h'.data e)
  counted : h'.Counted fun e ↦ (r e + if e = d then 1 else 0) - if e = x.m_data then 1 else 0

theorem Heap.Counted.moveData {h : Heap} {r : ℕ → ℕ} (hc : h.Counted r) (hx : 0 < r x.m_data)
    (memory : ℕ → ℕ → UInt8) (newSize offset : ℕ) :
    Moved h x newSize offset (x.moveData h memory newSize offset).1
      (x.moveData h memory newSize offset).2 r := by
  have hcr := hc.create memory newSize
  rw [Buffer.moveData]
  generalize h.create memory newSize = p at hcr
  obtain ⟨d, h1⟩ := p
  dsimp only at hcr ⊢
  set f : ℕ → UInt8 := fun i ↦ (h.data x.m_data).m_data (x.m_start + i) with hf
  set data : Data :=
    { h1.data d with m_data := blit (h1.data d).m_data offset f x.getInternalSize } with hdata
  have hset : (h1.setData d data).Counted _ := hcr.counted.setData rfl
  have hpos : 0 < r x.m_data + if x.m_data = d then 1 else 0 := by omega
  obtain ⟨hrel, hsame, -⟩ := hset.release hpos
  refine ⟨hcr.unused, ?_, ⟨(h1.data d).m_data, ?_⟩, fun e he ↦ ?_, hrel⟩
  · rw [(hsame d).size, Heap.setData_self]
    exact hcr.size
  · rw [(hsame d).bytes, Heap.setData_self]
  · have := hsame e
    rwa [Heap.setData_of_ne he, hcr.other e he] at this

/-- The references after the bytes of a buffer have been moved to a block of their own. -/
theorem refs_moved (hb : b ∈ s.live) (x : Buffer) (e : ℕ) :
    refs s.live (fun c ↦ (Function.update s.buffer b x c).m_data) e =
      (refs s.live s.owner e + if e = x.m_data then 1 else 0) -
        if e = (s.buffer b).m_data then 1 else 0 := by
  have := refs_moveBuffer hb x e
  omega

theorem Inv.move (hi : Inv s) (hb : b ∈ s.live) {newSize offset d : ℕ} {h : Heap}
    (hm : Moved s.heap (s.buffer b) newSize offset d h (refs s.live s.owner)) (hd : x.m_data = d)
    (ho : Ordered x newSize) (added : Added) (hbuffer : added.buffer = b)
    (hstart : x.m_start ≤ added.first) (hend : added.last ≤ x.m_end)
    (hside : added.last ≤ x.m_zeroAreaStart ∨ x.m_zeroAreaEnd ≤ added.first) :
    ∃ data : Data, (∃ f, data.m_data = blit f offset
        (fun i ↦ (s.data b).m_data ((s.buffer b).m_start + i)) (s.buffer b).getInternalSize) ∧
      Inv (s.setBuffer b x (h.setData d { h.data d with
        m_dirtyStart := x.m_start, m_dirtyEnd := x.m_end }) (some added)) ∧
      (s.setBuffer b x (h.setData d { h.data d with
        m_dirtyStart := x.m_start, m_dirtyEnd := x.m_end }) (some added)).strings =
          Function.update s.strings b (some (x.bytes data)) := by
  set data : Data := { h.data d with m_dirtyStart := x.m_start, m_dirtyEnd := x.m_end } with hdata
  set s' : System := s.setBuffer b x (h.setData d data) (some added) with hs'
  have hself : s'.heap.data x.m_data = data := by
    rw [hd]
    exact Heap.setData_self
  have hset : (h.setData d data).Counted _ := hm.counted.setData rfl
  have hnone : ∀ c ∈ s.live, (s.buffer c).m_data ≠ x.m_data := fun c hc ↦ by
    rw [hd]
    exact not_alias hm.unused hc
  have hxb : s'.buffer b = x := Function.update_self _ _ _
  have hother : ∀ c ≠ b, s'.buffer c = s.buffer c := fun c hc ↦ Function.update_of_ne hc _ _
  have hupd := hi.update s' (Finset.insert_eq_self.mpr hb).symm rfl
    (hset.congr fun e ↦ (refs_moved hb x e).trans (by rw [hd]))
    (fun e he ↦ ?_) ⟨x.m_zeroAreaEnd - x.m_zeroAreaStart, ?_, fun c hc _ hcd ↦ ?_⟩
    (fun c hc _ hcd ↦ absurd hcd (hnone c hc)) (fun a ha ↦ ?_)
  · refine ⟨data, hm.bytes, hupd.1, hupd.2.trans ?_⟩
    rw [hself]
  · rw [hd] at he
    change SameArea _ ((h.setData d data).data e)
    rw [Heap.setData_of_ne he]
    exact hm.other e he
  · rw [hself]
    have hle := ho.zeroAreaEnd_le
    refine ⟨⟨ho.1, ho.2, ho.3, ho.4, ho.5.trans hm.size⟩, le_rfl, le_rfl, le_rfl, ?_⟩
    exact (Nat.sub_add_cancel ((Nat.sub_le _ _).trans hle)).le
  · exact absurd hcd (hnone c hc)
  · obtain rfl := Option.some.inj ha
    refine ⟨hbuffer ▸ hb, ?_, ?_, ?_⟩
    · rwa [hbuffer, hxb]
    · rwa [hbuffer, hxb]
    · rw [hbuffer, hxb]
      have hno : ∀ c ∈ s'.live, c ≠ b → (s'.buffer c).m_data = x.m_data → False :=
        fun c hc hcb hcd ↦ hnone c hc (by rwa [hother c hcb] at hcd)
      exact hside.imp (fun hl ↦ ⟨hl, fun c hc hcb hcd ↦ (hno c hc hcb hcd).elim⟩)
        fun hl ↦ ⟨hl, fun c hc hcb hcd ↦ (hno c hc hcb hcd).elim⟩

theorem Inv.grow (hi : Inv s) (hb : b ∈ s.live) (data : Data) (added : Added)
    (hd : x.m_data = (s.buffer b).m_data)
    (hcount : data.m_count = (s.data b).m_count) (hbytes : data.m_data = (s.data b).m_data)
    (hx : ∃ z, Alias data z x ∧ ∀ c ∈ s.live, c ≠ b →
      (s.buffer c).m_data = (s.buffer b).m_data → Alias data z (s.buffer c))
    (hbuffer : added.buffer = b) (hstart : x.m_start ≤ added.first)
    (hend : added.last ≤ x.m_end)
    (hside : (added.last ≤ x.m_zeroAreaStart ∧ ∀ c ∈ s.live, c ≠ b →
        (s.buffer c).m_data = (s.buffer b).m_data → added.last ≤ (s.buffer c).m_start) ∨
      (x.m_zeroAreaEnd ≤ added.first ∧ ∀ c ∈ s.live, c ≠ b →
        (s.buffer c).m_data = (s.buffer b).m_data →
        (s.buffer c).m_end - ((s.buffer c).m_zeroAreaEnd - (s.buffer c).m_zeroAreaStart) ≤
          added.first - (x.m_zeroAreaEnd - x.m_zeroAreaStart))) :
    Inv (s.setBuffer b x (s.heap.setData (s.buffer b).m_data data) (some added)) ∧
      (s.setBuffer b x (s.heap.setData (s.buffer b).m_data data) (some added)).strings =
        Function.update s.strings b (some (x.bytes (s.data b))) := by
  set s' : System := s.setBuffer b x (s.heap.setData (s.buffer b).m_data data) (some added) with hs'
  have hself : s'.heap.data x.m_data = data := by
    rw [hd]
    exact Heap.setData_self
  have hset : (s.heap.setData (s.buffer b).m_data data).Counted _ := hi.counted.setData hcount
  have hxb : s'.buffer b = x := Function.update_self _ _ _
  have hother : ∀ c ≠ b, s'.buffer c = s.buffer c := fun c hc ↦ Function.update_of_ne hc _ _
  have hupd := hi.update s' (Finset.insert_eq_self.mpr hb).symm rfl
    (hset.congr fun e ↦ refs_setBuffer hd e) (fun e he ↦ ?_) ?_ (fun c hc _ hcd ↦ ?_)
    (fun a ha ↦ ?_)
  · refine ⟨hupd.1, hupd.2.trans ?_⟩
    rw [hself, bytes_of_data_eq hbytes]
  · rw [hd] at he
    change SameArea _ ((s.heap.setData (s.buffer b).m_data data).data e)
    rw [Heap.setData_of_ne he]
    exact .refl _
  · obtain ⟨z, hzx, hz⟩ := hx
    refine ⟨z, ?_, fun c hc hcb hcd ↦ ?_⟩
    · rwa [hself]
    · rw [hself]
      exact hz c hc hcb (hcd.trans hd)
  · rw [hself, hbytes, hd]
    rfl
  · obtain rfl := Option.some.inj ha
    refine ⟨hbuffer ▸ hb, ?_, ?_, ?_⟩
    · rwa [hbuffer, hxb]
    · rwa [hbuffer, hxb]
    · rw [hbuffer, hxb]
      refine hside.imp (fun hl ↦ ⟨hl.1, fun c hc hcb hcd ↦ ?_⟩)
        fun hl ↦ ⟨hl.1, fun c hc hcb hcd ↦ ?_⟩
      · rw [hother c hcb] at hcd ⊢
        exact hl.2 c hc hcb (hcd.trans hd)
      · rw [hother c hcb] at hcd ⊢
        exact hl.2 c hc hcb (hcd.trans hd)

theorem Inv.step_addAtStart (hi : Inv s) (hb : b ∈ s.live) (hn : n < 2 ^ 32)
    (hok : (s.buffer b).getSize + n < 2 ^ 32) {p : Buffer × Heap}
    (hp : (s.buffer b).addAtStart s.heap memory n = p) :
    Inv (s.setBuffer b p.1 p.2 (some ⟨b, p.1.m_start, p.1.m_start + n⟩)) ∧
      ∃ new : List UInt8, new.length = n ∧
        (s.setBuffer b p.1 p.2 (some ⟨b, p.1.m_start, p.1.m_start + n⟩)).strings =
          Function.update s.strings b ((s.strings b).map (new ++ ·)) := by
  have ho := hi.ordered hb
  obtain ⟨h1, h2, h3, h4, h5⟩ := id ho
  rw [ho.getSize_eq] at hok
  rw [System.strings_of_mem hb]
  simp only [Option.map_some]
  rw [Buffer.addAtStart] at hp
  split_ifs at hp with hgrow
  · -- in the block of the buffer
    obtain ⟨z, hzb, hz⟩ := hi.alias hb
    rw [sub32_eq hgrow.1 (by omega)] at hp
    subst hp
    set y : Buffer := { s.buffer b with m_start := (s.buffer b).m_start - n }.learn with hy
    have hoy : Ordered y (s.data b).m_size := ⟨(Nat.sub_le _ _).trans h1, h2, h3, h4, h5⟩
    have hclean := fun c hc hcb hd ↦ hi.start_le_of_clean (c := c) hb hgrow.2 hc hcb hd
    have hlast : y.m_start + n = (s.buffer b).m_start := Nat.sub_add_cancel hgrow.1
    have hgrown := hi.grow (x := y) hb { s.data b with m_dirtyStart := y.m_start }
      ⟨b, y.m_start, y.m_start + n⟩ rfl rfl rfl
      ⟨z, ⟨hoy, le_rfl, hzb.zero_le, hzb.end_le, hzb.real_le⟩, fun c hc hcb hd ↦ ?_⟩ rfl le_rfl
      (hlast.trans_le ho.start_le_end) (.inl ⟨hlast.trans_le h1, fun c hc hcb hd ↦ ?_⟩)
    · obtain ⟨hinv, hstr⟩ := hgrown
      have hbytes : y.bytes (s.data b) =
          span (y.peekU8 (s.data b)) y.m_start n ++ (s.buffer b).bytes (s.data b) := by
        refine bytes_prepend ho hoy ?_ fun i _ ↦ ?_
        · change (s.buffer b).m_end - ((s.buffer b).m_start - n) = _
          have := ho.start_le_end
          omega
        · rw [hlast]
          rfl
      rw [hbytes] at hstr
      exact ⟨hinv, _, length_span, hstr⟩
    · have hzc := hz c hc hd
      exact ⟨hzc.ordered, (Nat.sub_le _ _).trans (hclean c hc hcb hd), hzc.zero_le, hzc.end_le,
        hzc.real_le⟩
    · exact hlast.trans_le (hclean c hc hcb hd)
  · -- in a block of its own
    have hpos : 0 < refs s.live s.owner (s.buffer b).m_data := refs_pos hb
    have hm := hi.counted.moveData (x := s.buffer b) hpos memory
      (add32 (s.buffer b).getInternalSize n) n
    generalize (s.buffer b).moveData s.heap memory (add32 (s.buffer b).getInternalSize n) n = q
      at hm hp
    obtain ⟨d, h⟩ := q
    dsimp only at hm hp
    have hshift : ∀ a, (s.buffer b).m_start ≤ a → a ≤ (s.buffer b).m_end →
        add32 a (sub32 n (s.buffer b).m_start) = a - (s.buffer b).m_start + n := fun a ha ha' ↦
      add32_sub32 ha (by omega) hn (by omega)
    have hstart : sub32 (add32 (s.buffer b).m_start (sub32 n (s.buffer b).m_start)) n = 0 := by
      rw [hshift _ le_rfl ho.start_le_end, Nat.sub_self, Nat.zero_add, sub32_eq le_rfl hn,
        Nat.sub_self]
    rw [shift, hshift _ h1 (h2.trans h3), hshift _ (h1.trans h2) h3,
      hshift _ ho.start_le_end le_rfl] at hp
    dsimp only at hp
    rw [hstart] at hp
    subst hp
    set y : Buffer := Buffer.learn ⟨d, (s.buffer b).m_maxZeroAreaStart,
      (s.buffer b).m_zeroAreaStart - (s.buffer b).m_start + n,
      (s.buffer b).m_zeroAreaEnd - (s.buffer b).m_start + n, 0,
      (s.buffer b).m_end - (s.buffer b).m_start + n⟩ with hy
    have hoy : Ordered y (add32 (s.buffer b).getInternalSize n) := by
      have hsize := ho.getInternalSize_eq
      rw [hsize, add32_eq (by omega)]
      refine ⟨Nat.zero_le _, ?_, ?_, hok, ?_⟩ <;> simp only [hy, learn] <;> omega
    have hmoved := hi.move (x := y) hb hm rfl hoy ⟨b, 0, 0 + n⟩ rfl le_rfl
      ?_ (.inl ?_)
    · obtain ⟨data, ⟨f, hf⟩, hinv, hstr⟩ := hmoved
      have hbytes : y.bytes data =
          span (y.peekU8 data) y.m_start n ++ (s.buffer b).bytes (s.data b) := by
        refine bytes_prepend ho hoy ?_ fun i hilt ↦ ?_
        · simp only [hy, learn]
          omega
        · have hpeek := ho.peekU8_moved hoy (s.data b) data (s.buffer b).m_start n
            (v := (s.buffer b).m_start + i) le_rfl rfl rfl le_rfl (fun j hj hj' ↦ ?_)
            (Nat.le_add_right _ _) (by omega)
          · have haddr : y.m_start + n + i = (s.buffer b).m_start + i - (s.buffer b).m_start + n := by
              simp only [hy, learn]
              omega
            rw [haddr]
            exact hpeek
          · rw [hf, blit_of_mem (by omega) (by rw [ho.getInternalSize_eq]; omega)]
            congr 1
            omega
      rw [hbytes] at hstr
      exact ⟨hinv, _, length_span, hstr⟩
    · simp only [hy, learn]
      omega
    · simp only [hy, learn]
      omega

theorem Inv.step_addAtEnd (hi : Inv s) (hb : b ∈ s.live) (hn : n < 2 ^ 32)
    (hok : if (s.buffer b).growsAtEnd s.heap n then (s.buffer b).m_end + n < 2 ^ 32
      else (s.buffer b).getSize + n < 2 ^ 32) {p : Buffer × Heap}
    (hp : (s.buffer b).addAtEnd s.heap memory n = p) :
    Inv (s.setBuffer b p.1 p.2 (some ⟨b, p.1.m_end - n, p.1.m_end⟩)) ∧
      ∃ new : List UInt8, new.length = n ∧
        (s.setBuffer b p.1 p.2 (some ⟨b, p.1.m_end - n, p.1.m_end⟩)).strings =
          Function.update s.strings b ((s.strings b).map (· ++ new)) := by
  have ho := hi.ordered hb
  obtain ⟨h1, h2, h3, h4, h5⟩ := id ho
  rw [System.strings_of_mem hb]
  simp only [Option.map_some]
  rw [Buffer.addAtEnd] at hp
  by_cases hgrow : (s.buffer b).growsAtEnd s.heap n
  · -- in the block of the buffer
    rw [if_pos hgrow] at hok
    obtain ⟨hfits, hclean⟩ := id hgrow
    rw [if_pos ⟨hfits, hclean⟩, add32_eq hok] at hp
    rw [ho.getInternalEnd_eq, add32_eq (by omega)] at hfits
    obtain ⟨z, hzb, -⟩ := hi.alias hb
    subst hp
    set y : Buffer := { s.buffer b with m_end := (s.buffer b).m_end + n }.learn with hy
    have hoy : Ordered y (s.data b).m_size := by
      refine ⟨h1, h2, h3.trans (Nat.le_add_right _ _), hok, le_trans ?_ hfits⟩
      simp only [hy, learn]
      omega
    have hend := fun c hc hcb hd ↦ hi.end_of_clean (c := c) hb hclean hc hcb hd
    have hfirst : y.m_end - n = (s.buffer b).m_end := Nat.add_sub_cancel _ _
    have hgrown := hi.grow (x := y) hb { s.data b with m_dirtyEnd := y.m_end }
      ⟨b, y.m_end - n, y.m_end⟩ rfl rfl rfl
      ⟨(s.buffer b).m_zeroAreaEnd - (s.buffer b).m_zeroAreaStart,
        ⟨hoy, hzb.dirtyStart_le, le_rfl, le_rfl, ?_⟩, fun c hc hcb hd ↦ ?_⟩ rfl
      (ho.start_le_end.trans hfirst.ge) le_rfl
      (.inr ⟨h3.trans hfirst.ge, fun c hc hcb hd ↦ ?_⟩)
    · obtain ⟨hinv, hstr⟩ := hgrown
      have hbytes : y.bytes (s.data b) = (s.buffer b).bytes (s.data b) ++
          span (y.peekU8 (s.data b)) (y.m_start + ((s.buffer b).m_end - (s.buffer b).m_start)) n := by
        refine bytes_append ho hoy ?_ fun i hilt ↦ ?_
        · change (s.buffer b).m_end + n - (s.buffer b).m_start = _
          have := ho.start_le_end
          omega
        · rfl
      rw [hbytes] at hstr
      exact ⟨hinv, _, length_span, hstr⟩
    · simp only [hy, learn]
      omega
    · obtain ⟨hdirty, hzc⟩ := hend c hc hcb hd
      have hle : (s.data b).m_dirtyEnd ≤ y.m_end := hdirty.trans_le (Nat.le_add_right _ _)
      exact ⟨hzc.ordered, hzc.dirtyStart_le, hzc.zero_le, hzc.end_le.trans hle,
        hzc.real_le.trans hle⟩
    · obtain ⟨hdirty, hzc⟩ := hend c hc hcb hd
      have hreal := hzc.real_le
      rw [hdirty] at hreal
      dsimp only
      rw [hfirst]
      exact Nat.le_sub_of_add_le hreal
  · -- in a block of its own
    rw [if_neg hgrow, ho.getSize_eq] at hok
    rw [growsAtEnd] at hgrow
    rw [if_neg hgrow] at hp
    have hpos : 0 < refs s.live s.owner (s.buffer b).m_data := refs_pos hb
    have hm := hi.counted.moveData (x := s.buffer b) hpos memory
      (add32 (s.buffer b).getInternalSize n) 0
    generalize (s.buffer b).moveData s.heap memory (add32 (s.buffer b).getInternalSize n) 0 = q
      at hm hp
    obtain ⟨d, h⟩ := q
    dsimp only at hm hp
    have hshift : ∀ a, (s.buffer b).m_start ≤ a → a ≤ (s.buffer b).m_end →
        add32 a (sub32 0 (s.buffer b).m_start) = a - (s.buffer b).m_start + 0 := fun a ha ha' ↦
      add32_sub32 ha (by omega) (by decide) (by omega)
    rw [shift, hshift _ le_rfl ho.start_le_end, hshift _ h1 (h2.trans h3),
      hshift _ (h1.trans h2) h3, hshift _ ho.start_le_end le_rfl] at hp
    dsimp only at hp
    rw [add32_eq (by omega)] at hp
    subst hp
    set y : Buffer := Buffer.learn ⟨d, (s.buffer b).m_maxZeroAreaStart,
      (s.buffer b).m_zeroAreaStart - (s.buffer b).m_start + 0,
      (s.buffer b).m_zeroAreaEnd - (s.buffer b).m_start + 0,
      (s.buffer b).m_start - (s.buffer b).m_start + 0,
      (s.buffer b).m_end - (s.buffer b).m_start + 0 + n⟩ with hy
    have hoy : Ordered y (add32 (s.buffer b).getInternalSize n) := by
      have hsize := ho.getInternalSize_eq
      rw [hsize, add32_eq (by omega)]
      refine ⟨?_, ?_, ?_, hok, ?_⟩ <;> simp only [hy, learn] <;> omega
    have hmoved := hi.move (x := y) hb hm rfl hoy
      ⟨b, y.m_end - n, y.m_end⟩ rfl ?_ le_rfl (.inr ?_)
    · obtain ⟨data, ⟨f, hf⟩, hinv, hstr⟩ := hmoved
      have hbytes : y.bytes data = (s.buffer b).bytes (s.data b) ++
          span (y.peekU8 data) (y.m_start + ((s.buffer b).m_end - (s.buffer b).m_start)) n := by
        refine bytes_append ho hoy ?_ fun i hilt ↦ ?_
        · simp only [hy, learn]
          omega
        · have hpeek := ho.peekU8_moved hoy (s.data b) data (s.buffer b).m_start 0
            (v := (s.buffer b).m_start + i) le_rfl rfl rfl (Nat.le_add_right _ _)
            (fun j hj hj' ↦ ?_) (Nat.le_add_right _ _) (by omega)
          · have haddr : y.m_start + i = (s.buffer b).m_start + i - (s.buffer b).m_start + 0 := by
              simp only [hy, learn]
              omega
            rw [haddr]
            exact hpeek
          · rw [hf, blit_of_mem (Nat.zero_le _) (by rw [ho.getInternalSize_eq]; omega)]
            congr 1
            omega
      rw [hbytes] at hstr
      exact ⟨hinv, _, length_span, hstr⟩
    · simp only [hy, learn]
      omega
    · simp only [hy, learn]
      omega

/-! ### Writes -/

/-- Writing `n` bytes at offset `current` changes the address `dst` on, in front of the zero area or
behind it. -/
structure Written (x : Buffer) (data data' : Data) (current n : ℕ) (g : ℕ → UInt8) (dst : ℕ) :
    Prop where
  data : data' = { data with m_data := blit data.m_data dst g n }
  place : (dst = current ∧ current + n ≤ x.m_zeroAreaStart) ∨
    (dst = current - (x.m_zeroAreaEnd - x.m_zeroAreaStart) ∧ x.m_zeroAreaEnd ≤ current)

theorem Written.bytes (ho : Ordered x z) {offset dst : ℕ} {g : ℕ → UInt8}
    (hw : Written x data data' (x.m_start + offset) n g dst) (hle : x.m_start + offset + n ≤ x.m_end) :
    x.bytes data' = overwrite (x.bytes data) offset (span g 0 n) := by
  obtain ⟨h1, h2, h3, h4, -⟩ := id ho
  obtain ⟨rfl, hplace⟩ := hw
  have hsize := ho.getSize_eq
  refine overwrite_span (by omega) (fun j hj ↦ ?_) (fun j hj ↦ ?_) fun j hj hj' ↦ ?_
  · rw [ho.peekU8_eq (by omega), Nat.zero_add]
    have hself : ∀ i, i = dst + j → blit data.m_data dst g n i = g j := fun i hi ↦ by
      rw [blit_of_mem (by omega) (by omega), hi, Nat.add_sub_cancel_left]
    rcases hplace with ⟨hdst, hfront⟩ | ⟨hdst, hbehind⟩
    · rw [if_pos (by omega)]
      exact hself _ (by omega)
    · rw [if_neg (by omega), if_neg (by omega)]
      exact hself _ (by omega)
  · rw [ho.peekU8_eq (by omega), ho.peekU8_eq (by omega)]
    split_ifs
    · exact blit_of_not_mem (by omega)
    · rfl
    · exact blit_of_not_mem (by omega)
  · rw [ho.peekU8_eq (by omega), ho.peekU8_eq (by omega)]
    split_ifs
    · exact blit_of_not_mem (by omega)
    · rfl
    · exact blit_of_not_mem (by omega)

theorem Alias.setBytes (ha : Alias data z x) (f : ℕ → UInt8) :
    Alias { data with m_data := f } z x := by
  obtain ⟨⟨h1, h2, h3, h4, h5⟩, h6, h7, h8, h9⟩ := ha
  exact ⟨⟨h1, h2, h3, h4, h5⟩, h6, h7, h8, h9⟩

theorem Inv.written (hi : Inv s) {offset dst : ℕ} {g : ℕ → UInt8} (hj : s.JustAdded b offset n)
    (hw : Written (s.buffer b) (s.data b) data' ((s.buffer b).m_start + offset) n g dst) :
    Inv (s.setData b data') ∧ (s.setData b data').strings =
      Function.update s.strings b ((s.strings b).map fun l ↦ overwrite l offset (span g 0 n)) := by
  obtain ⟨a, ha, rfl, hfirst, hlast⟩ := hj
  obtain ⟨hb, hstart, hend, hother⟩ := hi.added a ha
  have hself : (s.setData a.buffer data').heap.data (s.buffer a.buffer).m_data = data' :=
    Heap.setData_self
  have hne : ∀ d ≠ (s.buffer a.buffer).m_data,
      (s.setData a.buffer data').heap.data d = s.heap.data d := fun d hd ↦ Heap.setData_of_ne hd
  refine ⟨⟨hi.counted.setData ?_, fun d ↦ ?_, fun a' ha' ↦ ?_⟩, funext fun c ↦ ?_⟩
  · rw [hw.data]
    rfl
  · obtain ⟨z, hz⟩ := hi.shared d
    refine ⟨z, fun c hc hd ↦ ?_⟩
    by_cases hda : d = (s.buffer a.buffer).m_data
    · rw [hda, hself, hw.data, System.data, ← hda]
      exact (hz c hc hd).setBytes _
    · rw [hne d hda]
      exact hz c hc hd
  · obtain ⟨h1, h2, h3, h4⟩ := hi.added a' ha'
    exact ⟨h1, h2, h3, h4⟩
  · by_cases hca : c = a.buffer
    · rw [hca, Function.update_self, System.strings_of_mem hb, Option.map_some,
        ← hw.bytes (hi.ordered hb) (hlast.trans hend)]
      refine (System.strings_of_mem (s := s.setData a.buffer data') hb).trans ?_
      exact congrArg (fun data ↦ some ((s.buffer a.buffer).bytes data)) hself
    · rw [Function.update_of_ne hca]
      by_cases hc : c ∈ s.live
      · refine (System.strings_of_mem (s := s.setData a.buffer data') hc).trans ?_
        rw [System.strings_of_mem hc]
        refine congrArg some ?_
        change (s.buffer c).bytes ((s.setData a.buffer data').heap.data (s.buffer c).m_data) =
          (s.buffer c).bytes (s.heap.data (s.buffer c).m_data)
        by_cases hd : (s.buffer c).m_data = (s.buffer a.buffer).m_data
        · -- the addresses written are not those of `c`
          have hoc := hi.ordered hc
          rw [System.data, hd] at hoc
          rw [hd, hself, hw.data]
          have hplace := hw.place
          obtain ⟨h1, h2, h3, -, -⟩ := hi.ordered hb
          refine hoc.bytes_congr fun i hlow hhigh ↦ blit_of_not_mem ?_
          rcases hother with ⟨hfront, hall⟩ | ⟨hbehind, hall⟩
          · have hc' := hall c hc hca hd
            omega
          · have hc' := hall c hc hca hd
            omega
        · rw [hne _ hd]
      · rw [System.strings, System.strings, if_neg hc]
        exact if_neg hc

theorem Writer.inFront_of_le {w : Writer} {zeroStart current : ℕ}
    (hlt : current + w.bytes.length < 2 ^ 32) (hle : current + w.bytes.length ≤ zeroStart) :
    w.inFront zeroStart current = true := by
  cases w with
  | writeU8 data => exact decide_eq_true hle
  | writeU8s data len => exact decide_eq_true ((Nat.le_add_right _ _).trans hle)
  | write buffer => exact decide_eq_true ((Nat.le_add_right _ _).trans hle)
  | writeHtonU16 data => exact decide_eq_true ((add32_eq (b := 2) hlt).trans_le hle)
  | writeHtonU32 data => exact decide_eq_true ((add32_eq (b := 4) hlt).trans_le hle)

theorem Writer.le_of_inFront {w : Writer} {zeroStart current : ℕ}
    (hlt : current + w.bytes.length < 2 ^ 32) (h : w.inFront zeroStart current = true) :
    current ≤ zeroStart := by
  cases w with
  | writeU8 data => exact (of_decide_eq_true h).le
  | writeU8s data len => exact of_decide_eq_true h
  | write buffer => exact of_decide_eq_true h
  | writeHtonU16 data =>
    exact (Nat.le_add_right _ _).trans ((add32_eq (b := 2) hlt).symm.trans_le (of_decide_eq_true h))
  | writeHtonU32 data =>
    exact (Nat.le_add_right _ _).trans ((add32_eq (b := 4) hlt).symm.trans_le (of_decide_eq_true h))

/-- The bytes just added lie in the buffer, on one side of the zero area. -/
theorem Inv.justAdded (hi : Inv s) {offset : ℕ} (hj : s.JustAdded b offset n) :
    b ∈ s.live ∧ (s.buffer b).m_start + offset + n ≤ (s.buffer b).m_end ∧
      ((s.buffer b).m_start + offset + n ≤ (s.buffer b).m_zeroAreaStart ∨
        (s.buffer b).m_zeroAreaEnd ≤ (s.buffer b).m_start + offset) := by
  obtain ⟨a, ha, rfl, hfirst, hlast⟩ := hj
  obtain ⟨hb, hstart, hend, hother⟩ := hi.added a ha
  exact ⟨hb, hlast.trans hend, hother.imp (fun h ↦ hlast.trans h.1) fun h ↦ h.1.trans hfirst⟩

theorem span_getD (l : List UInt8) : span (fun i ↦ l.getD i 0) 0 l.length = l := by
  refine List.ext_getElem length_span fun i hi hi' ↦ ?_
  rw [getElem_span, Nat.zero_add, List.getD_eq_getElem _ _ hi']

theorem Inv.step_write (hi : Inv s) {offset : ℕ} {w : Writer}
    (hj : s.JustAdded b offset w.bytes.length) :
    Inv (s.setData b (Buffer.write (s.buffer b) (s.data b) ((s.buffer b).m_start + offset) w)) ∧
      (s.setData b (Buffer.write (s.buffer b) (s.data b) ((s.buffer b).m_start + offset) w)).strings =
        Function.update s.strings b ((s.strings b).map fun l ↦ overwrite l offset w.bytes) := by
  obtain ⟨hb, hend, hside⟩ := hi.justAdded hj
  have ho := hi.ordered hb
  have hlt := hend.trans_lt ho.end_lt
  have hw : Written (s.buffer b) (s.data b)
      (Buffer.write (s.buffer b) (s.data b) ((s.buffer b).m_start + offset) w)
      ((s.buffer b).m_start + offset) w.bytes.length (fun i ↦ w.bytes.getD i 0)
      (if w.inFront (s.buffer b).m_zeroAreaStart ((s.buffer b).m_start + offset) = true then
        (s.buffer b).m_start + offset
      else sub32 ((s.buffer b).m_start + offset) (s.buffer b).zeroSize) := by
    refine ⟨rfl, ?_⟩
    rw [ho.zeroSize_eq]
    rcases hside with hfront | hbehind
    · rw [if_pos (Writer.inFront_of_le hlt hfront)]
      exact .inl ⟨rfl, hfront⟩
    · refine .inr ⟨?_, hbehind⟩
      split_ifs with h
      · -- the zero area is empty
        have hle := Writer.le_of_inFront hlt h
        have hzero : (s.buffer b).m_zeroAreaEnd ≤ (s.buffer b).m_zeroAreaStart := hbehind.trans hle
        rw [Nat.sub_eq_zero_of_le hzero, Nat.sub_zero]
      · exact sub32_eq (by omega) ((Nat.le_add_right _ _).trans_lt hlt)
  have hwritten := hi.written hj hw
  rwa [span_getD] at hwritten

theorem writeIterators_eq (ho : Ordered y z) (data src : Data) {start end' current : ℕ}
    (hstart : y.m_start ≤ start) (hle : start ≤ end') (hend : end' ≤ y.m_end)
    (hlt : current + (end' - start) < 2 ^ 32) :
    writeIterators y src start end' data current = { data with
      m_data := blit data.m_data current (fun i ↦ y.peekU8 src (start + i)) (end' - start) } := by
  obtain ⟨h1, h2, h3, h4, -⟩ := id ho
  have hcopy : ∀ size edge first, edge < 2 ^ 32 →
      (if first ≤ edge then min size (sub32 edge first) else 0) = min size (edge - first) := by
    intro size edge first hedge
    split_ifs with hfirst
    · rw [sub32_eq hfirst hedge]
    · rw [Nat.sub_eq_zero_of_le (not_le.mp hfirst).le, Nat.min_zero]
  rw [writeIterators, sub32_eq hle (hend.trans_lt h4), hcopy _ _ _ (by omega)]
  set p := min (end' - start) (y.m_zeroAreaStart - start) with hp
  rw [add32_eq (a := start) (b := p) (by omega), add32_eq (a := current) (b := p) (by omega),
    sub32_eq (min_le_left _ _) (by omega), hcopy _ _ _ (by omega)]
  set q := min (end' - start - p) (y.m_zeroAreaEnd - (start + p)) with hq
  rw [add32_eq (a := start + p) (b := q) (by omega), add32_eq (a := current + p) (b := q) (by omega),
    sub32_eq (a := end' - start - p) (min_le_left _ _) (by omega), sub32_eq (a := y.m_end) (by omega) h4,
    min_eq_left (a := end' - start - p - q) (by omega), ho.zeroSize_eq]
  set r := end' - start - p - q with hr
  have hsplit : end' - start = p + q + r := by omega
  have hfirst : blit data.m_data current (fun i ↦ src.m_data (start + i)) p =
      blit data.m_data current (fun i ↦ y.peekU8 src (start + i)) p :=
    blit_congr fun i hi ↦ by rw [ho.peekU8_eq (by omega), if_pos (by omega)]
  have hsecond : ∀ m, blit m (current + p) (fun _ ↦ 0) q =
      blit m (current + p) (fun i ↦ y.peekU8 src (start + (p + i))) q := fun m ↦
    blit_congr fun i hi ↦ by
      rw [ho.peekU8_eq (by omega), if_neg (by omega), if_pos (by omega)]
  have hthird : ∀ m, blit m (current + p + q) (fun i ↦ src.m_data
        (sub32 (start + p + q) (y.m_zeroAreaEnd - y.m_zeroAreaStart) + i)) r =
      blit m (current + p + q) (fun i ↦ y.peekU8 src (start + (p + q + i))) r := fun m ↦
    blit_congr fun i hi ↦ by
      rw [ho.peekU8_eq (by omega), if_neg (by omega), if_neg (by omega),
        sub32_eq (by omega) (by omega)]
      congr 1
      omega
  rw [hfirst, hsecond, hthird, blit_blit (g := fun i ↦ y.peekU8 src (start + i)), hsplit]
  congr 1
  have hblit := blit_blit (f := data.m_data) (a := current) (m := p + q) (n := r)
    (g := fun i ↦ y.peekU8 src (start + i))
  rwa [← add_assoc] at hblit

theorem Inv.step_writeIterators (hi : Inv s) (hc : c ∈ s.live) {offset start end' : ℕ}
    (hle : start ≤ end') (hend : end' ≤ (s.buffer c).getSize)
    (hj : s.JustAdded b offset (end' - start))
    (hok : start = end' ∨ (s.buffer b).m_start + offset < (s.buffer b).m_zeroAreaStart ∨
      (s.buffer b).zeroSize = 0) :
    Inv (s.setData b (writeIterators (s.buffer c) (s.data c) ((s.buffer c).m_start + start)
        ((s.buffer c).m_start + end') (s.data b) ((s.buffer b).m_start + offset))) ∧
      ∀ l' ∈ s.strings c, (s.setData b (writeIterators (s.buffer c) (s.data c)
          ((s.buffer c).m_start + start) ((s.buffer c).m_start + end') (s.data b)
          ((s.buffer b).m_start + offset))).strings =
        Function.update s.strings b
          ((s.strings b).map fun l ↦ overwrite l offset ((l'.drop start).take (end' - start))) := by
  obtain ⟨hb, hlast, hside⟩ := hi.justAdded hj
  have ho := hi.ordered hb
  have hoc := hi.ordered hc
  have hsize := hoc.getSize_eq
  have hlen : (s.buffer c).m_start + end' - ((s.buffer c).m_start + start) = end' - start :=
    Nat.add_sub_add_left _ _ _
  have hlt : (s.buffer b).m_start + offset + ((s.buffer c).m_start + end' -
      ((s.buffer c).m_start + start)) < 2 ^ 32 := hlen ▸ hlast.trans_lt ho.end_lt
  have hdata := writeIterators_eq hoc (s.data b) (s.data c) (Nat.le_add_right _ _)
    (Nat.add_le_add_left hle (s.buffer c).m_start) (by have := hoc.start_le_end; omega) hlt
  rw [hlen] at hdata
  obtain ⟨dst, hw⟩ : ∃ dst, Written (s.buffer b) (s.data b) _ ((s.buffer b).m_start + offset)
      (end' - start) (fun i ↦ (s.buffer c).peekU8 (s.data c)
        ((s.buffer c).m_start + start + i)) dst := by
    rcases hside with hfront | hbehind
    · exact ⟨_, hdata, .inl ⟨rfl, hfront⟩⟩
    · rcases hok with rfl | hfront | hzero
      · refine ⟨_, ?_, .inr ⟨rfl, hbehind⟩⟩
        rw [hdata, Nat.sub_self, blit_zero, blit_zero]
      · exact absurd hfront (not_lt.mpr (ho.zeroAreaStart_le.trans hbehind))
      · rw [ho.zeroSize_eq] at hzero
        exact ⟨_, hdata, .inr ⟨by rw [hzero, Nat.sub_zero], hbehind⟩⟩
  obtain ⟨hinv, hstr⟩ := hi.written hj hw
  refine ⟨hinv, fun l' hl' ↦ hstr.trans ?_⟩
  rw [System.strings_of_mem hc] at hl'
  obtain rfl := Option.some.inj hl'
  have htake : (((s.buffer c).bytes (s.data c)).drop start).take (end' - start) =
      span (fun i ↦ (s.buffer c).peekU8 (s.data c) ((s.buffer c).m_start + start + i)) 0
        (end' - start) := by
    rw [bytes, drop_span, take_span, min_eq_left (by omega)]
    exact span_congr fun i _ ↦ by rw [Nat.zero_add]
  rw [htake]

/-! ### All steps -/

theorem inv_init (memory : ℕ → ℕ → UInt8) : Inv (machine memory).init where
  counted :=
    { count := fun d ↦ (refs_eq_zero_iff.mpr fun b hb ↦ absurd hb (Finset.notMem_empty b)).symm
      count_lt := fun _ ↦ Nat.two_pow_pos 32
      allocated := fun d hd ↦
        absurd (refs_eq_zero_iff.mpr fun b hb ↦ absurd hb (Finset.notMem_empty b)) hd.ne'
      free := fun _ hd ↦ absurd hd List.not_mem_nil
      nodup := List.nodup_nil }
  shared := fun _ ↦ ⟨0, fun b hb ↦ absurd hb (Finset.notMem_empty b)⟩
  added := not_added rfl

/-- A step that fits keeps the invariant, and changes one string. -/
theorem inv_step (hi : Inv s) {op : Op} (hok : Fits s op) (hs : (machine memory).next s op = some s') :
    Inv s' ∧ Evolves s.strings op s'.strings := by
  cases op with
  | construct b zeroSize =>
    simp only [machine, Option.ite_none_right_eq_some, Option.some_inj] at hs
    obtain ⟨⟨hb, -⟩, rfl⟩ := hs
    exact hi.step_construct hb hok
  | copy b c =>
    simp only [machine, Option.ite_none_right_eq_some, Option.some_inj] at hs
    obtain ⟨⟨hb, hc⟩, rfl⟩ := hs
    exact hi.step_copy hb hc hok
  | assign b c =>
    simp only [machine, Option.ite_none_right_eq_some, Option.some_inj] at hs
    obtain ⟨⟨hb, hc⟩, rfl⟩ := hs
    exact hi.step_assign hb hc hok
  | createFragment b c start length =>
    simp only [machine, Option.ite_none_right_eq_some, Option.some_inj] at hs
    obtain ⟨⟨hb, hc, -, -⟩, rfl⟩ := hs
    exact hi.step_createFragment hb hc hok.1 hok.2
  | destroy b =>
    simp only [machine, Option.ite_none_right_eq_some, Option.some_inj] at hs
    obtain ⟨hb, hs'⟩ := hs
    exact hi.step_destroy hb hs'.symm
  | addAtStart b start =>
    simp only [machine, Option.ite_none_right_eq_some, Option.some_inj] at hs
    obtain ⟨⟨hb, hn⟩, rfl⟩ := hs
    exact hi.step_addAtStart hb hn hok rfl
  | addAtEnd b end' =>
    simp only [machine, Option.ite_none_right_eq_some, Option.some_inj] at hs
    obtain ⟨⟨hb, hn⟩, rfl⟩ := hs
    exact hi.step_addAtEnd hb hn hok rfl
  | removeAtStart b start =>
    simp only [machine, Option.ite_none_right_eq_some, Option.some_inj] at hs
    obtain ⟨⟨hb, -⟩, rfl⟩ := hs
    exact hi.step_removeAtStart hb hok
  | removeAtEnd b end' =>
    simp only [machine, Option.ite_none_right_eq_some, Option.some_inj] at hs
    obtain ⟨⟨hb, -⟩, rfl⟩ := hs
    exact hi.step_removeAtEnd hb
  | write b offset w =>
    simp only [machine, Option.ite_none_right_eq_some, Option.some_inj] at hs
    obtain ⟨⟨-, hj⟩, rfl⟩ := hs
    exact hi.step_write hj
  | writeIterators b offset c start end' =>
    simp only [machine, Option.ite_none_right_eq_some, Option.some_inj] at hs
    obtain ⟨⟨-, hc, -, hle, hend, hj⟩, rfl⟩ := hs
    exact hi.step_writeIterators hc hle hend hj hok

end Inv

instance (s : System) : ∀ op, Decidable (Fits s op)
  | .construct _ _ => inferInstanceAs (Decidable (_ < _))
  | .copy _ _ => inferInstanceAs (Decidable (_ < _))
  | .assign _ _ => inferInstanceAs (Decidable (_ → _ < _))
  | .createFragment _ _ _ _ => inferInstanceAs (Decidable (_ ∧ _))
  | .addAtStart _ _ => inferInstanceAs (Decidable (_ < _))
  | .addAtEnd b end' => inferInstanceAs (Decidable (if (s.buffer b).growsAtEnd s.heap end' then
      (s.buffer b).m_end + end' < 2 ^ 32 else (s.buffer b).getSize + end' < 2 ^ 32))
  | .removeAtStart _ _ => inferInstanceAs (Decidable (_ < _))
  | .writeIterators _ _ _ _ _ => inferInstanceAs (Decidable (_ ∨ _ ∨ _))
  | .destroy _ | .removeAtEnd _ _ | .write _ _ _ => isTrue trivial

/-- New memory that is cleared. -/
def clearedMemory : ℕ → ℕ → UInt8 := fun _ _ ↦ 0

/-- Ten bytes, of which five and then `2 ^ 32 - 1` are removed. -/
def wrapOps : List Op := [.construct 0 0, .addAtStart 0 10, .removeAtStart 0 5]

end Buffer

end Ns3
