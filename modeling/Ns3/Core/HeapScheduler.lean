import Mathlib.Data.List.Perm.Basic
import Ns3.Core.Scheduler
import Ns3.Library.BinaryHeap

/-!
# `HeapScheduler`

The scheduler of `heap-scheduler.cc`: a binary heap in an array whose cell `0` is wasted so that the
parent of cell `i` is cell `i / 2`.

`Insert` sifts the new event up from the last cell and `RemoveNext` sifts the last event down from
the root; both keep the heap. `Remove` takes an event out of the middle and puts the last event in
its place, but only sifts it *down*: when the last event comes from another subtree and is before
the parent of the hole, nothing moves it up and the heap order is lost. `RefillInOrder` is the
condition that this does not happen, and it is exactly the condition under which `Remove` keeps the
heap.
-/

namespace Ns3

/-- `HeapScheduler`. -/
structure HeapScheduler where
  /-- The heap; cell `0` is not used. -/
  m_heap : Array Event

namespace HeapScheduler

/-! ## The model -/

/-- The event that fills the wasted cell. -/
def empty : Event := ⟨0, 0, 0, 0⟩

/-- `HeapScheduler::HeapScheduler`. -/
def create : HeapScheduler := ⟨#[empty]⟩

def parent (id : ℕ) : ℕ := id / 2

def leftChild (id : ℕ) : ℕ := id * 2

def rightChild (id : ℕ) : ℕ := id * 2 + 1

def root : ℕ := 1

def isRoot (id : ℕ) : Bool := id == root

variable (s : HeapScheduler)

/-- `m_heap[id]`. -/
def cell (id : ℕ) : Event := s.m_heap.getD id empty

def last : ℕ := s.m_heap.size - 1

def isBottom (id : ℕ) : Bool := decide (s.m_heap.size ≤ id)

def exch (a b : ℕ) : HeapScheduler := ⟨s.m_heap.swapIfInBounds a b⟩

/-- `m_heap.pop_back ()`. -/
def popBack : HeapScheduler := ⟨s.m_heap.pop⟩

def isLessStrictly (a b : ℕ) : Bool := (s.cell a).key.blt (s.cell b).key

def smallest (a b : ℕ) : ℕ := if s.isLessStrictly a b then a else b

def isEmpty : Bool := s.m_heap.size == 1

/-- The loop of `BottomUp`; the index at least halves, so it is its own bound on the rounds. -/
def bottomUpLoop : ℕ → ℕ → HeapScheduler → HeapScheduler
  | 0, _, s => s
  | fuel + 1, index, s =>
    if !isRoot index && s.isLessStrictly index (parent index) then
      bottomUpLoop fuel (parent index) (s.exch index (parent index))
    else s

def bottomUp : HeapScheduler := bottomUpLoop s.last s.last s

/-- `TopDown` from `index`; the index at least doubles, so the size of the heap bounds the rounds. -/
def topDownLoop : ℕ → ℕ → HeapScheduler → HeapScheduler
  | 0, _, s => s
  | fuel + 1, index, s =>
    if !s.isBottom (rightChild index) then
      let tmp := s.smallest (leftChild index) (rightChild index)
      if s.isLessStrictly index tmp then s
      else topDownLoop fuel tmp (s.exch index tmp)
    else if s.isBottom index then s
    -- the last parent of the heap may have a left child only
    else if s.isBottom (leftChild index) then s
    else if s.isLessStrictly index (leftChild index) then s
    else s.exch index (leftChild index)

def topDown (start : ℕ) : HeapScheduler := topDownLoop s.m_heap.size start s

def insert (ev : Event) : HeapScheduler := bottomUp ⟨s.m_heap.push ev⟩

def peekNext : Event := s.cell root

def removeNext : Event × HeapScheduler :=
  (s.cell root, ((s.exch root s.last).popBack).topDown root)

/-- The cell that the search loop of `Remove` finds: the first one with the unique id of `ev`. -/
def find? (ev : Event) : Option ℕ :=
  (List.range' 1 s.last).find? fun i ↦ decide (ev.key.m_uid = (s.cell i).key.m_uid)

/-- `Remove`; not finding the event is `NS_ASSERT (false)`. -/
def remove (ev : Event) : HeapScheduler :=
  match s.find? ev with
  | some i => ((s.exch i s.last).popBack).topDown i
  | none => s

/-- `HeapScheduler` as a scheduler. -/
def scheduler : Scheduler HeapScheduler := ⟨create, insert, isEmpty, peekNext, removeNext, remove⟩

/-! ## What the heap holds -/

/-- The heap order: no cell is strictly less than its parent. -/
def HeapOrdered : Prop :=
  ∀ i < s.m_heap.size, 1 ≤ i → isRoot i = false → s.isLessStrictly i (parent i) = false

instance : Decidable s.HeapOrdered := inferInstanceAs (Decidable (∀ i < s.m_heap.size, _))

/-- The events in the cells from `1` on. -/
def contents : Multiset Event := (s.m_heap.toList.tail : Multiset Event)

/-- The keys of the cells. -/
def keys (i : ℕ) : ℕ ×ₗ ℕ := (s.cell i).key.sortKey

variable {s}

@[simp] theorem isLessStrictly_iff {a b : ℕ} : s.isLessStrictly a b = true ↔ s.keys a < s.keys b :=
  EventKey.blt_iff

@[simp] theorem isLessStrictly_eq_false_iff {a b : ℕ} :
    s.isLessStrictly a b = false ↔ s.keys b ≤ s.keys a := by
  rw [← Bool.not_eq_true, isLessStrictly_iff, not_lt]

@[simp] theorem isRoot_iff {id : ℕ} : isRoot id = true ↔ id = 1 := beq_iff_eq

@[simp] theorem isBottom_iff {id : ℕ} : s.isBottom id = true ↔ s.m_heap.size ≤ id :=
  decide_eq_true_iff

theorem heapOrdered_iff : s.HeapOrdered ↔ BinaryHeap.Ordered s.m_heap.size s.keys := by
  have hroot : ∀ i, isRoot i = false ↔ i ≠ 1 := fun i ↦ by
    rw [← Bool.not_eq_true, isRoot_iff]
  constructor
  · intro h j h2 hj
    exact isLessStrictly_eq_false_iff.mp (h j hj (by omega) ((hroot j).mpr (by omega)))
  · intro h i hi h1 hr
    exact isLessStrictly_eq_false_iff.mpr (h i (by have := (hroot i).mp hr; omega) hi)

/-! ## One exchange -/

@[simp] theorem size_exch {a b : ℕ} : (s.exch a b).m_heap.size = s.m_heap.size :=
  Array.size_swapIfInBounds

theorem cell_eq {i : ℕ} (hi : i < s.m_heap.size) : s.cell i = s.m_heap[i] := by
  simp [cell, hi]

theorem cell_exch {a b : ℕ} (ha : a < s.m_heap.size) (hb : b < s.m_heap.size) (k : ℕ) :
    (s.exch a b).cell k = s.cell (Equiv.swap a b k) := by
  rcases Nat.lt_or_ge k s.m_heap.size with hk | hk
  · rw [cell_eq (by rwa [size_exch])]
    simp only [exch, Array.getElem_swapIfInBounds, Equiv.swap_apply_def, ha, hb, and_true]
    split_ifs <;> simp [cell_eq, ha, hb, hk]
  · have hsw : Equiv.swap a b k = k := Equiv.swap_apply_of_ne_of_ne (by omega) (by omega)
    rw [hsw, cell, cell, Array.getD_eq_getD_getElem?, Array.getD_eq_getD_getElem?,
      Array.getElem?_eq_none (by rwa [size_exch]), Array.getElem?_eq_none hk]

theorem keys_exch {a b : ℕ} (ha : a < s.m_heap.size) (hb : b < s.m_heap.size) :
    (s.exch a b).keys = s.keys ∘ Equiv.swap a b := by
  funext k
  rw [keys, cell_exch ha hb, Function.comp_apply, keys]

theorem contents_exch {a b : ℕ} (ha : a < s.m_heap.size) (hb : b < s.m_heap.size) (ha1 : 1 ≤ a)
    (hb1 : 1 ≤ b) : (s.exch a b).contents = s.contents := by
  have hperm : (s.exch a b).m_heap.toList.Perm s.m_heap.toList := by
    have h : (s.m_heap.swap a b ha hb).Perm s.m_heap := Array.swap_perm ha hb
    simp only [exch, Array.swapIfInBounds_def, dif_pos ha, dif_pos hb]
    exact Array.perm_iff_toList_perm.mp h
  have hhead : (s.exch a b).m_heap.toList.head? = s.m_heap.toList.head? := by
    rw [List.head?_eq_getElem?, List.head?_eq_getElem?, Array.getElem?_toList,
      Array.getElem?_toList, Array.getElem?_eq_getElem (by rw [size_exch]; omega),
      Array.getElem?_eq_getElem (by omega)]
    exact congrArg some (Array.getElem_swapIfInBounds_of_ne_of_ne (by omega) (by omega) _)
  rw [contents, contents, Multiset.coe_eq_coe]
  revert hperm hhead
  cases h1 : (s.exch a b).m_heap.toList with
  | nil => intro hperm _; rw [List.nil_perm.mp hperm]
  | cons x l =>
    cases h2 : s.m_heap.toList with
    | nil => intro hperm _; exact absurd hperm.length_eq (by simp)
    | cons y l' =>
      intro hperm hhead
      rw [List.head?_cons, List.head?_cons, Option.some_inj] at hhead
      subst hhead
      exact (List.perm_cons _).mp hperm

/-! ## The sifts -/

/-- **Sifting up** ends in an ordered heap with the same contents. -/
theorem bottomUpLoop_spec : ∀ {fuel index : ℕ} {s : HeapScheduler}, index ≤ fuel → 1 ≤ index →
    index < s.m_heap.size → BinaryHeap.UpOrder s.m_heap.size s.keys index →
    (bottomUpLoop fuel index s).HeapOrdered ∧
      (bottomUpLoop fuel index s).contents = s.contents ∧
      (bottomUpLoop fuel index s).m_heap.size = s.m_heap.size := by
  intro fuel
  induction fuel with
  | zero => intro index s hf h1; omega
  | succ fuel ih =>
    intro index s hf h1 hlt ho
    rw [bottomUpLoop]
    by_cases hc : (!isRoot index && s.isLessStrictly index (parent index)) = true
    · rw [if_pos hc]
      rw [Bool.and_eq_true, Bool.not_eq_true', ← Bool.not_eq_true, isRoot_iff,
        isLessStrictly_iff] at hc
      have h2 : 2 ≤ index := by omega
      have hp : parent index = index / 2 := rfl
      have hpl : index / 2 < s.m_heap.size := by omega
      have hmove := ho.move h2 hlt hc.2
      rw [← keys_exch hlt hpl] at hmove
      obtain ⟨h3, h4, h5⟩ := ih (s := s.exch index (index / 2)) (by omega : index / 2 ≤ fuel)
        (by omega) (by rwa [size_exch]) (by rwa [size_exch])
      rw [hp]
      exact ⟨h3, h4.trans (contents_exch hlt hpl h1 (by omega)), h5.trans size_exch⟩
    · rw [if_neg hc]
      rw [Bool.and_eq_true, Bool.not_eq_true', ← Bool.not_eq_true, isRoot_iff, not_and,
        Bool.not_eq_true, isLessStrictly_eq_false_iff] at hc
      exact ⟨heapOrdered_iff.mpr (ho.finish fun h2 ↦ hc (by omega)), rfl, rfl⟩

theorem keys_smallest_le {a b : ℕ} :
    s.keys (s.smallest a b) ≤ s.keys a ∧ s.keys (s.smallest a b) ≤ s.keys b := by
  rw [smallest]
  by_cases h : s.isLessStrictly a b = true
  · rw [if_pos h]
    exact ⟨le_rfl, (isLessStrictly_iff.mp h).le⟩
  · rw [if_neg h]
    rw [Bool.not_eq_true, isLessStrictly_eq_false_iff] at h
    exact ⟨h, le_rfl⟩

theorem smallest_mem {a b : ℕ} : s.smallest a b = a ∨ s.smallest a b = b := by
  rw [smallest]
  split_ifs
  · exact .inl rfl
  · exact .inr rfl

/-- **Sifting down** ends in an ordered heap with the same contents. -/
theorem topDownLoop_spec : ∀ {fuel index : ℕ} {s : HeapScheduler}, s.m_heap.size ≤ index + fuel →
    1 ≤ index → BinaryHeap.DownOrder s.m_heap.size s.keys index →
    (topDownLoop fuel index s).HeapOrdered ∧
      (topDownLoop fuel index s).contents = s.contents ∧
      (topDownLoop fuel index s).m_heap.size = s.m_heap.size := by
  intro fuel
  induction fuel with
  | zero =>
    intro index s hf h1 ho
    exact ⟨heapOrdered_iff.mpr (ho.finish fun j hj hp ↦ by omega), rfl, rfl⟩
  | succ fuel ih =>
    intro index s hf h1 ho
    have hl : leftChild index = index * 2 := rfl
    have hr : rightChild index = index * 2 + 1 := rfl
    rw [topDownLoop, hl, hr]
    by_cases hb : (!s.isBottom (index * 2 + 1)) = true
    · -- both children exist
      rw [if_pos hb]
      rw [Bool.not_eq_true', ← Bool.not_eq_true, isBottom_iff, not_le] at hb
      have hmin : ∀ j, j < s.m_heap.size → j / 2 = index →
          s.keys (s.smallest (index * 2) (index * 2 + 1)) ≤ s.keys j := by
        intro j _ hp
        rcases (by omega : j = index * 2 ∨ j = index * 2 + 1) with rfl | rfl
        · exact keys_smallest_le.1
        · exact keys_smallest_le.2
      have hmem := smallest_mem (s := s) (a := index * 2) (b := index * 2 + 1)
      dsimp only
      generalize s.smallest (index * 2) (index * 2 + 1) = c at hmin hmem
      by_cases hlt : s.isLessStrictly index c = true
      · rw [if_pos hlt]
        rw [isLessStrictly_iff] at hlt
        exact ⟨heapOrdered_iff.mpr (ho.finish fun j hj hp ↦ hlt.le.trans (hmin j hj hp)), rfl, rfl⟩
      · rw [if_neg hlt]
        rw [Bool.not_eq_true, isLessStrictly_eq_false_iff] at hlt
        have hmove := ho.move h1 (by omega) (by omega) hmin hlt
        rw [← keys_exch (by omega) (by omega)] at hmove
        obtain ⟨h3, h4, h5⟩ := ih (s := s.exch index c)
          (by rw [size_exch]; omega : (s.exch index c).m_heap.size ≤ c + fuel) (by omega)
          (by rwa [size_exch])
        exact ⟨h3, h4.trans (contents_exch (by omega) (by omega) h1 (by omega)), h5.trans size_exch⟩
    · rw [if_neg hb]
      rw [Bool.not_eq_true', ← Bool.not_eq_true, isBottom_iff, not_not] at hb
      by_cases hbi : s.isBottom index = true
      · rw [if_pos hbi]
        rw [isBottom_iff] at hbi
        exact ⟨heapOrdered_iff.mpr (ho.finish fun j hj hp ↦ by omega), rfl, rfl⟩
      · rw [if_neg hbi]
        by_cases hbl : s.isBottom (index * 2) = true
        · rw [if_pos hbl]
          rw [isBottom_iff] at hbl
          exact ⟨heapOrdered_iff.mpr (ho.finish fun j hj hp ↦ by omega), rfl, rfl⟩
        · -- only the left child exists
          rw [if_neg hbl]
          rw [isBottom_iff, not_le] at hbl
          have honly : ∀ j, j < s.m_heap.size → j / 2 = index → j = index * 2 := by
            intro j hj hp
            omega
          by_cases hlt : s.isLessStrictly index (index * 2) = true
          · rw [if_pos hlt]
            rw [isLessStrictly_iff] at hlt
            refine ⟨heapOrdered_iff.mpr (ho.finish fun j hj hp ↦ ?_), rfl, rfl⟩
            rw [honly j hj hp]
            exact hlt.le
          · rw [if_neg hlt]
            rw [Bool.not_eq_true, isLessStrictly_eq_false_iff] at hlt
            have hmove := ho.move h1 (by omega) hbl
              (fun j hj hp ↦ le_of_eq (by rw [honly j hj hp])) hlt
            rw [← keys_exch (by omega) (by omega)] at hmove
            refine ⟨heapOrdered_iff.mpr ?_, contents_exch (by omega) (by omega) h1 (by omega),
              size_exch⟩
            rw [size_exch]
            exact hmove.finish fun j hj hp ↦ by omega

/-! ## Cells and contents -/

theorem cell_mem_contents {i : ℕ} (h1 : 1 ≤ i) (hi : i < s.m_heap.size) :
    s.cell i ∈ s.contents := by
  rw [contents, Multiset.mem_coe, List.mem_iff_getElem?]
  refine ⟨i - 1, ?_⟩
  rw [List.getElem?_tail, Nat.sub_add_cancel h1, Array.getElem?_toList,
    Array.getElem?_eq_getElem hi, cell_eq hi]

theorem exists_cell_of_mem {ev : Event} (h : ev ∈ s.contents) :
    ∃ i, 1 ≤ i ∧ i < s.m_heap.size ∧ s.cell i = ev := by
  rw [contents, Multiset.mem_coe, List.mem_iff_getElem?] at h
  obtain ⟨k, hk⟩ := h
  rw [List.getElem?_tail, Array.getElem?_toList] at hk
  obtain ⟨hlt, hev⟩ := Array.getElem?_eq_some_iff.mp hk
  exact ⟨k + 1, by omega, hlt, (cell_eq hlt).trans hev⟩

theorem size_gt_of_contents_ne_zero (h : s.contents ≠ 0) : 1 < s.m_heap.size := by
  obtain ⟨ev, hev⟩ := Multiset.exists_mem_of_ne_zero h
  obtain ⟨i, h1, hi, -⟩ := exists_cell_of_mem hev
  omega

theorem cell_popBack {k : ℕ} (hk : k < s.m_heap.size - 1) : s.popBack.cell k = s.cell k := by
  have h1 : k < s.popBack.m_heap.size := by simpa [popBack] using hk
  rw [cell_eq h1, cell_eq (by omega)]
  simp [popBack]

@[simp] theorem size_popBack : s.popBack.m_heap.size = s.m_heap.size - 1 := Array.size_pop

theorem contents_popBack (h : 1 < s.m_heap.size) :
    s.contents = s.cell s.last ::ₘ s.popBack.contents := by
  have hlist : s.m_heap.toList.tail = s.popBack.m_heap.toList.tail ++ [s.cell s.last] := by
    rw [cell_eq (by rw [last]; omega : s.last < s.m_heap.size)]
    simp only [popBack, Array.toList_pop, last]
    cases hl : s.m_heap.toList with
    | nil => simp [← Array.length_toList, hl] at h
    | cons x l =>
      have hne : l ≠ [] := by
        rintro rfl
        simp [← Array.length_toList, hl] at h
      have hlast : s.m_heap[s.m_heap.size - 1] = l.getLast hne := by
        have hsize : s.m_heap.size - 1 = l.length := by
          rw [← Array.length_toList, hl, List.length_cons, Nat.add_sub_cancel]
        have hget : s.m_heap.toList[s.m_heap.size - 1]? = (x :: l)[l.length]? := by rw [hsize, hl]
        rw [Array.getElem?_toList, Array.getElem?_eq_getElem (by omega), List.getElem?_cons,
          if_neg (by simpa using hne), ← List.getLast?_eq_getElem?, List.getLast?_eq_some_getLast hne,
          Option.some_inj] at hget
        exact hget
      rw [hlast, List.tail_cons, List.dropLast_cons_of_ne_nil hne, List.tail_cons,
        List.dropLast_append_getLast]
  rw [contents, contents, hlist, Multiset.cons_coe, Multiset.coe_eq_coe]
  exact List.perm_append_singleton _ _

/-- Exchanging cell `i` with the last one and dropping the last cell: the event of cell `i` is gone,
and cell `i` holds the last event. -/
theorem contents_refill {i : ℕ} (h1 : 1 ≤ i) (hi : i < s.m_heap.size) :
    ((s.exch i s.last).popBack).contents = s.contents.erase (s.cell i) := by
  have hl : s.last < s.m_heap.size := by rw [last]; omega
  have hl1 : 1 ≤ s.last := by rw [last]; omega
  have hcell : (s.exch i s.last).cell (s.exch i s.last).last = s.cell i := by
    have hlast : (s.exch i s.last).last = s.last := congrArg (· - 1) size_exch
    rw [hlast, cell_exch hi hl, Equiv.swap_apply_right]
  have hpop := contents_popBack (s := s.exch i s.last) (by rw [size_exch]; omega)
  rw [contents_exch hi hl h1 hl1, hcell] at hpop
  rw [hpop, Multiset.erase_cons_head]

theorem keys_refill {i : ℕ} (hi : i < s.m_heap.size) {j : ℕ} (hj : j < s.m_heap.size - 1) :
    ((s.exch i s.last).popBack).keys j = if j = i then s.keys s.last else s.keys j := by
  have hl : s.last < s.m_heap.size := by rw [last]; omega
  rw [keys, cell_popBack (by rwa [size_exch]), cell_exch hi hl]
  split_ifs with h
  · rw [h, Equiv.swap_apply_left, keys]
  · rw [Equiv.swap_apply_of_ne_of_ne h (by rw [last]; omega), keys]

/-! ## The operations -/

/-- **`Insert`** keeps the heap and adds the event. -/
theorem insert_spec (h0 : 0 < s.m_heap.size) (ho : s.HeapOrdered) (ev : Event) :
    (s.insert ev).HeapOrdered ∧ (s.insert ev).contents = ev ::ₘ s.contents ∧
      (s.insert ev).m_heap.size = s.m_heap.size + 1 := by
  have hsize : (⟨s.m_heap.push ev⟩ : HeapScheduler).m_heap.size = s.m_heap.size + 1 :=
    Array.size_push _
  have hlast : (⟨s.m_heap.push ev⟩ : HeapScheduler).last = s.m_heap.size := by
    rw [last, hsize, Nat.add_sub_cancel]
  have hkeys : ∀ k, k < s.m_heap.size →
      (⟨s.m_heap.push ev⟩ : HeapScheduler).keys k = s.keys k := fun k hk ↦ by
    rw [keys, cell_eq (by rw [hsize]; omega), keys, cell_eq hk]
    exact congrArg (·.key.sortKey) (Array.getElem_push_lt hk)
  have hup : BinaryHeap.UpOrder (s.m_heap.size + 1) (⟨s.m_heap.push ev⟩ : HeapScheduler).keys
      s.m_heap.size := by
    refine BinaryHeap.Ordered.upOrder_last fun j h2 hj ↦ ?_
    rw [hkeys _ (by omega), hkeys _ hj]
    exact heapOrdered_iff.mp ho j h2 hj
  have hcont : (⟨s.m_heap.push ev⟩ : HeapScheduler).contents = ev ::ₘ s.contents := by
    rw [contents, contents, Array.toList_push]
    cases hl : s.m_heap.toList with
    | nil => simp [← Array.length_toList, hl] at h0
    | cons x l =>
      rw [List.cons_append, List.tail_cons, List.tail_cons, Multiset.cons_coe, Multiset.coe_eq_coe]
      exact List.perm_append_singleton _ _
  rw [insert, bottomUp, hlast]
  obtain ⟨h1, h2, h3⟩ := bottomUpLoop_spec (s := ⟨s.m_heap.push ev⟩) (le_refl s.m_heap.size) h0
    (by rw [hsize]; omega) (by rwa [hsize])
  exact ⟨h1, h2.trans hcont, h3.trans hsize⟩

theorem isNext_peekNext (ho : s.HeapOrdered) (hne : s.contents ≠ 0) :
    IsNext s.contents s.peekNext := by
  have h1 := size_gt_of_contents_ne_zero hne
  refine ⟨cell_mem_contents le_rfl h1, fun f hf ↦ ?_⟩
  obtain ⟨i, hi1, hi, rfl⟩ := exists_cell_of_mem hf
  exact (heapOrdered_iff.mp ho).root_le hi1 hi

theorem topDown_refill_spec (ho : s.HeapOrdered) {i : ℕ} (h1 : 1 ≤ i) (hi : i < s.m_heap.size)
    (hx : 2 ≤ i → s.keys (i / 2) ≤ s.keys s.last) :
    (((s.exch i s.last).popBack).topDown i).HeapOrdered ∧
      (((s.exch i s.last).popBack).topDown i).contents = s.contents.erase (s.cell i) ∧
      (((s.exch i s.last).popBack).topDown i).m_heap.size = s.m_heap.size - 1 := by
  have hsize : ((s.exch i s.last).popBack).m_heap.size = s.m_heap.size - 1 := by
    rw [size_popBack, size_exch]
  have ho' := heapOrdered_iff.mp ho
  have hdown : BinaryHeap.DownOrder (s.m_heap.size - 1) ((s.exch i s.last).popBack).keys i := by
    rcases Nat.lt_or_ge i (s.m_heap.size - 1) with hlt | hge
    · refine ho'.downOrder_refill (by omega) (fun j hj hne ↦ ?_) hlt fun h2 ↦ ?_
      · rw [keys_refill hi hj, if_neg hne]
      · rw [keys_refill hi hlt, if_pos rfl]
        exact hx h2
    · -- the last cell itself is taken out
      have hkeys : ∀ j, j < s.m_heap.size - 1 →
          ((s.exch i s.last).popBack).keys j = s.keys j := fun j hj ↦ by
        rw [keys_refill hi hj, if_neg (by omega)]
      refine ⟨fun j h2 hj _ ↦ ?_, fun _ j hj hp ↦ by omega⟩
      rw [hkeys _ (by omega), hkeys _ hj]
      exact ho' j h2 (by omega)
  rw [topDown, hsize]
  obtain ⟨h3, h4, h5⟩ := topDownLoop_spec
    (by rw [hsize]; omega : ((s.exch i s.last).popBack).m_heap.size ≤ i + (s.m_heap.size - 1)) h1
    (by rwa [hsize])
  exact ⟨h3, h4.trans (contents_refill h1 hi), h5.trans hsize⟩

/-- **`RemoveNext`** keeps the heap and takes out the event it returns, which is the one `PeekNext`
shows. -/
theorem removeNext_spec (ho : s.HeapOrdered) (hne : s.contents ≠ 0) :
    s.removeNext.1 = s.peekNext ∧ s.removeNext.2.HeapOrdered ∧
      s.removeNext.2.contents = s.contents.erase s.removeNext.1 ∧
      0 < s.removeNext.2.m_heap.size := by
  have h1 := size_gt_of_contents_ne_zero hne
  obtain ⟨h3, h4, h5⟩ := topDown_refill_spec ho (i := root) le_rfl h1
    fun h2 ↦ absurd h2 (by decide)
  refine ⟨rfl, h3, h4, ?_⟩
  change 0 < (((s.exch root s.last).popBack).topDown root).m_heap.size
  omega

theorem find?_eq_some (hd : DistinctUids s.contents) {ev : Event} (hev : ev ∈ s.contents) :
    ∃ i, s.find? ev = some i ∧ 1 ≤ i ∧ i < s.m_heap.size ∧ s.cell i = ev := by
  obtain ⟨k, hk1, hk, hkev⟩ := exists_cell_of_mem hev
  have hsome : (s.find? ev).isSome := by
    rw [find?, List.find?_isSome]
    exact ⟨k, List.mem_range'_1.mpr ⟨hk1, by rw [last]; omega⟩, by simp [hkev]⟩
  obtain ⟨i, hi⟩ := Option.isSome_iff_exists.mp hsome
  have hmem := List.mem_range'_1.mp (List.mem_of_find?_eq_some hi)
  have huid := List.find?_some hi
  rw [decide_eq_true_iff] at huid
  have hi1 : i < s.m_heap.size := by rw [last] at hmem; omega
  exact ⟨i, hi, hmem.1, hi1,
    (hd.eq_of_uid_eq hev (cell_mem_contents hmem.1 hi1) huid).symm⟩

/-- The condition under which `Remove` keeps the heap: the last event of the heap, which refills the
cell of `ev`, is not before the parent of that cell. -/
def RefillInOrder (s : HeapScheduler) (ev : Event) : Prop :=
  ∀ i < s.m_heap.size, 1 ≤ i → s.cell i = ev →
    isRoot i = true ∨ s.isLessStrictly s.last (parent i) = false

instance (s : HeapScheduler) (ev : Event) : Decidable (s.RefillInOrder ev) :=
  inferInstanceAs (Decidable (∀ i < s.m_heap.size, _))

/-- **`Remove`** takes out its event, and keeps the heap when the refill is in order. -/
theorem remove_spec (ho : s.HeapOrdered) (hd : DistinctUids s.contents) {ev : Event}
    (hev : ev ∈ s.contents) (hx : s.RefillInOrder ev) :
    (s.remove ev).HeapOrdered ∧ (s.remove ev).contents = s.contents.erase ev ∧
      0 < (s.remove ev).m_heap.size := by
  obtain ⟨i, hfind, h1, hi, rfl⟩ := find?_eq_some hd hev
  have hx' : 2 ≤ i → s.keys (i / 2) ≤ s.keys s.last := fun h2 ↦ by
    rcases hx i hi h1 rfl with hr | hlt
    · rw [isRoot_iff] at hr
      omega
    · exact isLessStrictly_eq_false_iff.mp hlt
  obtain ⟨h3, h4, h5⟩ := topDown_refill_spec ho h1 hi hx'
  rw [remove, hfind]
  refine ⟨h3, h4, ?_⟩
  change 0 < (((s.exch i s.last).popBack).topDown i).m_heap.size
  omega

/-! ## When `Remove` breaks the heap -/

theorem topDownLoop_eq_self {fuel index : ℕ}
    (h : ∀ j < s.m_heap.size, j / 2 = index → s.keys index < s.keys j) :
    topDownLoop fuel index s = s := by
  cases fuel with
  | zero => rfl
  | succ fuel =>
    have hl : leftChild index = index * 2 := rfl
    have hr : rightChild index = index * 2 + 1 := rfl
    rw [topDownLoop, hl, hr]
    dsimp only
    split_ifs with hright hlt hb hleft hlt
    · rfl
    · rw [Bool.not_eq_true', ← Bool.not_eq_true, isBottom_iff, not_le] at hright
      refine absurd (isLessStrictly_iff.mpr ?_) hlt
      rcases smallest_mem (s := s) (a := index * 2) (b := index * 2 + 1) with hc | hc
      · rw [hc]
        exact h _ (by omega) (by omega)
      · rw [hc]
        exact h _ hright (by omega)
    · rfl
    · rfl
    · rfl
    · rw [isBottom_iff, not_le] at hleft
      exact absurd (isLessStrictly_iff.mpr (h _ hleft (by omega))) hlt

theorem cell_inj (hd : DistinctUids s.contents) {i j : ℕ} (hi1 : 1 ≤ i) (hi : i < s.m_heap.size)
    (hj1 : 1 ≤ j) (hj : j < s.m_heap.size) (h : s.cell i = s.cell j) : i = j := by
  have hnodup : s.m_heap.toList.tail.Nodup := Multiset.coe_nodup.mp (Multiset.Nodup.of_map _ hd)
  have hlen : s.m_heap.toList.tail.length = s.m_heap.size - 1 := by
    rw [List.length_tail, Array.length_toList]
  have hget : ∀ k, 1 ≤ k → k < s.m_heap.size → s.m_heap.toList.tail[k - 1]? = some (s.cell k) :=
    fun k hk1 hk ↦ by
      rw [List.getElem?_tail, Nat.sub_add_cancel hk1, Array.getElem?_toList,
        Array.getElem?_eq_getElem hk, cell_eq hk]
  have heq := (List.getElem?_inj (by rw [hlen]; omega) hnodup).mp
    ((hget i hi1 hi).trans ((congrArg some h).trans (hget j hj1 hj).symm))
  omega

/-- **`Remove` keeps the heap only when it refills in order.** -/
theorem refillInOrder_of_remove (ho : s.HeapOrdered) (hd : DistinctUids s.contents) {ev : Event}
    (hev : ev ∈ s.contents) (h : (s.remove ev).HeapOrdered) : s.RefillInOrder ev := by
  obtain ⟨i, hfind, h1, hi, rfl⟩ := find?_eq_some hd hev
  rintro j hj hj1 hji
  obtain rfl : j = i := cell_inj hd hj1 hj h1 hi hji
  by_contra hnot
  rw [not_or, isRoot_iff, isLessStrictly_eq_false_iff, not_le] at hnot
  have ho' := heapOrdered_iff.mp ho
  have hup : s.keys (j / 2) ≤ s.keys j := ho' j (by omega) hj
  -- the last cell itself is in order with its parent
  have hlast : j < s.m_heap.size - 1 := by
    by_contra hge
    obtain rfl : j = s.last := by rw [last]; omega
    exact absurd hup (not_le.mpr hnot.2)
  have hsize : ((s.exch j s.last).popBack).m_heap.size = s.m_heap.size - 1 := by
    rw [size_popBack, size_exch]
  have hrefill : ((s.exch j s.last).popBack).keys j = s.keys s.last := by
    rw [keys_refill hj hlast, if_pos rfl]
  have hstay : ((s.exch j s.last).popBack).topDown j = (s.exch j s.last).popBack := by
    refine topDownLoop_eq_self fun k hk hkj ↦ ?_
    rw [hrefill, keys_refill hj (by omega), if_neg (by omega)]
    have hdown : s.keys j ≤ s.keys k := hkj ▸ ho' k (by omega) (by omega)
    exact hnot.2.trans_le (hup.trans hdown)
  rw [remove, hfind] at h
  change (((s.exch j s.last).popBack).topDown j).HeapOrdered at h
  rw [hstay] at h
  have hbroken := heapOrdered_iff.mp h j (by omega) (by omega)
  rw [hrefill, keys_refill hj (by omega), if_neg (by omega)] at hbroken
  exact absurd hbroken (not_le.mpr hnot.2)

theorem heapOrdered_remove_iff (ho : s.HeapOrdered) (hd : DistinctUids s.contents) {ev : Event}
    (hev : ev ∈ s.contents) : (s.remove ev).HeapOrdered ↔ s.RefillInOrder ev :=
  ⟨refillInOrder_of_remove ho hd hev, fun h ↦ (remove_spec ho hd hev h).1⟩

/-! ## Runs -/

/-- The steps that keep the heap: every `Remove` refills in order. -/
def RemovesInOrder (s : Scheduled HeapScheduler) : SchedulerOp → Prop
  | .remove ev => s.sched.RefillInOrder ev
  | _ => True

instance (s : Scheduled HeapScheduler) : ∀ op, Decidable (RemovesInOrder s op)
  | .remove ev => inferInstanceAs (Decidable (s.sched.RefillInOrder ev))
  | .insert _ => isTrue trivial
  | .removeNext => isTrue trivial

/-- What holds between the operations of a run whose `Remove`s refill in order. -/
structure Inv (s : Scheduled HeapScheduler) : Prop where
  /-- The wasted cell is there. -/
  size_pos : 0 < s.sched.m_heap.size
  ordered : s.sched.HeapOrdered
  contents : s.sched.contents = s.pending
  distinct : DistinctUids s.pending

theorem inv_init : Inv scheduler.machine.init where
  size_pos := by decide
  ordered := by decide
  contents := rfl
  distinct := Multiset.nodup_zero

theorem inv_step {s s' : Scheduled HeapScheduler} {op : SchedulerOp} (h : Inv s)
    (hok : RemovesInOrder s op) (hs : scheduler.machine.next s op = some s') : Inv s' := by
  obtain ⟨ev, -, hfresh, rfl⟩ | ⟨ev, rfl, hev, rfl⟩ | ⟨-, hne, rfl⟩ :=
    Scheduler.machine_next_cases hs
  · obtain ⟨h1, h2, h3⟩ := insert_spec h.size_pos h.ordered ev
    exact ⟨h3 ▸ Nat.succ_pos _, h1, h2.trans (by rw [h.contents]), h.distinct.cons hfresh⟩
  · obtain ⟨h1, h2, h3⟩ := remove_spec h.ordered (h.contents ▸ h.distinct) (h.contents ▸ hev) hok
    exact ⟨h3, h1, h2.trans (by rw [h.contents]), h.distinct.erase ev⟩
  · obtain ⟨-, h1, h2, h3⟩ := removeNext_spec h.ordered (h.contents ▸ hne)
    exact ⟨h3, h1, h2.trans (by rw [h.contents]; rfl), h.distinct.erase _⟩

theorem inv_of_run {ops : List SchedulerOp} {s : Scheduled HeapScheduler}
    (hr : scheduler.machine.Run RemovesInOrder ops s) : Inv s :=
  hr.invariant inv_init fun _ _ _ hi hok hs ↦ inv_step hi hok hs

/-- **The heap scheduler is a sorted set of events in every run whose `Remove`s refill in order**:
the heap is ordered, it holds exactly the pending events, and `PeekNext` and `RemoveNext` return the
pending event with the smallest key. -/
theorem refines_of_removesInOrder {ops : List SchedulerOp} {s : Scheduled HeapScheduler}
    (hr : scheduler.machine.Run RemovesInOrder ops s) :
    s.sched.HeapOrdered ∧ s.sched.contents = s.pending ∧
      (s.pending ≠ 0 → IsNext s.pending s.sched.peekNext ∧
        s.sched.removeNext.1 = s.sched.peekNext) := by
  have h : Inv s := hr.invariant inv_init fun _ _ _ hi hok hs ↦ inv_step hi hok hs
  refine ⟨h.ordered, h.contents, fun hne ↦ ?_⟩
  rw [← h.contents] at hne ⊢
  exact ⟨isNext_peekNext h.ordered hne, (removeNext_spec h.ordered hne).1⟩

/-- An event is removed from a cell with two children. -/
theorem refines_of_removesInOrder_small : ∃ s : Scheduled HeapScheduler,
    scheduler.machine.Run RemovesInOrder
      [.insert (eventAt 1 4), .insert (eventAt 3 5), .insert (eventAt 2 6), .insert (eventAt 7 7),
        .insert (eventAt 5 8), .insert (eventAt 4 9), .remove (eventAt 3 5)] s ∧
    s.sched.HeapOrdered ∧ s.sched.contents = s.pending ∧
      (s.pending ≠ 0 → IsNext s.pending s.sched.peekNext ∧
        s.sched.removeNext.1 = s.sched.peekNext) := by
  refine Machine.exists_run_and_allowed (p := fun s ↦ s.pending ≠ 0) (by decide) (by decide)
    fun s hr _ ↦ ?_
  exact refines_of_removesInOrder hr

/-- The steps after which the heap is ordered. -/
def KeepsOrder (s : Scheduled HeapScheduler) (op : SchedulerOp) : Prop :=
  ∀ s', scheduler.machine.next s op = some s' → s'.sched.HeapOrdered

/-- **The heap is ordered all the way along exactly the runs whose `Remove`s refill in order.** -/
theorem run_keepsOrder_iff {ops : List SchedulerOp} {s : Scheduled HeapScheduler} :
    scheduler.machine.Run KeepsOrder ops s ↔ scheduler.machine.Run RemovesInOrder ops s := by
  constructor
  · intro hr
    induction hr with
    | nil => exact .nil
    | @snoc as s s' op _ hok hs ih =>
      refine ih.snoc ?_ hs
      have hinv := inv_of_run ih
      cases op with
      | insert ev => exact trivial
      | remove ev =>
        obtain ⟨_, h, -⟩ | ⟨ev', h, hev, rfl⟩ | ⟨h, -⟩ := Scheduler.machine_next_cases hs
        · cases h
        · cases h
          exact (heapOrdered_remove_iff hinv.ordered (hinv.contents ▸ hinv.distinct)
            (hinv.contents ▸ hev)).mp (hok _ hs)
        · cases h
      | removeNext => exact trivial
  · intro hr
    induction hr with
    | nil => exact .nil
    | @snoc as s s' op hr hok hs ih =>
      refine ih.snoc (fun t ht ↦ ?_) hs
      exact (inv_step (inv_of_run hr) hok ht).ordered

theorem takesNext : scheduler.TakesNext RemovesInOrder := fun _ _ hr hne ↦ by
  have h := inv_of_run hr
  have hnext := isNext_peekNext h.ordered (h.contents ▸ hne)
  rwa [h.contents] at hnext

/-- Fifteen events inserted level by level, the leftmost leaf removed, and the next three events
taken: the event at time `10`, moved below the event at time `100`, is overtaken by the one at time
`50`. -/
def overtakingOps : List SchedulerOp :=
  [.insert (eventAt 1 4), .insert (eventAt 50 5), .insert (eventAt 2 6), .insert (eventAt 100 7),
    .insert (eventAt 51 8), .insert (eventAt 60 9), .insert (eventAt 3 10),
    .insert (eventAt 101 11), .insert (eventAt 102 12), .insert (eventAt 52 13),
    .insert (eventAt 53 14), .insert (eventAt 61 15), .insert (eventAt 62 16),
    .insert (eventAt 63 17), .insert (eventAt 10 18), .remove (eventAt 101 11),
    .removeNext, .removeNext, .removeNext]

/-- **`Remove` loses the heap order**: after `overtakingOps` the heap is not ordered and the event
`PeekNext` shows is not the next one. -/
theorem not_refines_overtakingOps : ∃ s : Scheduled HeapScheduler,
    scheduler.machine.Run Machine.unguarded overtakingOps s ∧ ¬s.sched.HeapOrdered ∧
      s.pending ≠ 0 ∧ ¬IsNext s.pending s.sched.peekNext := by
  refine Machine.exists_run_and
    (p := fun s ↦ ¬s.sched.HeapOrdered ∧ eventAt 10 18 ∈ s.pending ∧
      (eventAt 10 18).key.blt s.sched.peekNext.key = true)
    (by decide) fun s hr ⟨ho, hmem, hlt⟩ ↦ ?_
  refine ⟨ho, ?_, fun hn ↦ ?_⟩
  · rintro h0
    simp [h0] at hmem
  · exact absurd (hn.2 _ hmem) (not_le.mpr (EventKey.blt_iff.mp hlt))

end HeapScheduler

end Ns3
