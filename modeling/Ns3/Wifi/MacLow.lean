import Ns3.Wifi.BlockAckCache

/-!
# The reorder buffer of a block ack agreement

A recipient keeps the MPDUs that arrive out of order in a list, sorted by their distance from the
middle of the sequence numbers that are behind the window. `RxCompleteBufferedPacketsUntilFirstLost`
passes up what continues the window and moves its start on; when the start jumps, for an MPDU beyond
the window or for a request, `RxCompleteBufferedPacketsWithSmallerSequence` passes up what is behind
the new start first.

An MPDU that is received again while it is buffered is stored twice. The second routine skips the
copies, but the first one stops at them: the copy stays at the head of the buffer, behind the window,
and holds up everything after it.
-/

namespace Ns3

namespace Wifi

/-- A `WifiMacQueueItem` that has been received: what is read of its header, and its packet. -/
structure WifiMacQueueItem (α : Type*) where
  sequenceNumber : ℕ
  fragmentNumber : ℕ
  moreFragments : Bool
  packet : α
  deriving DecidableEq, Repr

/-- `WifiMacHeader::GetSequenceControl`. -/
def WifiMacQueueItem.getSequenceControl {α : Type*} (mpdu : WifiMacQueueItem α) : ℕ :=
  mpdu.sequenceNumber * 16 + mpdu.fragmentNumber

/-- The agreement with an originator for a traffic identifier, with its buffer and its scoreboard, and
the MPDUs that have been passed to `m_rxCallback`. -/
structure RecipientAgreement (α : Type*) where
  m_startingSeq : ℕ
  m_bufferSize : ℕ
  buffer : List (WifiMacQueueItem α)
  cache : BlockAckCache
  rx : List (WifiMacQueueItem α)

namespace RecipientAgreement

variable {α : Type*}

/-- What `CreateBlockAckAgreement` inserts; `bufferSize` is that of the response plus one. -/
def create (startingSeq bufferSize : ℕ) : RecipientAgreement α :=
  ⟨startingSeq, bufferSize, [], .init startingSeq bufferSize, []⟩

/-- `GetStartingSequenceControl`: `(m_startingSeq << 4) & 0xfff0`. -/
def getStartingSequenceControl (s : RecipientAgreement α) : ℕ := s.m_startingSeq % 4096 * 16

def getWinEnd (s : RecipientAgreement α) : ℕ := (s.m_startingSeq + s.m_bufferSize - 1) % 4096

/-- The insertion of an MPDU before the first that is not mapped to a smaller integer. -/
def insert (endSequence mappedSeqControl : ℕ) (mpdu : WifiMacQueueItem α) :
    List (WifiMacQueueItem α) → List (WifiMacQueueItem α)
  | [] => [mpdu]
  | x :: i =>
    if qosUtilsMapSeqControlToUniqueInteger x.getSequenceControl endSequence < mappedSeqControl then
      x :: insert endSequence mappedSeqControl mpdu i
    else mpdu :: x :: i

/-- `StoreMpduIfNeeded`, given the agreement. -/
def storeMpduIfNeeded (s : RecipientAgreement α) (mpdu : WifiMacQueueItem α) :
    RecipientAgreement α :=
  let endSequence := (s.m_startingSeq + 2047) % 4096
  let mappedSeqControl :=
    qosUtilsMapSeqControlToUniqueInteger mpdu.getSequenceControl endSequence
  { s with
    buffer := insert endSequence mappedSeqControl mpdu s.buffer
    cache := s.cache.updateWithMpdu mpdu.sequenceNumber mpdu.fragmentNumber }

/-- The loop of `RxCompleteBufferedPacketsWithSmallerSequence` from the MPDU at `i` on: what it passes
up, and what it leaves in the buffer. `last` is at `i` whenever a turn begins, so that a turn passes
up the MPDU at `i` only. A turn for an MPDU with more fragments does not move on. -/
def smallerSequenceLoop (endSequence mappedStart : ℕ) :
    ℕ → ℕ → List (WifiMacQueueItem α) →
      Option (List (WifiMacQueueItem α) × List (WifiMacQueueItem α))
  | 0, _, _ => none
  | _ + 1, _, [] => some ([], [])
  | fuel + 1, guard, x :: i =>
    if qosUtilsMapSeqControlToUniqueInteger x.getSequenceControl endSequence < mappedStart then
      if guard = x.getSequenceControl then
        if x.moreFragments then
          smallerSequenceLoop endSequence mappedStart fuel ((guard + 1) % 65536) (x :: i)
        else
          let i := (x :: i).dropWhile fun y ↦ guard = y.getSequenceControl
          let guard := i.head?.elim guard (·.getSequenceControl)
          (smallerSequenceLoop endSequence mappedStart fuel guard i).map fun r ↦ (x :: r.1, r.2)
      else
        smallerSequenceLoop endSequence mappedStart fuel x.getSequenceControl (x :: i)
    else some ([], x :: i)

/-- `RxCompleteBufferedPacketsWithSmallerSequence`. Every turn of the loop that moves on skips an
MPDU; if a turn does not, then no later turn does. -/
def rxCompleteBufferedPacketsWithSmallerSequence (s : RecipientAgreement α) (seq : ℕ) :
    Option (RecipientAgreement α) :=
  let endSequence := (s.m_startingSeq + 2047) % 4096
  let mappedStart := qosUtilsMapSeqControlToUniqueInteger seq endSequence
  let guard := s.buffer.head?.elim 0 (·.getSequenceControl)
  (smallerSequenceLoop endSequence mappedStart (s.buffer.length + 1) guard s.buffer).map fun r ↦
    { s with buffer := r.2, rx := s.rx ++ r.1 }

/-- The loop of `RxCompleteBufferedPacketsUntilFirstLost` from the MPDU at `i` on, where `incomplete`
are the MPDUs from `lastComplete` up to it: the last `guard`, what is passed up, and what is left in
the buffer. -/
def untilFirstLostLoop : ℕ → List (WifiMacQueueItem α) → List (WifiMacQueueItem α) →
    ℕ × List (WifiMacQueueItem α) × List (WifiMacQueueItem α)
  | guard, incomplete, [] => (guard, [], incomplete)
  | guard, incomplete, x :: i =>
    if guard = x.getSequenceControl then
      if x.moreFragments then untilFirstLostLoop ((guard + 1) % 65536) (incomplete ++ [x]) i
      else
        let r := untilFirstLostLoop ((guard + 16) % 65536 / 16 * 16) [] i
        (r.1, incomplete ++ x :: r.2.1, r.2.2)
    else (guard, [], incomplete ++ x :: i)

def rxCompleteBufferedPacketsUntilFirstLost (s : RecipientAgreement α) : RecipientAgreement α :=
  let r := untilFirstLostLoop s.getStartingSequenceControl [] s.buffer
  { s with
    m_startingSeq := r.1 / 16 % 4096
    buffer := r.2.2
    rx := s.rx ++ r.2.1 }

/-- `ReceiveMpdu`, given the agreement; `none` is a failed assertion or a loop that does not end. -/
def receiveMpdu (s : RecipientAgreement α) (htSupported : Bool) (mpdu : WifiMacQueueItem α) :
    Option (RecipientAgreement α) :=
  let seqNumber := mpdu.sequenceNumber
  if htSupported then
    if qosUtilsIsOldPacket s.m_startingSeq seqNumber then some s
    else
      let s := s.storeMpduIfNeeded mpdu
      if isInWindow seqNumber s.m_startingSeq s.m_bufferSize then
        some s.rxCompleteBufferedPacketsUntilFirstLost
      else
        let delta := distance s.getWinEnd seqNumber
        if 0 < delta then
          let startingSeq := (seqNumber + 4096 - s.m_bufferSize + 1) % 4096
          let s := { s with m_startingSeq := startingSeq }
          (s.rxCompleteBufferedPacketsWithSmallerSequence s.getStartingSequenceControl).map
            rxCompleteBufferedPacketsUntilFirstLost
        else none
  else some (s.storeMpduIfNeeded mpdu)

/-- `SendBlockAckAfterBlockAckRequest`, given the agreement: what is reported as received, and the
agreement after it. -/
def sendBlockAckAfterBlockAckRequest (s : RecipientAgreement α) (htSupported : Bool)
    (startingSequence : ℕ) : Option (List ℕ × RecipientAgreement α) :=
  let blockAck := s.cache.fillBlockAckBitmap startingSequence
  if htSupported then
    if qosUtilsIsOldPacket s.m_startingSeq startingSequence then some (blockAck, s)
    else
      let s := { s with m_startingSeq := startingSequence }
      (s.rxCompleteBufferedPacketsWithSmallerSequence (startingSequence * 16)).map
        fun s ↦ (blockAck, s.rxCompleteBufferedPacketsUntilFirstLost)
  else
    (s.rxCompleteBufferedPacketsWithSmallerSequence (startingSequence * 16)).map
      fun s ↦ (blockAck, s.rxCompleteBufferedPacketsUntilFirstLost)

/-! ## The loops on a buffer of numbers -/

/-- The MPDU with a number that does not wrap, which is not fragmented. -/
def mpdu (number : ℤ) : WifiMacQueueItem ℤ := ⟨seq number, 0, false, number⟩

section Loops

variable {S : ℤ} {l : List ℤ}

@[simp] theorem getSequenceControl_mpdu (n : ℤ) : (mpdu n).getSequenceControl = seq n * 16 := rfl

/-- The MPDUs of a window around `S` differ in their sequence controls. -/
theorem getSequenceControl_inj {x y : ℤ} (h : seq x * 16 = seq y * 16) (hlt : y - x < 4096)
    (hgt : x - y < 4096) : x = y :=
  seq_inj (Nat.eq_of_mul_eq_mul_right (by decide) h) hlt hgt

theorem seq_add_2047 (a : ℤ) : (seq a + 2047) % 4096 = seq (a + 2047) := seq_add a 2047

theorem insert_map_mpdu {n : ℤ} (hlo : S - 2048 ≤ n) (hhi : n ≤ S + 2047)
    (hl : ∀ x ∈ l, S - 2048 ≤ x ∧ x ≤ S + 2047) :
    insert (seq (S + 2047)) (qosUtilsMapSeqControlToUniqueInteger (seq n * 16) (seq (S + 2047)))
      (mpdu n) (l.map mpdu) = (l.orderedInsert (· ≤ ·) n).map mpdu := by
  induction l with
  | nil => rfl
  | cons x l ih =>
    rw [List.forall_mem_cons] at hl
    have hmap := map_lt_map_iff hl.1.1 hl.1.2 hlo hhi
    rw [List.map_cons, insert, getSequenceControl_mpdu, List.orderedInsert_cons, ih hl.2]
    by_cases hlt : x < n
    · rw [if_pos (hmap.mpr hlt), if_neg (not_le.mpr hlt), List.map_cons]
    · rw [if_neg (mt hmap.mp hlt), if_pos (not_lt.mp hlt), List.map_cons, List.map_cons]

theorem dropWhile_map_mpdu {x : ℤ} (hsorted : (x :: l).Pairwise (· ≤ ·))
    (hfar : ∀ y ∈ l, y - x < 4096) :
    ((x :: l).map mpdu).dropWhile (fun y ↦ seq x * 16 = y.getSequenceControl) =
      (l.filter (x < ·)).map mpdu := by
  rw [List.map_cons, List.dropWhile_cons_of_pos (by simp)]
  induction l with
  | nil => rfl
  | cons y l ih =>
    rw [List.forall_mem_cons] at hfar
    rw [List.pairwise_cons, List.forall_mem_cons, List.pairwise_cons] at hsorted
    obtain ⟨⟨hxy, hxl⟩, hyl, hl⟩ := hsorted
    by_cases heq : x = y
    · rw [List.map_cons, List.dropWhile_cons_of_pos (by simp [heq]), List.filter_cons_of_neg
        (by simp [heq])]
      exact ih (List.pairwise_cons.mpr ⟨hxl, hl⟩) hfar.2
    · have hlt : x < y := lt_of_le_of_ne hxy heq
      rw [List.map_cons, List.dropWhile_cons_of_neg, List.filter_eq_self.mpr, List.map_cons]
      · rw [List.forall_mem_cons]
        exact ⟨decide_eq_true hlt, fun z hz ↦ decide_eq_true (hlt.trans_le (hyl z hz))⟩
      · rw [decide_eq_true_iff]
        exact fun h ↦ heq (getSequenceControl_inj h hfar.1 (by omega))

/-- **What `RxCompleteBufferedPacketsWithSmallerSequence` passes up** of a sorted buffer: every number
behind `S`, once. -/
theorem smallerSequenceLoop_map_mpdu (fuel : ℕ) : ∀ {l : List ℤ} {guard : ℕ}, l.length < fuel →
    l.Pairwise (· ≤ ·) → (∀ x ∈ l, S - 2048 ≤ x ∧ x ≤ S + 2047) →
    (∀ x ∈ l.head?, guard = seq x * 16) →
    ∃ L : List ℤ, smallerSequenceLoop (seq (S + 2047))
        (qosUtilsMapSeqControlToUniqueInteger (seq S * 16) (seq (S + 2047))) fuel guard
        (l.map mpdu) = some (L.map mpdu, (l.filter (S ≤ ·)).map mpdu) ∧
      L.Pairwise (· < ·) ∧ ∀ x, x ∈ L ↔ x ∈ l ∧ x < S := by
  induction fuel with
  | zero => exact fun hfuel ↦ absurd hfuel (Nat.not_lt_zero _)
  | succ fuel ih =>
    intro l guard hfuel hsorted hl hguard
    cases l with
    | nil =>
      refine ⟨[], rfl, .nil, fun x ↦ ?_⟩
      simp
    | cons x l =>
      have hx := hl x List.mem_cons_self
      have hmap := map_lt_map_iff hx.1 hx.2 (by omega : S - 2048 ≤ S) (by omega)
      obtain ⟨hle, hsorted'⟩ := List.pairwise_cons.mp hsorted
      rw [List.map_cons, smallerSequenceLoop, getSequenceControl_mpdu]
      by_cases hlt : x < S
      · have hgx : guard = seq x * 16 := hguard x rfl
        have hl' := (List.forall_mem_cons.mp hl).2
        have hhead : ∀ y ∈ (l.filter (x < ·)).head?,
            ((l.filter (x < ·)).map mpdu).head?.elim (seq x * 16) (·.getSequenceControl) =
              seq y * 16 := by
          intro y hy
          rw [List.head?_map, hy]
          rfl
        have hfilter : (l.filter (x < ·)).filter (S ≤ ·) = (x :: l).filter (S ≤ ·) := by
          rw [List.filter_filter, List.filter_cons_of_neg (by simpa using hlt)]
          apply List.filter_congr
          intro y _
          rw [← Bool.decide_and, decide_eq_decide]
          exact and_iff_left_of_imp fun hy ↦ hlt.trans_le hy
        rw [if_pos (hmap.mpr hlt), if_pos hgx, if_neg (by exact Bool.false_ne_true)]
        dsimp only
        rw [← List.map_cons, hgx, dropWhile_map_mpdu hsorted fun y hy ↦ by have := hl' y hy; omega]
        obtain ⟨L, hloop, hL, hmem⟩ := ih
          ((List.length_filter_le _ l).trans_lt (Nat.lt_of_succ_lt_succ hfuel))
          (hsorted'.filter _) (fun y hy ↦ hl' y (List.mem_of_mem_filter hy)) hhead
        rw [hloop, Option.map_some]
        refine ⟨x :: L, ?_, List.pairwise_cons.mpr ⟨fun y hy ↦ ?_, hL⟩, fun y ↦ ?_⟩
        · rw [hfilter, List.map_cons]
        · exact of_decide_eq_true (List.mem_filter.mp ((hmem y).mp hy).1).2
        · rw [List.mem_cons, List.mem_cons, hmem, List.mem_filter, decide_eq_true_iff]
          constructor
          · rintro (rfl | ⟨⟨hy, -⟩, hyS⟩)
            · exact ⟨.inl rfl, hlt⟩
            · exact ⟨.inr hy, hyS⟩
          · rintro ⟨rfl | hy, hyS⟩
            · exact .inl rfl
            · rcases (hle y hy).eq_or_lt with rfl | hxy
              · exact .inl rfl
              · exact .inr ⟨⟨hy, hxy⟩, hyS⟩
      · -- nothing is behind `S`
        rw [if_neg (mt hmap.mp hlt), List.filter_eq_self.mpr]
        · refine ⟨[], rfl, .nil, fun y ↦ iff_of_false List.not_mem_nil ?_⟩
          rintro ⟨hy, hyS⟩
          rcases List.mem_cons.mp hy with rfl | hy
          · exact hlt hyS
          · exact hlt ((hle y hy).trans_lt hyS)
        · rw [List.forall_mem_cons]
          rw [not_lt] at hlt
          exact ⟨decide_eq_true hlt, fun y hy ↦ decide_eq_true (hlt.trans (hle y hy))⟩

theorem guard_succ (S : ℤ) : (seq S * 16 + 16) % 65536 / 16 * 16 = seq (S + 1) * 16 := by
  have h := coe_seq S
  have h' := coe_seq (S + 1)
  omega

/-- **What `RxCompleteBufferedPacketsUntilFirstLost` passes up**: the numbers from `S` on, up to the
first that is not at its place. -/
theorem untilFirstLostLoop_map_mpdu : ∀ {l : List ℤ} {S : ℤ}, l.Pairwise (· ≤ ·) →
    (∀ x ∈ l, S - 2048 ≤ x ∧ x ≤ S + 2047) →
    ∃ L R : List ℤ, l = L ++ R ∧ untilFirstLostLoop (seq S * 16) [] (l.map mpdu) =
        (seq (S + L.length) * 16, L.map mpdu, R.map mpdu) ∧
      L.Pairwise (· < ·) ∧ (∀ x, x ∈ L ↔ S ≤ x ∧ x < S + L.length) ∧
        R.head? ≠ some (S + L.length) := by
  intro l
  induction l with
  | nil =>
    intro S _ _
    refine ⟨[], [], rfl, by rw [List.length_nil, Nat.cast_zero, add_zero]; rfl, .nil, fun x ↦ ?_, ?_⟩
    · refine iff_of_false List.not_mem_nil fun h ↦ ?_
      rw [List.length_nil] at h
      omega
    · exact Option.some_ne_none _ ∘ Eq.symm
  | cons x l ih =>
    intro S hsorted hl
    obtain ⟨hle, hsorted'⟩ := List.pairwise_cons.mp hsorted
    obtain ⟨hx, hl'⟩ := List.forall_mem_cons.mp hl
    rw [List.map_cons, untilFirstLostLoop, getSequenceControl_mpdu]
    by_cases heq : S = x
    · subst heq
      obtain ⟨L, R, rfl, hloop, hL, hmem, hR⟩ := ih (S := S + 1) hsorted' fun y hy ↦ by
        have := hl' y hy
        have := hle y hy
        omega
      rw [if_pos rfl, if_neg (by exact Bool.false_ne_true)]
      dsimp only
      rw [guard_succ, hloop]
      have hend : S + 1 + (L.length : ℤ) = S + ((S :: L).length : ℕ) := by
        rw [List.length_cons]
        push_cast
        omega
      rw [hend] at hmem hR ⊢
      refine ⟨S :: L, R, rfl, rfl, List.pairwise_cons.mpr ⟨fun y hy ↦ ?_, hL⟩, fun y ↦ ?_, hR⟩
      · exact ((hmem y).mp hy).1
      · rw [List.mem_cons, hmem, List.length_cons]
        push_cast
        omega
    · rw [if_neg fun h ↦ heq (getSequenceControl_inj h (by omega) (by omega))]
      refine ⟨[], x :: l, rfl, ?_, .nil, fun x ↦ ?_, ?_⟩
      · rw [List.length_nil, Nat.cast_zero, add_zero]
        rfl
      · refine iff_of_false List.not_mem_nil fun h ↦ ?_
        rw [List.length_nil] at h
        omega
      · rw [List.length_nil, Nat.cast_zero, add_zero, List.head?_cons]
        exact fun h ↦ heq (Option.some_inj.mp h).symm

end Loops

/-! ## Draining the buffer -/

/-- A number is held twice, and all numbers from `S` up to it are held. -/
def HeldTwice (l : List ℤ) (S : ℤ) : Prop :=
  ∃ x ∈ l, S ≤ x ∧ 2 ≤ l.count x ∧ ∀ k ≤ (x - S).toNat, S + k ∈ l

instance (l : List ℤ) (S : ℤ) : Decidable (HeldTwice l S) :=
  inferInstanceAs (Decidable (∃ x ∈ l, S ≤ x ∧ 2 ≤ l.count x ∧ ∀ k ≤ (x - S).toNat, S + k ∈ l))

theorem HeldTwice.perm {l l' : List ℤ} {S : ℤ} (h : HeldTwice l S) (hperm : l.Perm l') :
    HeldTwice l' S := by
  obtain ⟨x, hx, hSx, hcount, hall⟩ := h
  refine ⟨x, hperm.subset hx, hSx, ?_, fun k hk ↦ hperm.subset (hall k hk)⟩
  rwa [← hperm.count_eq]

theorem HeldTwice.of_sublist {l l' : List ℤ} {S : ℤ} (h : HeldTwice l S) (hsub : l.Sublist l') :
    HeldTwice l' S := by
  obtain ⟨x, hx, hSx, hcount, hall⟩ := h
  exact ⟨x, hsub.subset hx, hSx, hcount.trans (hsub.count_le x), fun k hk ↦ hsub.subset (hall k hk)⟩

/-- The buffer holds the numbers `l`, in order, and the numbers `d` have been passed up. -/
structure Holds (s : RecipientAgreement ℤ) (S : ℤ) (l d : List ℤ) : Prop where
  startingSeq : s.m_startingSeq = seq S
  buffer : s.buffer = l.map mpdu
  rx : s.rx = d.map mpdu
  sorted : l.Pairwise (· ≤ ·)
  increasing : d.Pairwise (· < ·)
  passed : ∀ x ∈ d, x < S ∧ ∀ y ∈ l, x < y

section Draining

variable {s : RecipientAgreement ℤ} {S n : ℤ} {l d : List ℤ}

namespace Holds

theorem concat_increasing (h : Holds s S l d) {L : List ℤ} (hL : L.Pairwise (· < ·))
    (hsub : ∀ x ∈ L, x ∈ l) : (d ++ L).Pairwise (· < ·) :=
  List.pairwise_append.mpr ⟨h.increasing, hL, fun x hx y hy ↦ (h.passed x hx).2 y (hsub y hy)⟩

theorem startingSequenceControl (h : Holds s S l d) : s.getStartingSequenceControl = seq S * 16 := by
  rw [getStartingSequenceControl, h.startingSeq, Nat.mod_eq_of_lt (seq_lt S)]

theorem store (h : Holds s S l d) (hSn : S ≤ n) (hn : n ≤ S + 2047)
    (hl : ∀ x ∈ l, S ≤ x ∧ x ≤ S + 2047) :
    Holds (s.storeMpduIfNeeded (mpdu n)) S (l.orderedInsert (· ≤ ·) n) d := by
  refine ⟨h.startingSeq, ?_, h.rx, h.sorted.orderedInsert n l, h.increasing, fun x hx ↦ ?_⟩
  · rw [storeMpduIfNeeded, h.startingSeq, h.buffer]
    dsimp only
    rw [seq_add_2047, getSequenceControl_mpdu]
    exact insert_map_mpdu (by omega) hn fun x hx ↦ ⟨by have := hl x hx; omega, (hl x hx).2⟩
  · refine ⟨(h.passed x hx).1, fun y hy ↦ ?_⟩
    rcases (List.mem_orderedInsert _).mp hy with rfl | hy
    · exact (h.passed x hx).1.trans_le hSn
    · exact (h.passed x hx).2 y hy

theorem move (h : Holds s S l d) {S' : ℤ} (hle : S ≤ S') :
    Holds { s with m_startingSeq := seq S' } S' l d :=
  ⟨rfl, h.buffer, h.rx, h.sorted, h.increasing,
    fun x hx ↦ ⟨(h.passed x hx).1.trans_le hle, (h.passed x hx).2⟩⟩

/-- **`RxCompleteBufferedPacketsWithSmallerSequence`** empties the buffer up to the start. -/
theorem smaller (h : Holds s S l d) (hl : ∀ x ∈ l, S - 2048 ≤ x ∧ x ≤ S + 2047) :
    ∃ t L, s.rxCompleteBufferedPacketsWithSmallerSequence (seq S * 16) = some t ∧
      t.m_bufferSize = s.m_bufferSize ∧ Holds t S (l.filter (S ≤ ·)) (d ++ L) ∧
      ∀ x, x ∈ L ↔ x ∈ l ∧ x < S := by
  have hhead : ∀ x ∈ l.head?, (l.map mpdu).head?.elim 0 (·.getSequenceControl) = seq x * 16 := by
    intro x hx
    rw [List.head?_map, hx]
    rfl
  obtain ⟨L, hloop, hL, hmem⟩ := smallerSequenceLoop_map_mpdu (l.length + 1) (Nat.lt_succ_self _)
    h.sorted hl hhead
  refine ⟨{ s with buffer := (l.filter (S ≤ ·)).map mpdu, rx := s.rx ++ L.map mpdu }, L, ?_, rfl,
    ⟨h.startingSeq, rfl, ?_, h.sorted.filter _,
      h.concat_increasing hL fun x hx ↦ ((hmem x).mp hx).1, fun x hx ↦ ?_⟩, hmem⟩
  · rw [rxCompleteBufferedPacketsWithSmallerSequence, h.startingSeq, h.buffer, seq_add_2047,
      List.length_map, hloop, Option.map_some]
  · rw [List.map_append, ← h.rx]
  · have hlt : x < S := by
      rcases List.mem_append.mp hx with hx | hx
      · exact (h.passed x hx).1
      · exact ((hmem x).mp hx).2
    exact ⟨hlt, fun y hy ↦ hlt.trans_le (of_decide_eq_true (List.mem_filter.mp hy).2)⟩

/-- **`RxCompleteBufferedPacketsUntilFirstLost`** moves the start on to the first number that is not
held, when it meets no copies. -/
theorem untilFirstLost (h : Holds s S l d) (hl : ∀ x ∈ l, S ≤ x ∧ x ≤ S + 2047)
    (honce : ¬ HeldTwice l S) :
    ∃ e L R, S ≤ e ∧ (∀ x, S ≤ x → x < e → x ∈ l) ∧ (∀ x, x ∈ l ↔ x ∈ L ∨ x ∈ R) ∧
      (∀ x ∈ R, e < x) ∧
      s.rxCompleteBufferedPacketsUntilFirstLost.m_bufferSize = s.m_bufferSize ∧
      Holds s.rxCompleteBufferedPacketsUntilFirstLost e R (d ++ L) := by
  obtain ⟨L, R, rfl, hloop, hL, hmem, hR⟩ := untilFirstLostLoop_map_mpdu h.sorted
    fun x hx ↦ ⟨by have := hl x hx; omega, (hl x hx).2⟩
  obtain ⟨-, hsortedR, hLR⟩ := List.pairwise_append.mp h.sorted
  have hhead : ∀ y ∈ R.head?, S + L.length < y := by
    intro y hy
    have hyR := List.mem_of_mem_head? hy
    have hSy := (hl y (List.mem_append_right L hyR)).1
    have hne : y ≠ S + L.length := by
      rintro rfl
      exact hR hy
    by_contra hlt
    -- it is a copy of a number that has been passed up
    have hyL : y ∈ L := (hmem y).mpr ⟨hSy, by omega⟩
    apply honce
    refine ⟨y, List.mem_append_right L hyR, hSy, ?_, fun k hk ↦ ?_⟩
    · rw [List.count_append]
      have := List.count_pos_iff.mpr hyL
      have := List.count_pos_iff.mpr hyR
      omega
    · exact List.mem_append_left R ((hmem _).mpr ⟨by omega, by omega⟩)
  have hahead : ∀ x ∈ R, S + L.length < x := by
    cases R with
    | nil => exact fun x hx ↦ absurd hx List.not_mem_nil
    | cons y R =>
      rw [List.forall_mem_cons]
      have hy := hhead y rfl
      exact ⟨hy, fun x hx ↦ hy.trans_le (List.rel_of_pairwise_cons hsortedR hx)⟩
  rw [← h.buffer, ← h.startingSequenceControl] at hloop
  refine ⟨S + L.length, L, R, by omega,
    fun x hSx hx ↦ List.mem_append_left R ((hmem x).mpr ⟨hSx, hx⟩),
    fun x ↦ List.mem_append, hahead, rfl, ?_, ?_, ?_,
    hsortedR, h.concat_increasing hL fun x hx ↦ List.mem_append_left R hx, fun x hx ↦ ?_⟩
  · rw [rxCompleteBufferedPacketsUntilFirstLost, hloop]
    dsimp only
    rw [Nat.mul_div_cancel _ (by decide), Nat.mod_eq_of_lt (seq_lt _)]
  · rw [rxCompleteBufferedPacketsUntilFirstLost, hloop]
  · rw [rxCompleteBufferedPacketsUntilFirstLost, hloop, List.map_append, ← h.rx]
  · have hlt : x < S + L.length := by
      rcases List.mem_append.mp hx with hx | hx
      · exact (h.passed x hx).1.trans_le (by omega)
      · exact ((hmem x).mp hx).2
    exact ⟨hlt, fun y hy ↦ hlt.trans (hahead y hy)⟩

end Holds

end Draining

/-! ## Runs -/

/-- An agreement, its start as a number that does not wrap, and the numbers of the MPDUs that have
entered the buffer. -/
structure Watched where
  agreement : RecipientAgreement ℤ
  start : ℤ
  entered : List ℤ

/-- An MPDU or a block ack request, with a number that does not wrap. -/
inductive Op
  | receiveMpdu (number : ℤ)
  | blockAckReq (number : ℤ)
  deriving DecidableEq, Repr

/-- The numbers that are held. -/
def Watched.held (w : Watched) : List ℤ := w.agreement.buffer.map (·.packet)

/-- The numbers that have been passed up. -/
def Watched.passed (w : Watched) : List ℤ := w.agreement.rx.map (·.packet)

/-- The start moves on as `m_startingSeq` does. -/
def Watched.follow (w : Watched) (s : RecipientAgreement ℤ) (entered : List ℤ) : Watched :=
  ⟨s, w.start + distance w.agreement.m_startingSeq s.m_startingSeq, entered⟩

/-- The step of an operation on an HT agreement. -/
def next (w : Watched) : Op → Option Watched
  | .receiveMpdu number =>
    (w.agreement.receiveMpdu true (mpdu number)).map fun s ↦
      w.follow s (if qosUtilsIsOldPacket w.agreement.m_startingSeq (seq number) then w.entered
        else number :: w.entered)
  | .blockAckReq number =>
    (w.agreement.sendBlockAckAfterBlockAckRequest true (seq number)).map fun r ↦
      w.follow r.2 w.entered

/-- The runs of an agreement whose window starts at `start`. -/
def watched (start : ℤ) (bufferSize : ℕ) : Machine Watched Op where
  init := ⟨create (seq start) bufferSize, start, []⟩
  next := next

/-- **What the reorder buffer is for.** MPDUs are passed up in increasing order, each that has entered
the buffer is passed up before the start passes it, and the MPDU at the start is not held. -/
structure InOrder (w : Watched) : Prop where
  increasing : w.passed.Pairwise (· < ·)
  delivered : ∀ x ∈ w.entered, x < w.start → x ∈ w.passed
  advanced : ∀ x ∈ w.agreement.buffer, x.sequenceNumber ≠ w.agreement.m_startingSeq

/-- The number of an MPDU or of a request is at most half of the space ahead or behind. And the numbers
that continue the window, once its start has moved, do not include one that is held twice. -/
def Guard (w : Watched) : Op → Prop
  | .receiveMpdu number => (w.start - 2048 ≤ number ∧ number ≤ w.start + 2047) ∧
    (w.start ≤ number →
      ¬ HeldTwice (number :: w.held) (max w.start (number - w.agreement.m_bufferSize + 1)))
  | .blockAckReq number => (w.start - 2048 ≤ number ∧ number ≤ w.start + 2047) ∧
    (w.start ≤ number → ¬ HeldTwice w.held number)

instance (w : Watched) : ∀ op, Decidable (Guard w op)
  | .receiveMpdu number => inferInstanceAs (Decidable ((w.start - 2048 ≤ number ∧
      number ≤ w.start + 2047) ∧ (w.start ≤ number →
      ¬ HeldTwice (number :: w.held) (max w.start (number - w.agreement.m_bufferSize + 1)))))
  | .blockAckReq number => inferInstanceAs (Decidable ((w.start - 2048 ≤ number ∧
      number ≤ w.start + 2047) ∧ (w.start ≤ number → ¬ HeldTwice w.held number)))

/-- **The invariant.** -/
structure Orderly (w : Watched) : Prop where
  size_pos : 0 < w.agreement.m_bufferSize
  size_le : w.agreement.m_bufferSize ≤ 256
  holds : Holds w.agreement w.start w.held w.passed
  ahead : ∀ x ∈ w.held, w.start < x ∧ x < w.start + w.agreement.m_bufferSize
  entered : ∀ x ∈ w.entered, x ∈ w.passed ∨ x ∈ w.held

section Steps

variable {w : Watched} {number : ℤ}

namespace Orderly

theorem init {bufferSize : ℕ} (hpos : 0 < bufferSize) (hle : bufferSize ≤ 256) (start : ℤ) :
    Orderly (watched start bufferSize).init :=
  ⟨hpos, hle, ⟨rfl, rfl, rfl, .nil, .nil, fun _ hx ↦ absurd hx List.not_mem_nil⟩,
    fun _ hx ↦ absurd hx List.not_mem_nil, fun _ hx ↦ absurd hx List.not_mem_nil⟩

theorem inOrder (h : Orderly w) : InOrder w := by
  refine ⟨h.holds.increasing, fun x hx hlt ↦ ?_, fun x hx heq ↦ ?_⟩
  · rcases h.entered x hx with hpassed | hheld
    · exact hpassed
    · exact absurd (h.ahead x hheld).1 hlt.le.not_gt
  · rw [h.holds.buffer] at hx
    obtain ⟨y, hy, rfl⟩ := List.mem_map.mp hx
    rw [h.holds.startingSeq] at heq
    have := h.ahead y hy
    have := h.size_le
    have : y = w.start := seq_inj heq (by omega) (by omega)
    omega

theorem drained (h : Orderly w) {s : RecipientAgreement ℤ} {S : ℤ} {l d entered : List ℤ}
    (hs : Holds s S l d) (hsize : s.m_bufferSize = w.agreement.m_bufferSize)
    (hstart : w.start ≤ S) (hfar : S ≤ w.start + 2047)
    (hl : ∀ x ∈ l, S ≤ x ∧ x < S + w.agreement.m_bufferSize) (honce : ¬ HeldTwice l S)
    (hentered : ∀ x ∈ entered, x ∈ d ∨ x ∈ l) :
    Orderly (w.follow s.rxCompleteBufferedPacketsUntilFirstLost entered) := by
  have hle := h.size_le
  obtain ⟨e, L, R, hSe, hpassed, hmem, hahead, hsize', ht⟩ := hs.untilFirstLost
    (fun x hx ↦ ⟨(hl x hx).1, by have := (hl x hx).2; omega⟩) honce
  have hend : e ≤ S + w.agreement.m_bufferSize := by
    by_contra hlt
    have := (hl (S + w.agreement.m_bufferSize) (hpassed _ (by omega) (by omega))).2
    omega
  have hfollow : (w.follow s.rxCompleteBufferedPacketsUntilFirstLost entered).start = e := by
    rw [Watched.follow, h.holds.startingSeq, ht.startingSeq,
      distance_seq_of_le (hstart.trans hSe) (by omega)]
    exact add_sub_cancel w.start e
  have hheld : (w.follow s.rxCompleteBufferedPacketsUntilFirstLost entered).held = R := by
    rw [Watched.held, Watched.follow, ht.buffer, List.map_map]
    exact List.map_id R
  have hpassed' : (w.follow s.rxCompleteBufferedPacketsUntilFirstLost entered).passed = d ++ L := by
    rw [Watched.passed, Watched.follow, ht.rx, List.map_map]
    exact List.map_id _
  have hbufferSize :
      (w.follow s.rxCompleteBufferedPacketsUntilFirstLost entered).agreement.m_bufferSize =
        w.agreement.m_bufferSize := hsize'.trans hsize
  refine ⟨h.size_pos.trans_eq hbufferSize.symm, hbufferSize.trans_le hle, ?_, ?_, ?_⟩
  · rw [hfollow, hheld, hpassed']
    exact ht
  · rw [hfollow, hheld, hbufferSize]
    intro x hx
    have := (hl x ((hmem x).mpr (.inr hx))).2
    exact ⟨hahead x hx, by omega⟩
  · rw [hheld, hpassed']
    intro x hx
    rcases hentered x hx with hd | hx
    · exact .inl (List.mem_append_left L hd)
    · exact ((hmem x).mp hx).imp_left (List.mem_append_right d)

theorem old_iff (h : Orderly w) (hlo : w.start - 2048 ≤ number) (hhi : number ≤ w.start + 2047) :
    qosUtilsIsOldPacket w.agreement.m_startingSeq (seq number) = true ↔ number < w.start := by
  rw [h.holds.startingSeq]
  exact qosUtilsIsOldPacket_iff hlo hhi

theorem startingSeq_eq (n : ℤ) {bufferSize : ℕ} (hle : bufferSize ≤ 256) :
    (seq n + 4096 - bufferSize + 1) % 4096 = seq (n - bufferSize + 1) := by
  have h := coe_seq n
  have h' := coe_seq (n - bufferSize + 1)
  omega

theorem follow_self (w : Watched) : w.follow w.agreement w.entered = w := by
  have hdist : distance w.agreement.m_startingSeq w.agreement.m_startingSeq = 0 := by
    rw [distance]
    omega
  rw [Watched.follow, hdist, Nat.cast_zero, add_zero]

/-- The start moves on to `S`, what is behind it is passed up, and the buffer is drained. -/
theorem jumped (h : Orderly w) {s : RecipientAgreement ℤ} {S : ℤ} {l d entered : List ℤ}
    (hs : Holds s S l d) (hsize : s.m_bufferSize = w.agreement.m_bufferSize)
    (hstart : w.start ≤ S) (hfar : S ≤ w.start + 2047)
    (hl : ∀ x ∈ l, S - 2048 ≤ x ∧ x < S + w.agreement.m_bufferSize) (honce : ¬ HeldTwice l S)
    (hentered : ∀ x ∈ entered, x ∈ d ∨ x ∈ l) :
    ∃ t, s.rxCompleteBufferedPacketsWithSmallerSequence (seq S * 16) = some t ∧
      Orderly (w.follow t.rxCompleteBufferedPacketsUntilFirstLost entered) := by
  have hle := h.size_le
  obtain ⟨t, L, hsmaller, hsize', ht, hmem⟩ := hs.smaller fun x hx ↦ by
    have := hl x hx
    omega
  refine ⟨t, hsmaller, h.drained ht (hsize'.trans hsize) hstart hfar (fun x hx ↦ ?_)
    (fun htwice ↦ honce (htwice.of_sublist List.filter_sublist)) fun x hx ↦ ?_⟩
  · obtain ⟨hx, hSx⟩ := List.mem_filter.mp hx
    exact ⟨of_decide_eq_true hSx, (hl x hx).2⟩
  · rcases hentered x hx with hd | hx
    · exact .inl (List.mem_append_left L hd)
    · rcases lt_or_ge x S with hlt | hge
      · exact .inl (List.mem_append_right d ((hmem x).mpr ⟨hx, hlt⟩))
      · exact .inr (List.mem_filter.mpr ⟨hx, decide_eq_true hge⟩)

theorem receiveMpdu (h : Orderly w) (hok : Guard w (.receiveMpdu number)) :
    ∃ w', next w (.receiveMpdu number) = some w' ∧ Orderly w' := by
  obtain ⟨⟨hlo, hhi⟩, honce⟩ := hok
  rw [next, RecipientAgreement.receiveMpdu, if_pos rfl]
  rcases lt_or_ge number w.start with hold | hstart
  · have hisold := (h.old_iff hlo hhi).mpr hold
    refine ⟨w, ?_, h⟩
    rw [show (mpdu number).sequenceNumber = seq number from rfl, if_pos hisold, if_pos hisold,
      Option.map_some, follow_self]
  have hle := h.size_le
  have hnew := mt (h.old_iff hlo hhi).mp hstart.not_gt
  have hstored := h.holds.store hstart hhi fun x hx ↦ by
    have := h.ahead x hx
    omega
  have hperm := (List.perm_orderedInsert (· ≤ ·) number w.held).symm
  have hentered : ∀ x ∈ number :: w.entered,
      x ∈ w.passed ∨ x ∈ w.held.orderedInsert (· ≤ ·) number := by
    rw [List.forall_mem_cons]
    refine ⟨.inr ((List.mem_orderedInsert _).mpr (.inl rfl)), fun x hx ↦ ?_⟩
    exact (h.entered x hx).imp_right fun hx ↦ (List.mem_orderedInsert _).mpr (.inr hx)
  have hahead : ∀ x ∈ w.held.orderedInsert (· ≤ ·) number, w.start ≤ x ∧
      (x < w.start + w.agreement.m_bufferSize ∨ x = number) := by
    intro x hx
    rcases (List.mem_orderedInsert _).mp hx with rfl | hx
    · exact ⟨hstart, .inr rfl⟩
    · exact ⟨(h.ahead x hx).1.le, .inl (h.ahead x hx).2⟩
  have hsize : (w.agreement.storeMpduIfNeeded (mpdu number)).m_bufferSize =
      w.agreement.m_bufferSize := rfl
  rw [show (mpdu number).sequenceNumber = seq number from rfl, if_neg hnew, if_neg hnew]
  generalize w.agreement.storeMpduIfNeeded (mpdu number) = s at hstored hsize ⊢
  dsimp only
  rw [hstored.startingSeq]
  by_cases hlast : number < w.start + s.m_bufferSize
  · rw [max_eq_left (by omega)] at honce
    rw [if_pos ((isInWindow_iff hstart (by omega)).mpr hlast), Option.map_some]
    refine ⟨_, rfl, h.drained hstored hsize le_rfl (by omega) (fun x hx ↦ ?_)
      (fun htwice ↦ honce hstart (htwice.perm hperm.symm)) hentered⟩
    have := hahead x hx
    omega
  · have hpos := h.size_pos
    have hwinEnd : s.getWinEnd = seq (w.start + s.m_bufferSize - 1) := by
      rw [getWinEnd, hstored.startingSeq]
      exact BlockAckCache.winEnd_eq (hsize ▸ hpos) w.start
    have hdelta : 0 < distance (seq (w.start + s.m_bufferSize - 1)) (seq number) := by
      have := distance_seq_of_le (show w.start + s.m_bufferSize - 1 ≤ number by omega) (by omega)
      omega
    rw [max_eq_right (by omega), ← hsize] at honce
    have hmoved := hstored.move (show w.start ≤ number - s.m_bufferSize + 1 by omega)
    obtain ⟨t, hsmaller, ht⟩ := h.jumped hmoved hsize (by omega) (by omega) (fun x hx ↦ by
      have := hahead x hx
      omega) (fun htwice ↦ honce hstart (htwice.perm hperm.symm)) hentered
    rw [if_neg (mt (isInWindow_iff hstart (by omega)).mp hlast), hwinEnd, if_pos hdelta,
      startingSeq_eq _ (hsize.trans_le hle), hmoved.startingSequenceControl, hsmaller]
    exact ⟨_, rfl, ht⟩

theorem blockAckReq (h : Orderly w) (hok : Guard w (.blockAckReq number)) :
    ∃ w', next w (.blockAckReq number) = some w' ∧ Orderly w' := by
  obtain ⟨⟨hlo, hhi⟩, honce⟩ := hok
  rw [next, sendBlockAckAfterBlockAckRequest, if_pos rfl]
  rcases lt_or_ge number w.start with hold | hstart
  · refine ⟨w, ?_, h⟩
    rw [if_pos ((h.old_iff hlo hhi).mpr hold), Option.map_some, follow_self]
  · have hle := h.size_le
    obtain ⟨t, hsmaller, ht⟩ := h.jumped (h.holds.move hstart) rfl hstart hhi
      (fun x hx ↦ by have := h.ahead x hx; omega) (honce hstart) h.entered
    refine ⟨_, ?_, ht⟩
    rw [if_neg (mt (h.old_iff hlo hhi).mp hstart.not_gt)]
    dsimp only
    rw [hsmaller]
    rfl

theorem step {op : Op} (h : Orderly w) (hok : Guard w op) :
    ∃ w', next w op = some w' ∧ Orderly w' := by
  cases op with
  | receiveMpdu number => exact h.receiveMpdu hok
  | blockAckReq number => exact h.blockAckReq hok

end Orderly

end Steps

section Runs

variable {start : ℤ} {bufferSize : ℕ} {ops : List Op} {w : Watched}

theorem orderly_of_run (hpos : 0 < bufferSize) (hle : bufferSize ≤ 256)
    (hr : (watched start bufferSize).Run Guard ops w) : Orderly w := by
  apply hr.invariant (I := Orderly) (.init hpos hle start)
  intro s op s' h hok hs
  obtain ⟨t, ht, horderly⟩ := h.step hok
  rwa [← Option.some_inj.mp (ht.symm.trans hs)]

/-- **MPDUs are passed up in order.** In every run that does not drain the buffer over a number that is
held twice, every operation returns, MPDUs are passed up in increasing order, each before the start
passes it, and the MPDU at the start is never left in the buffer. -/
theorem inOrder_of_run (hpos : 0 < bufferSize) (hle : bufferSize ≤ 256)
    (hr : (watched start bufferSize).Run Guard ops w) :
    InOrder w ∧ ∀ op, Guard w op → ∃ w', next w op = some w' := by
  have h := orderly_of_run hpos hle hr
  refine ⟨h.inOrder, fun op hok ↦ ?_⟩
  obtain ⟨w', hw', -⟩ := h.step hok
  exact ⟨w', hw'⟩

/-- MPDUs out of order across the wrap of the sequence numbers, one of them twice before a request
passes over it, and one beyond the window. -/
theorem inOrder_of_run_four : ∃ w, (watched 4095 64).Run Guard
    [.receiveMpdu 4097, .receiveMpdu 4097, .blockAckReq 4098, .receiveMpdu 4200] w ∧
      w.passed = [4097] ∧ InOrder w := by
  refine Machine.exists_run_and_allowed (p := fun w ↦ w.passed = [4097]) (by decide +kernel)
    (by decide +kernel) fun w hr hpassed ↦ ?_
  exact ⟨hpassed, (inOrder_of_run (by decide) (by decide) hr).1⟩

/-- The MPDU 1 is received twice before the MPDU 0. Its copy stays at the head of the buffer, so that
the MPDU 2 is not passed up. -/
theorem not_inOrder_of_copy : ∃ w, (watched 0 64).Run Machine.unguarded
    [.receiveMpdu 1, .receiveMpdu 1, .receiveMpdu 0, .receiveMpdu 2] w ∧
      w.held = [1, 2] ∧ ¬ InOrder w := by
  refine Machine.exists_run_and
    (p := fun w ↦ w.held = [1, 2] ∧
      ∃ x ∈ w.agreement.buffer, x.sequenceNumber = w.agreement.m_startingSeq)
    (by decide +kernel) fun w hr ⟨hheld, x, hx, heq⟩ ↦ ?_
  exact ⟨hheld, fun h ↦ h.advanced x hx heq⟩

end Runs

end RecipientAgreement

end Wifi

end Ns3
