import Ns3.Library.Machine
import Ns3.Wifi.QosUtils

/-!
# The scoreboard of the recipient

`BlockAckCache` keeps one entry for each of the 4096 sequence numbers, and a window that moves on with
MPDUs beyond its end and with block ack requests. What enters the window has been cleared of the
numbers 4096 before. But a request that jumps beyond the window clears the new window only, and not
what lies between it and the old one: these numbers are behind the window then, and a delayed request
still asks for them.
-/

namespace Ns3

namespace Wifi

/-- A `BlockAckCache`. -/
structure BlockAckCache where
  m_winStart : ℕ
  m_winSize : ℕ
  m_winEnd : ℕ
  m_bitmap : ℕ → ℕ

namespace BlockAckCache

def init (winStart winSize : ℕ) : BlockAckCache :=
  ⟨winStart, winSize, (winStart + winSize - 1) % 4096, fun _ ↦ 0⟩

/-- The loop of `ResetPortionOfBitmap`, which is left at `end` at the latest after 4096 turns. -/
def resetLoop : ℕ → ℕ → ℕ → (ℕ → ℕ) → ℕ → ℕ
  | 0, _, _, m_bitmap => m_bitmap
  | fuel + 1, i, end', m_bitmap =>
    if i = end' then Function.update m_bitmap i 0
    else resetLoop fuel ((i + 1) % 4096) end' (Function.update m_bitmap i 0)

def resetPortionOfBitmap (s : BlockAckCache) (start end' : ℕ) : BlockAckCache :=
  { s with m_bitmap := resetLoop 4096 start end' s.m_bitmap }

def updateWithMpdu (s : BlockAckCache) (seqNumber fragmentNumber : ℕ) : BlockAckCache :=
  if qosUtilsIsOldPacket s.m_winStart seqNumber then s
  else
    let s :=
      if isInWindow seqNumber s.m_winStart s.m_winSize then s
      else
        let delta := distance s.m_winEnd seqNumber
        let s :=
          if 1 < delta then
            s.resetPortionOfBitmap ((s.m_winEnd + 1) % 4096) ((seqNumber + 4096 - 1) % 4096)
          else s
        { s with
          m_winStart := (s.m_winStart + delta) % 4096
          m_winEnd := seqNumber }
    { s with
      m_bitmap := Function.update s.m_bitmap seqNumber
        (s.m_bitmap seqNumber ||| 1 <<< fragmentNumber) }

def updateWithBlockAckReq (s : BlockAckCache) (startingSeq : ℕ) : BlockAckCache :=
  if qosUtilsIsOldPacket s.m_winStart startingSeq then s
  else if isInWindow startingSeq s.m_winStart s.m_winSize then
    if startingSeq ≠ s.m_winStart then
      let newWinEnd := (startingSeq + s.m_winSize - 1) % 4096
      let s := { s with m_winStart := startingSeq }
      let s := s.resetPortionOfBitmap ((s.m_winEnd + 1) % 4096) newWinEnd
      { s with m_winEnd := newWinEnd }
    else s
  else
    let s := { s with
      m_winStart := startingSeq
      m_winEnd := (startingSeq + s.m_winSize - 1) % 4096 }
    s.resetPortionOfBitmap s.m_winStart s.m_winEnd

/-- The loop of `FillBlockAckBitmap`: the numbers it passes to `SetReceivedPacket`. -/
def fillLoop (s : BlockAckCache) : ℕ → ℕ → ℕ → List ℕ
  | 0, _, _ => []
  | fuel + 1, i, end' =>
    let received := if s.m_bitmap i = 1 then [i] else []
    if i = end' then received else received ++ s.fillLoop fuel ((i + 1) % 4096) end'

/-- `FillBlockAckBitmap` for a compressed block ack: the numbers that are reported as received. -/
def fillBlockAckBitmap (s : BlockAckCache) (startingSequence : ℕ) : List ℕ :=
  s.fillLoop 4096 startingSequence ((startingSequence + s.m_winSize - 1) % 4096)

/-! ## The loops -/

section Loops

variable {m : ℕ → ℕ} {k : ℕ}

/-- The entries that `ResetPortionOfBitmap` clears, and those that it leaves alone. -/
theorem resetLoop_spec (fuel : ℕ) : ∀ {a b : ℤ} {m : ℕ → ℕ}, a ≤ b → b - a < 4096 → b - a < fuel →
    (∀ x, a ≤ x → x ≤ b → resetLoop fuel (seq a) (seq b) m (seq x) = 0) ∧
    ∀ k, (∀ x, a ≤ x → x ≤ b → seq x ≠ k) → resetLoop fuel (seq a) (seq b) m k = m k := by
  induction fuel with
  | zero =>
    intro a b m hle _ hfuel
    exact absurd hfuel (by push_cast; omega)
  | succ fuel ih =>
    intro a b m hle hlt hfuel
    rw [resetLoop]
    split_ifs with heq
    · obtain rfl := seq_inj heq hlt (by omega)
      refine ⟨fun x hax hxa ↦ ?_, fun k hk ↦ ?_⟩
      · rw [le_antisymm hxa hax, Function.update_self]
      · exact Function.update_of_ne (Ne.symm (hk a le_rfl le_rfl)) ..
    · have hab : a ≠ b := fun hab ↦ heq (hab ▸ rfl)
      rw [seq_succ]
      obtain ⟨hreset, hkeep⟩ := ih (m := Function.update m (seq a) 0) (show a + 1 ≤ b by omega)
        (by omega) (by push_cast at hfuel; omega)
      refine ⟨fun x hax hxb ↦ ?_, fun k hk ↦ ?_⟩
      · by_cases hx : x = a
        · -- the first entry is not touched again
          subst hx
          rw [hkeep (seq x), Function.update_self]
          intro y hxy hyb hseq
          have := seq_inj hseq (by omega) (by omega)
          omega
        · exact hreset x (by omega) hxb
      · rw [hkeep k fun x hax hxb ↦ hk x (by omega) hxb]
        exact Function.update_of_ne (Ne.symm (hk a le_rfl hle)) ..

theorem mem_fillLoop (s : BlockAckCache) (fuel : ℕ) : ∀ {a b : ℤ}, a ≤ b → b - a < 4096 →
    b - a < fuel → (k ∈ s.fillLoop fuel (seq a) (seq b) ↔
      ∃ x, a ≤ x ∧ x ≤ b ∧ k = seq x ∧ s.m_bitmap (seq x) = 1) := by
  induction fuel with
  | zero =>
    intro a b hle _ hfuel
    exact absurd hfuel (by push_cast; omega)
  | succ fuel ih =>
    intro a b hle hlt hfuel
    have hfirst : k ∈ (if s.m_bitmap (seq a) = 1 then [seq a] else []) ↔
        k = seq a ∧ s.m_bitmap (seq a) = 1 := by
      split_ifs with h
      · rw [List.mem_singleton, and_iff_left h]
      · exact iff_of_false List.not_mem_nil fun hboth ↦ h hboth.2
    rw [fillLoop]
    by_cases heq : seq a = seq b
    · obtain rfl := seq_inj heq hlt (by omega)
      rw [if_pos rfl, hfirst]
      constructor
      · exact fun h ↦ ⟨a, le_rfl, le_rfl, h⟩
      · rintro ⟨x, hax, hxa, h⟩
        rwa [le_antisymm hxa hax] at h
    · have hab : a ≠ b := fun hab ↦ heq (hab ▸ rfl)
      rw [if_neg heq, seq_succ, List.mem_append, hfirst,
        ih (show a + 1 ≤ b by omega) (by omega) (by push_cast at hfuel; omega)]
      constructor
      · rintro (h | ⟨x, hax, hxb, h⟩)
        · exact ⟨a, le_rfl, hle, h⟩
        · exact ⟨x, by omega, hxb, h⟩
      · rintro ⟨x, hax, hxb, h⟩
        by_cases hx : x = a
        · exact .inl (hx ▸ h)
        · exact .inr ⟨x, by omega, hxb, h⟩

end Loops

/-! ## What has been received -/

/-- A cache, the start of its window as a number that does not wrap, and the numbers that have been
received while they were not older than the window. -/
structure Watched where
  cache : BlockAckCache
  start : ℤ
  received : List ℤ

/-- An MPDU or a block ack request, with a number that does not wrap. -/
inductive Op
  | mpdu (number : ℤ)
  | blockAckReq (number : ℤ)
  deriving DecidableEq, Repr

/-- The start of the window moves on as `m_winStart` does. -/
def advance (start : ℤ) (s s' : BlockAckCache) : ℤ := start + distance s.m_winStart s'.m_winStart

/-- The step of an operation. -/
def next (w : Watched) : Op → Watched
  | .mpdu number =>
    let cache := w.cache.updateWithMpdu (seq number) 0
    ⟨cache, advance w.start w.cache cache,
      if w.start ≤ number then number :: w.received else w.received⟩
  | .blockAckReq number =>
    let cache := w.cache.updateWithBlockAckReq (seq number)
    ⟨cache, advance w.start w.cache cache, w.received⟩

/-- The runs of a cache whose window starts at `start`. -/
def watched (start : ℤ) (winSize : ℕ) : Machine Watched Op where
  init := ⟨init (seq start) winSize, start, []⟩
  next w op := some (next w op)

/-- The last number of the window. -/
def Watched.last (w : Watched) : ℤ := w.start + w.cache.m_winSize - 1

/-- The number of an MPDU or of a request is less than half of the space ahead or behind. And a request
that jumps beyond the window does not pass over a number whose entry is still set. -/
def Guard (w : Watched) : Op → Prop
  | .mpdu number => w.start - 2048 ≤ number ∧ number ≤ w.start + 2047
  | .blockAckReq number => (w.start - 2048 ≤ number ∧ number ≤ w.start + 2047) ∧
    ∀ x, w.last < x → x < number → w.cache.m_bitmap (seq x) = 0

/-- **The invariant.** The entries of the numbers from half of the space behind the window to its end
are right. -/
structure Truthful (w : Watched) : Prop where
  size_pos : 0 < w.cache.m_winSize
  size_le : w.cache.m_winSize ≤ 256
  winStart : w.cache.m_winStart = seq w.start
  winEnd : w.cache.m_winEnd = seq w.last
  received_le : ∀ x ∈ w.received, x ≤ w.last
  bitmap_le : ∀ k, w.cache.m_bitmap k ≤ 1
  bitmap : ∀ x, w.start - 2048 < x → x ≤ w.last → (w.cache.m_bitmap (seq x) = 1 ↔ x ∈ w.received)

/-! ## Steps -/

section Steps

variable {w : Watched} {number : ℤ}

theorem advance_self (start : ℤ) (s : BlockAckCache) : advance start s s = start := by
  rw [advance, distance]
  omega

theorem advance_bitmap (start : ℤ) (s : BlockAckCache) (m : ℕ → ℕ) :
    advance start s { s with m_bitmap := m } = start := advance_self start s

theorem advance_seq {start start' : ℤ} {s s' : BlockAckCache} (hs : s.m_winStart = seq start)
    (hs' : s'.m_winStart = seq start') (hle : start ≤ start') (hlt : start' - start < 4096) :
    advance start s s' = start' := by
  rw [advance, hs, hs', distance_seq_of_le hle hlt]
  omega

theorem or_one {k : ℕ} (h : k ≤ 1) : k ||| 1 = 1 := by
  obtain rfl | rfl : k = 0 ∨ k = 1 := by omega
  · rfl
  · rfl

theorem winEnd_eq {winSize : ℕ} (hpos : 0 < winSize) (start : ℤ) :
    (seq start + winSize - 1) % 4096 = seq (start + winSize - 1) := by
  have h := seq_add start (winSize - 1)
  rw [Nat.cast_sub hpos, Nat.cast_one] at h
  rw [show seq start + winSize - 1 = seq start + (winSize - 1) by omega, h,
    show start + ((winSize : ℤ) - 1) = start + winSize - 1 by omega]

namespace Truthful

theorem init {winSize : ℕ} (hpos : 0 < winSize) (hle : winSize ≤ 256) (start : ℤ) :
    Truthful ⟨BlockAckCache.init (seq start) winSize, start, []⟩ := by
  refine ⟨hpos, hle, rfl, winEnd_eq hpos start, fun x hx ↦ absurd hx List.not_mem_nil,
    fun _ ↦ Nat.zero_le 1, fun x _ _ ↦ ?_⟩
  exact iff_of_false Nat.zero_ne_one List.not_mem_nil

/-- The window moves on to `start`, and the entries of the numbers beyond its end are cleared. -/
theorem move (h : Truthful w) {start : ℤ} (hstart : w.start ≤ start)
    {m : ℕ → ℕ} (hclear : ∀ x, w.last < x → x ≤ start + w.cache.m_winSize - 1 → m (seq x) = 0)
    (hkeep : ∀ k, (∀ x, w.last < x → x ≤ start + w.cache.m_winSize - 1 → seq x ≠ k) →
      m k = w.cache.m_bitmap k) (hfar : start ≤ w.start + 2047) :
    Truthful ⟨⟨seq start, w.cache.m_winSize, seq (start + w.cache.m_winSize - 1), m⟩, start,
      w.received⟩ := by
  have hsize := h.size_le
  have hpos := h.size_pos
  refine ⟨hpos, hsize, rfl, rfl, fun x hx ↦ ?_, fun k ↦ ?_, fun x hlo hhi ↦ ?_⟩
  · have := h.received_le x hx
    rw [Watched.last] at this ⊢
    dsimp only
    omega
  · by_cases hk : ∃ x, w.last < x ∧ x ≤ start + w.cache.m_winSize - 1 ∧ seq x = k
    · obtain ⟨x, hlast, hx, rfl⟩ := hk
      exact (hclear x hlast hx).trans_le (Nat.zero_le 1)
    · exact (hkeep k fun x hlast hx heq ↦ hk ⟨x, hlast, hx, heq⟩).trans_le (h.bitmap_le k)
  · rw [Watched.last] at hclear hkeep
    dsimp only [Watched.last] at hlo hhi ⊢
    by_cases hx : x ≤ w.last
    · rw [hkeep (seq x), h.bitmap x (by omega) hx]
      intro y hy hyle heq
      rw [Watched.last] at hx
      have := seq_inj heq (by omega) (by omega)
      omega
    · rw [not_le] at hx
      rw [hclear x hx hhi]
      exact iff_of_false Nat.zero_ne_one fun hmem ↦ hx.not_ge (h.received_le x hmem)

theorem receive (h : Truthful w) (hlo : w.start ≤ number) (hhi : number ≤ w.last) :
    Truthful ⟨{ w.cache with m_bitmap := Function.update w.cache.m_bitmap (seq number) 1 }, w.start,
      number :: w.received⟩ := by
  have hsize := h.size_le
  rw [Watched.last] at hhi
  refine ⟨h.size_pos, h.size_le, h.winStart, h.winEnd, ?_, fun k ↦ ?_, fun x hxlo hxhi ↦ ?_⟩
  · rw [List.forall_mem_cons]
    exact ⟨hhi, h.received_le⟩
  · by_cases hk : k = seq number
    · rw [hk]
      exact (Function.update_self ..).le
    · dsimp only
      rw [Function.update_of_ne hk]
      exact h.bitmap_le k
  · dsimp only [Watched.last] at hxlo hxhi ⊢
    by_cases hx : x = number
    · rw [hx, Function.update_self]
      exact iff_of_true rfl List.mem_cons_self
    · rw [Function.update_of_ne fun heq ↦ hx (seq_inj heq (by omega) (by omega)),
        h.bitmap x hxlo hxhi, List.mem_cons, or_iff_right hx]

theorem old_iff (h : Truthful w) (hlo : w.start - 2048 ≤ number) (hhi : number ≤ w.start + 2047) :
    qosUtilsIsOldPacket w.cache.m_winStart (seq number) = true ↔ number < w.start := by
  rw [h.winStart]
  exact qosUtilsIsOldPacket_iff hlo hhi

theorem inWindow_iff (h : Truthful w) (hlo : w.start ≤ number) (hhi : number ≤ w.start + 2047) :
    isInWindow (seq number) w.cache.m_winStart w.cache.m_winSize = true ↔ number ≤ w.last := by
  rw [h.winStart, isInWindow_iff hlo (by omega), Watched.last]
  omega

/-- What an MPDU beyond the window clears: the numbers between the window and itself. -/
def skipped (w : Watched) (number : ℤ) : ℕ → ℕ :=
  if 1 < distance w.cache.m_winEnd (seq number) then
    resetLoop 4096 ((w.cache.m_winEnd + 1) % 4096) ((seq number + 4096 - 1) % 4096) w.cache.m_bitmap
  else w.cache.m_bitmap

theorem skipped_spec (h : Truthful w) (hlast : w.last < number) (hhi : number ≤ w.start + 2047) :
    (∀ x, w.last < x → x < number → skipped w number (seq x) = 0) ∧
      ∀ k, (∀ x, w.last < x → x < number → seq x ≠ k) →
        skipped w number k = w.cache.m_bitmap k := by
  have hpos := h.size_pos
  have hdist := distance_seq_of_le hlast.le (by rw [Watched.last]; omega)
  rw [skipped, h.winEnd, seq_succ, seq_pred]
  split_ifs with hdelta
  · obtain ⟨hreset, hkeep⟩ := resetLoop_spec 4096 (m := w.cache.m_bitmap)
      (show w.last + 1 ≤ number - 1 by omega) (by rw [Watched.last]; omega)
      (by rw [Watched.last]; push_cast; omega)
    refine ⟨fun x hx hx' ↦ hreset x (by omega) (by omega), fun k hk ↦ hkeep k fun x hx hx' ↦ ?_⟩
    exact hk x (by omega) (by omega)
  · refine ⟨fun x hx hx' ↦ ?_, fun _ _ ↦ rfl⟩
    omega

theorem updateWithMpdu_beyond (h : Truthful w) (hlast : w.last < number)
    (hhi : number ≤ w.start + 2047) :
    w.cache.updateWithMpdu (seq number) 0 =
      ⟨seq (number - w.cache.m_winSize + 1), w.cache.m_winSize, seq number,
        Function.update (skipped w number) (seq number) (skipped w number (seq number) ||| 1)⟩ := by
  have hpos := h.size_pos
  have hstart : w.start ≤ number := by
    rw [Watched.last] at hlast
    omega
  have hdist := distance_seq_of_le hlast.le (by rw [Watched.last]; omega)
  have hmoved : (w.cache.m_winStart + distance w.cache.m_winEnd (seq number)) % 4096 =
      seq (number - w.cache.m_winSize + 1) := by
    rw [h.winStart, seq_add, h.winEnd, hdist, Watched.last]
    congr 1
    omega
  rw [updateWithMpdu, if_neg (mt (h.old_iff (by omega) hhi).mp (by omega)),
    if_neg (mt (h.inWindow_iff hstart hhi).mp (by omega))]
  dsimp only
  rw [skipped, Nat.shiftLeft_zero]
  split_ifs with hdelta
  · dsimp only [resetPortionOfBitmap]
    rw [hmoved]
  · rw [hmoved]

theorem mpdu (h : Truthful w) (hlo : w.start - 2048 ≤ number) (hhi : number ≤ w.start + 2047) :
    Truthful (next w (.mpdu number)) := by
  have hsize := h.size_le
  have hpos := h.size_pos
  rw [next]
  rcases lt_or_ge number w.start with hold | hstart
  · -- an old MPDU is ignored
    rw [updateWithMpdu, if_pos ((h.old_iff hlo hhi).mpr hold), advance_self, if_neg hold.not_ge]
    exact h
  rw [if_pos hstart]
  by_cases hlast : number ≤ w.last
  · rw [updateWithMpdu, if_neg (mt (h.old_iff hlo hhi).mp hstart.not_gt),
      if_pos ((h.inWindow_iff hstart hhi).mpr hlast)]
    dsimp only
    rw [Nat.shiftLeft_zero, or_one (h.bitmap_le _)]
    rw [show advance w.start w.cache { w.cache with
      m_bitmap := Function.update w.cache.m_bitmap (seq number) 1 } = w.start from
        advance_bitmap ..]
    exact h.receive hstart hlast
  · rw [not_le] at hlast
    obtain ⟨hclear, hkeep⟩ := h.skipped_spec hlast hhi
    have hend : number - w.cache.m_winSize + 1 + w.cache.m_winSize - 1 = number := by omega
    have hmove : w.start ≤ number - w.cache.m_winSize + 1 := by
      rw [Watched.last] at hlast
      omega
    -- the entry of the MPDU itself is as good as cleared
    have hcleared : ∀ x, w.last < x → x ≤ number - w.cache.m_winSize + 1 + w.cache.m_winSize - 1 →
        Function.update (skipped w number) (seq number) 0 (seq x) = 0 := by
      rw [hend]
      intro x hx hxn
      rcases hxn.lt_or_eq with hlt | rfl
      · rw [Function.update_of_ne, hclear x hx hlt]
        intro heq
        rw [Watched.last] at hx
        exact hlt.ne (seq_inj heq (by omega) (by omega))
      · exact Function.update_self ..
    have hkept : ∀ k, (∀ x, w.last < x →
        x ≤ number - w.cache.m_winSize + 1 + w.cache.m_winSize - 1 → seq x ≠ k) →
        Function.update (skipped w number) (seq number) 0 k = w.cache.m_bitmap k := by
      rw [hend]
      intro k hk
      rw [Function.update_of_ne (hk number hlast le_rfl).symm]
      exact hkeep k fun x hx hxn ↦ hk x hx hxn.le
    have hmoved := h.move hmove hcleared hkept (by omega)
    have hreceived := hmoved.receive (show _ ≤ number by dsimp only; omega)
      (by rw [Watched.last]; dsimp only; omega)
    have hself : skipped w number (seq number) = w.cache.m_bitmap (seq number) := by
      apply hkeep
      intro x hx hxn heq
      rw [Watched.last] at hx
      exact hxn.ne (seq_inj heq (by omega) (by omega))
    rw [h.updateWithMpdu_beyond hlast hhi, hself, or_one (h.bitmap_le _), advance_seq h.winStart rfl hmove (by omega)]
    dsimp only at hreceived
    rw [Function.update_idem, hend] at hreceived
    exact hreceived

theorem blockAckReq (h : Truthful w) (hok : Guard w (.blockAckReq number)) :
    Truthful (next w (.blockAckReq number)) := by
  obtain ⟨⟨hlo, hhi⟩, hzero⟩ := hok
  have hsize := h.size_le
  have hpos := h.size_pos
  rw [next]
  rcases lt_or_ge number w.start with hold | hstart
  · rw [updateWithBlockAckReq, if_pos ((h.old_iff hlo hhi).mpr hold), advance_self]
    exact h
  by_cases hlast : number ≤ w.last
  · rw [updateWithBlockAckReq, if_neg (mt (h.old_iff hlo hhi).mp hstart.not_gt),
      if_pos ((h.inWindow_iff hstart hhi).mpr hlast)]
    split_ifs with hne
    · -- what enters the window is cleared
      have hlt : w.start < number := by
        refine hstart.lt_of_ne fun heq ↦ hne ?_
        rw [h.winStart, heq]
      dsimp only [resetPortionOfBitmap]
      rw [winEnd_eq hpos, h.winEnd, seq_succ, advance_seq h.winStart rfl hstart (by omega)]
      rw [Watched.last] at hlast
      obtain ⟨hreset, hkeep⟩ := resetLoop_spec 4096 (m := w.cache.m_bitmap)
        (show w.last + 1 ≤ number + w.cache.m_winSize - 1 by rw [Watched.last]; omega)
        (by rw [Watched.last]; omega) (by rw [Watched.last]; push_cast; omega)
      apply h.move hstart _ _ hhi
      · exact fun x hx hx' ↦ hreset x hx hx'
      · exact fun k hk ↦ hkeep k fun x hx hx' ↦ hk x hx hx'
    · rw [advance_self]
      exact h
  · rw [updateWithBlockAckReq, if_neg (mt (h.old_iff hlo hhi).mp hstart.not_gt),
      if_neg (mt (h.inWindow_iff hstart hhi).mp hlast)]
    rw [not_le] at hlast
    dsimp only [resetPortionOfBitmap]
    rw [winEnd_eq hpos, advance_seq h.winStart rfl hstart (by omega)]
    obtain ⟨hreset, hkeep⟩ := resetLoop_spec 4096 (m := w.cache.m_bitmap)
      (show number ≤ number + w.cache.m_winSize - 1 by omega) (by omega) (by push_cast; omega)
    apply h.move hstart _ _ hhi
    · -- what lies between the windows is clear already
      intro x hx hx'
      rcases lt_or_ge x number with hlt | hge
      · rw [hkeep, hzero x hx hlt]
        intro y hy hy' heq
        rw [Watched.last] at hx
        have := seq_inj heq (by omega) (by omega)
        omega
      · exact hreset x hge hx'
    · exact fun k hk ↦ hkeep k fun x hx hx' ↦ hk x (hlast.trans_le hx) hx'

end Truthful

theorem size_next (w : Watched) (op : Op) :
    (next w op).cache.m_winSize = w.cache.m_winSize := by
  cases op with
  | mpdu number =>
    rw [next, updateWithMpdu]
    dsimp only [resetPortionOfBitmap]
    split_ifs <;> rfl
  | blockAckReq number =>
    rw [next, updateWithBlockAckReq]
    dsimp only [resetPortionOfBitmap]
    split_ifs <;> rfl

theorem Truthful.step {op : Op} (h : Truthful w) (hok : Guard w op) : Truthful (next w op) := by
  cases op with
  | mpdu number => exact h.mpdu hok.1 hok.2
  | blockAckReq number => exact h.blockAckReq hok

end Steps

/-! ## What is reported -/

section Reports

variable {w : Watched}

theorem mem_fillBlockAckBitmap (s : BlockAckCache) (hpos : 0 < s.m_winSize)
    (hle : s.m_winSize ≤ 256) (start : ℤ) (y : ℕ) :
    y ∈ s.fillBlockAckBitmap (seq start) ↔
      ∃ x, start ≤ x ∧ x < start + s.m_winSize ∧ y = seq x ∧ s.m_bitmap (seq x) = 1 := by
  rw [fillBlockAckBitmap, winEnd_eq hpos,
    mem_fillLoop s 4096 (by omega) (by omega) (by push_cast; omega)]
  constructor
  · rintro ⟨x, hx, hx', h⟩
    exact ⟨x, hx, by omega, h⟩
  · rintro ⟨x, hx, hx', h⟩
    exact ⟨x, hx, by omega, h⟩

namespace Truthful

theorem report (h : Truthful w) {start : ℤ} (hle : start ≤ w.start) (hlo : w.start - 2048 < start)
    (y : ℕ) : y ∈ w.cache.fillBlockAckBitmap (seq start) ↔
      ∃ x, start ≤ x ∧ x < start + w.cache.m_winSize ∧ y = seq x ∧ x ∈ w.received := by
  rw [mem_fillBlockAckBitmap _ h.size_pos h.size_le]
  have hset (x : ℤ) (hx : start ≤ x) (hx' : x < start + w.cache.m_winSize) :
      w.cache.m_bitmap (seq x) = 1 ↔ x ∈ w.received :=
    h.bitmap x (by omega) (by rw [Watched.last]; omega)
  constructor
  · rintro ⟨x, hx, hx', hy, h⟩
    exact ⟨x, hx, hx', hy, (hset x hx hx').mp h⟩
  · rintro ⟨x, hx, hx', hy, h⟩
    exact ⟨x, hx, hx', hy, (hset x hx hx').mpr h⟩

end Truthful

variable {start : ℤ} {winSize : ℕ} {ops : List Op}

theorem truthful_of_run (hpos : 0 < winSize) (hle : winSize ≤ 256)
    (hr : (watched start winSize).Run Guard ops w) :
    Truthful w ∧ w.cache.m_winSize = winSize := by
  apply hr.invariant (I := fun w ↦ Truthful w ∧ w.cache.m_winSize = winSize)
  · exact ⟨.init hpos hle start, rfl⟩
  · rintro s op s' ⟨h, hsize⟩ hok hs
    obtain rfl := Option.some_inj.mp hs
    exact ⟨h.step hok, (size_next s op).trans hsize⟩

/-- **The scoreboard is truthful.** In every run in which no request passes over a set entry, a request
for numbers from half of the space behind the window on is told what has been received, and nothing
else. -/
theorem report_iff (hpos : 0 < winSize) (hle : winSize ≤ 256)
    (hr : (watched start winSize).Run Guard ops w) {S : ℤ} (hlo : w.start - 2048 < S)
    (hhi : S ≤ w.start) (y : ℕ) :
    y ∈ w.cache.fillBlockAckBitmap (seq S) ↔
      ∃ x, S ≤ x ∧ x < S + winSize ∧ y = seq x ∧ x ∈ w.received := by
  obtain ⟨h, rfl⟩ := truthful_of_run hpos hle hr
  exact h.report hhi hlo y

/-- Two MPDUs across the wrap of the sequence numbers, and a request between them. -/
theorem report_iff_two : ∃ w, (watched 4095 64).Run Guard
    [.mpdu 4095, .mpdu 4097, .blockAckReq 4096] w ∧
      4095 ∈ w.cache.fillBlockAckBitmap (seq 4095) := by
  obtain ⟨w, hr, hstart, hmem⟩ : ∃ w, (watched 4095 64).Run Guard
      [.mpdu 4095, .mpdu 4097, .blockAckReq 4096] w ∧ w.start = 4096 ∧ 4095 ∈ w.received := by
    refine ⟨_, .snoc (.snoc (.snoc .nil ?_ rfl) ?_ rfl) ⟨?_, ?_⟩ rfl, ?_⟩
    · exact ⟨by decide, by decide⟩
    · exact ⟨by decide, by decide⟩
    · decide +kernel
    · -- the request is inside the window
      intro x hlast hx
      exact absurd (hlast.trans hx) (by decide +kernel)
    · decide +kernel
  refine ⟨w, hr, (report_iff (by decide) (by decide) hr ?_ ?_ 4095).mpr
    ⟨4095, le_rfl, by decide, by decide, hmem⟩⟩
  · rw [hstart]
    decide
  · rw [hstart]
    decide

/-- A request for the number 4200 passes over the number 4096, whose entry is that of the number 0. A
delayed request for the numbers from 4090 on is told that the number 4096 has been received. -/
theorem report_left_over : ∃ w, (watched 0 64).Run Machine.unguarded
    [.mpdu 0, .mpdu 2000, .mpdu 3900, .blockAckReq 4200] w ∧
      w.start = 4200 ∧ 4096 ∉ w.received ∧
      seq 4096 ∈ w.cache.fillBlockAckBitmap (seq 4090) :=
  Machine.exists_run_of_exec
    (p := fun w ↦ w.start = 4200 ∧ 4096 ∉ w.received ∧
      seq 4096 ∈ w.cache.fillBlockAckBitmap (seq 4090))
    (by decide +kernel : ((watched 0 64).exec
      [.mpdu 0, .mpdu 2000, .mpdu 3900, .blockAckReq 4200]).elim false _ = true)

end Reports

end BlockAckCache

end Wifi

end Ns3
