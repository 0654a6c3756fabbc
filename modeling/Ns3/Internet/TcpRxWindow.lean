import Ns3.Internet.TcpRxBuffer

/-!
# The advertised receive window

`AdvertisedWindowSize` subtracts `NextRxSequence` from `MaxRxSequence`, and asserts that the difference
is not negative. As long as the buffer is respected, `MaxRxSequence` lies `m_maxBuffer` behind the first
byte that has not been extracted, whatever the shape of the buffer, and all blocks lie before it.

`Add` does not always respect it: it cuts a segment off `m_maxBuffer` behind the first block, and not at
all if there is none. That is the end of the window only while bytes that have come in order wait to be
extracted. A segment that reaches beyond the window in any other state is stored as it is.

## The invariant

Positions are counted from any place that is far enough before the first byte that has not been
extracted, so that a segment from before that byte has a position, too. What the segments have in them
does not matter.
-/

namespace Ns3

/-- `TcpSocket::TcpStates_t`. -/
inductive TcpStates
  | CLOSED
  | LISTEN
  | SYN_SENT
  | SYN_RCVD
  | ESTABLISHED
  | CLOSE_WAIT
  | LAST_ACK
  | FIN_WAIT_1
  | FIN_WAIT_2
  | CLOSING
  | TIME_WAIT
  deriving DecidableEq, Repr

namespace TcpRxBuffer

/-- `TcpSocketBase::OutOfRange`. -/
def outOfRange (m_state : TcpStates) (x : TcpRxBuffer) (head tail : SequenceNumber32) : Bool :=
  match m_state with
  | .LISTEN | .SYN_SENT | .SYN_RCVD => false
  | .LAST_ACK | .CLOSING | .CLOSE_WAIT => decide (x.m_nextRxSeq ≠ head)
  | _ => tail.lt x.m_nextRxSeq || x.maxRxSequence.le head

/-- `TcpSocketBase::AdvertisedWindowSize`: what it returns and `m_advWnd`, or nothing if the assertion
fails. -/
def advertisedWindowSize (x : TcpRxBuffer) (m_advWnd m_rcvWindShift : ℕ) (m_maxWinSize : UInt16)
    (scale : Bool) : Option (UInt16 × ℕ) :=
  let w :=
    if x.m_gotFin = true then some m_advWnd
    else if 0 ≤ x.maxRxSequence.sub x.m_nextRxSeq then
      some ((x.maxRxSequence.sub x.m_nextRxSeq) % 2 ^ 32).toNat
    else none
  w.map fun w ↦
    let w' := if scale = true then w >>> m_rcvWindShift else w
    (UInt16.ofNat (if m_maxWinSize.toNat < w' then m_maxWinSize.toNat else w'), w)

/-! ## Runs -/

/-- A segment with some sequence number arrives, or bytes are extracted. -/
inductive WindowOp
  | add (seq : SequenceNumber32) (p : List UInt8)
  | extract (maxSize : ℕ)
  deriving DecidableEq, Repr

/-- The runs of a buffer, of which a socket in `m_state` adds the segments that are in range. -/
def windowMachine (m_state : TcpStates) (isn : SequenceNumber32) (maxBuffer : ℕ) :
    Machine TcpRxBuffer WindowOp where
  init := ⟨isn, false, isn, 0, maxBuffer, 0, [], []⟩
  next x
    | .add seq p =>
      if x.outOfRange m_state seq (seq.add p.length) = true then some x else some (x.add seq p).2
    | .extract maxSize => (x.extract maxSize).map Prod.snd

/-- The size is at most that of the buffer, and the window is what is left of it. -/
structure Respected (maxBuffer : ℕ) (x : TcpRxBuffer) : Prop where
  size_le : x.m_size ≤ maxBuffer
  sub_nonneg : 0 ≤ x.maxRxSequence.sub x.m_nextRxSeq
  available_le : x.m_availBytes ≤ maxBuffer
  window : ∀ m_advWnd m_rcvWindShift m_maxWinSize scale,
    x.advertisedWindowSize m_advWnd m_rcvWindShift m_maxWinSize scale =
      some (UInt16.ofNat (min m_maxWinSize.toNat
        ((maxBuffer - x.m_availBytes) >>> if scale = true then m_rcvWindShift else 0)),
        maxBuffer - x.m_availBytes)

/-- The segment is shorter than half of the number space. Either bytes that have come in order wait to
be extracted, or the segment ends in the window, and the place where `Add` cuts it off is not before
that. -/
def FitsWindow (x : TcpRxBuffer) : WindowOp → Prop
  | .add seq p => p.length < 2 ^ 31 ∧
      ((∃ first ∈ x.m_data.head?, first.1.lt x.m_nextRxSeq = true) ∨
        (seq.add p.length).le x.maxRxSequence = true ∧
          ∀ first ∈ x.m_data.head?, (first.1.add x.m_maxBuffer).lt (seq.add p.length) = false)
  | .extract _ => True

instance (x : TcpRxBuffer) : DecidablePred x.FitsWindow
  | .add _ _ => inferInstanceAs (Decidable (_ ∧ (_ ∨ _ ∧ _)))
  | .extract _ => .isTrue trivial

/-! ## The invariant -/

/-- The buffer holds `blocks`, and the first byte that has not been extracted is at `e`. -/
structure Windowed (isn : SequenceNumber32) (e : ℕ) (x : TcpRxBuffer) (blocks : List Block) :
    Prop where
  le : 2 ^ 31 ≤ e
  data : x.m_data = blocks.map (Block.entry isn)
  sorted : blocks.Pairwise Block.Before
  within : ∀ b ∈ blocks, e ≤ b.position ∧ b.stop ≤ e + x.m_maxBuffer
  available : ∀ y, e ≤ y → y < e + x.m_availBytes → Covers blocks y
  gap : ¬Covers blocks (e + x.m_availBytes)
  nextRxSeq : x.m_nextRxSeq = isn.add (e + x.m_availBytes)
  gotFin : x.m_gotFin = false
  size : x.m_size = totalSize blocks

section Invariant

variable {isn : SequenceNumber32} {e : ℕ} {x x' : TcpRxBuffer} {blocks : List Block}

theorem Windowed.available_le (hi : Windowed isn e x blocks) : x.m_availBytes ≤ x.m_maxBuffer := by
  by_contra hlt
  obtain ⟨b, hb, -, hstop⟩ := hi.available (e + x.m_maxBuffer) (Nat.le_add_right _ _) (by omega)
  exact absurd (hi.within b hb).2 (not_le.mpr hstop)

theorem Windowed.size_le (hi : Windowed isn e x blocks) : totalSize blocks ≤ x.m_maxBuffer := by
  have hle := totalSize_le hi.sorted hi.within
  rwa [Nat.add_sub_cancel_left] at hle

theorem Windowed.head_position (hi : Windowed isn e x blocks) {b : Block} (hb : b ∈ blocks.head?) :
    b.position = e ∧ 0 < x.m_availBytes ∨ e < b.position ∧ x.m_availBytes = 0 := by
  have hmem := List.mem_of_mem_head? hb
  have hle := (hi.within b hmem).1
  have hpos := b.position_lt_stop
  by_cases havail : x.m_availBytes = 0
  · refine .inr ⟨lt_of_le_of_ne hle fun heq ↦ hi.gap ?_, havail⟩
    rw [havail, Nat.add_zero, heq]
    exact ⟨b, hmem, le_rfl, hpos⟩
  · refine .inl ⟨le_antisymm ?_ hle, Nat.pos_of_ne_zero havail⟩
    obtain ⟨c, hc, hce, -⟩ := hi.available e le_rfl (by omega)
    cases blocks with
    | nil => exact absurd hmem List.not_mem_nil
    | cons d rest =>
      obtain rfl := Option.some.inj hb
      rcases List.mem_cons.mp hc with rfl | hc
      · exact hce
      · exact (hpos.le.trans ((List.pairwise_cons.mp hi.sorted).1 c hc)).trans hce

/-- The window ends `m_maxBuffer` behind the first byte that has not been extracted. -/
theorem Windowed.maxRxSequence_eq (hi : Windowed isn e x blocks) (hmax : x.m_maxBuffer < 2 ^ 31) :
    x.maxRxSequence = isn.add (e + x.m_maxBuffer) := by
  have hhalf := halfMaxValue_add_one
  have havail := hi.available_le
  have hfin := hi.gotFin
  rw [maxRxSequence, if_neg (Bool.eq_false_iff.mp hfin), hi.data, hi.nextRxSeq]
  cases blocks with
  | nil =>
    have hzero : x.m_availBytes = 0 := by
      by_contra hne
      obtain ⟨b, hb, -⟩ := hi.available e le_rfl (by omega)
      exact absurd hb List.not_mem_nil
    rw [List.map_nil, hzero, Nat.add_zero]
    exact SequenceNumber.add_add _ _ _
  | cons b rest =>
    obtain ⟨hb₁, hb₂⟩ := hi.within b List.mem_cons_self
    have hpos := b.position_lt_stop
    rw [List.map_cons, Block.entry]
    dsimp only
    rw [isn.gt_add (by omega) (by omega)]
    rcases hi.head_position (b := b) rfl with ⟨heq, hlt⟩ | ⟨hlt, heq⟩
    · rw [if_pos (decide_eq_true (by omega)), SequenceNumber.add_add, heq]
    · rw [if_neg (by rw [decide_eq_true_iff]; omega), SequenceNumber.add_add, heq, Nat.add_zero]

theorem Windowed.respected (hi : Windowed isn e x blocks) (hmax : x.m_maxBuffer < 2 ^ 31) :
    Respected x.m_maxBuffer x := by
  have hhalf := halfMaxValue_add_one
  have havail := hi.available_le
  have hsub : x.maxRxSequence.sub x.m_nextRxSeq = (x.m_maxBuffer - x.m_availBytes : ℕ) := by
    rw [hi.maxRxSequence_eq hmax, hi.nextRxSeq, isn.sub_add (by omega) (by omega)]
    omega
  refine ⟨hi.size.trans_le hi.size_le, ?_, havail, fun m_advWnd m_rcvWindShift m_maxWinSize scale ↦ ?_⟩
  · rw [hsub]
    exact Int.natCast_nonneg _
  · have hmod : (((x.m_maxBuffer - x.m_availBytes : ℕ) : ℤ) % 2 ^ 32).toNat =
        x.m_maxBuffer - x.m_availBytes := by omega
    have hcap : ∀ w, (if m_maxWinSize.toNat < w then m_maxWinSize.toNat else w) =
        min m_maxWinSize.toNat w := fun w ↦ by
      split_ifs with hlt
      · exact (min_eq_left hlt.le).symm
      · exact (min_eq_right (not_lt.mp hlt)).symm
    have hfin := hi.gotFin
    rw [advertisedWindowSize, if_neg (Bool.eq_false_iff.mp hfin), hsub,
      if_pos (Int.natCast_nonneg _), hmod, Option.map_some]
    dsimp only
    rw [hcap]
    cases scale with
    | true => rfl
    | false => rfl

/-! ### A segment -/

/-- The states in which the sequence numbers of a segment are compared with the window. -/
def checksWindow (m_state : TcpStates) : Bool :=
  decide (m_state ∉ ([.LISTEN, .SYN_SENT, .SYN_RCVD, .LAST_ACK, .CLOSING, .CLOSE_WAIT] : List TcpStates))

theorem outOfRange_eq_false_iff {m_state : TcpStates} (hstate : checksWindow m_state = true)
    (head tail : SequenceNumber32) : x.outOfRange m_state head tail = false ↔
      tail.lt x.m_nextRxSeq = false ∧ x.maxRxSequence.gt head = true := by
  have heq : x.outOfRange m_state head tail = (tail.lt x.m_nextRxSeq || x.maxRxSequence.le head) := by
    cases m_state with
    | LISTEN | SYN_SENT | SYN_RCVD | LAST_ACK | CLOSING | CLOSE_WAIT =>
      exact absurd hstate (by decide)
    | _ => rfl
  rw [heq, Bool.or_eq_false_iff, SequenceNumber.le, Bool.not_eq_false']

/-- The positions of a segment that is in range. -/
structure InRange (e : ℕ) (x : TcpRxBuffer) (y length : ℕ) : Prop where
  lt : y < e + x.m_maxBuffer
  le : e + x.m_maxBuffer ≤ y + SequenceNumber.halfMaxValue 32 + 1
  next_le : e + x.m_availBytes ≤ y + length

theorem Windowed.exists_inRange (hi : Windowed isn e x blocks) (hmax : x.m_maxBuffer < 2 ^ 31)
    {seq : SequenceNumber32} {length : ℕ} (hlen : length < 2 ^ 31)
    (htail : (seq.add length).lt x.m_nextRxSeq = false) (hhead : x.maxRxSequence.gt seq = true) :
    ∃ y, seq = isn.add y ∧ InRange e x y length ∧
      (seq.lt x.m_nextRxSeq = decide (y < e + x.m_availBytes)) := by
  have hhalf := halfMaxValue_add_one
  have havail := hi.available_le
  have hle := hi.le
  have hlt := SequenceNumber.lt_of_gt hhead
  have hmaxseq := hi.maxRxSequence_eq hmax
  rw [hmaxseq] at hhead hlt
  obtain ⟨y, rfl, hy, hy'⟩ := isn.exists_eq_add_of_gt hhead (by omega)
  rw [SequenceNumber.add_add, hi.nextRxSeq] at htail
  rw [hi.nextRxSeq]
  by_cases hfar : e + x.m_availBytes ≤ y + SequenceNumber.halfMaxValue 32
  · refine ⟨y, rfl, ⟨hy, hy', ?_⟩, isn.lt_add (by omega) hfar⟩
    by_contra hnot
    rw [isn.lt_add (by omega) (by omega)] at htail
    exact of_decide_eq_false htail (not_le.mp hnot)
  · -- half of the number space before the end of the window, all of which is used
    have hfull : e + x.m_availBytes = e + x.m_maxBuffer := by omega
    refine ⟨y, rfl, ⟨hy, hy', ?_⟩, ?_⟩
    · by_contra hnot
      rcases Nat.eq_zero_or_pos length with hzero | hpos
      · rw [hzero, Nat.add_zero, hfull, hlt] at htail
        exact Bool.noConfusion htail
      · rw [isn.lt_add (by omega) (by omega)] at htail
        exact of_decide_eq_false htail (not_le.mp hnot)
    · rw [hfull, hlt]
      exact (decide_eq_true hy).symm

/-- What `fitWindow` leaves of a segment that fits the window. -/
structure FittedTo (e : ℕ) (x : TcpRxBuffer) (y length h t : ℕ) : Prop where
  head_ge : e + x.m_availBytes ≤ h
  head_le : h ≤ e + x.m_maxBuffer
  tail_ge : e + x.m_availBytes ≤ t
  tail_le : t ≤ e + x.m_maxBuffer
  tail_le' : t ≤ y + length
  start_le : h < t → y ≤ h

theorem Windowed.exists_fittedTo (hi : Windowed isn e x blocks) (hmax : x.m_maxBuffer < 2 ^ 31)
    {y : ℕ} {p : List UInt8} (hin : InRange e x y p.length)
    (hhead : x.maxRxSequence.gt (isn.add y) = true)
    (hlow : (isn.add y).lt x.m_nextRxSeq = decide (y < e + x.m_availBytes))
    (hfits : x.FitsWindow (.add (isn.add y) p)) : ∃ h t,
      x.fitWindow (isn.add y) ((isn.add y).add p.length) = (isn.add h, isn.add t) ∧
        FittedTo e x y p.length h t := by
  have hhalf := halfMaxValue_add_one
  have havail := hi.available_le
  have hle := hi.le
  obtain ⟨hy, hy', hnext⟩ := hin
  obtain ⟨hlen, hcases⟩ := hfits
  rw [SequenceNumber.add_add] at hcases ⊢
  have hmaxseq := hi.maxRxSequence_eq hmax
  rw [hmaxseq] at hhead hcases
  have hstart : (if (isn.add y).lt x.m_nextRxSeq = true then x.m_nextRxSeq else isn.add y) =
      isn.add (max y (e + x.m_availBytes)) := by
    rw [hlow, hi.nextRxSeq]
    simp only [decide_eq_true_iff]
    split_ifs with hlt
    · rw [max_eq_right hlt.le]
    · rw [max_eq_left (not_lt.mp hlt)]
  -- the code compares the end of the segment with that of the window as their positions
  have hend : (isn.add (y + p.length)).le (isn.add (e + x.m_maxBuffer)) = true →
      y + p.length ≤ e + x.m_maxBuffer := by
    intro hcode
    by_contra hnot
    rw [isn.le_add (by omega) (by omega)] at hcode
    exact hnot (of_decide_eq_true hcode)
  have hcut : (isn.add (e + x.m_maxBuffer)).lt (isn.add (y + p.length)) =
      decide (e + x.m_maxBuffer < y + p.length) := by
    by_cases hfar : e + x.m_maxBuffer ≤ y + p.length + SequenceNumber.halfMaxValue 32
    · exact isn.lt_add hfar (by omega)
    · have hzero : p.length = 0 := by omega
      rw [hzero, Nat.add_zero, SequenceNumber.lt, hhead]
      exact (decide_eq_false (by omega)).symm
  rw [fitWindow, hstart, hi.data]
  rw [hi.data] at hcases
  cases blocks with
  | nil =>
    have hinside : y + p.length ≤ e + x.m_maxBuffer := by
      rcases hcases with ⟨first, hfirst, -⟩ | ⟨hcode, -⟩
      · exact absurd hfirst (by simp)
      · exact hend hcode
    exact ⟨_, _, rfl, by omega, by omega, by omega, hinside, le_rfl, by omega⟩
  | cons b rest =>
    rw [List.map_cons, Block.entry] at hcases ⊢
    dsimp only
    rw [SequenceNumber.add_add]
    have hcompare : ∀ t, e + x.m_availBytes ≤ t → t ≤ e + x.m_maxBuffer → t ≤ y + p.length →
        ∃ h t', (if (isn.add t).lt (isn.add (max y (e + x.m_availBytes))) = true then isn.add t
          else isn.add (max y (e + x.m_availBytes)), isn.add t) = (isn.add h, isn.add t') ∧
            FittedTo e x y p.length h t' := by
      intro t hge hle' htail
      rw [isn.lt_add (by omega) (by omega)]
      simp only [decide_eq_true_iff]
      split_ifs with hlt
      · exact ⟨t, t, rfl, hge, hle', hge, hle', htail, fun h ↦ absurd h (lt_irrefl t)⟩
      · exact ⟨_, t, rfl, by omega, by omega, hge, hle', htail, by omega⟩
    rcases hi.head_position (b := b) rfl with ⟨hpos, havail'⟩ | ⟨hpos, havail'⟩
    · -- the segment is cut off where the window ends
      rw [hpos, hcut]
      by_cases hlong : e + x.m_maxBuffer < y + p.length
      · rw [if_pos (decide_eq_true hlong)]
        exact hcompare _ (by omega) le_rfl hlong.le
      · rw [if_neg (mt of_decide_eq_true hlong)]
        exact hcompare _ hnext (not_lt.mp hlong) le_rfl
    · -- the first block is not in order, so that the segment has to fit by itself
      have hfit := hcases.resolve_left (by
        rintro ⟨first, hfirst, hcode⟩
        obtain rfl := Option.some.inj hfirst
        obtain ⟨hb₁, hb₂⟩ := hi.within b List.mem_cons_self
        have hb := b.position_lt_stop
        dsimp only at hcode
        rw [hi.nextRxSeq, isn.lt_add (by omega) (by omega), decide_eq_true_iff] at hcode
        omega)
      obtain ⟨hcode, hlate⟩ := hfit
      have hinside := hend hcode
      have hnot := hlate _ rfl
      dsimp only at hnot
      rw [SequenceNumber.add_add] at hnot
      rw [if_neg (Bool.eq_false_iff.mp hnot)]
      exact hcompare _ hnext hinside le_rfl

theorem Windowed.within_base (hi : Windowed isn e x blocks) (hmax : x.m_maxBuffer < 2 ^ 31) :
    ∀ b ∈ blocks, b.Within e := fun b hb ↦ by
  have hhalf := halfMaxValue_add_one
  obtain ⟨hpos, hstop⟩ := hi.within b hb
  exact ⟨hpos, by omega⟩

theorem Windowed.step_store (hi : Windowed isn e x blocks) (hmax : x.m_maxBuffer < 2 ^ 31)
    {y length h t h' t' : ℕ} {kept : List Block} (hfit : FittedTo e x y length h t)
    (htrim : Trimmed h t blocks h' t' kept) (hlt : h' < t') {p : List UInt8}
    (hp : p.length = t' - h') : ∃ blocks',
      Windowed isn e (store { x with m_size := totalSize kept, m_data := kept.map (Block.entry isn) }
        (isn.add h') (isn.add t') p) blocks' := by
  have hhalf := halfMaxValue_add_one
  have havail := hi.available_le
  have hwithin := hi.within_base hmax
  have hhead := hfit.head_ge.trans htrim.head_le
  have htail := htrim.le_tail.trans hfit.tail_le
  set c : Block := ⟨h', p, by omega⟩ with hc
  have hcstop : c.stop = t' := by
    change h' + p.length = t'
    omega
  have hcin : c.Within e := ⟨by change e ≤ h'; omega, by omega⟩
  obtain ⟨blocks', hrun, hstored, htotal⟩ :=
    htrim.insertData isn hwithin hi.sorted hcin rfl hcstop
  change TcpRxBuffer.insertData _ p _ = _ at hrun
  change totalSize blocks' = totalSize kept + p.length at htotal
  have hwithin' : ∀ b ∈ blocks', e ≤ b.position ∧ b.stop ≤ e + x.m_maxBuffer := fun b hb ↦ by
    rcases hstored.mem b hb with hb | rfl
    · exact hi.within b hb
    · exact ⟨hcin.1, by omega⟩
  have hin' : ∀ b ∈ blocks', b.Within e := fun b hb ↦ by
    obtain ⟨hpos, hstop⟩ := hwithin' b hb
    exact ⟨hpos, by omega⟩
  have hcut : ∀ b ∈ blocks', b.stop ≤ e + x.m_availBytes ∨ e + x.m_availBytes ≤ b.position := by
    intro b hb
    rcases hstored.mem b hb with hb | rfl
    · by_contra hnot
      exact hi.gap ⟨b, hb, by omega⟩
    · exact .inr hhead
  have hsize : add32 (totalSize kept) p.length = totalSize blocks' := by
    have hle := totalSize_le hstored.sorted hwithin'
    rw [htotal, add32_eq (by omega)]
  have hdiff : x.m_availBytes = e + x.m_availBytes - e := (Nat.add_sub_cancel_left _ _).symm
  rw [store]
  dsimp only
  rw [hi.nextRxSeq, hrun, hsize]
  generalize (if (isn.add h').gt (isn.add (e + x.m_availBytes)) = true then
    updateSackList x.m_sackList (isn.add h') (isn.add t') else x.m_sackList) = sackList
  obtain ⟨n', sackList', hadv, hn, hn', hcover, hgap⟩ := advance_spec isn hin' hstored.sorted le_rfl
    (Nat.le_add_right e x.m_availBytes) (by omega) hcut sackList
  rw [← hdiff] at hadv
  rw [hadv]
  dsimp only
  have hsum : e + (n' - e) = n' := by omega
  have hfin := hi.gotFin
  refine ⟨blocks', hi.le, rfl, hstored.sorted, hwithin', fun z hz hzn ↦ ?_, ?_, ?_, hfin, rfl⟩
  · dsimp only at hzn
    rw [hsum] at hzn
    by_cases hold : z < e + x.m_availBytes
    · exact (hstored.covers z).mpr (.inl (hi.available z hz hold))
    · exact hcover z (not_lt.mp hold) hzn
  · dsimp only
    rw [hsum]
    exact hgap
  · dsimp only
    rw [hsum, if_neg fun h ↦ Bool.false_ne_true (hfin.symm.trans h.1)]

theorem Windowed.step_add (hi : Windowed isn e x blocks) (hmax : x.m_maxBuffer < 2 ^ 31)
    {m_state : TcpStates} (hstate : checksWindow m_state = true) {seq : SequenceNumber32}
    {p : List UInt8} (hrange : x.outOfRange m_state seq (seq.add p.length) = false)
    (hfits : x.FitsWindow (.add seq p)) : ∃ blocks', Windowed isn e (x.add seq p).2 blocks' := by
  have hhalf := halfMaxValue_add_one
  have havail := hi.available_le
  have hwithin := hi.within_base hmax
  have htotal := hi.size_le
  obtain ⟨htail, hhead⟩ := (outOfRange_eq_false_iff hstate _ _).mp hrange
  obtain ⟨y, rfl, hin, hlow⟩ := hi.exists_inRange hmax hfits.1 htail hhead
  obtain ⟨h, t, hfw, hfit⟩ := hi.exists_fittedTo hmax hin hhead hlow hfits
  have hbounds : (e ≤ h ∧ h ≤ e + SequenceNumber.halfMaxValue 32) ∧
      e ≤ t ∧ t ≤ e + SequenceNumber.halfMaxValue 32 := by
    obtain ⟨h₁, h₂, h₃, h₄, -, -⟩ := hfit
    omega
  obtain ⟨h', t', kept, hrun, htrim⟩ := @removeOverlap_spec isn e h t 0 blocks hwithin hi.sorted
    hbounds.1 hbounds.2 (by omega)
  rw [Nat.zero_add, Nat.zero_add] at hrun
  have hhh := htrim.head_le
  have htt := htrim.le_tail
  have hhigh := htrim.le_of_stop_le _ hbounds.1.2 fun b hb ↦ (hwithin b hb).2
  have hlow' := htrim.tail_ge _ hbounds.2.1 fun b hb ↦ (hwithin b hb).1
  rw [add, hfw, hi.data, hi.size]
  dsimp only
  rw [hrun]
  dsimp only
  rw [isn.ge_add (by omega) (by omega)]
  simp only [decide_eq_true_iff]
  by_cases hlt : h' < t'
  · rw [if_neg (not_le.mpr hlt)]
    have hstart : y ≤ h := hfit.start_le (hhh.trans_lt (hlt.trans_le htt))
    have htail' := hfit.tail_le
    have htail'' := hfit.tail_le'
    obtain ⟨-, hy, -⟩ := hin
    rw [isn.sub_add (by omega) (by omega), isn.sub_add (by omega) (by omega)]
    refine hi.step_store hmax hfit htrim hlt ?_
    rw [List.length_take, List.length_drop]
    omega
  · -- nothing is left
    rw [if_pos (not_lt.mp hlt)]
    obtain rfl := htrim.none_dropped.resolve_left hlt
    exact ⟨kept, hi.le, rfl, hi.sorted, hi.within, hi.available, hi.gap, hi.nextRxSeq, hi.gotFin, rfl⟩

/-! ### Extraction -/

theorem exists_stream {blocks : List Block} (hsorted : blocks.Pairwise Block.Before) :
    ∀ before : List UInt8, (∀ b ∈ blocks, before.length ≤ b.position) →
      ∃ stream : List UInt8, before <+: stream ∧ ∀ b ∈ blocks, b.PartOf stream := by
  induction blocks with
  | nil => exact fun before _ ↦ ⟨before, List.prefix_rfl, fun b hb ↦ absurd hb List.not_mem_nil⟩
  | cons b rest ih =>
    intro before hbefore
    obtain ⟨hrest, hsorted'⟩ := List.pairwise_cons.mp hsorted
    have hle := hbefore b List.mem_cons_self
    have hlength : (before ++ List.replicate (b.position - before.length) 0).length = b.position := by
      rw [List.length_append, List.length_replicate]
      omega
    have hlength' : (before ++ List.replicate (b.position - before.length) 0 ++ b.bytes).length =
        b.stop := by
      rw [List.length_append, hlength]
      rfl
    obtain ⟨stream, ⟨after, rfl⟩, hparts⟩ := ih hsorted'
      (before ++ List.replicate (b.position - before.length) 0 ++ b.bytes) fun c hc ↦ by
        rw [hlength']
        exact hrest c hc
    refine ⟨_, ?_, List.forall_mem_cons.mpr ⟨⟨?_, ?_⟩, hparts⟩⟩
    · rw [List.append_assoc, List.append_assoc]
      exact List.prefix_append _ _
    · rw [List.length_append, hlength']
      exact Nat.le_add_right _ _
    · rw [List.append_assoc, List.drop_left' hlength, List.take_left]

theorem Windowed.step_extract (hi : Windowed isn e x blocks) (hmax : x.m_maxBuffer < 2 ^ 31)
    {maxSize : ℕ} {out : Option (List UInt8)} (h : x.extract maxSize = some (out, x')) :
    ∃ e' blocks', Windowed isn e' x' blocks' := by
  rw [extract] at h
  split_ifs at h with hzero
  · obtain ⟨-, rfl⟩ := Prod.mk.inj (Option.some.inj h)
    exact ⟨e, blocks, hi⟩
  · generalize hk : min maxSize x.m_availBytes = k at h
    have hhalf := halfMaxValue_add_one
    have havail := hi.available_le
    have htotal := hi.size_le
    have hle : k ≤ x.m_availBytes := hk ▸ min_le_right _ _
    obtain ⟨stream, -, hparts⟩ := exists_stream hi.sorted [] fun b _ ↦ Nat.zero_le _
    obtain ⟨bytes, rest, hrun, hlen, -, hsorted, hall, hcov, hsum⟩ := @extractData_spec isn e k blocks
      stream e (hi.within_base hmax) hi.sorted (fun b hb ↦ (hi.within b hb).1) hparts
      fun z hz hzk ↦ hi.available z hz (by omega)
    rw [hi.data, hrun, Option.map_some] at h
    obtain ⟨-, rfl⟩ := Prod.mk.inj (Option.some.inj h)
    have hrest : sub32 x.m_availBytes bytes.length = x.m_availBytes - k := by
      rw [hlen, sub32_eq hle (by omega)]
    have hend : e + k + (x.m_availBytes - k) = e + x.m_availBytes := by omega
    refine ⟨e + k, rest, by have := hi.le; omega, rfl, hsorted, fun b hb ↦ ⟨(hall b hb).1, ?_⟩,
      fun z hz hz' ↦ ?_, ?_, ?_, hi.gotFin, ?_⟩
    · -- the last byte of the block was held before
      have hpos := b.position_lt_stop
      have hge := (hall b hb).1
      obtain ⟨c, hc, -, hstop⟩ := (hcov (b.stop - 1) (by omega)).mp ⟨b, hb, by omega, by omega⟩
      have hc' := (hi.within c hc).2
      dsimp only
      omega
    · dsimp only at hz'
      rw [hrest, hend] at hz'
      exact (hcov z hz).mpr (hi.available z (by omega) hz')
    · dsimp only
      rw [hrest, hend, hcov _ (by omega)]
      exact hi.gap
    · dsimp only
      rw [hrest, hend]
      exact hi.nextRxSeq
    · dsimp only
      rw [hlen, hi.size, hsum, sub32_eq (Nat.le_add_right _ _) (by omega), Nat.add_sub_cancel_left]

/-! ### All steps -/

theorem windowed_init (isn : SequenceNumber32) (maxBuffer : ℕ) :
    Windowed isn (2 ^ 32) ⟨isn, false, isn, 0, maxBuffer, 0, [], []⟩ [] where
  le := Nat.pow_le_pow_right two_pos (by omega)
  data := rfl
  sorted := .nil
  within _ hb := absurd hb List.not_mem_nil
  available y hy hlt := by
    rw [Nat.add_zero] at hlt
    exact absurd hy (not_le.mpr hlt)
  gap := fun ⟨_, hb, _⟩ ↦ List.not_mem_nil hb
  nextRxSeq := by
    have hwrap : BitVec.ofNat 32 (2 ^ 32) = 0#32 :=
      BitVec.eq_of_toNat_eq (by rw [BitVec.toNat_ofNat, Nat.mod_self]; rfl)
    rw [Nat.add_zero, SequenceNumber.add, hwrap, BitVec.add_zero]
  gotFin := rfl
  size := rfl

theorem m_maxBuffer_add (y : TcpRxBuffer) (seq : SequenceNumber32) (p : List UInt8) :
    (y.add seq p).2.m_maxBuffer = y.m_maxBuffer := by
  rw [add]
  dsimp only
  split_ifs
  · rfl
  · rfl

theorem m_maxBuffer_extract {maxSize : ℕ} {out : Option (List UInt8)}
    (h : x.extract maxSize = some (out, x')) : x'.m_maxBuffer = x.m_maxBuffer := by
  rw [extract] at h
  split_ifs at h
  · exact (Prod.mk.inj (Option.some.inj h)).2 ▸ rfl
  · obtain ⟨⟨taken, rest⟩, -, heq⟩ := Option.map_eq_some_iff.mp h
    exact (Prod.mk.inj heq).2 ▸ rfl

/-- One step keeps the invariant, with another first byte that has not been extracted. -/
theorem Windowed.step (hi : Windowed isn e x blocks) {m_state : TcpStates}
    (hstate : checksWindow m_state = true) (hmax : x.m_maxBuffer < 2 ^ 31) {isn' : SequenceNumber32}
    {maxBuffer : ℕ} {op : WindowOp} (hok : x.FitsWindow op)
    (hs : (windowMachine m_state isn' maxBuffer).next x op = some x') :
    (∃ e' blocks', Windowed isn e' x' blocks') ∧ x'.m_maxBuffer = x.m_maxBuffer := by
  cases op with
  | add seq p =>
    change (if x.outOfRange m_state seq (seq.add p.length) = true then some x
      else some (x.add seq p).2) = some x' at hs
    split_ifs at hs with hrange
    · obtain rfl := Option.some.inj hs
      exact ⟨⟨e, blocks, hi⟩, rfl⟩
    · obtain rfl := Option.some.inj hs
      exact ⟨⟨e, hi.step_add hmax hstate (Bool.eq_false_iff.mpr hrange) hok⟩, m_maxBuffer_add _ _ _⟩
  | extract maxSize =>
    obtain ⟨⟨out, y⟩, hout, rfl⟩ := Option.map_eq_some_iff.mp hs
    exact ⟨hi.step_extract hmax hout, m_maxBuffer_extract hout⟩

end Invariant

/-! ## The result -/

/-- **The advertised window is respected.** -/
theorem windowRespected {m_state : TcpStates} (hstate : checksWindow m_state = true) {maxBuffer : ℕ}
    (hmax : maxBuffer < 2 ^ 31) {isn : SequenceNumber32} {ops : List WindowOp} {x : TcpRxBuffer}
    (hr : (windowMachine m_state isn maxBuffer).Run FitsWindow ops x) : Respected maxBuffer x := by
  have key : (∃ e blocks, Windowed isn e x blocks) ∧ x.m_maxBuffer = maxBuffer := by
    refine hr.invariant (I := fun x ↦ (∃ e blocks, Windowed isn e x blocks) ∧
      x.m_maxBuffer = maxBuffer) ⟨⟨2 ^ 32, [], windowed_init isn maxBuffer⟩, rfl⟩ ?_
    rintro s op s' ⟨⟨e, blocks, hi⟩, rfl⟩ hok hs
    exact hi.step hstate hmax hok hs
  obtain ⟨⟨e, blocks, hi⟩, rfl⟩ := key
  exact hi.respected hmax

/-- A segment that leaves a gap, the bytes of the gap, and an extraction. -/
theorem windowRespected_gap : ∃ x,
    (windowMachine .ESTABLISHED (SequenceNumber.ofNat 32 0) 10).Run FitsWindow
      [.add (SequenceNumber.ofNat 32 5) [6, 7], .add (SequenceNumber.ofNat 32 0) [1, 2, 3, 4, 5],
        .extract 4] x ∧
    Respected 10 x ∧ x.m_availBytes = 3 ∧ x.m_nextRxSeq = SequenceNumber.ofNat 32 7 := by
  refine Machine.exists_run_and_allowed
    (p := fun x ↦ x.m_availBytes = 3 ∧ x.m_nextRxSeq = SequenceNumber.ofNat 32 7)
    (by decide +kernel) (by decide +kernel) fun x hr hx ↦ ?_
  exact ⟨windowRespected (by decide) (by decide) hr, hx⟩

/-- A segment of thirty bytes is stored in an empty buffer for ten. -/
theorem not_windowRespected_empty : ∃ x,
    (windowMachine .ESTABLISHED (SequenceNumber.ofNat 32 0) 10).Run Machine.unguarded
      [.add (SequenceNumber.ofNat 32 0) (List.replicate 30 0)] x ∧
    x.m_size = 30 ∧ x.maxRxSequence.sub x.m_nextRxSeq = -20 ∧
      x.advertisedWindowSize 10 0 65535 true = none :=
  Machine.exists_run_of_exec
    (M := windowMachine .ESTABLISHED (SequenceNumber.ofNat 32 0) 10)
    (p := fun x ↦ x.m_size = 30 ∧ x.maxRxSequence.sub x.m_nextRxSeq = -20 ∧
      x.advertisedWindowSize 10 0 65535 true = none)
    (by decide +kernel : ((windowMachine .ESTABLISHED (SequenceNumber.ofNat 32 0) 10).exec
      [.add (SequenceNumber.ofNat 32 0) (List.replicate 30 0)]).elim false _ = true)

end TcpRxBuffer

end Ns3
