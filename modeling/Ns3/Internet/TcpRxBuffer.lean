import Ns3.Internet.TcpOption

/-!
# The TCP receive buffer

`TcpRxBuffer` keeps the segments that have arrived, trimmed so that they do not overlap, in a map from
sequence numbers. `Add` walks over the map once: it drops the blocks that the new segment covers and
cuts the segment at those that it overlaps, and then moves `m_nextRxSeq` over the blocks that have
become contiguous. `Extract` takes bytes from the front.

## The invariant

Blocks are described by their positions in the stream. Those before the next position expected tile
the bytes that are available, and the others start after it. All positions that are compared lie less
than `2 ^ 31` bytes apart, so that sequence numbers compare as positions do.
-/

namespace Ns3

/-- The members of a `TcpRxBuffer`. A packet is the list of its bytes. -/
structure TcpRxBuffer where
  m_nextRxSeq : SequenceNumber32
  m_gotFin : Bool
  m_finSeq : SequenceNumber32
  m_size : ℕ
  m_maxBuffer : ℕ
  m_availBytes : ℕ
  /-- The map, in the order of its keys. -/
  m_data : List (SequenceNumber32 × List UInt8)
  m_sackList : List SackBlock
  deriving DecidableEq, Repr

namespace TcpRxBuffer

/-! ## Blocks to report -/

/-- The loop of `UpdateSackList`: `begin'` is the first block, `seen` have been compared with it. -/
def mergeSackBlocks : ℕ → SackBlock → List SackBlock → List SackBlock → List SackBlock
  | _, begin', seen, [] => begin' :: seen
  | 0, begin', seen, rest => begin' :: seen ++ rest
  | fuel + 1, begin', seen, current :: rest =>
    if begin'.1 = current.2 then
      mergeSackBlocks fuel (current.1, begin'.2) [] (seen ++ rest)
    else if begin'.2 = current.1 then
      mergeSackBlocks fuel (begin'.1, current.2) [] (seen ++ rest)
    else mergeSackBlocks fuel begin' (seen ++ [current]) rest

def updateSackList (sackList : List SackBlock) (head tail : SequenceNumber32) : List SackBlock :=
  let merged := mergeSackBlocks ((sackList.length + 1) ^ 2) (head, tail) [] sackList
  if 4 < merged.length then merged.dropLast else merged

def clearSackList (sackList : List SackBlock) (seq : SequenceNumber32) : List SackBlock :=
  sackList.filter fun block ↦ !block.2.le seq

/-! ## Segments -/

def maxRxSequence (x : TcpRxBuffer) : SequenceNumber32 :=
  if x.m_gotFin = true then x.m_finSeq
  else
    match x.m_data with
    | [] => x.m_nextRxSeq.add x.m_maxBuffer
    | (first, _) :: _ =>
      if x.m_nextRxSeq.gt first = true then first.add x.m_maxBuffer
      else x.m_nextRxSeq.add x.m_maxBuffer

def setFinSequence (x : TcpRxBuffer) (s : SequenceNumber32) : TcpRxBuffer :=
  let x := { x with m_gotFin := true, m_finSeq := s }
  if x.m_nextRxSeq = x.m_finSeq then { x with m_nextRxSeq := x.m_nextRxSeq.add 1 } else x

def finished (x : TcpRxBuffer) : Bool := x.m_gotFin && x.m_finSeq.lt x.m_nextRxSeq

/-- The first loop of `Add`: the head and the tail of what is new, the size and the map. -/
def removeOverlap (headSeq tailSeq : SequenceNumber32) (size : ℕ) :
    List (SequenceNumber32 × List UInt8) →
      SequenceNumber32 × SequenceNumber32 × ℕ × List (SequenceNumber32 × List UInt8)
  | [] => (headSeq, tailSeq, size, [])
  | (first, p) :: rest =>
    if first.le tailSeq = true then
      let lastByteSeq := first.add p.length
      if lastByteSeq.gt headSeq = true then
        if first.gt headSeq = true ∧ lastByteSeq.lt tailSeq = true then
          removeOverlap headSeq tailSeq (sub32 size p.length) rest
        else
          let headSeq := if first.le headSeq = true then lastByteSeq else headSeq
          let tailSeq := if lastByteSeq.ge tailSeq = true then first else tailSeq
          let (h, t, size, rest) := removeOverlap headSeq tailSeq size rest
          (h, t, size, (first, p) :: rest)
      else
        let (h, t, size, rest) := removeOverlap headSeq tailSeq size rest
        (h, t, size, (first, p) :: rest)
    else (headSeq, tailSeq, size, (first, p) :: rest)

/-- `m_data [key] = p`. -/
def insertData (key : SequenceNumber32) (p : List UInt8) :
    List (SequenceNumber32 × List UInt8) → List (SequenceNumber32 × List UInt8)
  | [] => [(key, p)]
  | (first, q) :: rest =>
    if key.lt first = true then (key, p) :: (first, q) :: rest
    else if first.lt key = true then (first, q) :: insertData key p rest
    else (first, p) :: rest

/-- The second loop of `Add`: `m_nextRxSeq`, `m_availBytes` and the blocks to report. -/
def advance (nextRxSeq : SequenceNumber32) (availBytes : ℕ) (sackList : List SackBlock) :
    List (SequenceNumber32 × List UInt8) → SequenceNumber32 × ℕ × List SackBlock
  | [] => (nextRxSeq, availBytes, sackList)
  | (first, p) :: rest =>
    if first.lt nextRxSeq = true then advance nextRxSeq availBytes sackList rest
    else if first.gt nextRxSeq = true then (nextRxSeq, availBytes, sackList)
    else
      let nextRxSeq := first.add p.length
      advance nextRxSeq (add32 availBytes p.length) (clearSackList sackList nextRxSeq) rest

/-- The start of `Add`: the segment is trimmed to the receive window. -/
def fitWindow (x : TcpRxBuffer) (headSeq tailSeq : SequenceNumber32) :
    SequenceNumber32 × SequenceNumber32 :=
  let headSeq := if headSeq.lt x.m_nextRxSeq = true then x.m_nextRxSeq else headSeq
  match x.m_data with
  | [] => (headSeq, tailSeq)
  | (first, _) :: _ =>
    let maxSeq := first.add x.m_maxBuffer
    let tailSeq := if maxSeq.lt tailSeq = true then maxSeq else tailSeq
    (if tailSeq.lt headSeq = true then tailSeq else headSeq, tailSeq)

/-- The end of `Add`: the bytes `p` are stored from `headSeq` to `tailSeq`. -/
def store (x : TcpRxBuffer) (headSeq tailSeq : SequenceNumber32) (p : List UInt8) : TcpRxBuffer :=
  let data := insertData headSeq p x.m_data
  let sackList :=
    if headSeq.gt x.m_nextRxSeq = true then updateSackList x.m_sackList headSeq tailSeq
    else x.m_sackList
  let (nextRxSeq, availBytes, sackList) := advance x.m_nextRxSeq x.m_availBytes sackList data
  let nextRxSeq :=
    if x.m_gotFin = true ∧ nextRxSeq = x.m_finSeq then nextRxSeq.add 1 else nextRxSeq
  { x with
    m_nextRxSeq := nextRxSeq
    m_size := add32 x.m_size p.length
    m_availBytes := availBytes
    m_data := data
    m_sackList := sackList }

/-- `Add`, of a segment with the bytes `p`. -/
def add (x : TcpRxBuffer) (seq : SequenceNumber32) (p : List UInt8) : Bool × TcpRxBuffer :=
  let (headSeq, tailSeq) := x.fitWindow seq (seq.add p.length)
  let (headSeq, tailSeq, size, data) := removeOverlap headSeq tailSeq x.m_size x.m_data
  let x := { x with m_size := size, m_data := data }
  if headSeq.ge tailSeq = true then (false, x)
  else
    let start := (headSeq.sub seq).toNat
    let length := (tailSeq.sub headSeq).toNat
    (true, x.store headSeq tailSeq ((p.drop start).take length))

/-- The loop of `Extract`: the bytes it collects and the map, or nothing past the end of the map. -/
def extractData : ℕ → List (SequenceNumber32 × List UInt8) →
    Option (List UInt8 × List (SequenceNumber32 × List UInt8))
  | 0, data => some ([], data)
  | _ + 1, [] => none
  | extractSize + 1, (first, p) :: rest =>
    if p.length ≤ extractSize + 1 then
      (extractData (extractSize + 1 - p.length) rest).map fun (out, data) ↦ (p ++ out, data)
    else
      some (p.take (extractSize + 1), insertData (first.add (extractSize + 1))
        ((p.drop (extractSize + 1)).take (p.length - (extractSize + 1))) rest)

/-- `Extract`: the bytes returned, if any. -/
def extract (x : TcpRxBuffer) (maxSize : ℕ) : Option (Option (List UInt8) × TcpRxBuffer) :=
  let extractSize := min maxSize x.m_availBytes
  if extractSize = 0 then some (none, x)
  else
    (extractData extractSize x.m_data).map fun (out, data) ↦
      (if out.length = 0 then none else some out,
        { x with
          m_data := data
          m_size := sub32 x.m_size out.length
          m_availBytes := sub32 x.m_availBytes out.length })

/-! ## Blocks of the stream -/

/-- A block of the stream. -/
structure Block where
  position : ℕ
  bytes : List UInt8
  length_pos : 0 < bytes.length
  deriving DecidableEq

namespace Block

/-- The position after the block. -/
def stop (b : Block) : ℕ := b.position + b.bytes.length

/-- How the map holds the block. -/
def entry (isn : SequenceNumber32) (b : Block) : SequenceNumber32 × List UInt8 :=
  (isn.add b.position, b.bytes)

/-- The block lies among the positions that compare with `base`. -/
def Within (base : ℕ) (b : Block) : Prop :=
  base ≤ b.position ∧ b.stop ≤ base + SequenceNumber.halfMaxValue 32

/-- The first block ends before the second one starts. -/
def Before (b c : Block) : Prop := b.stop ≤ c.position

theorem position_lt_stop (b : Block) : b.position < b.stop := Nat.lt_add_of_pos_right b.length_pos

end Block

/-- The number of bytes of some blocks. -/
def totalSize (blocks : List Block) : ℕ := (blocks.map fun b ↦ b.bytes.length).sum

section Loops

variable (isn : SequenceNumber32) {base h t n k : ℕ} {b : Block} {blocks kept : List Block}

@[simp] theorem totalSize_nil : totalSize [] = 0 := rfl

@[simp] theorem totalSize_cons : totalSize (b :: blocks) = b.bytes.length + totalSize blocks := rfl

/-- What the first loop of `Add` does: of the positions from `h` to `t`, those from `h'` to `t'` are in
none of the blocks, or in blocks that are dropped; all others are in the blocks that are kept. -/
structure Trimmed (h t : ℕ) (blocks : List Block) (h' t' : ℕ) (kept : List Block) : Prop where
  sublist : kept.Sublist blocks
  head_le : h ≤ h'
  le_tail : t' ≤ t
  cover : ∀ x, h ≤ x → x < t → (h' ≤ x ∧ x < t') ∨ ∃ b ∈ kept, b.position ≤ x ∧ x < b.stop
  apart : h' < t' → ∀ b ∈ kept, b.stop ≤ h' ∨ t' ≤ b.position
  dropped : ∀ b ∈ blocks, b ∈ kept ∨ (h' < b.position ∧ b.stop ≤ t')
  none_dropped : h' < t' ∨ kept = blocks
  head_eq : (∀ b ∈ blocks, h < b.position) → h' = h
  tail_ge : ∀ c ≤ t, (∀ b ∈ blocks, c ≤ b.position) → c ≤ t'
  le_of_stop_le : ∀ c, h ≤ c → (∀ b ∈ blocks, b.stop ≤ c) → h' ≤ c

/-- A block that the loop passes: it ends before the segment, or is cut out of its head or tail. -/
theorem Trimmed.cons {h₁ t₁ h' t' : ℕ} (ht : Trimmed h₁ t₁ blocks h' t' kept)
    (hrest : ∀ c ∈ blocks, b.Before c) (hh : h ≤ h₁) (htt : t₁ ≤ t)
    (hlow : ∀ x, h ≤ x → x < h₁ → x < t → b.position ≤ x ∧ x < b.stop)
    (hhigh : ∀ x, h ≤ x → t₁ ≤ x → x < t → b.position ≤ x ∧ x < b.stop)
    (hb : b.stop ≤ h₁ ∨ t₁ ≤ b.position) (heq : h < b.position → h₁ = h)
    (hge : t₁ = t ∨ t₁ = b.position) (hgh : h₁ = h ∨ h₁ = b.stop) :
    Trimmed h t (b :: blocks) h' t' (b :: kept) where
  sublist := ht.sublist.cons_cons b
  head_le := hh.trans ht.head_le
  le_tail := ht.le_tail.trans htt
  cover x hx hxt := by
    by_cases hx₁ : x < h₁
    · exact .inr ⟨b, List.mem_cons_self, hlow x hx hx₁ hxt⟩
    by_cases hxt₁ : t₁ ≤ x
    · exact .inr ⟨b, List.mem_cons_self, hhigh x hx hxt₁ hxt⟩
    refine (ht.cover x (not_lt.mp hx₁) (not_le.mp hxt₁)).imp_right ?_
    rintro ⟨c, hc, hxc⟩
    exact ⟨c, List.mem_cons_of_mem _ hc, hxc⟩
  apart hlt c hc := by
    rcases List.mem_cons.mp hc with rfl | hc
    · exact hb.imp (·.trans ht.head_le) ht.le_tail.trans
    · exact ht.apart hlt c hc
  dropped c hc := by
    rcases List.mem_cons.mp hc with rfl | hc
    · exact .inl List.mem_cons_self
    · exact (ht.dropped c hc).imp_left (List.mem_cons_of_mem _)
  none_dropped := ht.none_dropped.imp_right (congrArg (b :: ·))
  head_eq hall := by
    have hlt := hall b List.mem_cons_self
    rw [← heq hlt]
    refine ht.head_eq fun c hc ↦ ?_
    rw [heq hlt]
    exact hall c (List.mem_cons_of_mem _ hc)
  tail_ge c hc hall := by
    refine ht.tail_ge c ?_ fun d hd ↦ hall d (List.mem_cons_of_mem _ hd)
    rcases hge with rfl | rfl
    · exact hc
    · exact hall b List.mem_cons_self
  le_of_stop_le c hc hall := by
    refine ht.le_of_stop_le c ?_ fun d hd ↦ hall d (List.mem_cons_of_mem _ hd)
    rcases hgh with rfl | rfl
    · exact hc
    · exact hall b List.mem_cons_self

theorem Trimmed.drop {h' t' : ℕ} (ht : Trimmed h t blocks h' t' kept)
    (hrest : ∀ c ∈ blocks, b.Before c) (hlow : h < b.position) (hhigh : b.stop < t) :
    Trimmed h t (b :: blocks) h' t' kept := by
  have hlt := b.position_lt_stop
  have hhead : h' = h := ht.head_eq fun c hc ↦ hlow.trans (hlt.trans_le (hrest c hc))
  have htail : b.stop ≤ t' := ht.tail_ge _ hhigh.le hrest
  refine ⟨ht.sublist.cons b, ht.head_le, ht.le_tail, ht.cover, ht.apart, fun c hc ↦ ?_, .inl ?_,
    fun hall ↦ hhead, fun c hc hall ↦ ?_, fun c hc hall ↦ ?_⟩
  · rcases List.mem_cons.mp hc with rfl | hc
    · exact .inr ⟨hhead.trans_lt hlow, htail⟩
    · exact ht.dropped c hc
  · omega
  · exact ht.tail_ge c hc fun d hd ↦ hall d (List.mem_cons_of_mem _ hd)
  · exact ht.le_of_stop_le c hc fun d hd ↦ hall d (List.mem_cons_of_mem _ hd)

theorem removeOverlap_spec (hin : ∀ b ∈ blocks, b.Within base) (hsorted : blocks.Pairwise Block.Before)
    (hh : base ≤ h ∧ h ≤ base + SequenceNumber.halfMaxValue 32)
    (ht : base ≤ t ∧ t ≤ base + SequenceNumber.halfMaxValue 32)
    (hlt : k + totalSize blocks < 2 ^ 32) :
    ∃ h' t' kept, removeOverlap (isn.add h) (isn.add t) (k + totalSize blocks)
        (blocks.map (Block.entry isn)) =
          (isn.add h', isn.add t', k + totalSize kept, kept.map (Block.entry isn)) ∧
      Trimmed h t blocks h' t' kept := by
  induction blocks generalizing h t k with
  | nil =>
    refine ⟨h, t, [], rfl, .refl _, le_rfl, le_rfl, fun x hx hxt ↦ .inl ⟨hx, hxt⟩, fun _ b hb ↦ ?_,
      fun b hb ↦ ?_, .inr rfl, fun _ ↦ rfl, fun c hc _ ↦ hc, fun c hc _ ↦ hc⟩
    · exact absurd hb List.not_mem_nil
    · exact absurd hb List.not_mem_nil
  | cons b rest ih =>
    obtain ⟨hb1, hb2⟩ := hin b List.mem_cons_self
    obtain ⟨hrest, hsorted'⟩ := List.pairwise_cons.mp hsorted
    have hpos := b.position_lt_stop
    have hadd : (isn.add b.position).add b.bytes.length = isn.add b.stop :=
      SequenceNumber.add_add _ _ _
    have ih' := fun {h t k} ↦ @ih h t k (fun c hc ↦ hin c (List.mem_cons_of_mem _ hc)) hsorted'
    rw [totalSize_cons] at hlt
    -- the loop passes the block, and goes on with the positions from `h₁` to `t₁`
    have pass : ∀ h₁ t₁, h ≤ h₁ → h₁ ≤ base + SequenceNumber.halfMaxValue 32 → base ≤ t₁ → t₁ ≤ t →
        (∀ x, h ≤ x → x < h₁ → x < t → b.position ≤ x ∧ x < b.stop) →
        (∀ x, h ≤ x → t₁ ≤ x → x < t → b.position ≤ x ∧ x < b.stop) →
        (b.stop ≤ h₁ ∨ t₁ ≤ b.position) → (h < b.position → h₁ = h) →
        (t₁ = t ∨ t₁ = b.position) → (h₁ = h ∨ h₁ = b.stop) → ∃ h' t' kept,
          (match removeOverlap (isn.add h₁) (isn.add t₁) (k + (b.bytes.length + totalSize rest))
              (rest.map (Block.entry isn)) with
            | (h, t, size, rest) => (h, t, size, (isn.add b.position, b.bytes) :: rest)) =
            (isn.add h', isn.add t', k + totalSize kept, kept.map (Block.entry isn)) ∧
          Trimmed h t (b :: rest) h' t' kept := by
      intro h₁ t₁ hle hle' hge hge' hlow hhigh hb heq htail hhead
      obtain ⟨h', t', kept, hrun, htrim⟩ := ih' (h := h₁) (t := t₁) (k := k + b.bytes.length)
        ⟨hh.1.trans hle, hle'⟩ ⟨hge, hge'.trans ht.2⟩ (by rwa [add_assoc])
      rw [add_assoc] at hrun
      rw [hrun]
      refine ⟨h', t', b :: kept, ?_, htrim.cons hrest hle hge' hlow hhigh hb heq htail hhead⟩
      rw [totalSize_cons, add_assoc]
      rfl
    rw [List.map_cons, Block.entry, removeOverlap, hadd, totalSize_cons]
    dsimp only
    rw [isn.le_add (by omega) (by omega), isn.gt_add (by omega) (by omega),
      isn.gt_add (by omega) (by omega), isn.lt_add (by omega) (by omega),
      isn.le_add (by omega) (by omega), isn.ge_add (by omega) (by omega)]
    simp only [decide_eq_true_iff]
    by_cases hat : b.position ≤ t
    · rw [if_pos hat]
      by_cases hlast : h < b.stop
      · rw [if_pos hlast]
        by_cases hembedded : h < b.position ∧ b.stop < t
        · -- the segment covers the block
          rw [if_pos hembedded, sub32_eq (by omega) hlt]
          obtain ⟨h', t', kept, hrun, htrim⟩ := ih' (h := h) (t := t) (k := k) hh ht (by omega)
          refine ⟨h', t', kept, ?_, htrim.drop hrest hembedded.1 hembedded.2⟩
          rw [← hrun]
          congr 1
          omega
        · rw [if_neg hembedded]
          by_cases hhead : b.position ≤ h
          · rw [if_pos hhead]
            by_cases htail : t ≤ b.stop
            · -- the block covers the segment
              rw [if_pos htail]
              exact pass _ _ hlast.le hb2 hb1 hat (by omega) (by omega) (.inl le_rfl) (by omega)
                (.inr rfl) (.inr rfl)
            · rw [if_neg htail]
              exact pass _ _ hlast.le hb2 ht.1 le_rfl (by omega) (by omega) (.inl le_rfl) (by omega)
                (.inl rfl) (.inr rfl)
          · rw [if_neg hhead, if_pos (by omega)]
            exact pass _ _ le_rfl hh.2 hb1 hat (by omega) (by omega) (.inr le_rfl) (fun _ ↦ rfl)
              (.inr rfl) (.inl rfl)
      · -- the block ends before the segment
        rw [if_neg hlast]
        exact pass _ _ le_rfl hh.2 ht.1 le_rfl (by omega) (by omega) (.inl (not_lt.mp hlast))
          (fun _ ↦ rfl) (.inl rfl) (.inl rfl)
    · -- the segment ends before the block
      rw [if_neg hat]
      have hall : ∀ c ∈ b :: rest, t < c.position := by
        intro c hc
        rcases List.mem_cons.mp hc with rfl | hc
        · exact not_le.mp hat
        · exact (not_le.mp hat).trans (hpos.trans_le (hrest c hc))
      refine ⟨h, t, b :: rest, rfl, .refl _, le_rfl, le_rfl, fun x hx hxt ↦ .inl ⟨hx, hxt⟩,
        fun _ c hc ↦ .inr (hall c hc).le, fun c hc ↦ .inl hc, .inr rfl, fun _ ↦ rfl,
        fun c hc _ ↦ hc, fun c hc _ ↦ hc⟩

/-- `m_data [key] = p`, of a block that starts where no other one does. -/
theorem insertData_spec {c : Block} (hin : ∀ b ∈ blocks, b.Within base) (hc : c.Within base)
    (hne : ∀ b ∈ blocks, b.position ≠ c.position) :
    ∃ l₁ l₂, blocks = l₁ ++ l₂ ∧ insertData (isn.add c.position) c.bytes
        (blocks.map (Block.entry isn)) = (l₁ ++ c :: l₂).map (Block.entry isn) ∧
      (∀ b ∈ l₁, b.position < c.position) ∧ ∀ b ∈ l₂.head?, c.position < b.position := by
  induction blocks with
  | nil => exact ⟨[], [], rfl, rfl, fun b hb ↦ absurd hb List.not_mem_nil, fun b hb ↦ by simp at hb⟩
  | cons b rest ih =>
    obtain ⟨hb1, hb2⟩ := hin b List.mem_cons_self
    obtain ⟨hc1, hc2⟩ := hc
    have hb := b.position_lt_stop
    have hpos := c.position_lt_stop
    rw [List.map_cons, Block.entry, insertData, isn.lt_add (by omega) (by omega),
      isn.lt_add (by omega) (by omega)]
    simp only [decide_eq_true_iff]
    by_cases hlt : c.position < b.position
    · rw [if_pos hlt]
      refine ⟨[], b :: rest, rfl, rfl, fun d hd ↦ absurd hd List.not_mem_nil, fun d hd ↦ ?_⟩
      obtain rfl := Option.some.inj hd
      exact hlt
    · have hlt' : b.position < c.position :=
        lt_of_le_of_ne (not_lt.mp hlt) (hne b List.mem_cons_self)
      obtain ⟨l₁, l₂, hsplit, hrun, hlow, hhigh⟩ := ih
        (fun d hd ↦ hin d (List.mem_cons_of_mem _ hd)) fun d hd ↦ hne d (List.mem_cons_of_mem _ hd)
      rw [if_neg hlt, if_pos hlt', hrun]
      refine ⟨b :: l₁, l₂, by rw [hsplit, List.cons_append], rfl, fun d hd ↦ ?_, hhigh⟩
      rcases List.mem_cons.mp hd with rfl | hd
      · exact hlt'
      · exact hlow d hd

/-- Position `x` lies in one of the blocks. -/
def Covers (blocks : List Block) (x : ℕ) : Prop := ∃ b ∈ blocks, b.position ≤ x ∧ x < b.stop

/-- The second loop of `Add`: it stops at the first position that no block covers. -/
theorem advance_spec {e : ℕ} (hin : ∀ b ∈ blocks, b.Within base)
    (hsorted : blocks.Pairwise Block.Before) (hbase : base ≤ e) (he : e ≤ n)
    (hn : n ≤ base + SequenceNumber.halfMaxValue 32)
    (hcut : ∀ b ∈ blocks, b.stop ≤ n ∨ n ≤ b.position) (sackList : List SackBlock) :
    ∃ n' sackList', advance (isn.add n) (n - e) sackList (blocks.map (Block.entry isn)) =
        (isn.add n', n' - e, sackList') ∧ n ≤ n' ∧ n' ≤ base + SequenceNumber.halfMaxValue 32 ∧
      (∀ x, n ≤ x → x < n' → Covers blocks x) ∧ ¬Covers blocks n' := by
  induction blocks generalizing n sackList with
  | nil =>
    refine ⟨n, sackList, rfl, le_rfl, hn, fun x hx hxn ↦ absurd hx (not_le.mpr hxn), ?_⟩
    rintro ⟨b, hb, -⟩
    exact List.not_mem_nil hb
  | cons b rest ih =>
    obtain ⟨hb1, hb2⟩ := hin b List.mem_cons_self
    obtain ⟨hrest, hsorted'⟩ := List.pairwise_cons.mp hsorted
    have hpos := b.position_lt_stop
    have hin' := fun c hc ↦ hin c (List.mem_cons_of_mem b hc)
    have hcons : ∀ x, Covers (b :: rest) x ↔ (b.position ≤ x ∧ x < b.stop) ∨ Covers rest x :=
      fun x ↦ by simp only [Covers, List.exists_mem_cons_iff]
    rw [List.map_cons, Block.entry, advance, isn.lt_add (by omega) (by omega),
      isn.gt_add (by omega) (by omega), SequenceNumber.add_add]
    simp only [decide_eq_true_iff, hcons]
    by_cases hlow : b.position < n
    · -- delivered before
      rw [if_pos hlow]
      have hstop : b.stop ≤ n := (hcut b List.mem_cons_self).resolve_right (not_le.mpr hlow)
      obtain ⟨n', sackList', hrun, hle, hle', hcover, hgap⟩ := ih hin' hsorted' he hn
        (fun c hc ↦ hcut c (List.mem_cons_of_mem _ hc)) sackList
      refine ⟨n', sackList', hrun, hle, hle', fun x hx hxn ↦ .inr (hcover x hx hxn), ?_⟩
      rintro (⟨-, hlt⟩ | hc)
      · omega
      · exact hgap hc
    · rw [if_neg hlow]
      by_cases hhigh : n < b.position
      · -- after a gap
        rw [if_pos hhigh]
        refine ⟨n, sackList, rfl, le_rfl, hn, fun x hx hxn ↦ absurd hx (not_le.mpr hxn), ?_⟩
        rintro (⟨hle, -⟩ | ⟨c, hc, hle, -⟩)
        · omega
        · have hbefore : b.stop ≤ c.position := hrest c hc
          omega
      · rw [if_neg hhigh]
        obtain rfl : b.position = n := by omega
        have hstop : b.position + b.bytes.length = b.stop := rfl
        have hadd : add32 (b.position - e) b.bytes.length = b.stop - e := by
          have hhalf : SequenceNumber.halfMaxValue 32 < 2 ^ 32 := by decide
          rw [add32_eq (by omega)]
          omega
        rw [hstop, hadd]
        obtain ⟨n', sackList', hrun, hle, hle', hcover, hgap⟩ := ih (n := b.stop) hin' hsorted'
          (he.trans hpos.le) hb2 (fun c hc ↦ .inr (hrest c hc)) (clearSackList sackList _)
        refine ⟨n', sackList', hrun, hpos.le.trans hle, hle', fun x hx hxn ↦ ?_, ?_⟩
        · by_cases hxs : x < b.stop
          · exact .inl ⟨hx, hxs⟩
          · exact .inr (hcover x (not_lt.mp hxs) hxn)
        · rintro (⟨-, hlt⟩ | hc)
          · omega
          · exact hgap hc

/-- The bytes of a block are those of the stream at its position. -/
def Block.PartOf (stream : List UInt8) (b : Block) : Prop :=
  b.stop ≤ stream.length ∧ b.bytes = (stream.drop b.position).take b.bytes.length

theorem insertData_cons {c : Block} (hin : ∀ b ∈ blocks, b.Within base) (hc : c.Within base)
    (hlt : ∀ b ∈ blocks, c.position < b.position) :
    insertData (isn.add c.position) c.bytes (blocks.map (Block.entry isn)) =
      (c :: blocks).map (Block.entry isn) := by
  cases blocks with
  | nil => rfl
  | cons b rest =>
    obtain ⟨hb1, hb2⟩ := hin b List.mem_cons_self
    obtain ⟨hc1, hc2⟩ := hc
    have hb := b.position_lt_stop
    have hpos := c.position_lt_stop
    rw [List.map_cons, Block.entry, insertData, isn.lt_add (by omega) (by omega),
      if_pos (decide_eq_true (hlt b List.mem_cons_self))]
    rfl

theorem take_add_length {stream p : List UInt8} {e k : ℕ} (hp : p = (stream.drop e).take p.length) :
    p ++ (stream.drop (e + p.length)).take k = (stream.drop e).take (p.length + k) := by
  rw [List.take_add, ← hp, List.drop_drop]

/-- The loop of `Extract`, with `k` bytes available from position `e` on. -/
theorem extractData_spec {stream : List UInt8} {e : ℕ} (hin : ∀ b ∈ blocks, b.Within base)
    (hsorted : blocks.Pairwise Block.Before) (hlow : ∀ b ∈ blocks, e ≤ b.position)
    (hpart : ∀ b ∈ blocks, b.PartOf stream) (hcover : ∀ x, e ≤ x → x < e + k → Covers blocks x) :
    ∃ out rest, extractData k (blocks.map (Block.entry isn)) =
        some (out, rest.map (Block.entry isn)) ∧
      out.length = k ∧ out = (stream.drop e).take k ∧ rest.Pairwise Block.Before ∧
      (∀ b ∈ rest, e + k ≤ b.position ∧ b.Within base ∧ b.PartOf stream) ∧
      (∀ x, e + k ≤ x → (Covers rest x ↔ Covers blocks x)) ∧
      totalSize blocks = k + totalSize rest := by
  induction blocks generalizing e k with
  | nil =>
    cases k with
    | zero =>
      exact ⟨[], [], rfl, rfl, rfl, .nil, fun b hb ↦ absurd hb List.not_mem_nil,
        fun x _ ↦ Iff.rfl, rfl⟩
    | succ k =>
      obtain ⟨b, hb, -⟩ := hcover e le_rfl (by omega)
      exact absurd hb List.not_mem_nil
  | cons b rest ih =>
    cases k with
    | zero =>
      exact ⟨[], b :: rest, rfl, rfl, rfl, hsorted, fun c hc ↦ ⟨hlow c hc, hin c hc, hpart c hc⟩,
        fun x _ ↦ Iff.rfl, (Nat.zero_add _).symm⟩
    | succ k =>
      obtain ⟨hrest, hsorted'⟩ := List.pairwise_cons.mp hsorted
      have hpos := b.position_lt_stop
      obtain ⟨hb1, hb2⟩ := hin b List.mem_cons_self
      obtain ⟨hb3, hb4⟩ := hpart b List.mem_cons_self
      have hbe : b.position = e := by
        refine le_antisymm ?_ (hlow b List.mem_cons_self)
        obtain ⟨c, hc, hce, -⟩ := hcover e le_rfl (by omega)
        rcases List.mem_cons.mp hc with rfl | hc
        · exact hce
        · have hbefore : b.stop ≤ c.position := hrest c hc
          omega
      have hstop : b.stop = e + b.bytes.length := by rw [Block.stop, hbe]
      rw [hbe] at hb4
      rw [List.map_cons, Block.entry, extractData]
      by_cases hle : b.bytes.length ≤ k + 1
      · -- the whole block is taken
        rw [if_pos hle]
        obtain ⟨out, rest', hrun, hlen, hout, hsorted'', hall, hcov, htotal⟩ :=
          ih (e := b.stop) (k := k + 1 - b.bytes.length)
            (fun c hc ↦ hin c (List.mem_cons_of_mem _ hc)) hsorted' hrest
            (fun c hc ↦ hpart c (List.mem_cons_of_mem _ hc)) fun x hx hxk ↦ by
              obtain ⟨c, hc, hcx⟩ := hcover x (by omega) (by omega)
              rcases List.mem_cons.mp hc with rfl | hc
              · omega
              · exact ⟨c, hc, hcx⟩
        have hend : b.stop + (k + 1 - b.bytes.length) = e + (k + 1) := by omega
        rw [hend] at hall hcov
        refine ⟨b.bytes ++ out, rest', by rw [hrun]; rfl, ?_, ?_, hsorted'', hall, fun x hx ↦ ?_, ?_⟩
        · rw [List.length_append, hlen]
          omega
        · rw [hout, hstop, take_add_length hb4]
          congr 1
          omega
        · rw [hcov x hx]
          refine ⟨fun ⟨c, hc, hcx⟩ ↦ ⟨c, List.mem_cons_of_mem _ hc, hcx⟩, fun ⟨c, hc, hcx⟩ ↦ ?_⟩
          rcases List.mem_cons.mp hc with rfl | hc
          · omega
          · exact ⟨c, hc, hcx⟩
        · rw [totalSize_cons, htotal]
          omega
      · -- its rest goes back into the map
        rw [if_neg hle]
        set q := (b.bytes.drop (k + 1)).take (b.bytes.length - (k + 1)) with hq
        have hqlen : q.length = b.bytes.length - (k + 1) := by
          rw [hq, List.length_take, List.length_drop, min_self]
        set c : Block := ⟨e + (k + 1), q, by omega⟩ with hc
        have hcstop : c.stop = b.stop := by
          change e + (k + 1) + q.length = _
          omega
        have hcin : c.Within base := ⟨by change base ≤ e + (k + 1); omega, hcstop ▸ hb2⟩
        have hins := insertData_cons isn (c := c)
          (fun d hd ↦ hin d (List.mem_cons_of_mem b hd)) hcin fun d hd ↦
            (c.position_lt_stop.trans_eq hcstop).trans_le (hrest d hd)
        rw [hbe, SequenceNumber.add_add]
        refine ⟨b.bytes.take (k + 1), c :: rest, ?_, ?_, ?_, ?_, fun d hd ↦ ?_, fun x hx ↦ ?_, ?_⟩
        · exact congrArg some (Prod.ext rfl hins)
        · rw [List.length_take]
          omega
        · rw [hb4, List.take_take]
          congr 1
          omega
        · refine List.pairwise_cons.mpr ⟨fun d hd ↦ ?_, hsorted'⟩
          exact hcstop.trans_le (hrest d hd)
        · rcases List.mem_cons.mp hd with rfl | hd
          · refine ⟨le_rfl, hcin, hcstop.trans_le hb3, ?_⟩
            change q = (stream.drop (e + (k + 1))).take q.length
            have hdrop : b.bytes.drop (k + 1) =
                (stream.drop (e + (k + 1))).take (b.bytes.length - (k + 1)) := by
              conv_lhs => rw [hb4]
              rw [List.drop_take, List.drop_drop]
            rw [hqlen, hq, hdrop, List.take_take, min_self]
          · refine ⟨?_, hin d (List.mem_cons_of_mem _ hd), hpart d (List.mem_cons_of_mem _ hd)⟩
            have hbefore : b.stop ≤ d.position := hrest d hd
            omega
        · simp only [Covers, List.exists_mem_cons_iff, hcstop, hbe]
          have hiff : c.position ≤ x ↔ e ≤ x := by
            change e + (k + 1) ≤ x ↔ e ≤ x
            omega
          rw [hiff]
        · rw [totalSize_cons, totalSize_cons]
          change _ = k + 1 + (q.length + totalSize rest)
          omega

end Loops

/-! ## A receiver -/

/-- A receiver, with all bytes that have been extracted. -/
structure Receiver where
  buffer : TcpRxBuffer
  extracted : List UInt8
  deriving DecidableEq, Repr

/-- The operations on a receiver. -/
inductive Op
  /-- A segment arrives: `length` bytes from position `start` of the stream. -/
  | add (start length : ℕ)
  /-- The end of the stream becomes known. -/
  | setFinSequence
  | extract (maxSize : ℕ)
  deriving DecidableEq, Repr

namespace Receiver

variable (isn : SequenceNumber32) (s : Receiver)

/-- The position of a sequence number: the first one with this number after the bytes extracted. -/
def position (seq : SequenceNumber32) : ℕ :=
  s.extracted.length + (seq.m_value - (isn.add s.extracted.length).m_value).toNat

/-- The position after the receive window, whether or not the end of the stream is known. -/
def windowEnd : ℕ := s.position isn (maxRxSequence { s.buffer with m_gotFin := false })

/-- The number of bytes that arrived in order. -/
def received : ℕ := s.extracted.length + s.buffer.m_availBytes

/-- The segment, the blocks and the window span less than `2 ^ 31` bytes. -/
def InWindow (start length : ℕ) : Prop :=
  let stop := min start s.extracted.length + 2 ^ 31
  start + length < stop ∧ s.position isn s.buffer.m_nextRxSeq + s.buffer.m_maxBuffer < stop ∧
    (∀ b ∈ s.buffer.m_data, s.position isn b.1 + b.2.length < stop) ∧
    ∀ b ∈ s.buffer.m_data.head?, s.position isn b.1 + s.buffer.m_maxBuffer < stop

instance (start length : ℕ) : Decidable (s.InWindow isn start length) :=
  inferInstanceAs (Decidable (_ ∧ _ ∧ _ ∧ _))

/-- The receiver holds the byte at position `x`. -/
def Holds (stream : List UInt8) (x : ℕ) : Prop :=
  ∃ b ∈ s.buffer.m_data, ∃ i < b.2.length, b.1.add i = isn.add x ∧ b.2[i]? = stream[x]?

end Receiver

/-- The runs of a receiver of `stream`, which starts at `isn`. -/
def machine (isn : SequenceNumber32) (stream : List UInt8) (maxBuffer : ℕ) : Machine Receiver Op where
  init := ⟨⟨isn, false, isn, 0, maxBuffer, 0, [], []⟩, []⟩
  next s
    | .add start length =>
      if start + length ≤ stream.length ∧ s.InWindow isn start length then
        some { s with
          buffer := (s.buffer.add (isn.add start) ((stream.drop start).take length)).2 }
      else none
    | .setFinSequence =>
      if stream.length < s.extracted.length + 2 ^ 31 then
        some { s with buffer := s.buffer.setFinSequence (isn.add stream.length) }
      else none
    | .extract maxSize =>
      (s.buffer.extract maxSize).map fun (out, buffer) ↦ ⟨buffer, s.extracted ++ out.getD []⟩

/-- What has been extracted and is held are the bytes of the stream. -/
structure Reassembled (isn : SequenceNumber32) (stream : List UInt8) (s : Receiver) : Prop where
  extracted : s.extracted <+: stream
  nextRxSeq : s.buffer.m_nextRxSeq =
    isn.add (s.received + if s.buffer.finished = true then 1 else 0)
  blocks : ∃ blocks : List Block, s.buffer.m_data = blocks.map (Block.entry isn) ∧
    blocks.Pairwise Block.Before ∧ ∀ b ∈ blocks, b.PartOf stream
  size : s.buffer.m_size = (s.buffer.m_data.map fun b ↦ b.2.length).sum
  extract : ∀ maxSize, s.buffer.extract maxSize ≠ none

/-! ## The invariant -/

/-- The receiver holds `blocks`. -/
structure Buffered (isn : SequenceNumber32) (stream : List UInt8) (s : Receiver)
    (blocks : List Block) : Prop where
  extracted : s.extracted = stream.take s.extracted.length
  data : s.buffer.m_data = blocks.map (Block.entry isn)
  sorted : blocks.Pairwise Block.Before
  within : ∀ b ∈ blocks, b.Within s.extracted.length
  part : ∀ b ∈ blocks, b.PartOf stream
  available : ∀ x, s.extracted.length ≤ x → x < s.received → Covers blocks x
  gap : ¬Covers blocks s.received
  nextRxSeq : s.buffer.m_nextRxSeq = isn.add
    (s.received + if s.buffer.m_gotFin = true ∧ s.received = stream.length then 1 else 0)
  finSeq : s.buffer.m_gotFin = true → s.buffer.m_finSeq = isn.add stream.length ∧
    stream.length ≤ s.extracted.length + SequenceNumber.halfMaxValue 32
  size : s.buffer.m_size = totalSize blocks

section Invariant

variable {isn : SequenceNumber32} {stream : List UInt8} {maxBuffer : ℕ} {s s' : Receiver}
  {blocks : List Block}

theorem halfMaxValue_add_one : SequenceNumber.halfMaxValue 32 + 1 = 2 ^ 31 := by decide

theorem totalSize_le {first last : ℕ} {blocks : List Block} (hsorted : blocks.Pairwise Block.Before)
    (hin : ∀ b ∈ blocks, first ≤ b.position ∧ b.stop ≤ last) : totalSize blocks ≤ last - first := by
  induction blocks generalizing first with
  | nil => exact Nat.zero_le _
  | cons b rest ih =>
    obtain ⟨hrest, hsorted'⟩ := List.pairwise_cons.mp hsorted
    obtain ⟨hb1, hb2⟩ := hin b List.mem_cons_self
    have htail : totalSize rest ≤ last - b.stop := ih hsorted' fun c hc ↦
      ⟨hrest c hc, (hin c (List.mem_cons_of_mem _ hc)).2⟩
    have hstop : b.stop = b.position + b.bytes.length := rfl
    rw [totalSize_cons]
    omega

theorem Buffered.length_le (hi : Buffered isn stream s blocks) :
    s.extracted.length ≤ stream.length := by
  have := congrArg List.length hi.extracted
  rw [List.length_take] at this
  omega

theorem Buffered.received_le (hi : Buffered isn stream s blocks) :
    s.received ≤ stream.length ∧
      s.received ≤ s.extracted.length + SequenceNumber.halfMaxValue 32 := by
  have hlen := hi.length_le
  rcases Nat.eq_or_lt_of_le (Nat.le_add_right s.extracted.length s.buffer.m_availBytes) with
    heq | hlt
  · rw [Receiver.received, ← heq]
    exact ⟨hlen, Nat.le_add_right _ _⟩
  · obtain ⟨b, hb, -, hlast⟩ := hi.available (s.received - 1) (by rw [Receiver.received]; omega)
      (by rw [Receiver.received]; omega)
    obtain ⟨-, hb2⟩ := hi.within b hb
    obtain ⟨hb3, -⟩ := hi.part b hb
    omega

theorem Buffered.totalSize_lt (hi : Buffered isn stream s blocks) : totalSize blocks < 2 ^ 31 := by
  have := totalSize_le hi.sorted hi.within
  have := halfMaxValue_add_one
  omega

theorem Receiver.position_add {x : ℕ} (hle : s.extracted.length ≤ x)
    (hlt : x < s.extracted.length + 2 ^ 32) : s.position isn (isn.add x) = x := by
  rw [Receiver.position, SequenceNumber.toNat_sub_add isn hle hlt]
  omega

/-! ### The end of the stream -/

theorem Buffered.step_setFinSequence (hi : Buffered isn stream s blocks)
    (hlt : stream.length < s.extracted.length + 2 ^ 31) :
    Buffered isn stream { s with buffer := s.buffer.setFinSequence (isn.add stream.length) }
      blocks := by
  obtain ⟨hle, hle'⟩ := hi.received_le
  have hhalf := halfMaxValue_add_one
  have hlow : s.extracted.length ≤ s.received := Nat.le_add_right _ _
  have hlast : stream.length ≤ s.extracted.length + SequenceNumber.halfMaxValue 32 := by omega
  have heq : s.buffer.m_nextRxSeq = isn.add stream.length ↔ s.received +
      (if s.buffer.m_gotFin = true ∧ s.received = stream.length then 1 else 0) = stream.length := by
    rw [hi.nextRxSeq]
    exact isn.add_inj (by split_ifs <;> omega) (by omega)
  have hnext := hi.nextRxSeq
  rw [setFinSequence]
  dsimp only
  split_ifs with hfin
  · refine ⟨hi.extracted, hi.data, hi.sorted, hi.within, hi.part, hi.available, hi.gap, ?_,
      fun _ ↦ ⟨rfl, hlast⟩, hi.size⟩
    rw [heq] at hfin
    change s.buffer.m_nextRxSeq.add 1 = isn.add (s.received + if true = true ∧
      s.received = stream.length then 1 else 0)
    rw [hnext, SequenceNumber.add_add]
    congr 1
    split_ifs at hfin ⊢ with hold hnew hnew
    · exact absurd hfin (by have := hold.2; omega)
    · exact absurd hfin (by have := hold.2; omega)
    · rfl
    · exact absurd ⟨rfl, hfin⟩ hnew
  · refine ⟨hi.extracted, hi.data, hi.sorted, hi.within, hi.part, hi.available, hi.gap, ?_,
      fun _ ↦ ⟨rfl, hlast⟩, hi.size⟩
    rw [heq] at hfin
    change s.buffer.m_nextRxSeq = isn.add (s.received + if true = true ∧
      s.received = stream.length then 1 else 0)
    rw [hnext]
    congr 1
    split_ifs at hfin ⊢ with hold hnew hnew
    · rfl
    · exact absurd ⟨rfl, hold.2⟩ hnew
    · exact absurd hnew.2 hfin
    · rfl

/-! ### Extraction -/

theorem extract_frame {x x' : TcpRxBuffer} {maxSize : ℕ} {out : Option (List UInt8)}
    (h : x.extract maxSize = some (out, x')) :
    x'.m_gotFin = x.m_gotFin ∧ x'.m_sackList = x.m_sackList := by
  rw [extract] at h
  split_ifs at h
  · obtain ⟨-, rfl⟩ := Prod.mk.inj (Option.some.inj h)
    exact ⟨rfl, rfl⟩
  · obtain ⟨p, -, hp⟩ := Option.map_eq_some_iff.mp h
    obtain ⟨-, rfl⟩ := Prod.mk.inj hp
    exact ⟨rfl, rfl⟩

theorem Buffered.step_extract (hi : Buffered isn stream s blocks) (maxSize : ℕ) :
    ∃ out buffer, s.buffer.extract maxSize = some (out, buffer) ∧
      (⟨buffer, s.extracted ++ out.getD []⟩ : Receiver).received = s.received ∧
      ∃ blocks', Buffered isn stream ⟨buffer, s.extracted ++ out.getD []⟩ blocks' ∧
        ∀ x, s.received ≤ x → (Covers blocks' x ↔ Covers blocks x) := by
  obtain ⟨hle, hle'⟩ := hi.received_le
  have hhalf := halfMaxValue_add_one
  rw [extract]
  split_ifs with hzero
  · refine ⟨none, s.buffer, rfl, ?_, blocks, ?_, fun x _ ↦ Iff.rfl⟩
    · rw [Option.getD_none, List.append_nil]
    · rw [Option.getD_none, List.append_nil]
      exact hi
  · set k := min maxSize s.buffer.m_availBytes with hk
    obtain ⟨out, rest, hrun, hlen, hout, hsorted, hall, hcov, htotal⟩ :=
      extractData_spec isn (k := k) hi.within hi.sorted (fun b hb ↦ (hi.within b hb).1)
        hi.part fun x hx hxk ↦ hi.available x hx (by rw [Receiver.received]; omega)
    rw [hi.data, hrun]
    have hreceived : s.extracted.length + k + (s.buffer.m_availBytes - k) = s.received := by
      rw [Receiver.received]
      omega
    have havail : sub32 s.buffer.m_availBytes out.length = s.buffer.m_availBytes - k := by
      rw [hlen]
      refine sub32_eq (min_le_right _ _) ?_
      rw [Receiver.received] at hle'
      omega
    have htotal' := hi.totalSize_lt
    have hsize : sub32 s.buffer.m_size out.length = totalSize rest := by
      rw [hlen, hi.size, htotal, sub32_eq (by omega) (by omega), Nat.add_sub_cancel_left]
    refine ⟨some out, { s.buffer with
      m_data := rest.map (Block.entry isn)
      m_size := totalSize rest
      m_availBytes := s.buffer.m_availBytes - k }, ?_, ?_, rest, ?_, fun x hx ↦ ?_⟩
    · rw [Option.map_some]
      dsimp only
      rw [havail, hsize, if_neg (by omega)]
    · rw [Option.getD_some, Receiver.received, List.length_append, hlen]
      exact hreceived
    rotate_left
    · exact hcov x (by omega)
    rw [Option.getD_some]
    have hlen' : (s.extracted ++ out).length = s.extracted.length + k := by
      rw [List.length_append, hlen]
    have hext : s.extracted ++ out = stream.take (s.extracted.length + k) := by
      rw [List.take_add, ← hi.extracted, ← hout]
    have hsum : (s.extracted ++ out).length + (s.buffer.m_availBytes - k) = s.received := by
      rw [hlen', hreceived]
    refine ⟨?_, rfl, hsorted, fun b hb ↦ ?_, fun b hb ↦ (hall b hb).2.2, fun x hx hx' ↦ ?_, ?_, ?_,
      fun hfin ↦ ?_, rfl⟩
    · dsimp only
      rw [hlen', hext]
    · obtain ⟨hpos, ⟨-, hstop⟩, -⟩ := hall b hb
      dsimp only
      rw [hlen']
      exact ⟨hpos, by omega⟩
    · dsimp only at hx
      rw [Receiver.received, hsum] at hx'
      rw [hlen'] at hx
      exact (hcov x hx).mpr (hi.available x (by omega) hx')
    · rw [Receiver.received, hsum, hcov _ (by omega)]
      exact hi.gap
    · rw [Receiver.received, hsum]
      exact hi.nextRxSeq
    · obtain ⟨hseq, hlast⟩ := hi.finSeq hfin
      refine ⟨hseq, ?_⟩
      dsimp only
      rw [hlen']
      omega

/-! ### Segments -/

theorem Buffered.nextRxSeq_position (hi : Buffered isn stream s blocks) :
    ∃ next, s.buffer.m_nextRxSeq = isn.add next ∧ s.position isn s.buffer.m_nextRxSeq = next ∧
      s.received ≤ next ∧ (s.received < stream.length → next = s.received) ∧
      (next = s.received ∨ next = stream.length + 1) := by
  obtain ⟨hle, hle'⟩ := hi.received_le
  have hhalf := halfMaxValue_add_one
  have hlow : s.extracted.length ≤ s.received := Nat.le_add_right _ _
  refine ⟨_, hi.nextRxSeq, ?_, Nat.le_add_right _ _, fun hlt ↦ ?_, ?_⟩
  · rw [hi.nextRxSeq, Receiver.position_add]
    · exact hlow.trans (Nat.le_add_right _ _)
    · split_ifs <;> omega
  · rw [if_neg fun h ↦ hlt.ne h.2, Nat.add_zero]
  · split_ifs with h
    · exact .inr (by rw [h.2])
    · exact .inl rfl

theorem Buffered.entry_position (hi : Buffered isn stream s blocks) {b : Block} (hb : b ∈ blocks) :
    s.position isn (b.entry isn).1 = b.position := by
  have hhalf := halfMaxValue_add_one
  obtain ⟨hb1, hb2⟩ := hi.within b hb
  have := b.position_lt_stop
  exact Receiver.position_add hb1 (by omega)

/-- What is left of a segment that is trimmed to the window. -/
structure Fitted (isn : SequenceNumber32) (s : Receiver) (next start length h t : ℕ) : Prop where
  low : min start s.extracted.length ≤ h ∧ min start s.extracted.length ≤ t
  head_le : h ≤ min start s.extracted.length + SequenceNumber.halfMaxValue 32
  tail_le : t ≤ start + length
  head_eq : h < t → h = max start next
  old : t ≤ h → t ≤ max start next
  whole : start + length ≤ s.windowEnd isn → t = start + length

theorem Buffered.fitWindow_eq (hi : Buffered isn stream s blocks) {start length next : ℕ}
    (hin : s.InWindow isn start length) (hnext : s.buffer.m_nextRxSeq = isn.add next)
    (hpos : s.position isn s.buffer.m_nextRxSeq = next) (hle : s.received ≤ next) :
    ∃ h t, s.buffer.fitWindow (isn.add start) ((isn.add start).add length) =
      (isn.add h, isn.add t) ∧ Fitted isn s next start length h t := by
  have hhalf := halfMaxValue_add_one
  have hlow : s.extracted.length ≤ s.received := Nat.le_add_right _ _
  obtain ⟨htail, hwin, hblocks, hfirst⟩ := hin
  rw [hpos] at hwin
  have hhead : (if (isn.add start).lt s.buffer.m_nextRxSeq = true then s.buffer.m_nextRxSeq
      else isn.add start) = isn.add (max start next) := by
    rw [hnext, isn.lt_add (by omega) (by omega)]
    simp only [decide_eq_true_iff]
    split_ifs with hlt
    · rw [max_eq_right hlt.le]
    · rw [max_eq_left (not_lt.mp hlt)]
  rw [fitWindow, hhead, SequenceNumber.add_add, hi.data]
  cases blocks with
  | nil =>
    refine ⟨_, _, rfl, ⟨by omega, by omega⟩, by omega, le_rfl, fun _ ↦ rfl, id, fun _ ↦ rfl⟩
  | cons b rest =>
    obtain ⟨hb1, hb2⟩ := hi.within b List.mem_cons_self
    have hbpos := hi.entry_position (b := b) List.mem_cons_self
    have hedge : b.position + s.buffer.m_maxBuffer < min start s.extracted.length + 2 ^ 31 := by
      have := hfirst (b.entry isn) (by rw [hi.data]; rfl)
      rwa [hbpos] at this
    rw [List.map_cons, Block.entry]
    dsimp only
    rw [SequenceNumber.add_add, isn.lt_add (by omega) (by omega)]
    simp only [decide_eq_true_iff]
    have htailSeq : (if b.position + s.buffer.m_maxBuffer < start + length then
        isn.add (b.position + s.buffer.m_maxBuffer) else isn.add (start + length)) =
        isn.add (min (start + length) (b.position + s.buffer.m_maxBuffer)) := by
      split_ifs with hlt
      · rw [min_eq_right hlt.le]
      · rw [min_eq_left (not_lt.mp hlt)]
    have hwhole : start + length ≤ s.windowEnd isn →
        start + length ≤ b.position + s.buffer.m_maxBuffer := by
      intro hend
      refine hend.trans ?_
      rw [Receiver.windowEnd, maxRxSequence]
      simp only [Bool.false_eq_true, if_false, hi.data, List.map_cons, Block.entry]
      rw [hnext, isn.gt_add (by omega) (by omega), SequenceNumber.add_add, SequenceNumber.add_add]
      simp only [decide_eq_true_iff]
      split_ifs with hlt
      · rw [Receiver.position_add (by omega) (by omega)]
      · rw [Receiver.position_add (by omega) (by omega)]
        omega
    rw [htailSeq, isn.lt_add (by omega) (by omega)]
    simp only [decide_eq_true_iff]
    split_ifs with hlt
    · refine ⟨_, _, rfl, ⟨by omega, by omega⟩, by omega, by omega, by omega, by omega, fun hend ↦ ?_⟩
      have := hwhole hend
      omega
    · refine ⟨_, _, rfl, ⟨by omega, by omega⟩, by omega, by omega, by omega, by omega, fun hend ↦ ?_⟩
      have := hwhole hend
      omega

/-- What a new block adds to the blocks that are kept. -/
structure Stored (blocks : List Block) (c : Block) (blocks' : List Block) : Prop where
  sorted : blocks'.Pairwise Block.Before
  mem : ∀ b ∈ blocks', b ∈ blocks ∨ b = c
  covers : ∀ x, Covers blocks' x ↔ Covers blocks x ∨ (c.position ≤ x ∧ x < c.stop)

theorem Trimmed.insertData (isn : SequenceNumber32) {base h t h' t' : ℕ} {kept : List Block} {c : Block}
    (hin : ∀ b ∈ blocks, b.Within base) (hsorted : blocks.Pairwise Block.Before)
    (ht : Trimmed h t blocks h' t' kept) (hc : c.Within base) (hpos : c.position = h')
    (hstop : c.stop = t') :
    ∃ blocks', TcpRxBuffer.insertData (isn.add h') c.bytes (kept.map (Block.entry isn)) =
      blocks'.map (Block.entry isn) ∧ Stored blocks c blocks' ∧
        totalSize blocks' = totalSize kept + c.bytes.length := by
  have hlt : h' < t' := hpos ▸ hstop ▸ c.position_lt_stop
  have hapart := ht.apart hlt
  subst hpos hstop
  obtain ⟨l₁, l₂, hsplit, hrun, hlow, hhigh⟩ := insertData_spec isn (c := c)
    (fun b hb ↦ hin b (ht.sublist.subset hb)) hc fun b hb heq ↦ by
      have := b.position_lt_stop
      rcases hapart b hb with hle | hle <;> omega
  have hkept : kept.Pairwise Block.Before := hsorted.sublist ht.sublist
  subst hsplit
  obtain ⟨hsorted₁, hsorted₂, hcross⟩ := List.pairwise_append.mp hkept
  have hbefore : ∀ b ∈ l₁, b.Before c := fun b hb ↦ by
    refine (hapart b (List.mem_append_left _ hb)).resolve_right (not_le.mpr ?_)
    exact (hlow b hb).trans hlt
  have hafter : ∀ b ∈ l₂, c.Before b := fun b hb ↦ by
    refine (hapart b (List.mem_append_right _ hb)).resolve_left (not_le.mpr ?_)
    refine lt_of_lt_of_le ?_ b.position_lt_stop.le
    cases l₂ with
    | nil => exact absurd hb List.not_mem_nil
    | cons d l₂ =>
      have hd := hhigh d rfl
      rcases List.mem_cons.mp hb with rfl | hb
      · exact hd
      · exact hd.trans (d.position_lt_stop.trans_le ((List.pairwise_cons.mp hsorted₂).1 b hb))
  have hmem : ∀ b, b ∈ l₁ ++ c :: l₂ ↔ b ∈ l₁ ++ l₂ ∨ b = c := fun b ↦ by
    simp only [List.mem_append, List.mem_cons]
    tauto
  refine ⟨_, hrun, ⟨?_, fun b hb ↦ ?_, fun x ↦ ?_⟩, ?_⟩
  · refine List.pairwise_append.mpr ⟨hsorted₁, List.pairwise_cons.mpr ⟨hafter, hsorted₂⟩, ?_⟩
    intro a ha b hb
    rcases List.mem_cons.mp hb with rfl | hb
    · exact hbefore a ha
    · exact hcross a ha b hb
  · rcases (hmem b).mp hb with hb | rfl
    · exact .inl (ht.sublist.subset hb)
    · exact .inr rfl
  · constructor
    · rintro ⟨b, hb, hx⟩
      rcases (hmem b).mp hb with hb | rfl
      · exact .inl ⟨b, ht.sublist.subset hb, hx⟩
      · exact .inr hx
    · rintro (⟨b, hb, hx⟩ | hx)
      · rcases ht.dropped b hb with hb | ⟨hlow, hhigh⟩
        · exact ⟨b, (hmem b).mpr (.inl hb), hx⟩
        · exact ⟨c, (hmem c).mpr (.inr rfl), by omega⟩
      · exact ⟨c, (hmem c).mpr (.inr rfl), hx⟩
  · simp only [totalSize, List.map_append, List.map_cons, List.sum_append, List.sum_cons]
    omega

theorem take_drop_segment {start length h t : ℕ} (hs : start ≤ h) (ht : t ≤ start + length) :
    (((stream.drop start).take length).drop (h - start)).take (t - h) =
      (stream.drop h).take (t - h) := by
  rw [List.drop_take, List.drop_drop, List.take_take, Nat.add_sub_cancel' hs, min_eq_left (by omega)]

theorem Buffered.step_store (hi : Buffered isn stream s blocks) {start length next h t h' t' : ℕ}
    {kept : List Block} (hin : s.InWindow isn start length) (hlen : start + length ≤ stream.length)
    (hnext : s.buffer.m_nextRxSeq = isn.add next)
    (hor : next = s.received ∨ next = stream.length + 1)
    (hwithin : ∀ b ∈ blocks, b.Within (min start s.extracted.length))
    (hfit : Fitted isn s next start length h t) (htrim : Trimmed h t blocks h' t' kept)
    (hlt : h' < t') :
    ∃ blocks', (∀ x, Covers blocks' x ↔ Covers blocks x ∨ (h' ≤ x ∧ x < t')) ∧
      (∀ b ∈ blocks', b ∈ blocks ∨ (b.position = h' ∧ b.stop = t')) ∧ Buffered isn stream
        ⟨store { s.buffer with m_size := totalSize kept, m_data := kept.map (Block.entry isn) }
          (isn.add h') (isn.add t') ((stream.drop h').take (t' - h')), s.extracted⟩ blocks' := by
  have hhalf := halfMaxValue_add_one
  have hlow : s.extracted.length ≤ s.received := Nat.le_add_right _ _
  obtain ⟨hle, hle'⟩ := hi.received_le
  obtain ⟨htail, -, -, -⟩ := hin
  have hhead := hfit.head_eq (htrim.head_le.trans_lt (hlt.trans_le htrim.le_tail))
  have hhh := htrim.head_le
  have htt := htrim.le_tail.trans hfit.tail_le
  obtain rfl : next = s.received := hor.resolve_right (by omega)
  set p := (stream.drop h').take (t' - h') with hp
  have hplen : p.length = t' - h' := by
    rw [hp, List.length_take, List.length_drop]
    omega
  set c : Block := ⟨h', p, by omega⟩ with hc
  have hcstop : c.stop = t' := by
    change h' + p.length = t'
    omega
  have hcin : c.Within (min start s.extracted.length) := ⟨by change _ ≤ h'; omega, by omega⟩
  obtain ⟨blocks', hrun, hstored, htotal⟩ :=
    htrim.insertData isn hwithin hi.sorted hcin rfl hcstop
  have hwithin' : ∀ b ∈ blocks', b.Within (min start s.extracted.length) := fun b hb ↦ by
    rcases hstored.mem b hb with hb | rfl
    · exact hwithin b hb
    · exact hcin
  have hcovers : ∀ x, Covers blocks' x ↔ Covers blocks x ∨ (h' ≤ x ∧ x < t') := fun x ↦ by
    rw [hstored.covers, hcstop]
  have hcut : ∀ b ∈ blocks', b.stop ≤ s.received ∨ s.received ≤ b.position := fun b hb ↦ by
    rcases hstored.mem b hb with hb | rfl
    · by_contra hnot
      exact hi.gap ⟨b, hb, by omega⟩
    · exact .inr ((le_max_right start s.received).trans (hhead ▸ hhh))
  have havail : s.buffer.m_availBytes = s.received - s.extracted.length := by
    rw [Receiver.received]
    omega
  have hsize : add32 (totalSize kept) p.length = totalSize blocks' := by
    have htotal' := totalSize_le hstored.sorted hwithin'
    change totalSize blocks' = totalSize kept + p.length at htotal
    rw [htotal, add32_eq (by omega)]
  rw [store]
  dsimp only
  rw [hnext, hrun, havail, hsize]
  generalize (if (isn.add h').gt (isn.add s.received) = true then
    updateSackList s.buffer.m_sackList (isn.add h') (isn.add t') else s.buffer.m_sackList) = sackList
  obtain ⟨n', sackList', hadv, hn, hn', hcover, hgap⟩ := advance_spec isn
    (e := s.extracted.length) hwithin' hstored.sorted (min_le_right _ _) hlow (by omega) hcut sackList
  rw [hadv]
  dsimp only
  have hreceived : s.extracted.length + (n' - s.extracted.length) = n' := by omega
  refine ⟨blocks', hcovers, fun b hb ↦ (hstored.mem b hb).imp_right ?_, hi.extracted, rfl, hstored.sorted, fun b hb ↦ ?_, fun b hb ↦ ?_,
    fun x hx hx' ↦ ?_, ?_, ?_, hi.finSeq, rfl⟩
  · rintro rfl
    exact ⟨rfl, hcstop⟩
  · rcases hstored.mem b hb with hb | rfl
    · exact hi.within b hb
    · exact ⟨by change s.extracted.length ≤ h'; omega, by dsimp only; omega⟩
  · rcases hstored.mem b hb with hb | rfl
    · exact hi.part b hb
    · refine ⟨by omega, ?_⟩
      change p = (stream.drop h').take p.length
      rw [hplen, hp]
  · rw [Receiver.received, hreceived] at hx'
    by_cases hold : x < s.received
    · exact (hcovers x).mpr (.inl (hi.available x hx hold))
    · exact hcover x (not_lt.mp hold) hx'
  · rw [Receiver.received, hreceived]
    exact hgap
  · rw [Receiver.received, hreceived]
    dsimp only
    by_cases hfin : s.buffer.m_gotFin = true
    · obtain ⟨hseq, hlast⟩ := hi.finSeq hfin
      have heq : isn.add n' = s.buffer.m_finSeq ↔ n' = stream.length := by
        rw [hseq]
        exact isn.add_inj (by omega) (by omega)
      simp only [hfin, true_and, heq]
      split_ifs
      · rw [SequenceNumber.add_add]
      · rfl
    · rw [if_neg fun h ↦ hfin h.1, if_neg fun h ↦ hfin h.1]
      rfl

/-- What `Add` makes of a segment: `fitWindow` leaves the positions from `h` to `t` of it, and the loop
over the map those from `h'` to `t'`, which are stored if there are any. -/
structure Arrival (isn : SequenceNumber32) (stream : List UInt8) (s : Receiver) (blocks : List Block)
    (start length next h t h' t' : ℕ) (kept : List Block) : Prop where
  nextRxSeq : s.buffer.m_nextRxSeq = isn.add next
  more : s.received < stream.length → next = s.received
  received_or : next = s.received ∨ next = stream.length + 1
  fitWindow : s.buffer.fitWindow (isn.add start) ((isn.add start).add length) = (isn.add h, isn.add t)
  fitted : Fitted isn s next start length h t
  within : ∀ b ∈ blocks, b.Within (min start s.extracted.length)
  removeOverlap : removeOverlap (isn.add h) (isn.add t) (totalSize blocks)
    (blocks.map (Block.entry isn)) =
      (isn.add h', isn.add t', totalSize kept, kept.map (Block.entry isn))
  trimmed : Trimmed h t blocks h' t' kept
  high : h' ≤ min start s.extracted.length + SequenceNumber.halfMaxValue 32
  low : min start s.extracted.length ≤ t'
  add_eq : (s.buffer.add (isn.add start) ((stream.drop start).take length)).2 =
    if h' < t' then
      store { s.buffer with m_size := totalSize kept, m_data := kept.map (Block.entry isn) }
        (isn.add h') (isn.add t') ((stream.drop h').take (t' - h'))
    else { s.buffer with m_size := totalSize kept, m_data := kept.map (Block.entry isn) }

theorem Buffered.exists_arrival (hi : Buffered isn stream s blocks) {start length : ℕ}
    (hlen : start + length ≤ stream.length) (hin : s.InWindow isn start length) :
    ∃ next h t h' t' kept, Arrival isn stream s blocks start length next h t h' t' kept := by
  have hhalf := halfMaxValue_add_one
  obtain ⟨next, hnext, hpos, hle, hmore, hor⟩ := hi.nextRxSeq_position
  obtain ⟨h, t, hfw, hfit⟩ := hi.fitWindow_eq hin hnext hpos hle
  obtain ⟨htail, -, hblocks, -⟩ := id hin
  have hwithin : ∀ b ∈ blocks, b.Within (min start s.extracted.length) := fun b hb ↦ by
    have hstop := hblocks (b.entry isn) (hi.data ▸ List.mem_map_of_mem hb)
    rw [hi.entry_position hb] at hstop
    change b.stop < _ at hstop
    exact ⟨(min_le_right _ _).trans (hi.within b hb).1, by omega⟩
  have htotal := hi.totalSize_lt
  obtain ⟨h', t', kept, hrun, htrim⟩ := removeOverlap_spec isn (k := 0) hwithin hi.sorted
    ⟨hfit.low.1, hfit.head_le⟩ ⟨hfit.low.2, by have := hfit.tail_le; omega⟩ (by omega)
  rw [Nat.zero_add, Nat.zero_add] at hrun
  have hplen : ((stream.drop start).take length).length = length := by
    rw [List.length_take, List.length_drop]
    omega
  have hhead := htrim.head_le
  have htail' := htrim.le_tail.trans hfit.tail_le
  have hlow := hfit.low
  have hhigh := htrim.le_of_stop_le _ hfit.head_le fun b hb ↦ (hwithin b hb).2
  have hlow' := htrim.tail_ge _ hlow.2 fun b hb ↦ (hwithin b hb).1
  refine ⟨next, h, t, h', t', kept, hnext, hmore, hor, hfw, hfit, hwithin, hrun, htrim, hhigh, hlow',
    ?_⟩
  rw [add, hplen, hfw, hi.data, hi.size]
  dsimp only
  rw [hrun]
  dsimp only
  rw [isn.ge_add (by omega) (by omega)]
  simp only [decide_eq_true_iff]
  by_cases hlt : h' < t'
  · rw [if_neg (not_le.mpr hlt), if_pos hlt, isn.sub_add (by omega) (by omega),
      isn.sub_add (by omega) (by omega)]
    have hhead' := hfit.head_eq (hhead.trans_lt (hlt.trans_le htrim.le_tail))
    have hstart : ((h' : ℤ) - start).toNat = h' - start := by omega
    have hlength : ((t' : ℤ) - h').toNat = t' - h' := by omega
    rw [hstart, hlength, take_drop_segment (by omega) htail']
  · rw [if_pos (not_lt.mp hlt), if_neg hlt]

theorem Buffered.step_add (hi : Buffered isn stream s blocks) {start length : ℕ}
    (hlen : start + length ≤ stream.length) (hin : s.InWindow isn start length) :
    ∃ blocks', Buffered isn stream
        ⟨(s.buffer.add (isn.add start) ((stream.drop start).take length)).2, s.extracted⟩ blocks' ∧
      (start + length ≤ s.windowEnd isn →
        ∀ x, start ≤ x → x < start + length → s.received ≤ x → Covers blocks' x) := by
  obtain ⟨next, h, t, h', t', kept, ha⟩ := hi.exists_arrival hlen hin
  have hfit := ha.fitted
  have htrim := ha.trimmed
  have hhead := htrim.head_le
  have hmore := ha.more
  rw [ha.add_eq]
  by_cases hlt : h' < t'
  · rw [if_pos hlt]
    have hhead' := hfit.head_eq (hhead.trans_lt (hlt.trans_le htrim.le_tail))
    obtain ⟨blocks', hcovers, -, hi'⟩ :=
      hi.step_store hin hlen ha.nextRxSeq ha.received_or ha.within hfit htrim hlt
    refine ⟨blocks', hi', fun hend x hx hxl hxr ↦ (hcovers x).mpr ?_⟩
    have hxh : h ≤ x := by omega
    have hxt : x < t := by rwa [hfit.whole hend]
    rcases htrim.cover x hxh hxt with hin' | ⟨b, hb, hbx⟩
    · exact .inr hin'
    · exact .inl ⟨b, htrim.sublist.subset hb, hbx⟩
  · -- nothing is left
    rw [if_neg hlt]
    obtain rfl := htrim.none_dropped.resolve_left hlt
    refine ⟨kept, ⟨hi.extracted, rfl, hi.sorted, hi.within, hi.part, hi.available, hi.gap,
      hi.nextRxSeq, hi.finSeq, rfl⟩, fun hend x hx hxl hxr ↦ ?_⟩
    have hxn : next = s.received := hmore (by omega)
    have htx := hfit.whole hend
    by_cases hht : h < t
    · have hhead' := hfit.head_eq hht
      exact (htrim.cover x (by omega) (by omega)).resolve_left (by omega)
    · have hold := hfit.old (not_lt.mp hht)
      omega

/-! ### All steps -/

theorem buffered_init : Buffered isn stream (machine isn stream maxBuffer).init [] where
  extracted := rfl
  data := rfl
  sorted := .nil
  within _ hb := absurd hb List.not_mem_nil
  part _ hb := absurd hb List.not_mem_nil
  available _ hx hlt := absurd hx (not_le.mpr hlt)
  gap := fun ⟨_, hb, _⟩ ↦ List.not_mem_nil hb
  nextRxSeq := by
    rw [if_neg fun h ↦ Bool.false_ne_true h.1]
    exact congrArg SequenceNumber.mk (BitVec.add_zero isn.m_value).symm
  finSeq h := absurd h Bool.false_ne_true
  size := rfl

theorem buffered_step {op : Op} (hi : Buffered isn stream s blocks)
    (hs : (machine isn stream maxBuffer).next s op = some s') :
    ∃ blocks', Buffered isn stream s' blocks' := by
  cases op with
  | add start length =>
    simp only [machine, Option.ite_none_right_eq_some, Option.some_inj] at hs
    obtain ⟨⟨hlen, hin⟩, rfl⟩ := hs
    obtain ⟨blocks', hi', -⟩ := hi.step_add hlen hin
    exact ⟨blocks', hi'⟩
  | setFinSequence =>
    simp only [machine, Option.ite_none_right_eq_some, Option.some_inj] at hs
    obtain ⟨hlt, rfl⟩ := hs
    exact ⟨blocks, hi.step_setFinSequence hlt⟩
  | extract maxSize =>
    obtain ⟨out, buffer, hrun, -, blocks', hi', -⟩ := hi.step_extract maxSize
    simp only [machine, hrun, Option.map_some, Option.some_inj] at hs
    exact ⟨blocks', hs ▸ hi'⟩

theorem Buffered.finished_iff (hi : Buffered isn stream s blocks) :
    s.buffer.finished = true ↔ s.buffer.m_gotFin = true ∧ s.received = stream.length := by
  obtain ⟨hle, hle'⟩ := hi.received_le
  have hhalf := halfMaxValue_add_one
  have hlow : s.extracted.length ≤ s.received := Nat.le_add_right _ _
  rw [finished, Bool.and_eq_true]
  refine and_congr_right fun hfin ↦ ?_
  obtain ⟨hseq, hlast⟩ := hi.finSeq hfin
  rw [hseq, hi.nextRxSeq, isn.lt_add (by omega) (by split_ifs <;> omega), decide_eq_true_iff]
  simp only [hfin, true_and]
  split_ifs <;> omega

theorem Buffered.toReassembled (hi : Buffered isn stream s blocks) : Reassembled isn stream s where
  extracted := by
    rw [hi.extracted]
    exact List.take_prefix _ _
  nextRxSeq := by
    simp only [hi.finished_iff]
    exact hi.nextRxSeq
  blocks := ⟨blocks, hi.data, hi.sorted, hi.part⟩
  size := by
    rw [hi.size, hi.data, List.map_map]
    rfl
  extract maxSize := by
    obtain ⟨out, buffer, hrun, -⟩ := hi.step_extract maxSize
    rw [hrun]
    exact Option.some_ne_none _

theorem Buffered.holds (hi : Buffered isn stream s blocks) {x : ℕ} (hx : Covers blocks x) :
    s.Holds isn stream x := by
  obtain ⟨b, hb, hle, hlt⟩ := hx
  obtain ⟨hstop, hbytes⟩ := hi.part b hb
  have hlen : x - b.position < b.bytes.length := by
    rw [Block.stop] at hlt
    omega
  refine ⟨b.entry isn, hi.data ▸ List.mem_map_of_mem hb, x - b.position, hlen, ?_, ?_⟩
  · rw [Block.entry, SequenceNumber.add_add, Nat.add_sub_cancel' hle]
  · change b.bytes[x - b.position]? = stream[x]?
    rw [hbytes, List.getElem?_take_of_lt hlen, List.getElem?_drop, Nat.add_sub_cancel' hle]

end Invariant

/-- **The receiver reassembles the stream**, and holds or has delivered all bytes of a segment that lies
in the window. -/
theorem reassembled {isn : SequenceNumber32} {stream : List UInt8} {maxBuffer : ℕ} {ops : List Op}
    {s : Receiver} (hr : (machine isn stream maxBuffer).Run Machine.unguarded ops s) :
    Reassembled isn stream s ∧ ∀ start length s',
      (machine isn stream maxBuffer).next s (.add start length) = some s' →
        start + length ≤ s.windowEnd isn →
          ∀ x, start ≤ x → x < start + length → s.received ≤ x → s'.Holds isn stream x := by
  obtain ⟨blocks, hi⟩ := hr.invariant (I := fun s ↦ ∃ blocks, Buffered isn stream s blocks)
    ⟨[], buffered_init⟩ fun _ _ _ ⟨_, hi⟩ _ hs ↦ buffered_step hi hs
  refine ⟨hi.toReassembled, fun start length s' hs hend x hx hxl hxr ↦ ?_⟩
  simp only [machine, Option.ite_none_right_eq_some, Option.some_inj] at hs
  obtain ⟨⟨hlen, hin⟩, rfl⟩ := hs
  obtain ⟨blocks', hi', hcovers⟩ := hi.step_add hlen hin
  exact hi'.holds (hcovers hend x hx hxl hxr)

/-- Twelve bytes, whose sequence numbers wrap around. -/
def twelveBytes : List UInt8 := [1, 2, 3, 4, 5, 6, 7, 8, 9, 10, 11, 12]

/-- Segments out of order: one that covers another, one that overlaps two others, and the end. -/
def outOfOrderOps : List Op :=
  [.add 5 1, .add 4 4, .add 10 2, .add 0 3, .extract 2, .setFinSequence, .add 2 3, .extract 10]

/-- The fourth number before the wrap. -/
def lateIsn : SequenceNumber32 := .ofNat 32 (2 ^ 32 - 4)

theorem reassembled_outOfOrderOps : ∃ s,
    (machine lateIsn twelveBytes 20).Run Machine.unguarded outOfOrderOps s ∧
      Reassembled lateIsn twelveBytes s ∧ ∃ s',
        (machine lateIsn twelveBytes 20).next s (.add 7 4) = some s' ∧
          s'.Holds lateIsn twelveBytes 9 := by
  refine Machine.exists_run_and
    (p := fun s ↦ s.received = 8 ∧ 7 + 4 ≤ s.windowEnd lateIsn ∧
      ((machine lateIsn twelveBytes 20).next s (.add 7 4)).isSome = true)
    (by decide +kernel) fun s hr ⟨hlen, hend, hsome⟩ ↦ ?_
  obtain ⟨hre, hadd⟩ := reassembled hr
  obtain ⟨s', hs'⟩ := Option.isSome_iff_exists.mp hsome
  exact ⟨hre, s', hs', hadd 7 4 s' hs' hend 9 (by decide) (by decide) (by omega)⟩

end TcpRxBuffer

end Ns3
