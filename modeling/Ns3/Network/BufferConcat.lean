import Ns3.Network.BufferSharing

/-!
# Concatenation of buffers

`AddAtEnd (const Buffer &)` appends the bytes of one buffer to another. In general it takes a full copy,
in which the zero area is real bytes, grows it and copies the other buffer behind it with
`Iterator::Write (start, end)`.

When the first buffer ends in its zero area and the second starts with one, the two areas are merged
instead, and only the bytes behind the second one are copied. `Write (start, end)` takes the offset it
writes at for an address, though behind a zero area the two differ: what it copies lands behind its
place by the length of the merged area, perhaps outside the block, and the place itself keeps what the
memory contained. So this path is right when it has nothing to copy, and only then, whatever the memory
contains.
-/

namespace Ns3

namespace Buffer

/-! ## The operation -/

section Append

variable (memory : ℕ → ℕ → UInt8) (s : System) (b c t n : ℕ)

/-- The address of a write at offset `current`. -/
def Writer.address (x : Buffer) (current : ℕ) (w : Writer) : ℕ :=
  if w.inFront x.m_zeroAreaStart current = true then current else sub32 current x.zeroSize

/-- Whether an operation writes only in the block of its buffer. -/
def InBlock : Op → Prop
  | .write b offset w => w.bytes.length = 0 ∨
    w.address (s.buffer b) ((s.buffer b).m_start + offset) + w.bytes.length ≤ (s.data b).m_size
  | .writeIterators b offset _ start end' => start = end' ∨
    (s.buffer b).m_start + offset + (end' - start) ≤ (s.data b).m_size
  | _ => True

instance : ∀ op, Decidable (InBlock s op)
  | .write _ _ _ => inferInstanceAs (Decidable (_ ∨ _))
  | .writeIterators _ _ _ _ _ => inferInstanceAs (Decidable (_ ∨ _))
  | .construct _ _ | .copy _ _ | .assign _ _ | .createFragment _ _ _ _ | .destroy _ | .addAtStart _ _
  | .addAtEnd _ _ | .removeAtStart _ _ | .removeAtEnd _ _ => isTrue trivial

/-- An operation; there is no result if it writes outside the block. -/
def stepInBlock (op : Op) : Option System :=
  if InBlock s op then (machine memory).next s op else none

/-- How far `End ()`, moved back by `n`, is from `Begin ()`. -/
def System.beforeEnd : ℕ := (s.buffer b).m_end - n - (s.buffer b).m_start

/-- `CreateFullCopy`, of buffer `b` as buffer `t`. -/
def createFullCopy : Option System :=
  let x := s.buffer b
  let m_data := (s.data b).m_data
  if x.zeroSize ≠ 0 then do
    let s ← stepInBlock memory s (.construct t 0)
    let s ← stepInBlock memory s (.addAtStart t x.zeroSize)
    let s ← stepInBlock memory s (.write t 0 (.writeU8s 0 x.zeroSize))
    let dataStart := sub32 x.m_zeroAreaStart x.m_start
    let s ← stepInBlock memory s (.addAtStart t dataStart)
    let s ← stepInBlock memory s (.write t 0 (.write (span m_data x.m_start dataStart)))
    let dataEnd := sub32 x.m_end x.m_zeroAreaEnd
    let s ← stepInBlock memory s (.addAtEnd t dataEnd)
    stepInBlock memory s
      (.write t (s.beforeEnd t dataEnd) (.write (span m_data x.m_zeroAreaStart dataEnd)))
  else stepInBlock memory s (.copy t b)

/-- The condition of `AddAtEnd` under which the zero areas of `b` and `c` are merged. -/
def Merges : Prop :=
  (s.data b).m_count = 1 ∧ (s.buffer b).m_end = (s.buffer b).m_zeroAreaEnd ∧
    (s.buffer b).m_end = (s.data b).m_dirtyEnd ∧
    (s.buffer c).m_start = (s.buffer c).m_zeroAreaStart ∧ 0 < (s.buffer c).zeroSize

instance : Decidable (Merges s b c) := inferInstanceAs (Decidable (_ ∧ _ ∧ _ ∧ _ ∧ _))

/-- The zero area of `b` grows by that of `c`. -/
def mergeZeroAreas : System :=
  let x := s.buffer b
  let m_zeroAreaEnd := add32 x.m_zeroAreaEnd (s.buffer c).zeroSize
  s.setBuffer b { x with m_zeroAreaEnd := m_zeroAreaEnd, m_end := m_zeroAreaEnd }
    (s.heap.setData x.m_data { s.data b with m_dirtyEnd := m_zeroAreaEnd }) none

/-- The last `n` bytes of `c` are appended to `b`. -/
def appendLast : Option System := do
  let size := (s.buffer c).getSize
  let s ← stepInBlock memory s (.addAtEnd b n)
  stepInBlock memory s (.writeIterators b (s.beforeEnd b n) c (size - n) size)

/-- `AddAtEnd (o)`, of buffer `c` to buffer `b`. The full copy is buffer `t`. -/
def append : Option System :=
  let y := s.buffer c
  if Merges s b c then
    appendLast memory (mergeZeroAreas s b c) b c (sub32 y.m_end y.m_zeroAreaEnd)
  else do
    let s ← createFullCopy memory s b t
    let s ← stepInBlock memory s (.assign b t)
    let s ← stepInBlock memory s (.destroy t)
    appendLast memory s b c y.getSize

/-- The operation appends the string of `c` to that of `b`, and writes in blocks only. -/
def Appends : Prop :=
  ∃ l ∈ s.strings b, ∃ l' ∈ s.strings c, ∃ s', append memory s b c t = some s' ∧
    s'.strings = Function.update s.strings b (some (l ++ l'))

/-- No offset and no count of references overflows. -/
def Roomy : Prop :=
  s.heap.initialStart + (s.buffer b).m_start + (s.buffer b).getSize + (s.buffer c).getSize < 2 ^ 32 ∧
    s.live.card + 2 < 2 ^ 32

/-- The same buffers over other contents of the memory. -/
def System.withMemory (m : ℕ → ℕ → UInt8) : System :=
  { s with heap := { s.heap with data := fun d ↦ { s.heap.data d with m_data := m d } } }

end Append

/-- The operations on buffers, and concatenation. -/
inductive ConcatOp
  | basic (op : Op)
  | append (b c t : ℕ)
  deriving DecidableEq, Repr

/-- The runs of a program on its buffers that also concatenates buffers of different blocks. -/
def concatMachine (memory : ℕ → ℕ → UInt8) : Machine System ConcatOp where
  init := (machine memory).init
  next s
    | .basic op => (machine memory).next s op
    | .append b c t =>
      if b ∈ s.live ∧ c ∈ s.live ∧ t ∉ s.live ∧ (s.buffer b).m_data ≠ (s.buffer c).m_data then
        append memory s b c t
      else none

/-- The steps at which no sum overflows, and zero areas are merged only where the second buffer ends
in its zero area. -/
def ConcatFits (s : System) : ConcatOp → Prop
  | .basic op => Fits s op
  | .append b c _ =>
    Roomy s b c ∧ (Merges s b c → (s.buffer c).m_zeroAreaEnd = (s.buffer c).m_end)

/-! ## A buffer without zero area -/

section Flat

variable (memory : ℕ → ℕ → UInt8) {s s' : System} {σ : ℕ → Option (List UInt8)} {y : Buffer}
  {b c t n K offset : ℕ} {l l' : List UInt8}

theorem stepInBlock_construct (hb : b ∉ s.live) (hn : n < 2 ^ 32) :
    stepInBlock memory s (.construct b n) = some (s.addBuffer b
      (initializeBuffer s.heap memory n).1 (initializeBuffer s.heap memory n).2) :=
  (if_pos (show InBlock s (.construct b n) from trivial)).trans (if_pos ⟨hb, hn⟩)

theorem stepInBlock_copy (hb : b ∉ s.live) (hc : c ∈ s.live) :
    stepInBlock memory s (.copy b c) =
      some (s.addBuffer b ((s.buffer c).copy s.heap).1 ((s.buffer c).copy s.heap).2) :=
  (if_pos (show InBlock s (.copy b c) from trivial)).trans (if_pos ⟨hb, hc⟩)

theorem stepInBlock_assign (hb : b ∈ s.live) (hc : c ∈ s.live) :
    stepInBlock memory s (.assign b c) = some (s.setBuffer b
      ((s.buffer b).assign s.heap (s.buffer c)).1 ((s.buffer b).assign s.heap (s.buffer c)).2 none) :=
  (if_pos (show InBlock s (.assign b c) from trivial)).trans (if_pos ⟨hb, hc⟩)

theorem stepInBlock_destroy (hb : b ∈ s.live) :
    stepInBlock memory s (.destroy b) = some { s with
      heap := (s.buffer b).destroy s.heap, live := s.live.erase b, added := none } :=
  (if_pos (show InBlock s (.destroy b) from trivial)).trans (if_pos hb)

theorem stepInBlock_addAtStart (hb : b ∈ s.live) (hn : n < 2 ^ 32) {x : Buffer} {h : Heap}
    (hx : (s.buffer b).addAtStart s.heap memory n = (x, h)) :
    stepInBlock memory s (.addAtStart b n) =
      some (s.setBuffer b x h (some ⟨b, x.m_start, x.m_start + n⟩)) := by
  refine (if_pos (show InBlock s (.addAtStart b n) from trivial)).trans ?_
  simp only [machine, hb, hn, hx, and_self, if_true]

theorem stepInBlock_addAtEnd (hb : b ∈ s.live) (hn : n < 2 ^ 32) {x : Buffer} {h : Heap}
    (hx : (s.buffer b).addAtEnd s.heap memory n = (x, h)) :
    stepInBlock memory s (.addAtEnd b n) =
      some (s.setBuffer b x h (some ⟨b, x.m_end - n, x.m_end⟩)) := by
  refine (if_pos (show InBlock s (.addAtEnd b n) from trivial)).trans ?_
  simp only [machine, hb, hn, hx, and_self, if_true]

@[simp] theorem System.setBuffer_buffer (x : Buffer) (h : Heap) (a : Option Added) :
    (s.setBuffer b x h a).buffer b = x := Function.update_self _ _ _

@[simp] theorem System.addBuffer_buffer (x : Buffer) (h : Heap) :
    (s.addBuffer b x h).buffer b = x := Function.update_self _ _ _

theorem mem_live_iff : b ∈ s.live ↔ s.strings b ≠ none := by
  rw [System.strings]
  split_ifs with h <;> simp [h]

theorem length_of_strings (hi : Inv s) (hl : s.strings b = some l) :
    l.length = (s.buffer b).m_end - (s.buffer b).m_start := by
  have hb : b ∈ s.live := mem_live_iff.mpr (hl ▸ Option.some_ne_none l)
  rw [System.strings_of_mem hb, Option.some_inj] at hl
  rw [← hl, bytes, length_span, (hi.ordered hb).getSize_eq]

theorem addAtEnd_spec (hi : Inv s) (hl : s.strings b = some l) (hcb : c ≠ b)
    (hlt : (s.buffer b).m_start + l.length + n < 2 ^ 32) :
    ∃ s' new, stepInBlock memory s (.addAtEnd b n) = some s' ∧ new.length = n ∧
      s'.beforeEnd b n = l.length ∧ s'.JustAdded b l.length n ∧ Inv s' ∧
      s'.strings = Function.update s.strings b (some (l ++ new)) ∧ s'.buffer c = s.buffer c ∧
      s'.buffer b = ((s.buffer b).addAtEnd s.heap memory n).1 ∧
      s'.heap = ((s.buffer b).addAtEnd s.heap memory n).2 := by
  have hb : b ∈ s.live := mem_live_iff.mpr (hl ▸ Option.some_ne_none l)
  have hlen := length_of_strings hi hl
  have hle := (hi.ordered hb).start_le_end
  rcases hx : (s.buffer b).addAtEnd s.heap memory n with ⟨x, h⟩
  obtain ⟨hi', new, hnew, hstr⟩ := hi.step_addAtEnd hb (by omega)
    (by rw [(hi.ordered hb).getSize_eq]; split_ifs <;> omega) hx
  rw [hl, Option.map_some] at hstr
  have hlen' := length_of_strings (b := b) hi' (hstr ▸ Function.update_self _ _ _)
  have hle' := (hi'.ordered hb).start_le_end
  rw [System.setBuffer_buffer] at hlen' hle'
  dsimp only at hlen' hle'
  rw [List.length_append, hnew] at hlen'
  refine ⟨_, new, stepInBlock_addAtEnd memory hb (by omega) hx, hnew, ?_, ⟨_, rfl, rfl, ?_, ?_⟩, hi', hstr,
    Function.update_of_ne hcb _ _, System.setBuffer_buffer _ _ _, rfl⟩
  · rw [System.beforeEnd, System.setBuffer_buffer]
    omega
  · rw [System.setBuffer_buffer]
    dsimp only
    omega
  · rw [System.setBuffer_buffer]
    dsimp only
    omega

/-- In state `s`, buffer `t` stands for `l`, all in real bytes; the other strings are those of `σ`, and
buffer `c`, in another block, is `y`. -/
structure Flat (s : System) (σ : ℕ → Option (List UInt8)) (c : ℕ) (y : Buffer) (t : ℕ)
    (l : List UInt8) (K : ℕ) : Prop where
  inv : Inv s
  strings : s.strings = Function.update σ t (some l)
  source : s.buffer c = y
  apart : (s.buffer t).m_data ≠ y.m_data
  real : (s.buffer t).m_zeroAreaStart = (s.buffer t).m_zeroAreaEnd
  start_le : (s.buffer t).m_start ≤ K

theorem Flat.strings_self (hf : Flat s σ c y t l K) : s.strings t = some l := by
  rw [hf.strings, Function.update_self]

theorem Flat.mem_live (hf : Flat s σ c y t l K) : t ∈ s.live :=
  mem_live_iff.mpr (hf.strings_self ▸ Option.some_ne_none l)

theorem Flat.ordered (hf : Flat s σ c y t l K) : Ordered (s.buffer t) (s.data t).m_size :=
  hf.inv.ordered hf.mem_live

theorem Flat.m_end_eq (hf : Flat s σ c y t l K) :
    (s.buffer t).m_end = (s.buffer t).m_start + l.length := by
  have hlen := length_of_strings hf.inv hf.strings_self
  have hle := hf.ordered.start_le_end
  omega

theorem Flat.zeroSize_eq (hf : Flat s σ c y t l K) : (s.buffer t).zeroSize = 0 := by
  rw [hf.ordered.zeroSize_eq, hf.real, Nat.sub_self]

theorem Flat.getSize_eq (hf : Flat s σ c y t l K) : (s.buffer t).getSize = l.length := by
  rw [hf.ordered.getSize_eq, hf.m_end_eq, Nat.add_sub_cancel_left]

theorem Flat.end_le (hf : Flat s σ c y t l K) : (s.buffer t).m_end ≤ (s.data t).m_size := by
  have hle := hf.ordered.internalEnd_le
  rwa [hf.real, Nat.sub_self, Nat.sub_zero] at hle

theorem Flat.mono (hf : Flat s σ c y t l K) {K' : ℕ} (h : K ≤ K') : Flat s σ c y t l K' :=
  ⟨hf.inv, hf.strings, hf.source, hf.apart, hf.real, hf.start_le.trans h⟩

theorem moveData_apart (hi : Inv s) (hb : b ∈ s.live) (hc : c ∈ s.live) (newSize offset : ℕ) :
    ((s.buffer b).moveData s.heap memory newSize offset).1 ≠ (s.buffer c).m_data := by
  have hpos : 0 < refs s.live s.owner (s.buffer b).m_data := refs_pos hb
  have hm := hi.counted.moveData (x := s.buffer b) hpos memory newSize offset
  exact (not_alias hm.unused hc).symm

theorem addAtEnd_apart (hi : Inv s) (hb : b ∈ s.live) (hc : c ∈ s.live)
    (hne : (s.buffer b).m_data ≠ (s.buffer c).m_data) (n : ℕ) :
    ((s.buffer b).addAtEnd s.heap memory n).1.m_data ≠ (s.buffer c).m_data := by
  have hapart := moveData_apart memory hi hb hc (add32 (s.buffer b).getInternalSize n) 0
  rw [Buffer.addAtEnd]
  split_ifs
  · exact hne
  · exact hapart

theorem Flat.construct (hi : Inv s) (hc : c ∈ s.live) (ht : t ∉ s.live)
    (hK : s.heap.initialStart < 2 ^ 32) :
    ∃ s', stepInBlock memory s (.construct t 0) = some s' ∧
      Flat s' s.strings c (s.buffer c) t [] s.heap.initialStart := by
  obtain ⟨hi', hstr⟩ : Inv (s.addBuffer t (initializeBuffer s.heap memory 0).1 _) ∧ _ :=
    hi.step_construct ht hK
  have hct : c ≠ t := ne_of_mem_of_not_mem hc ht
  have hstart := s.heap.create_size_eq memory
  refine ⟨_, stepInBlock_construct memory ht (by decide), hi', hstr, Function.update_of_ne hct _ _,
    ?_, ?_, ?_⟩
  all_goals rw [System.addBuffer_buffer]
  · exact (not_alias (hi.counted.create memory 0).unused hc).symm
  · have hsame := add32_eq (a := s.heap.initialStart) (b := 0) hK
    rw [← hstart] at hsame
    exact hsame.symm
  · exact hstart.le

/-- What stays true of buffer `t` when it becomes `x`. -/
structure Flat.Stays (x y : Buffer) (K : ℕ) : Prop where
  apart : x.m_data ≠ y.m_data
  real : x.m_zeroAreaStart = x.m_zeroAreaEnd
  start_le : x.m_start ≤ K

theorem Flat.stays_addAtStart (hf : Flat s σ c y t l K) (hc : c ∈ s.live) (hn : n < 2 ^ 32) :
    Flat.Stays ((s.buffer t).addAtStart s.heap memory n).1 y K := by
  have hlt := hf.ordered.end_lt
  have hle := hf.ordered.start_le_end
  have hapart := moveData_apart memory hf.inv hf.mem_live hc
    (add32 (s.buffer t).getInternalSize n) n
  rw [hf.source] at hapart
  rw [Buffer.addAtStart]
  split_ifs with hgrow
  · exact ⟨hf.apart, hf.real,
      (sub32_eq hgrow.1 (by omega)).trans_le ((Nat.sub_le _ _).trans hf.start_le)⟩
  · -- in a block of its own
    refine ⟨hapart, congrArg (fun a ↦ add32 a _) hf.real, le_of_eq_of_le ?_ (Nat.zero_le K)⟩
    change sub32 (add32 (s.buffer t).m_start (sub32 n (s.buffer t).m_start)) n = 0
    rw [add32_sub32 le_rfl (by omega) hn (by omega), Nat.sub_self, Nat.zero_add, sub32_eq le_rfl hn,
      Nat.sub_self]

theorem Flat.stays_addAtEnd (hf : Flat s σ c y t l K) (hc : c ∈ s.live) :
    Flat.Stays ((s.buffer t).addAtEnd s.heap memory n).1 y K := by
  have hlt := hf.ordered.end_lt
  have hle := hf.ordered.start_le_end
  obtain rfl := hf.source
  have hapart := addAtEnd_apart memory hf.inv hf.mem_live hc hf.apart n
  rw [Buffer.addAtEnd] at hapart ⊢
  split_ifs at hapart ⊢ with hgrow
  · exact ⟨hapart, hf.real, hf.start_le⟩
  · -- in a block of its own
    refine ⟨hapart, congrArg (fun a ↦ add32 a _) hf.real, le_of_eq_of_le ?_ (Nat.zero_le K)⟩
    change add32 (s.buffer t).m_start (sub32 0 (s.buffer t).m_start) = 0
    rw [add32_sub32 le_rfl (by omega) (by decide) (by omega), Nat.sub_self]

theorem Flat.addAtStart (hf : Flat s σ c y t l K) (hc : c ∈ s.live) (hct : c ≠ t)
    (hlt : l.length + n < 2 ^ 32) :
    ∃ s' new, stepInBlock memory s (.addAtStart t n) = some s' ∧ new.length = n ∧
      s'.JustAdded t 0 n ∧ Flat s' σ c y t (new ++ l) K := by
  have hn : n < 2 ^ 32 := by omega
  have hx' := hf.stays_addAtStart memory hc hn
  rcases hx : (s.buffer t).addAtStart s.heap memory n with ⟨x, h⟩
  rw [hx] at hx'
  obtain ⟨hi', new, hnew, hstr⟩ := hf.inv.step_addAtStart hf.mem_live hn (by rwa [hf.getSize_eq]) hx
  refine ⟨_, new, stepInBlock_addAtStart memory hf.mem_live hn hx, hnew, ⟨_, rfl, rfl, ?_, ?_⟩, hi', ?_,
    (Function.update_of_ne hct _ _).trans hf.source, ?_, ?_, ?_⟩
  · rw [System.setBuffer_buffer]
    exact Nat.le_add_right _ _
  · rw [System.setBuffer_buffer]
    exact le_rfl
  · rw [hstr, hf.strings, Function.update_idem, Function.update_self, Option.map_some]
  all_goals rw [System.setBuffer_buffer]
  · exact hx'.apart
  · exact hx'.real
  · exact hx'.start_le

theorem Flat.addAtEnd (hf : Flat s σ c y t l K) (hc : c ∈ s.live) (hct : c ≠ t)
    (hlt : K + l.length + n < 2 ^ 32) :
    ∃ s' new, stepInBlock memory s (.addAtEnd t n) = some s' ∧ new.length = n ∧
      s'.beforeEnd t n = l.length ∧ s'.JustAdded t l.length n ∧ Flat s' σ c y t (l ++ new) K := by
  have hle := hf.start_le
  obtain ⟨s', new, hs', hnew, hbefore, hj, hi', hstr, hsource, hx, -⟩ := addAtEnd_spec memory
    (n := n) hf.inv hf.strings_self hct (by omega)
  have hstays := hf.stays_addAtEnd memory (n := n) hc
  rw [← hx] at hstays
  refine ⟨s', new, hs', hnew, hbefore, hj, hi', ?_, hsource.trans hf.source, hstays.apart,
    hstays.real, hstays.start_le⟩
  rw [hstr, hf.strings, Function.update_idem]

theorem Flat.write (hf : Flat s σ c y t l K) {w : Writer}
    (hj : s.JustAdded t offset w.bytes.length) :
    ∃ s', stepInBlock memory s (.write t offset w) = some s' ∧
      Flat s' σ c y t (overwrite l offset w.bytes) K := by
  obtain ⟨hb, hend, -⟩ := hf.inv.justAdded hj
  obtain ⟨hi', hstr⟩ := hf.inv.step_write hj
  have hin : InBlock s (.write t offset w) := by
    refine .inr (le_trans (Nat.add_le_add_right ?_ _) (hend.trans hf.end_le))
    rw [Writer.address, hf.zeroSize_eq]
    split_ifs
    · exact le_rfl
    · exact (sub32_eq (Nat.zero_le _) ((Nat.le_add_right _ _).trans_lt
        (hend.trans_lt hf.ordered.end_lt))).le
  refine ⟨_, (if_pos hin).trans (if_pos ⟨hb, hj⟩), hi', ?_, hf.source, hf.apart, hf.real, hf.start_le⟩
  rw [hstr, hf.strings, Function.update_idem, Function.update_self, Option.map_some]

theorem Flat.writeIterators (hf : Flat s σ c y t l K) (hl' : s.strings c = some l')
    (hn : n ≤ l'.length) (hj : s.JustAdded t offset n) :
    ∃ s', stepInBlock memory s
        (.writeIterators t offset c (y.getSize - n) y.getSize) = some s' ∧
      Inv s' ∧ s'.strings = Function.update σ t (some (overwrite l offset (l'.drop (l'.length - n)))) := by
  obtain rfl := hf.source
  have hc : c ∈ s.live := mem_live_iff.mpr (hl' ▸ Option.some_ne_none l')
  have hsize : (s.buffer c).getSize = l'.length := by
    rw [length_of_strings hf.inv hl', ← (hf.inv.ordered hc).getSize_eq]
  have hsub : (s.buffer c).getSize - ((s.buffer c).getSize - n) = n := by omega
  have hj' : s.JustAdded t offset ((s.buffer c).getSize - ((s.buffer c).getSize - n)) :=
    hsub.symm ▸ hj
  obtain ⟨hb, hend, -⟩ := hf.inv.justAdded hj
  obtain ⟨hi', hstr⟩ := hf.inv.step_writeIterators hc (Nat.sub_le _ _) le_rfl hj'
    (.inr (.inr hf.zeroSize_eq))
  have hin : InBlock s (.writeIterators t offset c ((s.buffer c).getSize - n) (s.buffer c).getSize) :=
    .inr (by rw [hsub]; exact hend.trans hf.end_le)
  refine ⟨_, (if_pos hin).trans (if_pos ⟨hb, hc, hf.apart, Nat.sub_le _ _, le_rfl, hj'⟩), hi', ?_⟩
  rw [hstr l' hl', hf.strings, Function.update_idem, Function.update_self, Option.map_some, hsub,
    hsize, List.take_of_length_le (by rw [List.length_drop]; omega)]

/-! ### The general path -/

theorem Ordered.bytes_eq {x : Buffer} {data : Data} {size : ℕ} (ho : Ordered x size) :
    x.bytes data = span data.m_data x.m_start (x.m_zeroAreaStart - x.m_start) ++
      (List.replicate (x.m_zeroAreaEnd - x.m_zeroAreaStart) 0 ++
        span data.m_data x.m_zeroAreaStart (x.m_end - x.m_zeroAreaEnd)) := by
  obtain ⟨h1, h2, h3, -⟩ := id ho
  have hsize : x.getSize = x.m_zeroAreaStart - x.m_start +
      (x.m_zeroAreaEnd - x.m_zeroAreaStart + (x.m_end - x.m_zeroAreaEnd)) := by
    rw [ho.getSize_eq]
    omega
  rw [bytes, hsize, span_add, span_add]
  congr 1
  · refine span_congr fun i hi ↦ ?_
    rw [ho.peekU8_eq (by omega), if_pos (by omega)]
  congr 1
  · refine span_eq_replicate fun i hi ↦ ?_
    rw [ho.peekU8_eq (by omega), if_neg (by omega), if_pos (by omega)]
  · refine span_congr fun i hi ↦ ?_
    rw [ho.peekU8_eq (by omega), if_neg (by omega), if_neg (by omega)]
    congr 1
    omega

theorem createFullCopy_spec (hi : Inv s) (hb : b ∈ s.live) (hc : c ∈ s.live) (ht : t ∉ s.live)
    (hne : (s.buffer b).m_data ≠ (s.buffer c).m_data) (hroom : Roomy s b c) :
    ∃ s', createFullCopy memory s b t = some s' ∧
      Flat s' s.strings c (s.buffer c) t ((s.buffer b).bytes (s.data b))
        (s.heap.initialStart + (s.buffer b).m_start) := by
  have ho := hi.ordered hb
  obtain ⟨h1, h2, h3, h4, -⟩ := id ho
  obtain ⟨hfit, hcard⟩ := hroom
  rw [ho.getSize_eq] at hfit
  have hct : c ≠ t := ne_of_mem_of_not_mem hc ht
  have hzero := ho.zeroSize_eq
  by_cases hz : (s.buffer b).zeroSize = 0
  · have hcount : (s.data b).m_count + 1 < 2 ^ 32 := by
      rw [System.data, hi.counted.count]
      have hle : refs s.live s.owner (s.buffer b).m_data ≤ s.live.card := Finset.card_filter_le _ _
      omega
    obtain ⟨hi', hstr⟩ := hi.step_copy ht hb hcount
    rw [System.strings_of_mem hb] at hstr
    refine ⟨_, (if_neg (not_not.mpr hz)).trans (stepInBlock_copy memory ht hb), hi', hstr,
      Function.update_of_ne hct _ _, ?_, ?_, ?_⟩
    all_goals rw [System.addBuffer_buffer]
    · exact hne
    · change (s.buffer b).m_zeroAreaStart = (s.buffer b).m_zeroAreaEnd
      omega
    · exact Nat.le_add_left _ _
  · rw [ho.bytes_eq]
    have hstart : sub32 (s.buffer b).m_zeroAreaStart (s.buffer b).m_start =
        (s.buffer b).m_zeroAreaStart - (s.buffer b).m_start := sub32_eq h1 (by omega)
    have hend : sub32 (s.buffer b).m_end (s.buffer b).m_zeroAreaEnd =
        (s.buffer b).m_end - (s.buffer b).m_zeroAreaEnd := sub32_eq h3 h4
    have hmem : ∀ {s' l}, Flat s' s.strings c (s.buffer c) t l s.heap.initialStart → c ∈ s'.live :=
      fun hf ↦ by
        rw [mem_live_iff, hf.strings, Function.update_of_ne hct]
        exact mem_live_iff.mp hc
    obtain ⟨s1, hs1, hf1⟩ := Flat.construct memory hi hc ht (by omega)
    obtain ⟨s2, new2, hs2, hnew2, hj2, hf2⟩ := hf1.addAtStart memory
      (n := (s.buffer b).zeroSize) (hmem hf1) hct (by rw [List.length_nil]; omega)
    obtain ⟨s3, hs3, hf3⟩ := hf2.write memory
      (w := .writeU8s 0 (s.buffer b).zeroSize) (by rwa [Writer.bytes, List.length_replicate])
    rw [Writer.bytes, overwrite_append_left (by rw [hnew2, List.length_replicate]),
      List.append_nil] at hf3
    obtain ⟨s4, new4, hs4, hnew4, hj4, hf4⟩ := hf3.addAtStart memory
      (n := (s.buffer b).m_zeroAreaStart - (s.buffer b).m_start) (hmem hf3) hct
      (by rw [List.length_replicate]; omega)
    obtain ⟨s5, hs5, hf5⟩ := hf4.write memory (w := .write (span (s.data b).m_data
      (s.buffer b).m_start ((s.buffer b).m_zeroAreaStart - (s.buffer b).m_start)))
      (by rwa [Writer.bytes, length_span])
    rw [Writer.bytes, overwrite_append_left (by rw [hnew4, length_span])] at hf5
    obtain ⟨s6, new6, hs6, hnew6, hbefore, hj6, hf6⟩ := hf5.addAtEnd memory
      (n := (s.buffer b).m_end - (s.buffer b).m_zeroAreaEnd) (hmem hf5) hct
      (by rw [List.length_append, length_span, List.length_replicate]; omega)
    obtain ⟨s7, hs7, hf7⟩ := hf6.write memory (w := .write (span (s.data b).m_data
      (s.buffer b).m_zeroAreaStart ((s.buffer b).m_end - (s.buffer b).m_zeroAreaEnd)))
      (by rwa [Writer.bytes, length_span])
    rw [Writer.bytes, overwrite_append_right (by rw [hnew6, length_span]), List.append_assoc, hzero]
      at hf7
    refine ⟨s7, ?_, hf7.mono (Nat.le_add_right _ _)⟩
    rw [createFullCopy]
    simp only [ne_eq, hz, not_false_eq_true, if_true, hs1, hs2, hs3, hstart, hs4, hs5, hend, hs6,
      hbefore, hs7, Option.bind_eq_bind, Option.bind_some]

theorem Flat.assign (hf : Flat s σ c y t l K) (hb : σ b = some l) (ht : σ t = none) (hcb : c ≠ b)
    (hct : c ≠ t) (hcard : s.live.card + 1 < 2 ^ 32) :
    ∃ s' s'', stepInBlock memory s (.assign b t) = some s' ∧
      stepInBlock memory s' (.destroy t) = some s'' ∧ Flat s'' σ c y b l K := by
  have hbt : b ≠ t := by
    rintro rfl
    rw [hb] at ht
    exact Option.some_ne_none l ht
  have hmem : b ∈ s.live := by
    rw [mem_live_iff, hf.strings, Function.update_of_ne hbt, hb]
    exact Option.some_ne_none l
  obtain ⟨hi', hstr⟩ := hf.inv.step_assign hmem hf.mem_live fun _ ↦ by
    rw [System.data, hf.inv.counted.count]
    have hle : refs s.live s.owner (s.buffer t).m_data ≤ s.live.card := Finset.card_filter_le _ _
    omega
  have hlive := hf.mem_live
  obtain ⟨hi'', hstr'⟩ := hi'.step_destroy hlive rfl
  refine ⟨_, _, stepInBlock_assign memory hmem hlive, stepInBlock_destroy memory hlive, hi'', ?_,
    (Function.update_of_ne hcb _ _).trans hf.source, ?_, ?_, ?_⟩
  · rw [hstr', hstr, hf.strings, Function.update_self, Function.update_comm hbt,
      Function.update_idem, ← ht, Function.update_eq_self]
  all_goals
    have hself : (s.setBuffer b ((s.buffer b).assign s.heap (s.buffer t)).1
      ((s.buffer b).assign s.heap (s.buffer t)).2 none).buffer b = s.buffer t :=
        System.setBuffer_buffer _ _ _
  · change (System.buffer _ b).m_data ≠ y.m_data
    rw [hself]
    exact hf.apart
  · change (System.buffer _ b).m_zeroAreaStart = (System.buffer _ b).m_zeroAreaEnd
    rw [hself]
    exact hf.real
  · change (System.buffer _ b).m_start ≤ K
    rw [hself]
    exact hf.start_le

theorem Flat.appendLast (hf : Flat s σ c y b l K) (hl' : s.strings c = some l')
    (hn : n ≤ l'.length) (hcb : c ≠ b) (hlt : K + l.length + n < 2 ^ 32) :
    ∃ s', appendLast memory s b c n = some s' ∧ Inv s' ∧
      s'.strings = Function.update σ b (some (l ++ l'.drop (l'.length - n))) := by
  have hc : c ∈ s.live := mem_live_iff.mpr (hl' ▸ Option.some_ne_none l')
  obtain ⟨s1, new, hs1, hnew, hbefore, hj, hf1⟩ := hf.addAtEnd memory hc hcb hlt
  have hl1 : s1.strings c = some l' := by
    rw [hf1.strings, Function.update_of_ne hcb, ← hl', hf.strings, Function.update_of_ne hcb]
  obtain ⟨s2, hs2, hi2, hstr⟩ := hf1.writeIterators memory hl1 hn hj
  refine ⟨s2, ?_, hi2, ?_⟩
  · rw [Buffer.appendLast, hf.source]
    simp only [hs1, hbefore, hs2, Option.bind_eq_bind, Option.bind_some]
  · rw [hstr, overwrite_append_right (by rw [List.length_drop, hnew]; omega)]

/-- **The general path appends.** -/
theorem append_of_not_merges (hi : Inv s) (hb : b ∈ s.live) (hc : c ∈ s.live) (ht : t ∉ s.live)
    (hne : (s.buffer b).m_data ≠ (s.buffer c).m_data) (hroom : Roomy s b c)
    (hm : ¬Merges s b c) :
    ∃ s', append memory s b c t = some s' ∧ Inv s' ∧ s'.strings = Function.update s.strings b
      (some ((s.buffer b).bytes (s.data b) ++ (s.buffer c).bytes (s.data c))) := by
  have hcb : c ≠ b := by
    rintro rfl
    exact hne rfl
  have hct : c ≠ t := ne_of_mem_of_not_mem hc ht
  obtain ⟨s1, hs1, hf1⟩ := createFullCopy_spec memory hi hb hc ht hne hroom
  obtain ⟨hfit, hcard⟩ := hroom
  have hlive : s1.live = insert t s.live := by
    ext a
    rw [mem_live_iff, hf1.strings, Finset.mem_insert, mem_live_iff (s := s)]
    by_cases hat : a = t
    · simp [hat]
    · simp [hat]
  obtain ⟨s2, s3, hs2, hs3, hf3⟩ := hf1.assign memory (System.strings_of_mem hb) (if_neg ht)
    hcb hct (by rw [hlive, Finset.card_insert_of_notMem ht]; omega)
  have hlen : ((s.buffer c).bytes (s.data c)).length = (s.buffer c).getSize := length_span
  have hl' : s3.strings c = some ((s.buffer c).bytes (s.data c)) := by
    rw [hf3.strings, Function.update_of_ne hcb, System.strings_of_mem hc]
  obtain ⟨s4, hs4, hi4, hstr⟩ := hf3.appendLast memory (n := (s.buffer c).getSize) hl'
    hlen.ge hcb (by rw [bytes, length_span]; exact hfit)
  refine ⟨s4, ?_, hi4, ?_⟩
  · rw [append]
    simp only [if_neg hm, hs1, hs2, hs3, hs4, Option.bind_eq_bind, Option.bind_some]
  · rw [hstr, hlen, Nat.sub_self, List.drop_zero]

/-! ### The merging path -/

theorem mergeZeroAreas_spec (hi : Inv s) (hb : b ∈ s.live) (hc : c ∈ s.live) (hroom : Roomy s b c)
    (hm : Merges s b c) :
    Inv (mergeZeroAreas s b c) ∧
      (mergeZeroAreas s b c).strings = Function.update s.strings b
        (some ((s.buffer b).bytes (s.data b) ++ List.replicate (s.buffer c).zeroSize 0)) ∧
      (mergeZeroAreas s b c).buffer b = { s.buffer b with
        m_zeroAreaEnd := (s.buffer b).m_zeroAreaEnd + (s.buffer c).zeroSize
        m_end := (s.buffer b).m_zeroAreaEnd + (s.buffer c).zeroSize } ∧
      (mergeZeroAreas s b c).data b = { s.data b with
        m_dirtyEnd := (s.buffer b).m_zeroAreaEnd + (s.buffer c).zeroSize } := by
  obtain ⟨hone, hend, hdirty, -, -⟩ := hm
  have ho := hi.ordered hb
  have hoc := hi.ordered hc
  obtain ⟨h1, h2, h3, h4, h5⟩ := id ho
  have hfit := hroom.1
  rw [ho.getSize_eq, hoc.getSize_eq] at hfit
  have hzle : (s.buffer c).zeroSize ≤ (s.buffer c).m_end - (s.buffer c).m_start := by
    obtain ⟨h1, h2, h3, -⟩ := id hoc
    rw [hoc.zeroSize_eq]
    omega
  generalize hz : (s.buffer c).zeroSize = zeros at hzle
  have hlt : (s.buffer b).m_zeroAreaEnd + zeros < 2 ^ 32 := by omega
  set x : Buffer := { s.buffer b with
    m_zeroAreaEnd := (s.buffer b).m_zeroAreaEnd + zeros
    m_end := (s.buffer b).m_zeroAreaEnd + zeros } with hx
  set data : Data := { s.data b with m_dirtyEnd := (s.buffer b).m_zeroAreaEnd + zeros } with hdata
  have heq : mergeZeroAreas s b c =
      s.setBuffer b x (s.heap.setData (s.buffer b).m_data data) none := by
    rw [mergeZeroAreas, hz, add32_eq hlt]
  have hself : (s.heap.setData (s.buffer b).m_data data).data x.m_data = data := Heap.setData_self
  have halone : ∀ c' ∈ s.live, c' ≠ b → (s.buffer c').m_data = x.m_data → False := fun c' hc' hcb hd ↦ by
    have hcount := hi.one_lt_count hb hc' hcb hd
    omega
  obtain ⟨z, hzb, -⟩ := hi.alias hb
  have hox : Ordered x data.m_size := by
    refine ⟨h1, ?_, le_rfl, hlt, ?_⟩ <;> simp only [hx, hdata] <;> omega
  have halias : Alias ((s.heap.setData (s.buffer b).m_data data).data x.m_data)
      (x.m_zeroAreaEnd - x.m_zeroAreaStart) x := by
    rw [hself]
    refine ⟨hox, hzb.dirtyStart_le, le_rfl, le_rfl, ?_⟩
    simp only [hx, hdata]
    omega
  obtain ⟨hi', hstr⟩ := hi.update (s.setBuffer b x (s.heap.setData (s.buffer b).m_data data) none)
    (Finset.insert_eq_self.mpr hb).symm rfl
    ((hi.counted.setData (show data.m_count = (s.data b).m_count from rfl)).congr
      fun e ↦ refs_setBuffer (s := s) (b := b) (x := x) rfl e)
    (fun e he ↦ by
      change SameArea _ ((s.heap.setData (s.buffer b).m_data data).data e)
      rw [Heap.setData_of_ne he]
      exact .refl _)
    ⟨x.m_zeroAreaEnd - x.m_zeroAreaStart, halias, fun c' hc' hcb hd ↦ (halone c' hc' hcb hd).elim⟩
    (fun c' hc' hcb hd ↦ (halone c' hc' hcb hd).elim) (not_added rfl)
  rw [heq]
  refine ⟨hi', hstr.trans ?_, System.setBuffer_buffer _ _ _, ?_⟩
  · change Function.update s.strings b
      (some (x.bytes ((s.heap.setData (s.buffer b).m_data data).data x.m_data))) = _
    rw [hself, hox.bytes_eq, ho.bytes_eq]
    have hfront : (s.buffer b).m_end - (s.buffer b).m_zeroAreaEnd = 0 := by omega
    have hzeros : x.m_zeroAreaEnd - x.m_zeroAreaStart =
        (s.buffer b).m_zeroAreaEnd - (s.buffer b).m_zeroAreaStart + zeros := by
      simp only [hx]
      omega
    rw [hfront, hzeros, List.replicate_add]
    simp [hx, hdata, span]
  · rw [System.data, System.setBuffer_buffer]
    exact hself

theorem Roomy.merged_lt (hroom : Roomy s b c) (hi : Inv s) (hc : c ∈ s.live) :
    (s.buffer b).m_start + (((s.buffer b).bytes (s.data b) ++
      List.replicate (s.buffer c).zeroSize (0 : UInt8)).length) +
        ((s.buffer c).m_end - (s.buffer c).m_zeroAreaEnd) < 2 ^ 32 := by
  have hfit := hroom.1
  obtain ⟨h1, h2, h3, -⟩ := hi.ordered hc
  rw [(hi.ordered hc).getSize_eq] at hfit
  rw [List.length_append, List.length_replicate, bytes, length_span, (hi.ordered hc).zeroSize_eq]
  omega

/-- **The merging path appends a buffer that ends in its zero area.** -/
theorem append_of_merges (hi : Inv s) (hb : b ∈ s.live) (hc : c ∈ s.live)
    (hne : (s.buffer b).m_data ≠ (s.buffer c).m_data) (hroom : Roomy s b c) (hm : Merges s b c)
    (htail : (s.buffer c).m_zeroAreaEnd = (s.buffer c).m_end) :
    ∃ s', append memory s b c t = some s' ∧ Inv s' ∧ s'.strings = Function.update s.strings b
      (some ((s.buffer b).bytes (s.data b) ++ (s.buffer c).bytes (s.data c))) := by
  have hcb : c ≠ b := by
    rintro rfl
    exact hne rfl
  have hoc := hi.ordered hc
  obtain ⟨hi1, hstr1, hbuf1, -⟩ := mergeZeroAreas_spec hi hb hc hroom hm
  have hsource : (mergeZeroAreas s b c).buffer c = s.buffer c := Function.update_of_ne hcb _ _
  have hzeros : (s.buffer c).bytes (s.data c) = List.replicate (s.buffer c).zeroSize 0 := by
    obtain ⟨-, -, -, hstart, -⟩ := hm
    rw [hoc.bytes_eq, hoc.zeroSize_eq, htail, hstart, Nat.sub_self, Nat.sub_self]
    simp [span]
  have hlt := hroom.merged_lt hi hc
  rw [htail, Nat.sub_self, ← hzeros] at hlt
  rw [← hzeros] at hstr1
  set l := (s.buffer b).bytes (s.data b) ++ (s.buffer c).bytes (s.data c) with hl
  have hl1 : (mergeZeroAreas s b c).strings b = some l := by rw [hstr1, Function.update_self]
  obtain ⟨s2, new, hs2, hnew, hbefore, hj, hi2, hstr2, hsource2, hbuf2, -⟩ := addAtEnd_spec
    memory hi1 hl1 hcb (by rwa [hbuf1])
  obtain rfl := List.eq_nil_of_length_eq_zero hnew
  rw [List.append_nil, hstr1, Function.update_idem] at hstr2
  have hc2 : c ∈ s2.live := by
    rw [mem_live_iff, hstr2, Function.update_of_ne hcb]
    exact mem_live_iff.mp hc
  have hne2 : (s2.buffer b).m_data ≠ (s2.buffer c).m_data := by
    rw [hbuf2, hsource2]
    refine addAtEnd_apart memory hi1 (mem_live_iff.mpr (hl1 ▸ Option.some_ne_none l)) ?_ ?_ 0
    · rw [mem_live_iff, hstr1, Function.update_of_ne hcb]
      exact mem_live_iff.mp hc
    · rw [hbuf1, hsource]
      exact hne
  obtain ⟨hb2, -, -⟩ := hi2.justAdded hj
  have hj2 : s2.JustAdded b l.length ((s2.buffer c).getSize - (s2.buffer c).getSize) :=
    (Nat.sub_self _).symm ▸ hj
  obtain ⟨hi3, hstr3⟩ := hi2.step_writeIterators hc2 le_rfl le_rfl hj2 (.inl rfl)
  have hs3 : stepInBlock memory s2 (.writeIterators b l.length c (s2.buffer c).getSize
      (s2.buffer c).getSize) = some _ :=
    (if_pos (.inl rfl)).trans (if_pos ⟨hb2, hc2, hne2, le_rfl, le_rfl, hj2⟩)
  rw [hsource2.trans hsource] at hs3 hi3 hstr3
  refine ⟨_, ?_, hi3, ?_⟩
  · rw [append]
    have hsub : sub32 (s.buffer c).m_end (s.buffer c).m_zeroAreaEnd = 0 := by
      rw [htail, sub32_eq le_rfl hoc.end_lt, Nat.sub_self]
    simp only [if_pos hm, hsub, Buffer.appendLast, hs2, hsource, hbefore, Option.bind_eq_bind,
      Option.bind_some, Nat.sub_zero]
    exact hs3
  · have hl' : s2.strings c = some ((s.buffer c).bytes (s.data c)) := by
      rw [hstr2, Function.update_of_ne hcb, System.strings_of_mem hc]
    have hempty := @overwrite_append_right UInt8 l [] [] rfl
    rw [List.append_nil] at hempty
    rw [hstr3 _ hl', hstr2, Function.update_idem, Function.update_self, Option.map_some, Nat.sub_self,
      List.take_zero, hempty]

end Flat

/-! ## What the merging path leaves behind

Memory that no buffer uses contains bytes `v`. -/

section Stale

variable {s : System} {h : Heap} {r : ℕ → ℕ} {x : Buffer} {b c t n i newSize : ℕ} {v : UInt8}

theorem create_unused (hc : h.Counted r) (hv : ∀ d, r d = 0 → ∀ i, (h.data d).m_data i = v)
    (n i : ℕ) :
    ((h.create (fun _ _ ↦ v) n).2.data (h.create (fun _ _ ↦ v) n).1).m_data i = v := by
  rw [Heap.create]
  cases hpop : h.popFree n h.g_freeList with
  | some p =>
    obtain ⟨d, rest⟩ := p
    obtain ⟨-, hsub⟩ := Heap.popFree_eq_some hpop
    have hself := @Heap.setData_self h d { h.data d with m_count := 1 }
    have hd := (hc.free d (hsub.subset List.mem_cons_self)).1
    exact (congrArg (fun data ↦ Data.m_data data i) hself).trans (hv d hd i)
  | none => exact congrArg (fun data ↦ Data.m_data data i) (Function.update_self h.allocated _ h.data)

theorem moveData_behind (hc : h.Counted r) (hx : 0 < r x.m_data)
    (hv : ∀ d, r d = 0 → ∀ i, (h.data d).m_data i = v) (hi : x.getInternalSize ≤ i) {d : ℕ}
    {h' : Heap} (hmove : x.moveData h (fun _ _ ↦ v) newSize 0 = (d, h')) :
    (h'.data d).m_data i = v := by
  have hcr := hc.create (fun _ _ ↦ v) newSize
  have hbytes := create_unused hc hv newSize i
  rcases hp : h.create (fun _ _ ↦ v) newSize with ⟨e, h1⟩
  rw [hp] at hcr hbytes
  rw [Buffer.moveData, hp] at hmove
  simp only [Prod.mk.injEq] at hmove
  dsimp only at hcr hbytes
  have hpos : 0 < r x.m_data + if x.m_data = e then 1 else 0 := by omega
  have hnot : 0 + x.getInternalSize ≤ i := (Nat.zero_add _).trans_le hi
  obtain ⟨rfl, hmove⟩ := hmove
  generalize hh : h1.setData e _ = h2 at hmove
  have hset : h2.Counted fun d ↦ r d + if d = e then 1 else 0 := by
    rw [← hh]
    exact hcr.counted.setData rfl
  obtain ⟨-, hsame, -⟩ := hset.release hpos
  rw [← hmove, (hsame e).bytes, ← hh, Heap.setData_self]
  dsimp only
  rw [blit_of_not_mem (.inr hnot), hbytes]

theorem addAtEnd_stale (hi : Inv s) (hb : b ∈ s.live)
    (hlt : (s.buffer b).m_end + n < 2 ^ 32) (hend : (s.buffer b).m_end = (s.buffer b).m_zeroAreaEnd)
    (hv : ∀ d, refs s.live s.owner d = 0 → ∀ i, (s.heap.data d).m_data i = v)
    (hv' : (s.data b).m_data (s.buffer b).m_zeroAreaStart = v) {y : Buffer} {h : Heap}
    (hy : (s.buffer b).addAtEnd s.heap (fun _ _ ↦ v) n = (y, h)) :
    (h.data y.m_data).m_data y.m_zeroAreaStart = v ∧ y.m_zeroAreaEnd + n = y.m_end ∧
      y.m_zeroAreaEnd - y.m_zeroAreaStart =
        (s.buffer b).m_zeroAreaEnd - (s.buffer b).m_zeroAreaStart := by
  have ho := hi.ordered hb
  obtain ⟨h1, h2, h3, h4, -⟩ := id ho
  rw [Buffer.addAtEnd] at hy
  split_ifs at hy with hgrow
  · rw [add32_eq hlt] at hy
    obtain ⟨rfl, rfl⟩ := Prod.mk.inj hy
    simp only [learn, Heap.setData_self]
    exact ⟨hv', by rw [hend], trivial⟩
  · -- in a block of its own
    have hpos : 0 < refs s.live s.owner (s.buffer b).m_data := refs_pos hb
    rcases hp : (s.buffer b).moveData s.heap (fun _ _ ↦ v) (add32 (s.buffer b).getInternalSize n) 0
      with ⟨d, h'⟩
    have hbehind := moveData_behind hi.counted hpos hv le_rfl hp
    rw [hp] at hy
    have hshift : ∀ a, (s.buffer b).m_start ≤ a → a ≤ (s.buffer b).m_end →
        add32 a (sub32 0 (s.buffer b).m_start) = a - (s.buffer b).m_start + 0 := fun a ha ha' ↦
      add32_sub32 ha (by omega) (by decide) (by omega)
    rw [shift, hshift _ le_rfl ho.start_le_end, hshift _ h1 (h2.trans h3), hshift _ (h1.trans h2) h3,
      hshift _ ho.start_le_end le_rfl] at hy
    dsimp only at hy
    rw [add32_eq (by omega)] at hy
    obtain ⟨rfl, rfl⟩ := Prod.mk.inj hy
    have hsize : (s.buffer b).m_zeroAreaStart - (s.buffer b).m_start + 0 =
        (s.buffer b).getInternalSize := by
      rw [ho.getInternalSize_eq]
      omega
    simp only [learn, Heap.setData_self]
    rw [hsize]
    exact ⟨hbehind, by omega, by omega⟩

theorem strings_setData (hb : b ∈ s.live) (data : Data) :
    (s.setData b data).strings b = some ((s.buffer b).bytes data) := by
  have hmem : b ∈ (s.setData b data).live := hb
  rw [System.strings_of_mem hmem]
  exact congrArg (fun data ↦ some ((s.buffer b).bytes data)) Heap.setData_self

/-- What `Write (start, end)` does not reach: the byte behind the zero area keeps its value. -/
theorem getElem?_bytes_stale {size : ℕ} (data : Data) (g : ℕ → UInt8) (ho : Ordered x size)
    (hend : x.m_zeroAreaEnd + n = x.m_end) (hn : 0 < n) (hzero : x.m_zeroAreaStart < x.m_zeroAreaEnd) :
    (x.bytes { data with m_data := blit data.m_data x.m_zeroAreaEnd g n })[x.m_zeroAreaEnd - x.m_start]?
      = some (data.m_data x.m_zeroAreaStart) := by
  obtain ⟨h1, h2, h3, h4, -⟩ := id ho
  have hlt : x.m_zeroAreaEnd - x.m_start < x.getSize := by
    rw [ho.getSize_eq]
    omega
  have haddr : x.m_start + (x.m_zeroAreaEnd - x.m_start) = x.m_zeroAreaEnd := by omega
  rw [List.getElem?_eq_getElem (by rwa [bytes, length_span])]
  simp only [bytes, getElem_span, haddr]
  rw [ho.peekU8_eq (by omega), if_neg (by omega), if_neg (lt_irrefl _), Nat.sub_sub_self h2]
  exact congrArg some (blit_of_not_mem (.inl hzero))

/-- **The merging path does not append a buffer that goes on behind its zero area**, unless the memory
already contains its bytes. -/
theorem not_appends_of_merges (hi : Inv s) (hb : b ∈ s.live) (hc : c ∈ s.live)
    (hne : (s.buffer b).m_data ≠ (s.buffer c).m_data) (hroom : Roomy s b c) (hm : Merges s b c)
    (htail : (s.buffer c).m_zeroAreaEnd ≠ (s.buffer c).m_end)
    (hv : ∀ d, refs s.live s.owner d = 0 → ∀ i, (s.heap.data d).m_data i = v)
    (hv' : (s.data b).m_data (s.buffer b).m_zeroAreaStart = v)
    (hne' : ((s.buffer c).bytes (s.data c))[(s.buffer c).zeroSize]? ≠ some v) :
    ¬Appends (fun _ _ ↦ v) s b c t := by
  rintro ⟨l, hl, l', hl', s3, happ, hstr3⟩
  have hcb : c ≠ b := by
    rintro rfl
    exact hne rfl
  rw [System.strings_of_mem hb] at hl
  rw [System.strings_of_mem hc] at hl'
  obtain rfl := Option.some.inj hl
  obtain rfl := Option.some.inj hl'
  have ho := hi.ordered hb
  have hoc := hi.ordered hc
  have hle := hoc.zeroAreaEnd_le
  obtain ⟨hi1, hstr1, hbuf1, hdata1⟩ := mergeZeroAreas_spec hi hb hc hroom hm
  have hsource : (mergeZeroAreas s b c).buffer c = s.buffer c := Function.update_of_ne hcb _ _
  have hlt := hroom.merged_lt hi hc
  set l := (s.buffer b).bytes (s.data b) ++ List.replicate (s.buffer c).zeroSize 0 with hl
  have hl1 : (mergeZeroAreas s b c).strings b = some l := by rw [hstr1, Function.update_self]
  obtain ⟨s2, new, hs2, hnew, hbefore, hj, hi2, hstr2, hsource2, hbuf2, hheap2⟩ := addAtEnd_spec
    (fun _ _ ↦ v) hi1 hl1 hcb (by rwa [hbuf1])
  have hb1 : b ∈ (mergeZeroAreas s b c).live := mem_live_iff.mpr (hl1 ▸ Option.some_ne_none l)
  rcases hy : ((mergeZeroAreas s b c).buffer b).addAtEnd (mergeZeroAreas s b c).heap (fun _ _ ↦ v)
    ((s.buffer c).m_end - (s.buffer c).m_zeroAreaEnd) with ⟨y, h⟩
  rw [hy] at hbuf2 hheap2
  dsimp only at hbuf2 hheap2
  obtain ⟨-, hend, -, -, hpos⟩ := id hm
  obtain ⟨h1, h2, h3, -⟩ := id ho
  have hlen : l.length = (s.buffer b).m_end - (s.buffer b).m_start + (s.buffer c).zeroSize := by
    rw [hl, List.length_append, List.length_replicate, bytes, length_span, ho.getSize_eq]
  have howner : (mergeZeroAreas s b c).owner = s.owner := by
    funext a
    by_cases hab : a = b
    · rw [hab, System.owner, hbuf1]
      rfl
    · exact congrArg m_data (Function.update_of_ne hab _ _)
  have hunused : ∀ d, refs (mergeZeroAreas s b c).live (mergeZeroAreas s b c).owner d = 0 →
      ∀ i, ((mergeZeroAreas s b c).heap.data d).m_data i = v := by
    intro d hd
    rw [howner] at hd
    have hdb : d ≠ (s.buffer b).m_data := (not_alias hd hb).symm
    have hsame : (mergeZeroAreas s b c).heap.data d = s.heap.data d := Heap.setData_of_ne hdb
    rw [hsame]
    exact hv d hd
  obtain ⟨hstale, hyend, hyzero⟩ := addAtEnd_stale hi1 hb1
    (by rw [hbuf1]; dsimp only; omega) (by rw [hbuf1]) hunused (by rw [hdata1, hbuf1]; exact hv') hy
  rw [hbuf1] at hyzero
  dsimp only at hyzero
  have hb2 : b ∈ s2.live := by
    rw [mem_live_iff, hstr2, Function.update_self]
    exact Option.some_ne_none _
  have hoy := hi2.ordered hb2
  have hylen := length_of_strings hi2 (hstr2 ▸ Function.update_self _ _ _)
  rw [hbuf2] at hoy hylen
  rw [List.length_append, hnew] at hylen
  obtain ⟨hy1, hy2, hy3, hy4, -⟩ := id hoy
  -- the step that writes
  have hsub : sub32 (s.buffer c).m_end (s.buffer c).m_zeroAreaEnd =
      (s.buffer c).m_end - (s.buffer c).m_zeroAreaEnd := sub32_eq hle hoc.end_lt
  rw [append] at happ
  simp only [if_pos hm, appendLast, hsub, hs2, hbefore, hsource, Option.bind_eq_bind,
    Option.bind_some] at happ
  simp only [stepInBlock, Option.ite_none_right_eq_some, machine, Option.some_inj] at happ
  obtain ⟨-, ⟨-, hc2, -, -, -, -⟩, rfl⟩ := happ
  have hoc2 := hi2.ordered hc2
  rw [hsource2.trans hsource] at hoc2 hstr3
  obtain ⟨hc3, hc4, hc5, -⟩ := id hoc
  have hcount : (s.buffer c).m_start + ((s.buffer c).m_end - (s.buffer c).m_start) -
      ((s.buffer c).m_start + ((s.buffer c).m_end - (s.buffer c).m_start -
        ((s.buffer c).m_end - (s.buffer c).m_zeroAreaEnd))) =
          (s.buffer c).m_end - (s.buffer c).m_zeroAreaEnd := by omega
  have hplace : y.m_start + l.length = y.m_zeroAreaEnd := by omega
  rw [hoc.getSize_eq, writeIterators_eq hoc2 _ _ (by omega) (by omega) (by omega)
    (by rw [hbuf2]; omega), hcount, hbuf2, hplace] at hstr3
  -- the byte behind the zero area
  have hbytes := congrFun hstr3 b
  rw [strings_setData hb2, Function.update_self, Option.some_inj, hbuf2] at hbytes
  have hdata2 : (s2.data b).m_data y.m_zeroAreaStart = v := by
    rw [System.data, hbuf2, hheap2]
    exact hstale
  have hbyte := getElem?_bytes_stale (s2.data b) (fun i ↦ (s.buffer c).peekU8 (s2.data c)
    ((s.buffer c).m_start + ((s.buffer c).m_end - (s.buffer c).m_start -
      ((s.buffer c).m_end - (s.buffer c).m_zeroAreaEnd)) + i)) hoy hyend (by omega) (by omega)
  have hindex : y.m_zeroAreaEnd - y.m_start =
      ((s.buffer b).bytes (s.data b)).length + (s.buffer c).zeroSize := by
    rw [bytes, length_span, ho.getSize_eq]
    omega
  rw [hbytes, hdata2, hindex, List.getElem?_append_right (Nat.le_add_right _ _),
    Nat.add_sub_cancel_left] at hbyte
  exact hne' hbyte

end Stale

/-! ## All runs -/

section Runs

variable (memory : ℕ → ℕ → UInt8) {s s' : System} {b c t : ℕ}

/-- **Where the zero areas are not merged over a tail, the operation appends.** -/
theorem append_spec (hi : Inv s) (hb : b ∈ s.live) (hc : c ∈ s.live) (ht : t ∉ s.live)
    (hne : (s.buffer b).m_data ≠ (s.buffer c).m_data) (hroom : Roomy s b c)
    (hok : Merges s b c → (s.buffer c).m_zeroAreaEnd = (s.buffer c).m_end) :
    ∃ s', append memory s b c t = some s' ∧ Inv s' ∧ s'.strings = Function.update s.strings b
      (some ((s.buffer b).bytes (s.data b) ++ (s.buffer c).bytes (s.data c))) := by
  by_cases hm : Merges s b c
  · exact append_of_merges memory hi hb hc hne hroom hm (hok hm)
  · exact append_of_not_merges memory hi hb hc ht hne hroom hm

theorem inv_concat_step (hi : Inv s) {op : ConcatOp} (hok : ConcatFits s op)
    (hs : (concatMachine memory).next s op = some s') : Inv s' := by
  cases op with
  | basic op => exact (inv_step hi hok hs).1
  | append b c t =>
    simp only [concatMachine, Option.ite_none_right_eq_some] at hs
    obtain ⟨⟨hb, hc, ht, hne⟩, hs⟩ := hs
    obtain ⟨s'', hs'', hi'', -⟩ := append_spec memory hi hb hc ht hne hok.1 hok.2
    rw [hs, Option.some_inj] at hs''
    exact hs'' ▸ hi''

theorem Inv.withMemory (hi : Inv s) (m : ℕ → ℕ → UInt8) : Inv (s.withMemory m) where
  counted := ⟨hi.counted.count, hi.counted.count_lt, hi.counted.allocated, hi.counted.free,
    hi.counted.nodup⟩
  shared d := by
    obtain ⟨z, hz⟩ := hi.shared d
    exact ⟨z, fun b hb hd ↦ (hz b hb hd).setBytes (m d)⟩
  added a ha := by
    obtain ⟨h1, h2, h3, h4⟩ := hi.added a ha
    exact ⟨h1, h2, h3, h4⟩

/-- Memory that contains `v` where no buffer has a byte: in unused blocks, and behind buffer `b`. -/
def System.fill (s : System) (b : ℕ) (v : UInt8) (d i : ℕ) : UInt8 :=
  if refs s.live s.owner d = 0 ∨ (d = (s.buffer b).m_data ∧ i = (s.buffer b).m_zeroAreaStart) then v
  else (s.heap.data d).m_data i

theorem strings_fill (hi : Inv s) (hb : b ∈ s.live) (hm : Merges s b c) (v : UInt8) :
    (s.withMemory (s.fill b v)).strings = s.strings := by
  funext a
  by_cases ha : a ∈ s.live
  · have ha' : a ∈ (s.withMemory (s.fill b v)).live := ha
    rw [System.strings_of_mem ha, System.strings_of_mem ha']
    refine congrArg some ((hi.ordered ha).bytes_congr fun i _ hlt ↦ if_neg ?_)
    rintro (hzero | ⟨hd, rfl⟩)
    · exact (refs_pos ha).ne' hzero
    · by_cases hab : a = b
      · subst hab
        have ho := hi.ordered ha
        have hzero := ho.zeroAreaStart_le
        have hend := hm.2.1
        omega
      · have hcount := hi.one_lt_count hb ha hab hd
        have hone := hm.1
        omega
  · rw [System.strings, System.strings, if_neg ha]
    exact if_neg ha

/-- **Concatenation is right when, and only when, it does not merge zero areas in front of a tail**,
whatever the memory contains that no buffer has for its bytes. -/
theorem appends_iff (memory : ℕ → ℕ → UInt8) {ops : List ConcatOp} {s : System}
    (hr : (concatMachine memory).Run ConcatFits ops s) {b c t : ℕ} (hb : b ∈ s.live) (hc : c ∈ s.live)
    (ht : t ∉ s.live) (hne : (s.buffer b).m_data ≠ (s.buffer c).m_data) (hroom : Roomy s b c) :
    (∀ memory' m, (s.withMemory m).strings = s.strings → Appends memory' (s.withMemory m) b c t) ↔
      (Merges s b c → (s.buffer c).m_zeroAreaEnd = (s.buffer c).m_end) := by
  have hinit : Inv (concatMachine memory).init := inv_init memory
  have hi : Inv s := hr.invariant hinit fun _ _ _ hi hok hs ↦ inv_concat_step memory hi hok hs
  constructor
  · intro happ hm
    by_contra htail
    have hoc := hi.ordered hc
    obtain ⟨h1, h2, h3, -⟩ := id hoc
    have hlt : (s.buffer c).zeroSize < ((s.buffer c).bytes (s.data c)).length := by
      rw [bytes, length_span, hoc.getSize_eq, hoc.zeroSize_eq]
      omega
    obtain ⟨w, hw⟩ : ∃ w, ((s.buffer c).bytes (s.data c))[(s.buffer c).zeroSize]? = some w :=
      ⟨_, List.getElem?_eq_getElem hlt⟩
    have hfill := strings_fill hi hb hm (w + 1)
    refine not_appends_of_merges (v := w + 1) (hi.withMemory (s.fill b (w + 1))) hb hc hne hroom hm
      htail (fun d hd i ↦ if_pos (.inl hd)) (if_pos (.inr ⟨rfl, rfl⟩)) ?_ (happ _ _ hfill)
    have hsame := congrFun hfill c
    have hc' : c ∈ (s.withMemory (s.fill b (w + 1))).live := hc
    rw [System.strings_of_mem hc, System.strings_of_mem hc', Option.some_inj] at hsame
    change ((System.buffer _ c).bytes (System.data _ c))[(s.buffer c).zeroSize]? ≠ _
    rw [hsame, hw, ne_eq, Option.some_inj]
    intro h
    simp at h
  · intro hok memory' m hstr
    obtain ⟨s', hs', -, hstr'⟩ := append_spec memory' (hi.withMemory m) hb hc ht hne hroom
      hok
    exact ⟨_, System.strings_of_mem (s := s.withMemory m) hb, _,
      System.strings_of_mem (s := s.withMemory m) hc, s', hs', hstr'⟩

end Runs

/-! ## A tail behind a zero area -/

instance (s : System) : ∀ op, Decidable (ConcatFits s op)
  | .basic op => inferInstanceAs (Decidable (Fits s op))
  | .append b c _ => inferInstanceAs
    (Decidable ((_ < _ ∧ _ < _) ∧ (Merges s b c → (s.buffer c).m_zeroAreaEnd = (s.buffer c).m_end)))

/-- Four zeros, and three zeros with the byte 7 behind them. -/
def tailOps : List ConcatOp :=
  [.basic (.construct 0 4), .basic (.construct 1 3), .basic (.addAtEnd 1 1),
    .basic (.write 1 3 (.writeU8 7))]

/-- Ten zeros behind two bytes, to which three zeros have been appended. -/
def zerosOps : List ConcatOp :=
  [.basic (.construct 0 10), .basic (.addAtStart 0 2), .basic (.write 0 0 (.writeHtonU16 258)),
    .basic (.construct 1 3), .append 0 1 2]

theorem appends_iff_zerosOps : ∃ s, (concatMachine clearedMemory).Run ConcatFits zerosOps s ∧
    ((∀ memory' m, (s.withMemory m).strings = s.strings → Appends memory' (s.withMemory m) 1 0 2) ↔
      (Merges s 1 0 → (s.buffer 0).m_zeroAreaEnd = (s.buffer 0).m_end)) := by
  refine Machine.exists_run_and_allowed
    (p := fun s : System ↦ 1 ∈ s.live ∧ 0 ∈ s.live ∧ 2 ∉ s.live ∧
      (s.buffer 1).m_data ≠ (s.buffer 0).m_data ∧
      (s.heap.initialStart + (s.buffer 1).m_start + (s.buffer 1).getSize +
      (s.buffer 0).getSize < 2 ^ 32 ∧ s.live.card + 2 < 2 ^ 32))
    (by decide +kernel) (by decide +kernel) fun s hr ⟨hb, hc, ht, hne, hroom⟩ ↦ ?_
  exact appends_iff clearedMemory hr hb hc ht hne hroom

/-- **The byte 7 is written outside the block.** -/
theorem not_appends_tailOps : ∃ s, (concatMachine clearedMemory).Run Machine.unguarded tailOps s ∧
    s.strings 0 = some [0, 0, 0, 0] ∧ s.strings 1 = some [0, 0, 0, 7] ∧
      (s.buffer 0).m_data ≠ (s.buffer 1).m_data ∧ 2 ∉ s.live ∧
        ¬Appends clearedMemory s 0 1 2 := by
  refine Machine.exists_run_and
    (p := fun s : System ↦ s.strings 0 = some [0, 0, 0, 0] ∧ s.strings 1 = some [0, 0, 0, 7] ∧
      (s.buffer 0).m_data ≠ (s.buffer 1).m_data ∧ 2 ∉ s.live ∧
      (append clearedMemory s 0 1 2).isNone = true)
    (by decide +kernel) fun s hr ⟨h0, h1, hne, ht, hnone⟩ ↦ ?_
  refine ⟨h0, h1, hne, ht, ?_⟩
  rintro ⟨l, -, l', -, s', hs', -⟩
  rw [hs'] at hnone
  simp at hnone

end Buffer

end Ns3
