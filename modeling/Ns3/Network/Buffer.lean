import Ns3.Library.Machine
import Ns3.Library.Sharing
import Ns3.Library.Span

/-!
# Packet buffers

A `Buffer` is a string of bytes with a virtual area of zeros inside, for which no memory is used. Its
real bytes lie in a `Data` block that it shares with its copies: `m_start` to `m_zeroAreaStart` in
front of the zero area, and from `m_zeroAreaStart` on those behind it. Offsets behind the zero area
count the zeros, although the memory does not hold them.

The *dirty* area of a block covers the offsets of all buffers of the block. A buffer may grow in place
when it alone has the block, or when it reaches the edge of the dirty area; otherwise its bytes are
copied to a block of its own.

## The invariant

Buffers of one block can have zero areas of different length, so that equal offsets mean different
addresses. For every block there is a length `z` that no zero area exceeds, with all real bytes before
`m_dirtyEnd - z`: the buffer that reaches the dirty edge has a zero area of length `z`, and grows into
memory that no other buffer uses.

Offsets are unsigned 32-bit numbers. `RemoveAtStart` adds its argument to `m_start` without the clamp
that `RemoveAtEnd` has, and the other operations add sizes to offsets; `Fits` says that no such sum
overflows. It also excludes `Iterator::Write` from another buffer to a place behind a zero area, for
which that function does not account.
-/

namespace Ns3

/-- The members of a `Buffer`. `m_data` is the address of its block. -/
structure Buffer where
  m_data : ℕ
  m_maxZeroAreaStart : ℕ
  m_zeroAreaStart : ℕ
  m_zeroAreaEnd : ℕ
  m_start : ℕ
  m_end : ℕ
  deriving DecidableEq, Repr

namespace Buffer

/-- A block of memory shared by buffers. -/
structure Data where
  m_count : ℕ
  m_size : ℕ
  m_dirtyStart : ℕ
  m_dirtyEnd : ℕ
  m_data : ℕ → UInt8

/-! ## Blocks -/

/-- The blocks, and the static members of `Buffer`. -/
structure Heap where
  data : ℕ → Data
  /-- The blocks allocated so far have the addresses before it. -/
  allocated : ℕ
  g_freeList : List ℕ
  g_maxSize : ℕ
  g_recommendedStart : ℕ

namespace Heap

variable (h : Heap)

def setData (d : ℕ) (data : Data) : Heap := { h with data := Function.update h.data d data }

/-- `Allocate`, in memory with unknown contents. -/
def allocate (memory : ℕ → ℕ → UInt8) (reqSize : ℕ) : ℕ × Heap :=
  let reqSize := if reqSize = 0 then 1 else reqSize
  (h.allocated, { h.setData h.allocated ⟨1, reqSize, 0, 0, memory h.allocated⟩ with
    allocated := h.allocated + 1 })

/-- The loop of `Create` over the free list, from its back: a block of sufficient size. -/
def popFree (dataSize : ℕ) : List ℕ → Option (ℕ × List ℕ)
  | [] => none
  | d :: rest => if dataSize ≤ (h.data d).m_size then some (d, rest) else popFree dataSize rest

def create (memory : ℕ → ℕ → UInt8) (dataSize : ℕ) : ℕ × Heap :=
  match h.popFree dataSize h.g_freeList with
  | some (d, rest) => (d, { h.setData d { h.data d with m_count := 1 } with g_freeList := rest })
  | none => { h with g_freeList := [] }.allocate memory dataSize

def recycle (d : ℕ) : Heap :=
  let g_maxSize := max h.g_maxSize (h.data d).m_size
  if (h.data d).m_size < g_maxSize ∨ 1000 < h.g_freeList.length then
    { h with g_maxSize := g_maxSize }
  else { h with g_maxSize := g_maxSize, g_freeList := d :: h.g_freeList }

/-- A buffer leaves block `d`. -/
def release (d : ℕ) : Heap :=
  let count := sub32 (h.data d).m_count 1
  let h := h.setData d { h.data d with m_count := count }
  if count = 0 then h.recycle d else h

/-- A buffer joins block `d`. -/
def acquire (d : ℕ) : Heap :=
  h.setData d { h.data d with m_count := add32 (h.data d).m_count 1 }

/-- Where `Initialize` starts a buffer. -/
def initialStart : ℕ :=
  min (h.g_freeList.head?.elim 1 fun d ↦ (h.data d).m_size) h.g_recommendedStart

/-- What destructor and assignment learn from a buffer. -/
def recommend (start : ℕ) : Heap :=
  { h with g_recommendedStart := max h.g_recommendedStart start }

end Heap

/-! ## Operations -/

variable (h : Heap) (x : Buffer)

def getSize : ℕ := sub32 x.m_end x.m_start

/-- Length of the zero area. -/
def zeroSize : ℕ := sub32 x.m_zeroAreaEnd x.m_zeroAreaStart

def getInternalSize : ℕ :=
  sub32 (add32 (sub32 x.m_zeroAreaStart x.m_start) x.m_end) x.m_zeroAreaEnd

def getInternalEnd : ℕ := sub32 x.m_end x.zeroSize

/-- `Initialize`. -/
def initializeBuffer (memory : ℕ → ℕ → UInt8) (zeroSize : ℕ) : Buffer × Heap :=
  let (d, h) := h.create memory 0
  let start := min (h.data d).m_size h.g_recommendedStart
  let zeroAreaEnd := add32 start zeroSize
  (⟨d, start, start, zeroAreaEnd, start, zeroAreaEnd⟩,
    h.setData d { h.data d with m_dirtyStart := start, m_dirtyEnd := zeroAreaEnd })

/-- The copy constructor. -/
def copy : Buffer × Heap :=
  ({ x with m_maxZeroAreaStart := x.m_zeroAreaStart }, h.acquire x.m_data)

/-- `operator =`. -/
def assign (o : Buffer) : Buffer × Heap :=
  let h := if x.m_data = o.m_data then h else (h.release x.m_data).acquire o.m_data
  (o, h.recommend x.m_maxZeroAreaStart)

/-- The destructor. -/
def destroy : Heap := (h.recommend x.m_maxZeroAreaStart).release x.m_data

/-- `m_maxZeroAreaStart` at the end of an operation. -/
def learn : Buffer := { x with m_maxZeroAreaStart := max x.m_maxZeroAreaStart x.m_zeroAreaStart }

/-- Whether `AddAtStart` may write in front of the buffer. -/
def startIsClean : Bool :=
  !(decide (1 < (h.data x.m_data).m_count) &&
    decide ((h.data x.m_data).m_dirtyStart < x.m_start))

/-- Whether `AddAtEnd` may write behind the buffer. -/
def endIsClean : Bool :=
  !(decide (1 < (h.data x.m_data).m_count) &&
    decide (x.m_end < (h.data x.m_data).m_dirtyEnd))

/-- The offsets after a move of all by a signed difference. -/
def shift (delta : ℕ) : Buffer :=
  { x with
    m_start := add32 x.m_start delta
    m_zeroAreaStart := add32 x.m_zeroAreaStart delta
    m_zeroAreaEnd := add32 x.m_zeroAreaEnd delta
    m_end := add32 x.m_end delta }

/-- A block of size `newSize` with the bytes of `x` at `offset`, in place of the block of `x`. -/
def moveData (memory : ℕ → ℕ → UInt8) (newSize offset : ℕ) : ℕ × Heap :=
  let old := h.data x.m_data
  let (d, h) := h.create memory newSize
  let bytes := blit (h.data d).m_data offset (fun i ↦ old.m_data (x.m_start + i)) x.getInternalSize
  (d, (h.setData d { h.data d with m_data := bytes }).release x.m_data)

def addAtStart (memory : ℕ → ℕ → UInt8) (start : ℕ) : Buffer × Heap :=
  if start ≤ x.m_start ∧ x.startIsClean h = true then
    let y := { x with m_start := sub32 x.m_start start }
    (y.learn, h.setData x.m_data { h.data x.m_data with m_dirtyStart := y.m_start })
  else
    let (d, h) := x.moveData h memory (add32 x.getInternalSize start) start
    let y := x.shift (sub32 start x.m_start)
    let y := { y with m_data := d, m_start := sub32 y.m_start start }
    (y.learn, h.setData d { h.data d with m_dirtyStart := y.m_start, m_dirtyEnd := y.m_end })

/-- `AddAtEnd`, of a number of bytes. -/
def addAtEnd (memory : ℕ → ℕ → UInt8) (end' : ℕ) : Buffer × Heap :=
  if add32 x.getInternalEnd end' ≤ (h.data x.m_data).m_size ∧ x.endIsClean h = true then
    let y := { x with m_end := add32 x.m_end end' }
    (y.learn, h.setData x.m_data { h.data x.m_data with m_dirtyEnd := y.m_end })
  else
    let (d, h) := x.moveData h memory (add32 x.getInternalSize end') 0
    let y := x.shift (sub32 0 x.m_start)
    let y := { y with m_data := d, m_end := add32 y.m_end end' }
    (y.learn, h.setData d { h.data d with m_dirtyStart := y.m_start, m_dirtyEnd := y.m_end })

def removeAtStart (start : ℕ) : Buffer :=
  let newStart := add32 x.m_start start
  let y :=
    if newStart ≤ x.m_zeroAreaStart then { x with m_start := newStart }
    else if newStart ≤ x.m_zeroAreaEnd then
      let delta := sub32 newStart x.m_zeroAreaStart
      { x with
        m_start := x.m_zeroAreaStart
        m_zeroAreaEnd := sub32 x.m_zeroAreaEnd delta
        m_end := sub32 x.m_end delta }
    else if newStart ≤ x.m_end then
      let start' := sub32 newStart x.zeroSize
      { x with
        m_start := start'
        m_end := sub32 x.m_end x.zeroSize
        m_zeroAreaStart := start'
        m_zeroAreaEnd := start' }
    else
      let end' := sub32 x.m_end x.zeroSize
      { x with m_end := end', m_start := end', m_zeroAreaEnd := end', m_zeroAreaStart := end' }
  y.learn

def removeAtEnd (end' : ℕ) : Buffer :=
  let newEnd := sub32 x.m_end (min end' (sub32 x.m_end x.m_start))
  let y :=
    if x.m_zeroAreaEnd < newEnd then { x with m_end := newEnd }
    else if x.m_zeroAreaStart < newEnd then { x with m_end := newEnd, m_zeroAreaEnd := newEnd }
    else if x.m_start < newEnd then
      { x with m_end := newEnd, m_zeroAreaEnd := newEnd, m_zeroAreaStart := newEnd }
    else { x with m_end := x.m_start, m_zeroAreaEnd := x.m_start, m_zeroAreaStart := x.m_start }
  y.learn

def createFragment (start length : ℕ) : Buffer × Heap :=
  let (tmp, h) := x.copy h
  ((tmp.removeAtStart start).removeAtEnd (sub32 x.getSize (add32 start length)), h)

/-! ## Iterators -/

/-- `Iterator::PeekU8`, at offset `current`. -/
def peekU8 (data : Data) (current : ℕ) : UInt8 :=
  if current < x.m_zeroAreaStart then data.m_data current
  else if current < x.m_zeroAreaEnd then 0
  else data.m_data (sub32 current x.zeroSize)

/-- The bytes from `Begin ()` to `End ()`. -/
def bytes (data : Data) : List UInt8 := span (x.peekU8 data) x.m_start x.getSize

/-- The writing methods of an iterator that do not call one another. -/
inductive Writer
  /-- `WriteU8 (data)`. -/
  | writeU8 (data : UInt8)
  /-- `WriteU8 (data, len)`. -/
  | writeU8s (data : UInt8) (len : ℕ)
  /-- `Write (buffer, size)`. -/
  | write (buffer : List UInt8)
  /-- `WriteHtonU16 (data)`. -/
  | writeHtonU16 (data : UInt16)
  /-- `WriteHtonU32 (data)`. -/
  | writeHtonU32 (data : UInt32)
  deriving DecidableEq, Repr

/-- The bytes that are written. -/
def Writer.bytes : Writer → List UInt8
  | .writeU8 data => [data]
  | .writeU8s data len => List.replicate len data
  | .write buffer => buffer
  | .writeHtonU16 data => [(data >>> 8).toUInt8, data.toUInt8]
  | .writeHtonU32 data =>
    [(data >>> 24).toUInt8, (data >>> 16).toUInt8, (data >>> 8).toUInt8, data.toUInt8]

/-- Whether a write at offset `current` is taken for one in front of the zero area. -/
def Writer.inFront (zeroStart current : ℕ) : Writer → Bool
  | .writeU8 _ => decide (current < zeroStart)
  | .writeU8s _ _ => decide (current ≤ zeroStart)
  | .write _ => decide (current ≤ zeroStart)
  | .writeHtonU16 _ => decide (add32 current 2 ≤ zeroStart)
  | .writeHtonU32 _ => decide (add32 current 4 ≤ zeroStart)

/-- A write at offset `current`. -/
def write (data : Data) (current : ℕ) (w : Writer) : Data :=
  let dst := if w.inFront x.m_zeroAreaStart current = true then current
    else sub32 current x.zeroSize
  { data with m_data := blit data.m_data dst (fun i ↦ w.bytes.getD i 0) w.bytes.length }

/-- `Write (start, end)` at offset `current`, of the bytes of `y` from offset `start` to `end`. -/
def writeIterators (y : Buffer) (src : Data) (start end' : ℕ) (data : Data) (current : ℕ) : Data :=
  let size := sub32 end' start
  let toCopy := if start ≤ y.m_zeroAreaStart then min size (sub32 y.m_zeroAreaStart start) else 0
  let m := blit data.m_data current (fun i ↦ src.m_data (start + i)) toCopy
  let start := add32 start toCopy
  let current := add32 current toCopy
  let size := sub32 size toCopy
  let toCopy := if start ≤ y.m_zeroAreaEnd then min size (sub32 y.m_zeroAreaEnd start) else 0
  let m := blit m current (fun _ ↦ 0) toCopy
  let start := add32 start toCopy
  let current := add32 current toCopy
  let size := sub32 size toCopy
  let toCopy := min size (sub32 y.m_end start)
  let from' := sub32 start y.zeroSize
  { data with m_data := blit m current (fun i ↦ src.m_data (from' + i)) toCopy }

/-! ## The system -/

/-- The bytes that the last operation has added: offsets `first` to `last` of a buffer. -/
structure Added where
  buffer : ℕ
  first : ℕ
  last : ℕ
  deriving DecidableEq, Repr

/-- All buffers and blocks. -/
structure System where
  heap : Heap
  /-- The buffers that exist. -/
  live : Finset ℕ
  buffer : ℕ → Buffer
  added : Option Added

namespace System

variable (s : System) (b c : ℕ)

/-- The block of buffer `b`. -/
def data : Data := s.heap.data (s.buffer b).m_data

/-- Replace buffer `b`. -/
def setBuffer (x : Buffer) (h : Heap) (added : Option Added) : System :=
  { s with heap := h, buffer := Function.update s.buffer b x, added := added }

/-- Construct buffer `b`. -/
def addBuffer (x : Buffer) (h : Heap) : System :=
  { s with
    heap := h, live := insert b s.live, buffer := Function.update s.buffer b x, added := none }

/-- Write into the block of buffer `b`. -/
def setData (data : Data) : System :=
  { s with heap := s.heap.setData (s.buffer b).m_data data }

end System

/-- The operations on buffers `b` and `c`. -/
inductive Op
  | construct (b zeroSize : ℕ)
  | copy (b c : ℕ)
  | assign (b c : ℕ)
  | createFragment (b c start length : ℕ)
  | destroy (b : ℕ)
  | addAtStart (b start : ℕ)
  | addAtEnd (b end' : ℕ)
  | removeAtStart (b start : ℕ)
  | removeAtEnd (b end' : ℕ)
  /-- A write through `Begin ()`, moved by `offset`, into the bytes just added. -/
  | write (b offset : ℕ) (w : Writer)
  /-- The same of the bytes `start` to `end'` of buffer `c`, which has another block. -/
  | writeIterators (b offset c start end' : ℕ)
  deriving DecidableEq, Repr

/-- `n` bytes at offset `offset` of buffer `b` have just been added. -/
def System.JustAdded (s : System) (b offset n : ℕ) : Prop :=
  ∃ a ∈ s.added, a.buffer = b ∧ a.first ≤ (s.buffer b).m_start + offset ∧
    (s.buffer b).m_start + offset + n ≤ a.last

instance (s : System) (b offset n : ℕ) : Decidable (s.JustAdded b offset n) :=
  inferInstanceAs (Decidable (∃ a ∈ s.added, _))

/-- The runs of a program on its buffers. `memory` is what new memory contains. -/
def machine (memory : ℕ → ℕ → UInt8) : Machine System Op where
  init := ⟨⟨fun _ ↦ ⟨0, 0, 0, 0, fun _ ↦ 0⟩, 0, [], 0, 0⟩, ∅, fun _ ↦ ⟨0, 0, 0, 0, 0, 0⟩, none⟩
  next s
    | .construct b zeroSize =>
      if b ∉ s.live ∧ zeroSize < 2 ^ 32 then
        let (x, h) := initializeBuffer s.heap memory zeroSize
        some (s.addBuffer b x h)
      else none
    | .copy b c =>
      if b ∉ s.live ∧ c ∈ s.live then
        let (x, h) := (s.buffer c).copy s.heap
        some (s.addBuffer b x h)
      else none
    | .assign b c =>
      if b ∈ s.live ∧ c ∈ s.live then
        let (x, h) := (s.buffer b).assign s.heap (s.buffer c)
        some (s.setBuffer b x h none)
      else none
    | .createFragment b c start length =>
      if b ∉ s.live ∧ c ∈ s.live ∧ start < 2 ^ 32 ∧ length < 2 ^ 32 then
        let (x, h) := (s.buffer c).createFragment s.heap start length
        some (s.addBuffer b x h)
      else none
    | .destroy b =>
      if b ∈ s.live then
        some { s with
          heap := (s.buffer b).destroy s.heap, live := s.live.erase b, added := none }
      else none
    | .addAtStart b start =>
      if b ∈ s.live ∧ start < 2 ^ 32 then
        let (x, h) := (s.buffer b).addAtStart s.heap memory start
        some (s.setBuffer b x h (some ⟨b, x.m_start, x.m_start + start⟩))
      else none
    | .addAtEnd b end' =>
      if b ∈ s.live ∧ end' < 2 ^ 32 then
        let (x, h) := (s.buffer b).addAtEnd s.heap memory end'
        some (s.setBuffer b x h (some ⟨b, x.m_end - end', x.m_end⟩))
      else none
    | .removeAtStart b start =>
      if b ∈ s.live ∧ start < 2 ^ 32 then
        some (s.setBuffer b ((s.buffer b).removeAtStart start) s.heap none)
      else none
    | .removeAtEnd b end' =>
      if b ∈ s.live ∧ end' < 2 ^ 32 then
        some (s.setBuffer b ((s.buffer b).removeAtEnd end') s.heap none)
      else none
    | .write b offset w =>
      if b ∈ s.live ∧ s.JustAdded b offset w.bytes.length then
        let x := s.buffer b
        some (s.setData b (Buffer.write x (s.data b) (x.m_start + offset) w))
      else none
    | .writeIterators b offset c start end' =>
      let y := s.buffer c
      if b ∈ s.live ∧ c ∈ s.live ∧ (s.buffer b).m_data ≠ y.m_data ∧
          start ≤ end' ∧ end' ≤ y.getSize ∧ s.JustAdded b offset (end' - start) then
        let x := s.buffer b
        some (s.setData b (writeIterators y (s.data c) (y.m_start + start) (y.m_start + end')
          (s.data b) (x.m_start + offset)))
      else none

/-! ## Independent strings of bytes -/

/-- The string that each buffer stands for. -/
def System.strings (s : System) (b : ℕ) : Option (List UInt8) :=
  if b ∈ s.live then some ((s.buffer b).bytes (s.data b)) else none

/-- The offsets of a buffer are ordered, and its real bytes are in its block. -/
structure Ordered (x : Buffer) (size : ℕ) : Prop where
  start_le : x.m_start ≤ x.m_zeroAreaStart
  zeroAreaStart_le : x.m_zeroAreaStart ≤ x.m_zeroAreaEnd
  zeroAreaEnd_le : x.m_zeroAreaEnd ≤ x.m_end
  end_lt : x.m_end < 2 ^ 32
  internalEnd_le : x.m_end - (x.m_zeroAreaEnd - x.m_zeroAreaStart) ≤ size

/-- How an operation changes the strings: only that of buffer `b`, and as a string. The bytes that are
added are unknown until they are written. -/
def Evolves (σ : ℕ → Option (List UInt8)) : Op → (ℕ → Option (List UInt8)) → Prop
  | .construct b zeroSize, σ' => σ' = Function.update σ b (some (List.replicate zeroSize 0))
  | .copy b c, σ' => σ' = Function.update σ b (σ c)
  | .assign b c, σ' => σ' = Function.update σ b (σ c)
  | .createFragment b c start length, σ' =>
    σ' = Function.update σ b ((σ c).map fun l ↦ (l.drop start).take length)
  | .destroy b, σ' => σ' = Function.update σ b none
  | .addAtStart b start, σ' =>
    ∃ new : List UInt8, new.length = start ∧ σ' = Function.update σ b ((σ b).map (new ++ ·))
  | .addAtEnd b end', σ' =>
    ∃ new : List UInt8, new.length = end' ∧ σ' = Function.update σ b ((σ b).map (· ++ new))
  | .removeAtStart b start, σ' => σ' = Function.update σ b ((σ b).map (List.drop start))
  | .removeAtEnd b end', σ' =>
    σ' = Function.update σ b ((σ b).map fun l ↦ l.take (l.length - end'))
  | .write b offset w, σ' =>
    σ' = Function.update σ b ((σ b).map fun l ↦ overwrite l offset w.bytes)
  | .writeIterators b offset c start end', σ' =>
    ∀ l' ∈ σ c, σ' = Function.update σ b
      ((σ b).map fun l ↦ overwrite l offset ((l'.drop start).take (end' - start)))

/-- Whether `AddAtEnd` writes behind the buffer, in its own block. -/
def growsAtEnd (h : Heap) (x : Buffer) (end' : ℕ) : Prop :=
  add32 x.getInternalEnd end' ≤ (h.data x.m_data).m_size ∧ x.endIsClean h = true

instance (h : Heap) (x : Buffer) (end' : ℕ) : Decidable (x.growsAtEnd h end') :=
  inferInstanceAs (Decidable (_ ∧ _))

/-- The steps at which no sum of offsets and sizes overflows, fragments are parts of their buffer, and
no iterator is written behind a zero area. -/
def Fits (s : System) : Op → Prop
  | .construct _ zeroSize => s.heap.initialStart + zeroSize < 2 ^ 32
  | .copy _ c => (s.data c).m_count + 1 < 2 ^ 32
  | .assign b c => (s.buffer b).m_data ≠ (s.buffer c).m_data → (s.data c).m_count + 1 < 2 ^ 32
  | .createFragment _ c start length =>
    (s.data c).m_count + 1 < 2 ^ 32 ∧ start + length ≤ (s.buffer c).getSize
  | .addAtStart b start => (s.buffer b).getSize + start < 2 ^ 32
  | .addAtEnd b end' =>
    if (s.buffer b).growsAtEnd s.heap end' then (s.buffer b).m_end + end' < 2 ^ 32
    else (s.buffer b).getSize + end' < 2 ^ 32
  | .removeAtStart b start => (s.buffer b).m_start + start < 2 ^ 32
  | .writeIterators b offset _ start end' =>
    start = end' ∨ (s.buffer b).m_start + offset < (s.buffer b).m_zeroAreaStart ∨
      (s.buffer b).zeroSize = 0
  | _ => True

/-! ## Ordered offsets -/

section Ordered

variable {x y : Buffer} {data data' : Data} {size n v : ℕ}

theorem Ordered.start_le_end (ho : Ordered x size) : x.m_start ≤ x.m_end :=
  ho.start_le.trans (ho.zeroAreaStart_le.trans ho.zeroAreaEnd_le)

theorem Ordered.getSize_eq (ho : Ordered x size) : x.getSize = x.m_end - x.m_start :=
  sub32_eq ho.start_le_end ho.end_lt

theorem Ordered.zeroSize_eq (ho : Ordered x size) :
    x.zeroSize = x.m_zeroAreaEnd - x.m_zeroAreaStart :=
  sub32_eq ho.zeroAreaStart_le (ho.zeroAreaEnd_le.trans_lt ho.end_lt)

theorem Ordered.getInternalEnd_eq (ho : Ordered x size) :
    x.getInternalEnd = x.m_end - (x.m_zeroAreaEnd - x.m_zeroAreaStart) := by
  rw [getInternalEnd, ho.zeroSize_eq]
  exact sub32_eq ((Nat.sub_le _ _).trans ho.zeroAreaEnd_le) ho.end_lt

theorem Ordered.getInternalSize_eq (ho : Ordered x size) :
    x.getInternalSize = x.m_end - (x.m_zeroAreaEnd - x.m_zeroAreaStart) - x.m_start := by
  obtain ⟨h1, h2, h3, h4, -⟩ := ho
  have hlt : x.m_zeroAreaEnd < 2 ^ 32 := by omega
  rw [getInternalSize, sub32_eq h1 (by omega), sub32, add32, Nat.mod_eq_of_lt hlt]
  omega

theorem Ordered.peekU8_eq (ho : Ordered x size) (hv : v < x.m_end) :
    x.peekU8 data v =
      if v < x.m_zeroAreaStart then data.m_data v
      else if v < x.m_zeroAreaEnd then 0
      else data.m_data (v - (x.m_zeroAreaEnd - x.m_zeroAreaStart)) := by
  rw [peekU8, ho.zeroSize_eq]
  split_ifs with h1 h2
  · rfl
  · rfl
  · rw [sub32_eq (by omega) (hv.trans ho.end_lt)]

/-- The bytes of a buffer only depend on the memory between its start and its internal end. -/
theorem Ordered.bytes_congr (ho : Ordered x size)
    (hmem : ∀ i, x.m_start ≤ i → i < x.m_end - (x.m_zeroAreaEnd - x.m_zeroAreaStart) →
      data'.m_data i = data.m_data i) : x.bytes data' = x.bytes data := by
  refine span_congr fun i hi ↦ ?_
  rw [ho.getSize_eq] at hi
  obtain ⟨h1, h2, h3, -⟩ := id ho
  rw [ho.peekU8_eq (by omega), ho.peekU8_eq (by omega)]
  split_ifs
  · exact hmem _ (by omega) (by omega)
  · rfl
  · exact hmem _ (by omega) (by omega)

/-- A buffer whose bytes have been moved in memory, from address `a` to address `b`. -/
theorem Ordered.peekU8_moved (ho : Ordered x size) (hoy : Ordered y n) (data data' : Data) (a b : ℕ)
    (ha : a ≤ x.m_start)
    (hstart : y.m_zeroAreaStart = x.m_zeroAreaStart - a + b)
    (hend : y.m_zeroAreaEnd = x.m_zeroAreaEnd - a + b) (hle : x.m_end - a + b ≤ y.m_end)
    (hmem : ∀ i, x.m_start ≤ i → i < x.m_end - (x.m_zeroAreaEnd - x.m_zeroAreaStart) →
      data'.m_data (i - a + b) = data.m_data i) (hv : x.m_start ≤ v) (hv' : v < x.m_end) :
    y.peekU8 data' (v - a + b) = x.peekU8 data v := by
  obtain ⟨h1, h2, h3, -⟩ := id ho
  rw [ho.peekU8_eq hv', hoy.peekU8_eq (by omega), hstart, hend]
  by_cases hlow : v < x.m_zeroAreaStart
  · rw [if_pos hlow, if_pos (by omega)]
    exact hmem v hv (by omega)
  rw [if_neg hlow, if_neg (by omega : ¬v - a + b < x.m_zeroAreaStart - a + b)]
  by_cases hzero : v < x.m_zeroAreaEnd
  · rw [if_pos hzero, if_pos (by omega)]
  · rw [if_neg hzero, if_neg (by omega : ¬v - a + b < x.m_zeroAreaEnd - a + b),
      ← hmem _ (by omega) (by omega)]
    congr 1
    omega

/-! ### Removals -/

/-- `y` is what is left of `x` between offsets `first` and `last`: its real bytes stay where they are,
and its offsets behind the zero area move with the part of the zero area that is removed. -/
structure Cut (x y : Buffer) (first last : ℕ) : Prop where
  data : y.m_data = x.m_data
  start : y.m_start ≤ y.m_zeroAreaStart
  zeroAreaStart : y.m_zeroAreaStart ≤ y.m_zeroAreaEnd
  zeroAreaEnd : y.m_zeroAreaEnd ≤ y.m_end
  size : y.m_end - y.m_start = last - first
  start_le : x.m_start ≤ y.m_start
  end_le : y.m_end ≤ x.m_end
  zero_le : y.m_zeroAreaEnd - y.m_zeroAreaStart ≤ x.m_zeroAreaEnd - x.m_zeroAreaStart
  internalEnd_le : y.m_end - (y.m_zeroAreaEnd - y.m_zeroAreaStart) ≤
    x.m_end - (x.m_zeroAreaEnd - x.m_zeroAreaStart)
  peekU8 : ∀ (data : Data), ∀ i < last - first,
    y.peekU8 data (y.m_start + i) = x.peekU8 data (first + i)

theorem Cut.ordered {first last : ℕ} (hc : Cut x y first last) (ho : Ordered x size) :
    Ordered y size :=
  ⟨hc.start, hc.zeroAreaStart, hc.zeroAreaEnd, hc.end_le.trans_lt ho.end_lt,
    hc.internalEnd_le.trans ho.internalEnd_le⟩

theorem Cut.bytes {first last : ℕ} (hc : Cut x y first last) (ho : Ordered x size) :
    y.bytes data = span (x.peekU8 data) first (last - first) := by
  rw [Buffer.bytes, (hc.ordered ho).getSize_eq, hc.size]
  exact span_congr (hc.peekU8 data)

theorem Cut.learn {first last : ℕ} (hc : Cut x y first last) : Cut x y.learn first last :=
  ⟨hc.data, hc.start, hc.zeroAreaStart, hc.zeroAreaEnd, hc.size, hc.start_le, hc.end_le,
    hc.zero_le, hc.internalEnd_le, hc.peekU8⟩

theorem Cut.of_offsets {first last : ℕ} (ho : Ordered x size) (hdata : y.m_data = x.m_data)
    (hlast : last ≤ x.m_end)
    (hy : y.m_start ≤ y.m_zeroAreaStart ∧ y.m_zeroAreaStart ≤ y.m_zeroAreaEnd ∧
      y.m_zeroAreaEnd ≤ y.m_end ∧ y.m_end - y.m_start = last - first)
    (hxy : x.m_start ≤ y.m_start ∧ y.m_end ≤ x.m_end ∧
      y.m_zeroAreaEnd - y.m_zeroAreaStart ≤ x.m_zeroAreaEnd - x.m_zeroAreaStart ∧
      y.m_end - (y.m_zeroAreaEnd - y.m_zeroAreaStart) ≤
        x.m_end - (x.m_zeroAreaEnd - x.m_zeroAreaStart))
    (hfront : ∀ i < last - first, (y.m_start + i < y.m_zeroAreaStart ↔
      first + i < x.m_zeroAreaStart) ∧ (y.m_start + i < y.m_zeroAreaStart → y.m_start = first))
    (hzero : ∀ i < last - first, x.m_zeroAreaStart ≤ first + i → (y.m_start + i < y.m_zeroAreaEnd ↔
      first + i < x.m_zeroAreaEnd))
    (hback : ∀ i < last - first, x.m_zeroAreaEnd ≤ first + i →
      y.m_start + i - (y.m_zeroAreaEnd - y.m_zeroAreaStart) =
        first + i - (x.m_zeroAreaEnd - x.m_zeroAreaStart)) : Cut x y first last := by
  obtain ⟨h1, h2, h3, hsize⟩ := hy
  obtain ⟨hle, hle', hzl, hie⟩ := hxy
  have hoy : Ordered y size := ⟨h1, h2, h3, hle'.trans_lt ho.end_lt, hie.trans ho.internalEnd_le⟩
  refine ⟨hdata, h1, h2, h3, hsize, hle, hle', hzl, hie, fun data i hi ↦ ?_⟩
  have hzx := ho.zeroAreaStart_le
  rw [hoy.peekU8_eq (by omega), ho.peekU8_eq (by omega)]
  by_cases hf : y.m_start + i < y.m_zeroAreaStart
  · rw [if_pos hf, if_pos ((hfront i hi).1.mp hf), (hfront i hi).2 hf]
  have hf' : ¬first + i < x.m_zeroAreaStart := mt (hfront i hi).1.mpr hf
  rw [if_neg hf, if_neg hf']
  by_cases hz : y.m_start + i < y.m_zeroAreaEnd
  · rw [if_pos hz, if_pos ((hzero i hi (not_lt.mp hf')).mp hz)]
  · have hz' : ¬first + i < x.m_zeroAreaEnd := mt (hzero i hi (not_lt.mp hf')).mpr hz
    rw [if_neg hz, if_neg hz', hback i hi (not_lt.mp hz')]

theorem Ordered.removeAtStart (ho : Ordered x size) (hn : x.m_start + n < 2 ^ 32) :
    Cut x (x.removeAtStart n) (min (x.m_start + n) x.m_end) x.m_end := by
  obtain ⟨h1, h2, h3, h4, h5⟩ := id ho
  rw [Buffer.removeAtStart]
  apply Cut.learn
  rw [add32_eq hn, ho.zeroSize_eq]
  split_ifs with hc1 hc2 hc3
  · -- in front of the zero area
    apply Cut.of_offsets ho (by rfl) le_rfl <;> dsimp only <;> omega
  · -- in the zero area
    have hd : x.m_start + n - x.m_zeroAreaStart ≤ x.m_zeroAreaEnd := by omega
    dsimp only
    rw [sub32_eq (not_le.mp hc1).le hn, sub32_eq hd (by omega), sub32_eq (hd.trans h3) h4]
    apply Cut.of_offsets ho (by rfl) le_rfl <;> dsimp only <;> omega
  · -- behind the zero area
    rw [sub32_eq (by omega) hn, sub32_eq (by omega) h4]
    apply Cut.of_offsets ho (by rfl) le_rfl <;> dsimp only <;> omega
  · -- the whole buffer
    rw [sub32_eq (by omega) h4]
    apply Cut.of_offsets ho (by rfl) le_rfl <;> dsimp only <;> omega

theorem Ordered.removeAtEnd (ho : Ordered x size) :
    Cut x (x.removeAtEnd n) x.m_start (x.m_end - min n (x.m_end - x.m_start)) := by
  obtain ⟨h1, h2, h3, h4, h5⟩ := id ho
  rw [Buffer.removeAtEnd]
  apply Cut.learn
  have hsize : sub32 x.m_end x.m_start = x.m_end - x.m_start := ho.getSize_eq
  rw [hsize, sub32_eq (by omega) h4]
  split_ifs with hc1 hc2 hc3 <;>
    apply Cut.of_offsets ho (by rfl) (Nat.sub_le _ _) <;> dsimp only <;> omega

theorem Ordered.bytes_removeAtStart (ho : Ordered x size) (hn : x.m_start + n < 2 ^ 32) :
    (x.removeAtStart n).bytes data = (x.bytes data).drop n := by
  rw [(ho.removeAtStart hn).bytes ho, Buffer.bytes, drop_span, ho.getSize_eq]
  rcases le_total (x.m_start + n) x.m_end with hle | hle
  · rw [min_eq_left hle, Nat.sub_sub]
  · rw [min_eq_right hle, Nat.sub_self, Nat.sub_eq_zero_of_le (by omega)]
    rfl

theorem Ordered.bytes_removeAtEnd (ho : Ordered x size) :
    (x.removeAtEnd n).bytes data = (x.bytes data).take ((x.bytes data).length - n) := by
  have hle := ho.start_le_end
  rw [ho.removeAtEnd.bytes ho, Buffer.bytes, take_span, length_span, ho.getSize_eq]
  congr 1
  omega

end Ordered

end Buffer

end Ns3
