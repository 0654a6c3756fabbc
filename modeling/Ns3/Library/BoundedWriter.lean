import Ns3.Library.Span

/-!
# Writing chunks into bounded memory

A serializer writes chunk after chunk from an address on. For each chunk it asks for room, which may be
more than the bytes it writes; when the room exceeds what is allowed it stops, and what it has written
stays. `Output` is memory that tells which of its bytes have been written.
-/

/-- Memory in which some bytes have been written. -/
abbrev Output := ℕ → Option UInt8

namespace Output

/-- Nothing has been written. -/
def empty : Output := fun _ ↦ none

/-- The bytes `l` are written from address `p` on. -/
def put (m : Output) (p : ℕ) (l : List UInt8) : Output := blit m p (fun i ↦ l[i]?) l.length

/-- The bytes of a number in memory, the lowest first. -/
def hostBytes (k n : ℕ) : List UInt8 := (List.range k).map fun i ↦ UInt8.ofNat (n / 256 ^ i)

@[simp] theorem length_hostBytes (k n : ℕ) : (hostBytes k n).length = k := by simp [hostBytes]

/-- From `m` to `m'`, only addresses between `a` and `b` are written. -/
def Within (m m' : Output) (a b : ℕ) : Prop := ∀ i, i < a ∨ b ≤ i → m' i = m i

/-- All addresses between `a` and `b` have been written. -/
def Filled (m : Output) (a b : ℕ) : Prop := ∀ i, a ≤ i → i < b → m i ≠ none

section Output

variable {m m' m'' : Output} {a b c p : ℕ} {l : List UInt8}

theorem Within.refl (m : Output) (a b : ℕ) : Within m m a b := fun _ _ ↦ rfl

theorem Within.trans (h : Within m m' a b) (h' : Within m' m'' a b) : Within m m'' a b :=
  fun i hi ↦ (h' i hi).trans (h i hi)

theorem Within.mono (h : Within m m' a b) {a' b' : ℕ} (ha : a' ≤ a) (hb : b ≤ b') :
    Within m m' a' b' := fun i hi ↦ h i (hi.imp (fun h ↦ h.trans_le ha) fun h ↦ hb.trans h)

theorem within_put (m : Output) (p : ℕ) (l : List UInt8) : Within m (m.put p l) p (p + l.length) :=
  fun _ hi ↦ blit_of_not_mem hi

theorem filled_put (m : Output) (p : ℕ) (l : List UInt8) : Filled (m.put p l) p (p + l.length) := by
  intro i hle hlt
  have hindex : i - p < l.length := by omega
  rw [put, blit_of_mem hle hlt, List.getElem?_eq_getElem hindex]
  exact Option.some_ne_none _

theorem Filled.append (h : Filled m a b) (h' : Filled m' b c) (hw : Within m m' b c) :
    Filled m' a c := by
  intro i hle hlt
  by_cases hi : i < b
  · rw [hw i (.inl hi)]
    exact h i hle hi
  · exact h' i (not_lt.mp hi) hlt

/-- What has been written ends where it is filled to. -/
theorem eq_none_iff (hw : Within empty m 0 b) (hf : Filled m 0 b) (hb : 0 < b) {n : ℕ} :
    (∀ i, n ≤ i → m i = none) ↔ b ≤ n := by
  constructor
  · intro h
    by_contra hlt
    exact hf (b - 1) (Nat.zero_le _) (by omega) (h (b - 1) (by omega))
  · intro h i hi
    exact hw i (.inr (h.trans hi))

end Output

/-! ## Chunks -/

/-- Bytes to be written, and the room that is asked for them. -/
structure Chunk where
  bytes : List UInt8
  room : ℕ

/-- A chunk that asks for the room it needs. -/
def Chunk.exact (bytes : List UInt8) : Chunk := ⟨bytes, bytes.length⟩

/-- The room that chunks ask for. -/
def room (chunks : List Chunk) : ℕ := (chunks.map Chunk.room).sum

/-- Write chunks from address `start` on, of which `size` bytes are used, in at most `maxSize` bytes.
Sizes are unsigned 32-bit numbers. -/
def writeChunks (start maxSize : ℕ) : ℕ → List Chunk → Output → Bool × Output
  | _, [], m => (true, m)
  | size, c :: chunks, m =>
    if add32 size c.room ≤ maxSize then
      writeChunks start maxSize (add32 size c.room) chunks (m.put (start + size) c.bytes)
    else (false, m)

section Chunks

variable {maxSize size : ℕ} {chunks : List Chunk}

@[simp] theorem room_nil : room [] = 0 := rfl

@[simp] theorem room_cons (c : Chunk) (chunks : List Chunk) : room (c :: chunks) = c.room + room chunks :=
  rfl

@[simp] theorem room_append (l l' : List Chunk) : room (l ++ l') = room l + room l' := by
  simp [room]

theorem writeChunks_of_le (start : ℕ) (hsize : size + room chunks ≤ maxSize) (hlt : maxSize < 2 ^ 32)
    (hle : ∀ c ∈ chunks, c.bytes.length ≤ c.room) (m : Output) :
    ∃ m', writeChunks start maxSize size chunks m = (true, m') ∧
      Within m m' (start + size) (start + size + room chunks) := by
  induction chunks generalizing size m with
  | nil => exact ⟨m, rfl, .refl _ _ _⟩
  | cons c chunks ih =>
    rw [room_cons] at hsize ⊢
    have hadd : add32 size c.room = size + c.room := add32_eq (by omega)
    have hrest : size + c.room + room chunks ≤ maxSize := by omega
    obtain ⟨m', hm', hw⟩ := ih hrest
      (fun c' hc' ↦ hle c' (List.mem_cons_of_mem _ hc')) (m.put (start + size) c.bytes)
    have hc := hle c List.mem_cons_self
    refine ⟨m', ?_, Within.trans ((within_put m _ _).mono le_rfl (by omega))
      (hw.mono (by omega) (by omega))⟩
    rw [writeChunks, hadd, if_pos (by omega), hm']

/-- Chunks that ask for the room they need fill it. -/
theorem filled_writeChunks (start : ℕ) (hsize : size + room chunks ≤ maxSize) (hlt : maxSize < 2 ^ 32)
    (heq : ∀ c ∈ chunks, c.bytes.length = c.room) (m : Output) :
    Filled (writeChunks start maxSize size chunks m).2 (start + size) (start + size + room chunks) := by
  induction chunks generalizing size m with
  | nil => exact fun i hle hlt ↦ absurd hle (not_le.mpr hlt)
  | cons c chunks ih =>
    rw [room_cons] at hsize ⊢
    have hadd : add32 size c.room = size + c.room := add32_eq (by omega)
    have heq' : ∀ c' ∈ chunks, c'.bytes.length = c'.room := fun c' hc' ↦
      heq c' (List.mem_cons_of_mem _ hc')
    have hle : size + c.room + room chunks ≤ maxSize := by omega
    obtain ⟨m', hm', hw⟩ := writeChunks_of_le start hle hlt (fun c' hc' ↦ (heq' c' hc').le)
      (m.put (start + size) c.bytes)
    have hrest := ih hle heq' (m.put (start + size) c.bytes)
    have hnext : start + (size + c.room) = start + size + c.room := (add_assoc _ _ _).symm
    rw [hm', hnext] at hrest
    rw [hnext] at hw
    have hhead := filled_put m (start + size) c.bytes
    rw [heq c List.mem_cons_self] at hhead
    rw [writeChunks, hadd, if_pos (by omega), hm', ← add_assoc]
    exact hhead.append hrest hw

end Chunks

end Output
