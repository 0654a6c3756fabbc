import Ns3.Library.LittleEndian
import Ns3.Wifi.QosUtils

/-!
# The bitmaps of block acks

A block ack reports on the MPDUs of a window that begins at its starting sequence. In the basic variant
every sequence number has sixteen bits, one for each fragment; in the compressed variants it has one
bit. The bitmaps of the variants are a union: they are kept as one number here, whose lowest bits are
the first word.

A shift of a 64-bit word by 64 or more is undefined. The extended compressed variant shifts by the
place in the whole bitmap, not by that in the word, so that it is only defined for the numbers of the
first word.
-/

namespace Ns3

namespace Wifi

open LittleEndian

/-- `BlockAckType`. -/
inductive BlockAckType
  | BASIC_BLOCK_ACK
  | COMPRESSED_BLOCK_ACK
  | EXTENDED_COMPRESSED_BLOCK_ACK
  | MULTI_TID_BLOCK_ACK
  deriving DecidableEq, Repr

/-- `CtrlBAckResponseHeader`. -/
structure CtrlBAckResponseHeader where
  m_baAckPolicy : Bool
  m_baType : BlockAckType
  m_tidInfo : ℕ
  m_startingSeq : ℕ
  bitmap : ℕ
  deriving DecidableEq, Repr

/-- A shift to the left in 64 bits. -/
def shiftLeft64 (x n : ℕ) : Option ℕ := if n < 64 then some ((x <<< n) % 2 ^ 64) else none

/-- A shift to the right in 64 bits. -/
def shiftRight64 (x n : ℕ) : Option ℕ := if n < 64 then some (x >>> n) else none

namespace CtrlBAckResponseHeader

variable (h : CtrlBAckResponseHeader)

/-- The code of a type. -/
def code : BlockAckType → ℕ
  | .BASIC_BLOCK_ACK => 0x00
  | .COMPRESSED_BLOCK_ACK => 0x02
  | .EXTENDED_COMPRESSED_BLOCK_ACK => 0x01
  | .MULTI_TID_BLOCK_ACK => 0x03

/-- `GetBaControl`: the type is in the bits from the second one on, the traffic identifier in the four
highest bits. -/
def getBaControl : ℕ :=
  (if h.m_baAckPolicy = true then 1 else 0) + 2 * code h.m_baType + 4096 * (h.m_tidInfo % 16)

def setBaControl (ba : ℕ) : CtrlBAckResponseHeader :=
  { h with
    m_baAckPolicy := decide (ba % 2 = 1)
    m_baType :=
      if ba / 2 % 16 = 3 then .MULTI_TID_BLOCK_ACK
      else if ba / 2 % 16 = 1 then .EXTENDED_COMPRESSED_BLOCK_ACK
      else if ba / 2 % 16 = 2 then .COMPRESSED_BLOCK_ACK
      else .BASIC_BLOCK_ACK
    m_tidInfo := ba / 4096 % 16 }

def getStartingSequenceControl : ℕ := h.m_startingSeq * 16 % 65536

def setStartingSequenceControl (seqControl : ℕ) : CtrlBAckResponseHeader :=
  { h with m_startingSeq := seqControl / 16 % 4096 }

/-- The bytes of a word, and the number of words, of the bitmap of a type. -/
def words : BlockAckType → Option (ℕ × ℕ)
  | .BASIC_BLOCK_ACK => some (2, 64)
  | .COMPRESSED_BLOCK_ACK => some (8, 1)
  | .EXTENDED_COMPRESSED_BLOCK_ACK => some (8, 4)
  | .MULTI_TID_BLOCK_ACK => none

def serializeBitmap : Option (List UInt8) :=
  (words h.m_baType).map fun w ↦ writeWords w.1 w.2 h.bitmap

/-- `DeserializeBitmap`, into a header without bits. -/
def deserializeBitmap (bytes : List UInt8) : Option CtrlBAckResponseHeader :=
  (words h.m_baType).bind fun w ↦
    if w.1 * w.2 ≤ bytes.length then some { h with bitmap := readWords w.1 w.2 bytes } else none

def serialize : Option (List UInt8) :=
  h.serializeBitmap.map fun bytes ↦
    write 2 h.getBaControl ++ (write 2 h.getStartingSequenceControl ++ bytes)

/-- `Deserialize`, into a new header. -/
def deserialize (bytes : List UInt8) : Option CtrlBAckResponseHeader :=
  if 4 ≤ bytes.length then
    let h := setBaControl ⟨false, .BASIC_BLOCK_ACK, 0, 0, 0⟩ (read (bytes.take 2))
    (h.setStartingSequenceControl (read ((bytes.drop 2).take 2))).deserializeBitmap (bytes.drop 4)
  else none

def isInBitmap (seq : ℕ) : Bool :=
  if h.m_baType = .EXTENDED_COMPRESSED_BLOCK_ACK then
    decide (((seq : ℤ) - h.m_startingSeq + 4096).tmod 4096 < 256)
  else decide (((seq : ℤ) - h.m_startingSeq + 4096).tmod 4096 < 64)

def indexInBitmap (seq : ℕ) : ℕ :=
  if h.m_startingSeq ≤ seq then seq - h.m_startingSeq else 4096 - h.m_startingSeq + seq

def setReceivedPacket (seq : ℕ) : Option CtrlBAckResponseHeader :=
  if h.isInBitmap seq = false then some h
  else match h.m_baType with
    | .BASIC_BLOCK_ACK => some { h with bitmap := h.bitmap ||| 1 <<< (16 * h.indexInBitmap seq) }
    | .COMPRESSED_BLOCK_ACK => (shiftLeft64 1 (h.indexInBitmap seq)).map fun bit ↦
        { h with bitmap := h.bitmap ||| bit }
    | .EXTENDED_COMPRESSED_BLOCK_ACK =>
      let index := h.indexInBitmap seq
      (shiftLeft64 1 index).map fun bit ↦
        { h with bitmap := h.bitmap ||| bit <<< (64 * (index / 64)) }
    | .MULTI_TID_BLOCK_ACK => none

def setReceivedFragment (seq frag : ℕ) : Option CtrlBAckResponseHeader :=
  if frag < 16 then
    if h.isInBitmap seq = false then some h
    else match h.m_baType with
      | .BASIC_BLOCK_ACK => some { h with
          bitmap := h.bitmap ||| (1 <<< frag) <<< (16 * h.indexInBitmap seq) }
      | .COMPRESSED_BLOCK_ACK => some h
      | .EXTENDED_COMPRESSED_BLOCK_ACK => some h
      | .MULTI_TID_BLOCK_ACK => none
  else none

/-- The test of a bit in a 64-bit word of the bitmap. -/
def testWord64 (word index : ℕ) : Option Bool :=
  (shiftRight64 (h.bitmap >>> (64 * word) % 2 ^ 64) index).map fun x ↦ decide (x &&& 1 = 1)

def isPacketReceived (seq : ℕ) : Option Bool :=
  if h.isInBitmap seq = false then some false
  else match h.m_baType with
    | .BASIC_BLOCK_ACK => some false
    | .COMPRESSED_BLOCK_ACK => h.testWord64 0 (h.indexInBitmap seq)
    | .EXTENDED_COMPRESSED_BLOCK_ACK =>
      h.testWord64 (h.indexInBitmap seq / 64) (h.indexInBitmap seq)
    | .MULTI_TID_BLOCK_ACK => none

def isFragmentReceived (seq frag : ℕ) : Option Bool :=
  if frag < 16 then
    if h.isInBitmap seq = false then some false
    else match h.m_baType with
      | .BASIC_BLOCK_ACK => some (decide
          ((h.bitmap >>> (16 * h.indexInBitmap seq) % 2 ^ 16) &&& (1 <<< frag) ≠ 0))
      | .COMPRESSED_BLOCK_ACK => h.testWord64 0 (h.indexInBitmap seq)
      | .EXTENDED_COMPRESSED_BLOCK_ACK =>
        h.testWord64 (h.indexInBitmap seq / 64) (h.indexInBitmap seq)
      | .MULTI_TID_BLOCK_ACK => none
  else none

/-! ## What is marked -/

/-- A packet, or a fragment of one, is marked as received. -/
inductive Mark
  | packet (seq : ℕ)
  | fragment (seq frag : ℕ)
  deriving DecidableEq, Repr

/-- A mark is made. -/
def mark : Mark → Option CtrlBAckResponseHeader
  | .packet seq => h.setReceivedPacket seq
  | .fragment seq frag => h.setReceivedFragment seq frag

/-- The size of the window. -/
def window : BlockAckType → ℕ
  | .EXTENDED_COMPRESSED_BLOCK_ACK => 256
  | _ => 64

/-- The number, and the fragment, are in the window and have been marked. A packet that is marked in
the basic variant is one that is not fragmented. -/
def Acked (type : BlockAckType) (start : ℕ) (marks : List Mark) (seq frag : ℕ) : Prop :=
  distance start seq < window type ∧
    (type = .BASIC_BLOCK_ACK ∧ (.fragment seq frag ∈ marks ∨ frag = 0 ∧ .packet seq ∈ marks) ∨
      type ≠ .BASIC_BLOCK_ACK ∧ .packet seq ∈ marks)

instance (type : BlockAckType) (start : ℕ) (marks : List Mark) (seq frag : ℕ) :
    Decidable (Acked type start marks seq frag) :=
  inferInstanceAs (Decidable (_ ∧ (_ ∧ (_ ∨ _ ∧ _) ∨ _ ∧ _)))

/-- The numbers that are given have twelve bits, and those of fragments have four. -/
def Mark.Valid : Mark → Prop
  | .packet seq => seq < 4096
  | .fragment seq frag => seq < 4096 ∧ frag < 16

instance : DecidablePred Mark.Valid
  | .packet _ => inferInstanceAs (Decidable (_ < _))
  | .fragment _ _ => inferInstanceAs (Decidable (_ ∧ _))

/-- The number is not in the window beyond the first word. -/
def FirstWord (start seq : ℕ) : Prop := ¬(64 ≤ distance start seq ∧ distance start seq < 256)

instance (start seq : ℕ) : Decidable (FirstWord start seq) := inferInstanceAs (Decidable (¬_))

/-- A packet is only marked in the first word. -/
def Mark.FirstWord (start : ℕ) : Mark → Prop
  | .packet seq => CtrlBAckResponseHeader.FirstWord start seq
  | .fragment _ _ => True

instance (start : ℕ) : DecidablePred (Mark.FirstWord start)
  | .packet _ => inferInstanceAs (Decidable (¬_))
  | .fragment _ _ => .isTrue trivial

/-- All marks can be made, the header is read back, and it answers for the number and the fragment as
has been marked; no shift is by 64 or more. -/
def Exact (type : BlockAckType) (policy : Bool) (tid start : ℕ) (marks : List Mark) (seq frag : ℕ) :
    Prop :=
  ∃ h bytes h', marks.foldlM mark ⟨policy, type, tid, start, 0⟩ = some h ∧
    h.serialize = some bytes ∧ deserialize bytes = some h' ∧
    h'.isFragmentReceived seq frag = some (decide (Acked type start marks seq frag)) ∧
    (type ≠ .BASIC_BLOCK_ACK →
      h'.isPacketReceived seq = some (decide (Acked type start marks seq frag)))

/-! ## The bits of the marks -/

section Bits

variable {h} {type : BlockAckType} {start seq frag : ℕ}

theorem distance_inj {a b : ℕ} (hstart : start < 4096) (ha : a < 4096) (hb : b < 4096)
    (heq : distance start a = distance start b) : a = b := by
  rw [distance, distance] at heq
  omega

theorem isInBitmap_eq (hstart : h.m_startingSeq < 4096) :
    h.isInBitmap seq = decide (distance h.m_startingSeq seq < window h.m_baType) := by
  have hmod : ((seq : ℤ) - h.m_startingSeq + 4096).tmod 4096 =
      (distance h.m_startingSeq seq : ℤ) := by
    rw [Int.tmod_eq_emod_of_nonneg (by omega), distance]
    omega
  rw [isInBitmap, hmod]
  cases h.m_baType with
  | EXTENDED_COMPRESSED_BLOCK_ACK => exact (if_pos rfl).trans (decide_eq_decide.mpr Nat.cast_lt)
  | _ => exact (if_neg (by decide)).trans (decide_eq_decide.mpr Nat.cast_lt)

theorem indexInBitmap_eq (hstart : h.m_startingSeq < 4096) (hseq : seq < 4096) :
    h.indexInBitmap seq = distance h.m_startingSeq seq := by
  rw [indexInBitmap, distance]
  split_ifs
  · omega
  · omega

theorem shiftLeft64_one {n : ℕ} (hn : n < 64) : shiftLeft64 1 n = some (1 <<< n) := by
  have hlt : 2 ^ n < 2 ^ 64 := Nat.pow_lt_pow_right (by decide) hn
  rw [shiftLeft64, if_pos hn, Nat.one_shiftLeft, Nat.mod_eq_of_lt hlt]

/-- The bit of a mark. -/
def Mark.bit (type : BlockAckType) (start : ℕ) : Mark → Option ℕ
  | .packet seq =>
    if distance start seq < window type then
      some (if type = .BASIC_BLOCK_ACK then 16 * distance start seq else distance start seq)
    else none
  | .fragment seq frag =>
    if distance start seq < window type ∧ type = .BASIC_BLOCK_ACK then
      some (16 * distance start seq + frag)
    else none

theorem mark_eq {m : Mark} (hstart : h.m_startingSeq < 4096) (hm : m.Valid)
    (htype : h.m_baType ≠ .MULTI_TID_BLOCK_ACK)
    (hfirst : h.m_baType = .EXTENDED_COMPRESSED_BLOCK_ACK → m.FirstWord h.m_startingSeq) :
    h.mark m = some { h with
      bitmap := (m.bit h.m_baType h.m_startingSeq).elim h.bitmap (h.bitmap ||| 1 <<< ·) } := by
  cases m with
  | packet seq =>
    rw [mark, setReceivedPacket, isInBitmap_eq hstart, indexInBitmap_eq hstart hm, Mark.bit]
    by_cases hin : distance h.m_startingSeq seq < window h.m_baType
    · rw [if_neg (by rw [decide_eq_false_iff_not, not_not]; exact hin), if_pos hin]
      cases hcase : h.m_baType with
      | BASIC_BLOCK_ACK => rfl
      | COMPRESSED_BLOCK_ACK =>
        rw [hcase] at hin
        dsimp only
        rw [shiftLeft64_one hin]
        rfl
      | EXTENDED_COMPRESSED_BLOCK_ACK =>
        rw [hcase] at hin
        have hword : distance h.m_startingSeq seq < 64 :=
          Nat.lt_of_not_le fun hge ↦ hfirst hcase ⟨hge, hin⟩
        dsimp only
        rw [shiftLeft64_one hword, Option.map_some, Nat.div_eq_of_lt hword, Nat.mul_zero,
          Nat.shiftLeft_zero]
        rfl
      | MULTI_TID_BLOCK_ACK => exact absurd hcase htype
    · rw [if_pos (decide_eq_false hin), if_neg hin]
      rfl
  | fragment seq frag =>
    rw [mark, setReceivedFragment, if_pos hm.2, isInBitmap_eq hstart, indexInBitmap_eq hstart hm.1,
      Mark.bit]
    by_cases hin : distance h.m_startingSeq seq < window h.m_baType
    · rw [if_neg (by rw [decide_eq_false_iff_not, not_not]; exact hin)]
      cases hcase : h.m_baType with
      | BASIC_BLOCK_ACK =>
        rw [hcase] at hin
        dsimp only
        rw [if_pos ⟨hin, rfl⟩, ← Nat.shiftLeft_add, Nat.add_comm]
        rfl
      | COMPRESSED_BLOCK_ACK =>
        dsimp only
        rw [if_neg fun h ↦ absurd h.2 (by decide), ← hcase]
        rfl
      | EXTENDED_COMPRESSED_BLOCK_ACK =>
        dsimp only
        rw [if_neg fun h ↦ absurd h.2 (by decide), ← hcase]
        rfl
      | MULTI_TID_BLOCK_ACK => exact absurd hcase htype
    · rw [if_pos (decide_eq_false hin), if_neg fun h ↦ hin h.1]
      rfl

theorem mark_eq_none {m : Mark} (hstart : h.m_startingSeq < 4096) (hm : m.Valid)
    (htype : h.m_baType = .EXTENDED_COMPRESSED_BLOCK_ACK) (hfirst : ¬m.FirstWord h.m_startingSeq) :
    h.mark m = none := by
  cases m with
  | packet seq =>
    obtain ⟨hge, hin⟩ := not_not.mp hfirst
    rw [mark, setReceivedPacket, isInBitmap_eq hstart, indexInBitmap_eq hstart hm, htype]
    rw [if_neg (by rw [decide_eq_false_iff_not, not_not]; exact hin)]
    dsimp only
    rw [shiftLeft64, if_neg (not_lt.mpr hge)]
    rfl
  | fragment seq frag => exact absurd trivial hfirst

theorem foldlM_mark (marks : List Mark) : ∀ {h : CtrlBAckResponseHeader}, h.m_startingSeq < 4096 →
    h.m_baType ≠ .MULTI_TID_BLOCK_ACK → (∀ m ∈ marks, m.Valid) →
    (h.m_baType = .EXTENDED_COMPRESSED_BLOCK_ACK → ∀ m ∈ marks, m.FirstWord h.m_startingSeq) →
    ∃ b, marks.foldlM mark h = some { h with bitmap := b } ∧ ∀ p, b.testBit p = true ↔
      h.bitmap.testBit p = true ∨ ∃ m ∈ marks, m.bit h.m_baType h.m_startingSeq = some p := by
  induction marks with
  | nil => exact fun _ _ _ _ ↦ ⟨_, rfl, fun p ↦ by simp⟩
  | cons m marks ih =>
    intro h hstart htype hvalid hfirst
    rw [List.forall_mem_cons] at hvalid
    obtain ⟨b, hrun, hb⟩ := @ih { h with
        bitmap := (m.bit h.m_baType h.m_startingSeq).elim h.bitmap (h.bitmap ||| 1 <<< ·) } hstart
      htype hvalid.2 fun ht k hk ↦ hfirst ht k (List.mem_cons_of_mem _ hk)
    refine ⟨b, ?_, fun p ↦ ?_⟩
    · rw [List.foldlM_cons, mark_eq hstart hvalid.1 htype fun ht ↦ hfirst ht m List.mem_cons_self]
      exact hrun
    · rw [hb, List.exists_mem_cons_iff, ← or_assoc]
      refine or_congr_left ?_
      dsimp only
      cases hbit : m.bit h.m_baType h.m_startingSeq with
      | none => simp
      | some q =>
        rw [Option.elim_some, Nat.testBit_or, Nat.one_shiftLeft, Nat.testBit_two_pow,
          Bool.or_eq_true, decide_eq_true_iff, Option.some_inj]

theorem foldlM_mark_eq_none {marks : List Mark} : ∀ {h : CtrlBAckResponseHeader},
    h.m_startingSeq < 4096 → h.m_baType = .EXTENDED_COMPRESSED_BLOCK_ACK →
    (∀ m ∈ marks, m.Valid) → (∃ m ∈ marks, ¬m.FirstWord h.m_startingSeq) →
    marks.foldlM mark h = none := by
  induction marks with
  | nil => exact fun _ _ _ ⟨m, hm, _⟩ ↦ absurd hm List.not_mem_nil
  | cons m marks ih =>
    intro h hstart htype hvalid hfar
    rw [List.forall_mem_cons] at hvalid
    rw [List.foldlM_cons]
    by_cases hm : m.FirstWord h.m_startingSeq
    · rw [mark_eq hstart hvalid.1 (by rw [htype]; decide) fun _ ↦ hm]
      obtain ⟨k, hk, hkfar⟩ := hfar
      rcases List.mem_cons.mp hk with rfl | hk
      · exact absurd hm hkfar
      · exact ih hstart htype hvalid.2 ⟨k, hk, hkfar⟩
    · rw [mark_eq_none hstart hvalid.1 htype hm]
      rfl

theorem Mark.bit_lt {m : Mark} {w : ℕ × ℕ} {p : ℕ} (hm : m.Valid) (hw : words type = some w)
    (hp : m.bit type start = some p) : p < 8 * (w.1 * w.2) := by
  cases m with
  | packet seq =>
    rw [Mark.bit] at hp
    split_ifs at hp with hin hbasic
    · obtain rfl := Option.some.inj hp
      subst hbasic
      obtain rfl := Option.some.inj hw
      change distance start seq < 64 at hin
      omega
    · obtain rfl := Option.some.inj hp
      cases type with
      | BASIC_BLOCK_ACK => exact absurd rfl hbasic
      | COMPRESSED_BLOCK_ACK =>
        obtain rfl := Option.some.inj hw
        exact hin
      | EXTENDED_COMPRESSED_BLOCK_ACK =>
        obtain rfl := Option.some.inj hw
        exact hin
      | MULTI_TID_BLOCK_ACK => exact absurd hw.symm (Option.some_ne_none w)
  | fragment seq frag =>
    rw [Mark.bit] at hp
    split_ifs at hp with hin
    obtain rfl := Option.some.inj hp
    obtain ⟨hin, rfl⟩ := hin
    obtain rfl := Option.some.inj hw
    obtain ⟨-, hfrag⟩ := hm
    change distance start seq < 64 at hin
    dsimp only
    omega

/-! ## The bytes -/

theorem read_control_type (htype : h.m_baType ≠ .MULTI_TID_BLOCK_ACK) :
    (setBaControl ⟨false, .BASIC_BLOCK_ACK, 0, 0, 0⟩ (read (write 2 h.getBaControl))).m_baType =
      h.m_baType := by
  have hcode : code h.m_baType < 4 := by
    cases h.m_baType with
    | _ => decide
  have hlt : h.getBaControl / 2 % 16 = code h.m_baType := by
    rw [getBaControl]
    split_ifs
    · omega
    · omega
  have hread : read (write 2 h.getBaControl) / 2 % 16 = h.getBaControl / 2 % 16 := by
    rw [read_write]
    omega
  rw [setBaControl, hread, hlt]
  cases hcase : h.m_baType with
  | MULTI_TID_BLOCK_ACK => exact absurd hcase htype
  | _ => rfl

/-- **A header is read back** with its type, its starting sequence and its bitmap. -/
theorem deserialize_serialize {w : ℕ × ℕ} (hw : words h.m_baType = some w)
    (hstart : h.m_startingSeq < 4096) (hbits : h.bitmap < 256 ^ (w.1 * w.2)) :
    ∃ bytes h', h.serialize = some bytes ∧ deserialize bytes = some h' ∧
      h'.m_baType = h.m_baType ∧ h'.m_startingSeq = h.m_startingSeq ∧ h'.bitmap = h.bitmap := by
  have htype : h.m_baType ≠ .MULTI_TID_BLOCK_ACK := by
    intro heq
    rw [heq] at hw
    exact absurd hw.symm (Option.some_ne_none w)
  have hseq : read (write 2 h.getStartingSequenceControl) / 16 % 4096 = h.m_startingSeq := by
    rw [read_write, getStartingSequenceControl]
    omega
  have htake : ∀ (n : ℕ) (l : List UInt8), (write 2 n ++ l).take 2 = write 2 n :=
    fun n l ↦ List.take_left' (length_write 2 n)
  have hdrop : ∀ (n : ℕ) (l : List UInt8), (write 2 n ++ l).drop 2 = l :=
    fun n l ↦ List.drop_left' (length_write 2 n)
  have hdrop4 : ∀ l : List UInt8, l.drop 4 = (l.drop 2).drop 2 := fun l ↦ by
    rw [List.drop_drop]
  have hlen := length_writeWords w.1 w.2 h.bitmap
  have hcontrol := read_control_type htype
  have hread : readWords w.1 w.2 (writeWords w.1 w.2 h.bitmap) = h.bitmap := by
    have hrest := readWords_writeWords hbits []
    rwa [List.append_nil] at hrest
  have hserialize : h.serialize = some (write 2 h.getBaControl ++
      (write 2 h.getStartingSequenceControl ++ writeWords w.1 w.2 h.bitmap)) := by
    rw [serialize, serializeBitmap, hw]
    rfl
  refine ⟨_, { setBaControl ⟨false, .BASIC_BLOCK_ACK, 0, 0, 0⟩ (read (write 2 h.getBaControl)) with
    m_startingSeq := h.m_startingSeq, bitmap := h.bitmap }, hserialize, ?_, hcontrol, rfl, rfl⟩
  rw [deserialize, if_pos (by simp; omega), htake, hdrop4, hdrop, htake, hdrop, deserializeBitmap,
    setStartingSequenceControl]
  dsimp only
  rw [hcontrol, hw, Option.bind_some, if_pos (by rw [hlen, Nat.mul_comm]), hread, hseq]

/-! ## Tests -/

theorem testWord64_zero {index : ℕ} (hi : index < 64) :
    h.testWord64 0 index = some (h.bitmap.testBit index) := by
  have hbit : h.bitmap.testBit index = (h.bitmap >>> (64 * 0) % 2 ^ 64).testBit index := by
    rw [Nat.testBit_mod_two_pow, decide_eq_true hi, Bool.true_and, Nat.testBit_shiftRight, Nat.mul_zero,
      Nat.zero_add]
  rw [testWord64, shiftRight64, if_pos hi, Option.map_some, hbit, Nat.testBit_eq_decide_div_mod_eq,
    Nat.and_one_is_mod, Nat.shiftRight_eq_div_pow (_ % _)]

theorem testWord16 (word : ℕ) (hfrag : frag < 16) :
    decide ((h.bitmap >>> (16 * word) % 2 ^ 16) &&& (1 <<< frag) ≠ 0) =
      h.bitmap.testBit (16 * word + frag) := by
  have hbit : h.bitmap.testBit (16 * word + frag) =
      (h.bitmap >>> (16 * word) % 2 ^ 16).testBit frag := by
    rw [Nat.testBit_mod_two_pow, decide_eq_true hfrag, Bool.true_and, Nat.testBit_shiftRight]
  rw [hbit, Nat.one_shiftLeft, Nat.and_two_pow]
  cases (h.bitmap >>> (16 * word) % 2 ^ 16).testBit frag with
  | false => simp
  | true => simp

theorem acked_iff {marks : List Mark} (hstart : start < 4096) (hvalid : ∀ m ∈ marks, m.Valid)
    (hseq : seq < 4096) (hfrag : frag < 16) (hin : distance start seq < window type) :
    Acked type start marks seq frag ↔ ∃ m ∈ marks, m.bit type start =
      some (if type = .BASIC_BLOCK_ACK then 16 * distance start seq + frag
        else distance start seq) := by
  constructor
  · rintro ⟨-, ⟨rfl, hmem | ⟨rfl, hmem⟩⟩ | ⟨htype, hmem⟩⟩
    · exact ⟨_, hmem, if_pos ⟨hin, rfl⟩⟩
    · exact ⟨_, hmem, if_pos hin⟩
    · refine ⟨_, hmem, ?_⟩
      rw [Mark.bit, if_pos hin, if_neg htype, if_neg htype]
  · rintro ⟨m, hm, hbit⟩
    refine ⟨hin, ?_⟩
    cases m with
    | packet seq' =>
      rw [Mark.bit] at hbit
      split_ifs at hbit with hin' htype
      · have heq := Option.some.inj hbit
        have hd : distance start seq' = distance start seq := by omega
        obtain rfl := distance_inj hstart (hvalid _ hm) hseq hd
        exact .inl ⟨htype, .inr ⟨by omega, hm⟩⟩
      · obtain rfl := distance_inj hstart (hvalid _ hm) hseq (Option.some.inj hbit)
        exact .inr ⟨htype, hm⟩
    | fragment seq' frag' =>
      obtain ⟨hseq', hfrag'⟩ := hvalid _ hm
      rw [Mark.bit] at hbit
      split_ifs at hbit with hin' htype
      · have heq := Option.some.inj hbit
        have hd : distance start seq' = distance start seq := by omega
        obtain rfl := distance_inj hstart hseq' hseq hd
        obtain rfl : frag' = frag := by omega
        exact .inl ⟨htype, .inl hm⟩
      · exact absurd hin'.2 htype

theorem isReceived_eq (hstart : h.m_startingSeq < 4096) (hseq : seq < 4096) (hfrag : frag < 16)
    (htype : h.m_baType ≠ .MULTI_TID_BLOCK_ACK)
    (hfirst : h.m_baType = .EXTENDED_COMPRESSED_BLOCK_ACK → FirstWord h.m_startingSeq seq) :
    h.isFragmentReceived seq frag = some (decide (distance h.m_startingSeq seq < window h.m_baType) &&
      h.bitmap.testBit (if h.m_baType = .BASIC_BLOCK_ACK then 16 * distance h.m_startingSeq seq + frag
        else distance h.m_startingSeq seq)) ∧
    (h.m_baType ≠ .BASIC_BLOCK_ACK → h.isPacketReceived seq =
      some (decide (distance h.m_startingSeq seq < window h.m_baType) &&
        h.bitmap.testBit (distance h.m_startingSeq seq))) := by
  rw [isFragmentReceived, isPacketReceived, if_pos hfrag, isInBitmap_eq hstart,
    indexInBitmap_eq hstart hseq]
  by_cases hin : distance h.m_startingSeq seq < window h.m_baType
  · have hne : ¬(true = false) := Bool.noConfusion
    rw [decide_eq_true hin, if_neg hne, if_neg hne, Bool.true_and, Bool.true_and]
    cases hcase : h.m_baType with
    | BASIC_BLOCK_ACK => exact ⟨congrArg some (testWord16 _ hfrag), fun hne ↦ absurd rfl hne⟩
    | COMPRESSED_BLOCK_ACK =>
      rw [hcase] at hin
      exact ⟨testWord64_zero hin, fun _ ↦ testWord64_zero hin⟩
    | EXTENDED_COMPRESSED_BLOCK_ACK =>
      rw [hcase] at hin
      have hword : distance h.m_startingSeq seq < 64 :=
        Nat.lt_of_not_le fun hge ↦ hfirst hcase ⟨hge, hin⟩
      dsimp only
      rw [Nat.div_eq_of_lt hword]
      exact ⟨testWord64_zero hword, fun _ ↦ testWord64_zero hword⟩
    | MULTI_TID_BLOCK_ACK => exact absurd hcase htype
  · rw [decide_eq_false hin, if_pos rfl, if_pos rfl]
    exact ⟨rfl, fun _ ↦ rfl⟩

theorem isFragmentReceived_eq_none (hstart : h.m_startingSeq < 4096) (hseq : seq < 4096)
    (hfrag : frag < 16) (htype : h.m_baType = .EXTENDED_COMPRESSED_BLOCK_ACK)
    (hfirst : ¬FirstWord h.m_startingSeq seq) : h.isFragmentReceived seq frag = none := by
  obtain ⟨hge, hin⟩ := not_not.mp hfirst
  have hin' : distance h.m_startingSeq seq < window .EXTENDED_COMPRESSED_BLOCK_ACK := hin
  rw [isFragmentReceived, if_pos hfrag, isInBitmap_eq hstart, indexInBitmap_eq hstart hseq, htype,
    decide_eq_true hin', if_neg (Bool.noConfusion : ¬(true = false))]
  dsimp only
  rw [testWord64, shiftRight64, if_neg (not_lt.mpr hge)]
  rfl

end Bits

/-! ## The result -/

section Result

variable {type : BlockAckType} {start seq frag : ℕ} {marks : List Mark}

theorem exists_words (htype : type ≠ .MULTI_TID_BLOCK_ACK) : ∃ w, words type = some w := by
  cases type with
  | MULTI_TID_BLOCK_ACK => exact absurd rfl htype
  | _ => exact ⟨_, rfl⟩

theorem exists_deserialize (htype : type ≠ .MULTI_TID_BLOCK_ACK) (policy : Bool) (tid : ℕ)
    (hstart : start < 4096) (hvalid : ∀ m ∈ marks, m.Valid)
    (hfirst : type = .EXTENDED_COMPRESSED_BLOCK_ACK → ∀ m ∈ marks, m.FirstWord start) :
    ∃ h bytes h', marks.foldlM mark ⟨policy, type, tid, start, 0⟩ = some h ∧
      h.serialize = some bytes ∧ deserialize bytes = some h' ∧ h'.m_baType = type ∧
      h'.m_startingSeq = start ∧
      ∀ p, h'.bitmap.testBit p = true ↔ ∃ m ∈ marks, m.bit type start = some p := by
  obtain ⟨w, hw⟩ := exists_words htype
  obtain ⟨b, hmark, hb⟩ := foldlM_mark marks (h := ⟨policy, type, tid, start, 0⟩) hstart htype hvalid
    hfirst
  have hbit : ∀ p, b.testBit p = true ↔ ∃ m ∈ marks, m.bit type start = some p := by
    intro p
    rw [hb, Nat.zero_testBit]
    exact or_iff_right Bool.noConfusion
  have hlt : b < 256 ^ (w.1 * w.2) := by
    rw [show 256 = 2 ^ 8 from rfl, ← pow_mul]
    apply Nat.lt_pow_two_of_testBit
    intro p hp
    rw [← Bool.not_eq_true, hbit]
    rintro ⟨m, hm, hmp⟩
    exact absurd (Mark.bit_lt (hvalid m hm) hw hmp) (not_lt.mpr hp)
  obtain ⟨bytes, h', hser, hdes, htype', hstart', hbitmap⟩ :=
    deserialize_serialize (h := ⟨policy, type, tid, start, b⟩) hw hstart hlt
  refine ⟨_, bytes, h', hmark, hser, hdes, htype', hstart', fun p ↦ ?_⟩
  rw [hbitmap]
  exact hbit p

/-- **The bitmaps are exact, and the shifts are defined, just if the extended variant is not used
beyond its first word.** -/
theorem exact_iff (htype : type ≠ .MULTI_TID_BLOCK_ACK) (policy : Bool) (tid : ℕ)
    (hstart : start < 4096) (hvalid : ∀ m ∈ marks, m.Valid) (hseq : seq < 4096) (hfrag : frag < 16) :
    Exact type policy tid start marks seq frag ↔
      (type = .EXTENDED_COMPRESSED_BLOCK_ACK →
        (∀ m ∈ marks, m.FirstWord start) ∧ FirstWord start seq) := by
  constructor
  · rintro ⟨h, bytes, h', hmark, hser, hdes, hfragment, -⟩ rfl
    have hmarks : ∀ m ∈ marks, m.FirstWord start := by
      by_contra hfar
      push Not at hfar
      have hnone := @foldlM_mark_eq_none marks
        ⟨policy, .EXTENDED_COMPRESSED_BLOCK_ACK, tid, start, 0⟩ hstart rfl hvalid hfar
      exact Option.some_ne_none h (hmark.symm.trans hnone)
    refine ⟨hmarks, ?_⟩
    by_contra hfar
    obtain ⟨k, bytes', k', hmark', hser', hdes', htype', hstart', -⟩ :=
      exists_deserialize htype policy tid hstart hvalid fun _ ↦ hmarks
    obtain rfl := Option.some.inj (hmark.symm.trans hmark')
    obtain rfl := Option.some.inj (hser.symm.trans hser')
    obtain rfl := Option.some.inj (hdes.symm.trans hdes')
    subst hstart'
    have hnone := isFragmentReceived_eq_none hstart hseq hfrag htype' hfar
    exact Option.some_ne_none _ (hfragment.symm.trans hnone)
  · intro hfirst
    obtain ⟨h, bytes, h', hmark, hser, hdes, rfl, rfl, hbits⟩ :=
      exists_deserialize htype policy tid hstart hvalid fun ht ↦ (hfirst ht).1
    obtain ⟨hfragment, hpacket⟩ :=
      isReceived_eq hstart hseq hfrag htype fun ht ↦ (hfirst ht).2
    have hacked : (decide (distance h'.m_startingSeq seq < window h'.m_baType) &&
        h'.bitmap.testBit (if h'.m_baType = .BASIC_BLOCK_ACK
          then 16 * distance h'.m_startingSeq seq + frag else distance h'.m_startingSeq seq)) =
        decide (Acked h'.m_baType h'.m_startingSeq marks seq frag) := by
      by_cases hin : distance h'.m_startingSeq seq < window h'.m_baType
      · rw [decide_eq_true hin, Bool.true_and, Bool.eq_iff_iff, hbits, decide_eq_true_iff,
          acked_iff hstart hvalid hseq hfrag hin]
      · rw [decide_eq_false hin, Bool.false_and]
        exact (decide_eq_false fun h ↦ hin h.1).symm
    refine ⟨h, bytes, h', hmark, hser, hdes, ?_, fun hbasic ↦ ?_⟩
    · rw [hfragment, hacked]
    · rw [hpacket hbasic, ← hacked, if_neg hbasic]

/-- The window may wrap around. -/
theorem exact_wrap : Exact .EXTENDED_COMPRESSED_BLOCK_ACK false 5 4090
    [.packet 57, .packet 4090, .packet 3, .packet 4089] 3 0 :=
  (exact_iff (by decide) false 5 (by decide) (by decide) (by decide) (by decide)).mpr (by decide)

end Result

/-- The number 64 after the starting sequence cannot be marked in the extended variant. -/
theorem not_exact_second_word :
    ¬Exact .EXTENDED_COMPRESSED_BLOCK_ACK false 0 0 [.packet 64] 64 0 := by
  rintro ⟨h, -, -, hmark, -⟩
  have hnone : [Mark.packet 64].foldlM mark
      ⟨false, .EXTENDED_COMPRESSED_BLOCK_ACK, 0, 0, 0⟩ = none := by decide
  exact Option.some_ne_none h (hmark.symm.trans hnone)

end CtrlBAckResponseHeader

end Wifi

end Ns3
