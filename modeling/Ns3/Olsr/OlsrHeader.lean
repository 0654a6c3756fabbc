import Ns3.Library.Partial
import Ns3.Network.BufferIterator

/-!
# Reading OLSR messages

A message announces its size, and the body of a message is read by what is left of it; the link messages of
a HELLO announce their sizes too. All of these are subtracted as they come, in 32 and in 16 bits.

Only the slow path of the multi-byte reads looks for the end of the buffer. It is taken in front of the end
of the zero area; a read that starts behind that takes what the memory holds, and it is not stopped there.
Positions are natural numbers and the memory has no end: whatever reads on has read behind the message.

The assertion of the iterator (`missing`) is told from those of `Deserialize` (`aborted`). With a size that
is smaller than the header, or a link message that is larger than what is left or has size 0, the bytes that
are read are not those of the message (`Astray`), unless an assertion happens to stop it later.
-/

namespace Ns3

namespace Olsr

namespace Wire

/-! ## Messages -/

/-- A `LinkMessage`. -/
structure LinkMessage where
  linkCode : UInt8
  neighborInterfaceAddresses : List UInt32
  deriving DecidableEq, Repr

/-- The body of a message; addresses are 32 bit numbers. -/
inductive Message
  | mid (interfaceAddresses : List UInt32)
  | hello (hTime willingness : UInt8) (linkMessages : List LinkMessage)
  | tc (ansn : UInt16) (neighborAddresses : List UInt32)
  | hna (associations : List (UInt32 × UInt32))
  deriving DecidableEq, Repr

/-- A `MessageHeader`. -/
structure MessageHeader where
  m_messageType : UInt8
  m_vTime : UInt8
  m_messageSize : UInt16
  m_originatorAddress : UInt32
  m_timeToLive : UInt8
  m_hopCount : UInt8
  m_messageSequenceNumber : UInt16
  m_message : Message
  deriving DecidableEq, Repr

def HELLO_MESSAGE : UInt8 := 1

def TC_MESSAGE : UInt8 := 2

def MID_MESSAGE : UInt8 := 3

def HNA_MESSAGE : UInt8 := 4

/-! ## The iterator -/

/-- Why reading does not succeed. -/
inductive Failure
  /-- The assertion of the iterator, which asks for a byte at the end of the data or behind it. -/
  | missing (q : ℕ)
  /-- An assertion of `Deserialize`. -/
  | aborted
  /-- A loop has not ended. -/
  | outOfFuel
  deriving DecidableEq, Repr

/-- What a `Buffer::Iterator` refers to, with its places counted from the start of a message: the zero area,
the end of the data, and the bytes of the data and of the memory behind it. -/
structure Bytes where
  m_zeroStart : ℕ
  m_zeroEnd : ℕ
  m_dataEnd : ℕ
  byte : ℕ → UInt8
  zeroStart_le : m_zeroStart ≤ m_zeroEnd
  zeroEnd_le : m_zeroEnd ≤ m_dataEnd

namespace Bytes

variable (m : Bytes)

def readU8 (m_current : ℕ) : Except Failure (UInt8 × ℕ) :=
  if m_current < m.m_dataEnd then .ok (m.byte m_current, m_current + 1)
  else .error (.missing m_current)

/-- The 16 bits at a place. -/
def u16At (p : ℕ) : UInt16 := ((m.byte p).toUInt16 <<< 8) ||| (m.byte (p + 1)).toUInt16

/-- The 32 bits at a place. -/
def u32At (p : ℕ) : UInt32 :=
  (((((m.byte p).toUInt32 <<< 8) ||| (m.byte (p + 1)).toUInt32) <<< 8 |||
    (m.byte (p + 2)).toUInt32) <<< 8) ||| (m.byte (p + 3)).toUInt32

def slowReadNtohU16 (m_current : ℕ) : Except Failure (UInt16 × ℕ) := do
  let (b₀, i) ← m.readU8 m_current
  let (b₁, i) ← m.readU8 i
  return ((b₀.toUInt16 <<< 8) ||| b₁.toUInt16, i)

def slowReadNtohU32 (m_current : ℕ) : Except Failure (UInt32 × ℕ) := do
  let (b₀, i) ← m.readU8 m_current
  let (b₁, i) ← m.readU8 i
  let (b₂, i) ← m.readU8 i
  let (b₃, i) ← m.readU8 i
  return ((((((b₀.toUInt32 <<< 8) ||| b₁.toUInt32) <<< 8) ||| b₂.toUInt32) <<< 8) ||| b₃.toUInt32, i)

def readNtohU16 (m_current : ℕ) : Except Failure (UInt16 × ℕ) :=
  if m_current + 2 ≤ m.m_zeroStart ∨ m.m_zeroEnd ≤ m_current then
    .ok (m.u16At m_current, m_current + 2)
  else m.slowReadNtohU16 m_current

def readNtohU32 (m_current : ℕ) : Except Failure (UInt32 × ℕ) :=
  if m_current + 4 ≤ m.m_zeroStart ∨ m.m_zeroEnd ≤ m_current then
    .ok (m.u32At m_current, m_current + 4)
  else m.slowReadNtohU32 m_current

/-! ## Reading -/

/-- `NS_ASSERT`. -/
def nsAssert (c : Prop) [Decidable c] : Except Failure Unit := if c then .ok () else .error .aborted

/-- A loop that counts up to the number of the addresses. -/
def readAddresses : ℕ → ℕ → Except Failure (List UInt32 × ℕ)
  | 0, i => .ok ([], i)
  | n + 1, i => do
    let (address, i) ← m.readNtohU32 i
    let (addresses, i) ← readAddresses n i
    return (address :: addresses, i)

/-- A loop that counts down to zero from a number that may be negative. -/
def readNeighbors : ℕ → ℤ → ℕ → Except Failure (List UInt32 × ℕ)
  | 0, _, _ => .error .outOfFuel
  | fuel + 1, n, i =>
    if n = 0 then .ok ([], i)
    else do
      let (address, i) ← m.readNtohU32 i
      let (addresses, i) ← readNeighbors fuel (n - 1) i
      return (address :: addresses, i)

/-- The loop over the link messages. -/
def readLinkMessages : ℕ → UInt16 → ℕ → Except Failure (List LinkMessage × ℕ)
  | 0, _, _ => .error .outOfFuel
  | fuel + 1, helloSizeLeft, i =>
    if helloSizeLeft = 0 then .ok ([], i)
    else do
      nsAssert (4 ≤ helloSizeLeft)
      let (linkCode, i) ← m.readU8 i
      let (_, i) ← m.readU8 i
      let (lmSize, i) ← m.readNtohU16 i
      nsAssert (((lmSize.toNat : ℤ) - 4).tmod 4 = 0)
      let (addresses, i) ←
        m.readNeighbors (m.m_dataEnd + lmSize.toNat + 1) (((lmSize.toNat : ℤ) - 4).tdiv 4) i
      let (linkMessages, i) ← readLinkMessages fuel (helloSizeLeft - lmSize) i
      return (⟨linkCode, addresses⟩ :: linkMessages, i)

/-- The loop over the associations. -/
def readAssociations : ℕ → ℕ → Except Failure (List (UInt32 × UInt32) × ℕ)
  | 0, i => .ok ([], i)
  | n + 1, i => do
    let (address, i) ← m.readNtohU32 i
    let (mask, i) ← m.readNtohU32 i
    let (associations, i) ← readAssociations n i
    return ((address, mask) :: associations, i)

/-- `Mid::Deserialize`: what is read, the size that is returned, and where the reading ends. -/
def deserializeMid (i : ℕ) (messageSize : UInt32) : Except Failure (Message × UInt32 × ℕ) := do
  nsAssert (messageSize % 4 = 0)
  let (interfaceAddresses, i) ← m.readAddresses (messageSize / 4).toNat i
  return (.mid interfaceAddresses, UInt32.ofNat (interfaceAddresses.length * 4), i)

/-- `Hello::Deserialize`. -/
def deserializeHello (i : ℕ) (messageSize : UInt32) : Except Failure (Message × UInt32 × ℕ) := do
  nsAssert (4 ≤ messageSize)
  let (_, i) ← m.readNtohU16 i
  let (hTime, i) ← m.readU8 i
  let (willingness, i) ← m.readU8 i
  let (linkMessages, i) ← m.readLinkMessages (m.m_dataEnd + 1) (messageSize.toUInt16 - 4) i
  return (.hello hTime willingness linkMessages, messageSize, i)

/-- `Tc::Deserialize`. -/
def deserializeTc (i : ℕ) (messageSize : UInt32) : Except Failure (Message × UInt32 × ℕ) := do
  nsAssert (4 ≤ messageSize)
  let (ansn, i) ← m.readNtohU16 i
  let (_, i) ← m.readNtohU16 i
  nsAssert ((messageSize - 4) % 4 = 0)
  let (neighborAddresses, i) ← m.readAddresses ((messageSize - 4) / 4).toNat i
  return (.tc ansn neighborAddresses, messageSize, i)

/-- `Hna::Deserialize`. -/
def deserializeHna (i : ℕ) (messageSize : UInt32) : Except Failure (Message × UInt32 × ℕ) := do
  nsAssert (messageSize % (4 * 2) = 0)
  let (associations, i) ← m.readAssociations (messageSize / 4 / 2).toNat i
  return (.hna associations, messageSize, i)

/-- The switch over the types. -/
def deserializeBody (m_messageType : UInt8) (i : ℕ) (messageSize : UInt32) :
    Except Failure (Message × UInt32 × ℕ) :=
  if m_messageType = MID_MESSAGE then m.deserializeMid i messageSize
  else if m_messageType = HELLO_MESSAGE then m.deserializeHello i messageSize
  else if m_messageType = TC_MESSAGE then m.deserializeTc i messageSize
  else if m_messageType = HNA_MESSAGE then m.deserializeHna i messageSize
  else .error .aborted

/-- `MessageHeader::Deserialize`; `OLSR_MSG_HEADER_SIZE` is 12. -/
def deserialize : Except Failure (MessageHeader × UInt32 × ℕ) := do
  let (m_messageType, i) ← m.readU8 0
  nsAssert (HELLO_MESSAGE ≤ m_messageType ∧ m_messageType ≤ HNA_MESSAGE)
  let (m_vTime, i) ← m.readU8 i
  let (m_messageSize, i) ← m.readNtohU16 i
  let (m_originatorAddress, i) ← m.readNtohU32 i
  let (m_timeToLive, i) ← m.readU8 i
  let (m_hopCount, i) ← m.readU8 i
  let (m_messageSequenceNumber, i) ← m.readNtohU16 i
  let (m_message, size, i) ← m.deserializeBody m_messageType i (m_messageSize.toUInt32 - 12)
  return (⟨m_messageType, m_vTime, m_messageSize, m_originatorAddress, m_timeToLive, m_hopCount,
    m_messageSequenceNumber, m_message⟩, 12 + size, i)

/-! ## Bounds -/

/-- The size that a message or a link message at `p` has at its third byte. -/
def sizeField (p : ℕ) : ℕ := (m.byte (p + 2)).toNat * 256 + (m.byte (p + 3)).toNat

/-- **The reading is bounded**: an assertion of `Deserialize` stops it, or it reads no byte behind the
announced size, which it then returns. Where the iterator stops it, the byte that is missing is to be one of
the message, unless no size has been read yet. -/
def Bounded : Prop :=
  match m.deserialize with
  | .ok (_, size, i) => size.toNat = m.sizeField 0 ∧ i ≤ m.sizeField 0
  | .error .aborted => True
  | .error (.missing q) => 4 ≤ q → q < m.sizeField 0
  | .error .outOfFuel => False

/-- A read of `k` bytes at `p` is on the slow path, and crosses the end of the data. -/
def Slow (p k : ℕ) : Prop := p < m.m_zeroEnd ∧ m.m_dataEnd < p + k

/-- What is left of a HELLO of size `s` at the place `p`, in 16 bits. -/
def left (s p : ℕ) : ℤ := ((s : ℤ) - p) % 65536

/-- A link message at `p`, whose size is read and is a number of addresses. -/
structure Link (s p : ℕ) : Prop where
  left : 4 ≤ left s p
  le_dataEnd : p + 2 ≤ m.m_dataEnd
  not_slow : ¬ m.Slow (p + 2) 2
  dvd : 4 ∣ m.sizeField p

/-- One of the addresses of the link message at `p` crosses the end of the data. The addresses of a link
message of size 0 have no end. -/
def CutsAddress (p : ℕ) : Prop :=
  ∃ j, (m.sizeField p = 0 ∨ 4 * j + 4 < m.sizeField p) ∧ m.Slow (p + 4 + 4 * j) 4

/-- The link messages of a HELLO of size `s` lead astray from `p` on: what is left comes to zero behind the
end, or they are cut off behind the end, or there is a link message that does not end. -/
inductive Astray (s : ℕ) : ℕ → Prop
  | past {p : ℕ} (hne : p ≠ s) (hleft : left s p = 0) : Astray s p
  | cut {p : ℕ} (hleft : 4 ≤ left s p) (hlt : m.m_dataEnd < p + 2) (hs : s ≤ max p m.m_dataEnd) :
    Astray s p
  | cutSize {p : ℕ} (hleft : 4 ≤ left s p) (hslow : m.Slow (p + 2) 2) (hs : s ≤ m.m_dataEnd) :
    Astray s p
  | cutAddress {p : ℕ} (hlink : m.Link s p) (hcut : m.CutsAddress p) (hs : s ≤ m.m_dataEnd) : Astray s p
  | endless {p : ℕ} (hlink : m.Link s p) (hcut : ¬ m.CutsAddress p) (hzero : m.sizeField p = 0) :
    Astray s p
  | next {p : ℕ} (hlink : m.Link s p) (hcut : ¬ m.CutsAddress p) (hpos : 0 < m.sizeField p)
    (hrest : Astray s (p + m.sizeField p)) : Astray s p

instance (p k : ℕ) : Decidable (m.Slow p k) := inferInstanceAs (Decidable (_ ∧ _))

/-- The byte that the header asks for behind its size, where it is not there as a whole. -/
def headerCut : Option ℕ :=
  if m.Slow 4 4 then some m.m_dataEnd
  else if m.m_dataEnd < 10 then some (max 8 m.m_dataEnd)
  else if m.Slow 10 2 then some m.m_dataEnd
  else none

/-- The body of a message of type `t` and size `s` is too small for its header, where this is not found out
by the assertion of the body, or it is a HELLO whose link messages lead astray. -/
def BodyBeyond (t : UInt8) (s : ℕ) : Prop :=
  t = MID_MESSAGE ∧ s < 12 ∧ 4 ∣ s ∨
    t = TC_MESSAGE ∧ s < 12 ∧ (m.Slow 12 2 ∨ m.Slow 14 2 ∨ 4 ∣ s) ∨
    t = HNA_MESSAGE ∧ s = 4 ∨
    t = HELLO_MESSAGE ∧ (s < 12 ∨ 16 ≤ s) ∧
      (m.m_dataEnd < 16 ∧ s < 12 ∨ 16 ≤ m.m_dataEnd ∧ m.Astray s 16)

/-- The reading of a message leads beyond it: the header ends behind the announced size, or the body is read
beyond that. -/
def LeadsBeyond : Prop :=
  1 < m.m_dataEnd ∧ (HELLO_MESSAGE ≤ m.byte 0 ∧ m.byte 0 ≤ HNA_MESSAGE) ∧ ¬ m.Slow 2 2 ∧
    match m.headerCut with
    | some q => m.sizeField 0 ≤ q
    | none => m.BodyBeyond (m.byte 0) (m.sizeField 0)

/-! ## Single reads -/

section Reads

variable {m : Bytes} {p k : ℕ}

theorem readU8_of_lt (h : p < m.m_dataEnd) : m.readU8 p = .ok (m.byte p, p + 1) := if_pos h

theorem readU8_of_le (h : m.m_dataEnd ≤ p) : m.readU8 p = .error (.missing p) := if_neg h.not_gt

/-- A read that is on the slow path and does not cross the end has its bytes. -/
theorem le_dataEnd_of_not_slow (h : ¬ m.Slow p k) (hfast : ¬ (p + k ≤ m.m_zeroStart ∨ m.m_zeroEnd ≤ p)) :
    p + k ≤ m.m_dataEnd := by
  by_contra hlt
  exact h ⟨not_le.mp fun hle ↦ hfast (Or.inr hle), not_le.mp hlt⟩

theorem not_fast_of_slow (h : m.Slow p k) : ¬ (p + k ≤ m.m_zeroStart ∨ m.m_zeroEnd ≤ p) := by
  have hstart := m.zeroStart_le
  have hend := m.zeroEnd_le
  obtain ⟨hlt, hcross⟩ := h
  omega

theorem lt_dataEnd_of_slow (h : m.Slow p k) : p < m.m_dataEnd := h.1.trans_le m.zeroEnd_le

theorem readNtohU16_of_slow (h : m.Slow p 2) : m.readNtohU16 p = .error (.missing m.m_dataEnd) := by
  have hlt := lt_dataEnd_of_slow h
  have hend : m.m_dataEnd = p + 1 := by
    have := h.2
    omega
  rw [readNtohU16, if_neg (not_fast_of_slow h), slowReadNtohU16, readU8_of_lt hlt, Except.ok_bind]
  dsimp only
  rw [readU8_of_le hend.le, hend]
  rfl

theorem readNtohU16_of_not_slow (h : ¬ m.Slow p 2) : m.readNtohU16 p = .ok (m.u16At p, p + 2) := by
  rw [readNtohU16]
  split_ifs with hfast
  · rfl
  · have hle := le_dataEnd_of_not_slow h hfast
    rw [slowReadNtohU16, readU8_of_lt (by omega), Except.ok_bind]
    dsimp only
    rw [readU8_of_lt (by omega)]
    rfl

theorem readNtohU32_of_slow (h : m.Slow p 4) : m.readNtohU32 p = .error (.missing m.m_dataEnd) := by
  have hlt := lt_dataEnd_of_slow h
  have hend : m.m_dataEnd = p + 1 ∨ m.m_dataEnd = p + 2 ∨ m.m_dataEnd = p + 3 := by
    have := h.2
    omega
  rw [readNtohU32, if_neg (not_fast_of_slow h), slowReadNtohU32, readU8_of_lt hlt, Except.ok_bind]
  dsimp only
  rcases hend with hend | hend | hend
  · rw [readU8_of_le hend.le, hend]
    rfl
  · rw [readU8_of_lt (by omega), Except.ok_bind]
    dsimp only
    rw [readU8_of_le hend.le, hend]
    rfl
  · rw [readU8_of_lt (by omega), Except.ok_bind]
    dsimp only
    rw [readU8_of_lt (by omega), Except.ok_bind]
    dsimp only
    rw [readU8_of_le hend.le, hend]
    rfl

theorem readNtohU32_of_not_slow (h : ¬ m.Slow p 4) : m.readNtohU32 p = .ok (m.u32At p, p + 4) := by
  rw [readNtohU32]
  split_ifs with hfast
  · rfl
  · have hle := le_dataEnd_of_not_slow h hfast
    rw [slowReadNtohU32, readU8_of_lt (by omega), Except.ok_bind]
    dsimp only
    rw [readU8_of_lt (by omega), Except.ok_bind]
    dsimp only
    rw [readU8_of_lt (by omega), Except.ok_bind]
    dsimp only
    rw [readU8_of_lt (by omega)]
    rfl

theorem toNat_u16At (m : Bytes) (p : ℕ) :
    (m.u16At p).toNat = (m.byte p).toNat * 256 + (m.byte (p + 1)).toNat := by
  have hlt := (m.byte p).toNat_lt
  rw [u16At, Buffer.toNat_shiftLeft_or16 (by rw [UInt8.toNat_toUInt16]; omega), UInt8.toNat_toUInt16]

end Reads

/-! ## Loops over addresses -/

section Loops

variable {m : Bytes} {p n : ℕ}

/-- **Addresses are read one by one**, up to one that crosses the end of the data on the slow path. -/
theorem readAddresses_spec (m : Bytes) (n p : ℕ) :
    ((∃ j < n, m.Slow (p + 4 * j) 4) ∧ m.readAddresses n p = .error (.missing m.m_dataEnd)) ∨
      ((∀ j < n, ¬ m.Slow (p + 4 * j) 4) ∧
        ∃ l, l.length = n ∧ m.readAddresses n p = .ok (l, p + 4 * n)) := by
  induction n generalizing p with
  | zero => exact Or.inr ⟨fun j hj ↦ absurd hj (Nat.not_lt_zero j), [], rfl, rfl⟩
  | succ n ih =>
    have hshift (j : ℕ) : p + 4 * (j + 1) = p + 4 + 4 * j := by omega
    rw [readAddresses]
    by_cases hslow : m.Slow p 4
    · rw [readNtohU32_of_slow hslow]
      exact Or.inl ⟨⟨0, Nat.succ_pos n, hslow⟩, rfl⟩
    · rw [readNtohU32_of_not_slow hslow, Except.ok_bind]
      dsimp only
      rcases ih (p + 4) with ⟨⟨j, hj, hcut⟩, herr⟩ | ⟨hnone, l, hl, hok⟩
      · rw [herr]
        exact Or.inl ⟨⟨j + 1, Nat.succ_lt_succ hj, by rwa [hshift]⟩, rfl⟩
      · rw [hok]
        refine Or.inr ⟨fun j hj ↦ ?_, m.u32At p :: l, congrArg (· + 1) hl, ?_⟩
        · cases j with
          | zero => exact hslow
          | succ j =>
            rw [hshift]
            exact hnone j (Nat.lt_of_succ_lt_succ hj)
        · rw [hshift]
          rfl

theorem readAssociations_spec (m : Bytes) (n p : ℕ) :
    (∃ q, p < q ∧ q < p + 8 * n ∧ m.readAssociations n p = .error (.missing q)) ∨
      ∃ l, m.readAssociations n p = .ok (l, p + 8 * n) := by
  induction n generalizing p with
  | zero => exact Or.inr ⟨[], rfl⟩
  | succ n ih =>
    rw [readAssociations]
    by_cases hslow : m.Slow p 4
    · have hlt := lt_dataEnd_of_slow hslow
      have hcross := hslow.2
      rw [readNtohU32_of_slow hslow]
      exact Or.inl ⟨m.m_dataEnd, hlt, by omega, rfl⟩
    rw [readNtohU32_of_not_slow hslow, Except.ok_bind]
    dsimp only
    by_cases hslow' : m.Slow (p + 4) 4
    · have hlt := lt_dataEnd_of_slow hslow'
      have hcross := hslow'.2
      rw [readNtohU32_of_slow hslow']
      exact Or.inl ⟨m.m_dataEnd, by omega, by omega, rfl⟩
    rw [readNtohU32_of_not_slow hslow', Except.ok_bind]
    dsimp only
    rcases ih (p + 4 + 4) with ⟨q, hlo, hhi, herr⟩ | ⟨l, hok⟩
    · rw [herr]
      exact Or.inl ⟨q, by omega, by omega, rfl⟩
    · rw [hok, show p + 8 * (n + 1) = p + 4 + 4 + 8 * n by omega]
      exact Or.inr ⟨_, rfl⟩

theorem readNeighbors_natCast {fuel : ℕ} (hfuel : n < fuel) :
    m.readNeighbors fuel n p = m.readAddresses n p := by
  induction n generalizing fuel p with
  | zero =>
    obtain ⟨fuel, rfl⟩ := Nat.exists_eq_succ_of_ne_zero (Nat.ne_zero_of_lt hfuel)
    rfl
  | succ n ih =>
    obtain ⟨fuel, rfl⟩ := Nat.exists_eq_succ_of_ne_zero (Nat.ne_zero_of_lt hfuel)
    have hpred : ((n + 1 : ℕ) : ℤ) - 1 = n := by omega
    rw [readNeighbors, if_neg (by omega), readAddresses]
    congr 1
    funext ⟨address, i⟩
    dsimp only
    rw [hpred, ih (Nat.lt_of_succ_lt_succ hfuel)]

/-- **A count that starts below zero does not come to zero**: the loop is stopped by the iterator, or it does
not end. -/
theorem readNeighbors_of_neg (fuel : ℕ) {n : ℤ} (hn : n < 0) :
    ((∃ j < fuel, m.Slow (p + 4 * j) 4) ∧ m.readNeighbors fuel n p = .error (.missing m.m_dataEnd)) ∨
      ((∀ j < fuel, ¬ m.Slow (p + 4 * j) 4) ∧ m.readNeighbors fuel n p = .error .outOfFuel) := by
  induction fuel generalizing n p with
  | zero => exact Or.inr ⟨fun j hj ↦ absurd hj (Nat.not_lt_zero j), rfl⟩
  | succ fuel ih =>
    have hshift (j : ℕ) : p + 4 * (j + 1) = p + 4 + 4 * j := by omega
    rw [readNeighbors, if_neg hn.ne]
    by_cases hslow : m.Slow p 4
    · rw [readNtohU32_of_slow hslow]
      exact Or.inl ⟨⟨0, Nat.succ_pos fuel, hslow⟩, rfl⟩
    · rw [readNtohU32_of_not_slow hslow, Except.ok_bind]
      dsimp only
      rcases ih (p := p + 4) (show n - 1 < 0 by omega) with ⟨⟨j, hj, hcut⟩, herr⟩ | ⟨hnone, herr⟩
      · rw [herr]
        exact Or.inl ⟨⟨j + 1, Nat.succ_lt_succ hj, by rwa [hshift]⟩, rfl⟩
      · rw [herr]
        refine Or.inr ⟨fun j hj ↦ ?_, rfl⟩
        cases j with
        | zero => exact hslow
        | succ j =>
          rw [hshift]
          exact hnone j (Nat.lt_of_succ_lt_succ hj)

/-- The addresses of the link message at `p`. -/
theorem readNeighbors_spec (hdvd : 4 ∣ m.sizeField p) {x : Except Failure (List UInt32 × ℕ)}
    (hx : m.readNeighbors (m.m_dataEnd + m.sizeField p + 1)
      (((m.sizeField p : ℤ) - 4).tdiv 4) (p + 4) = x) :
    (m.CutsAddress p ∧ x = .error (.missing m.m_dataEnd)) ∨
      (¬ m.CutsAddress p ∧ (m.sizeField p = 0 ∧ x = .error .outOfFuel ∨
        0 < m.sizeField p ∧ ∃ l, x = .ok (l, p + m.sizeField p))) := by
  obtain ⟨_ | k, hk⟩ := hdvd
  · rw [Nat.mul_zero] at hk
    rw [hk] at hx
    rw [← hx, CutsAddress, hk]
    change (_ ∧ m.readNeighbors (m.m_dataEnd + 1) (-1) (p + 4) = _) ∨
      (_ ∧ (_ ∧ m.readNeighbors (m.m_dataEnd + 1) (-1) (p + 4) = _ ∨ _))
    rcases readNeighbors_of_neg (m := m) (p := p + 4) (m.m_dataEnd + 1) (show (-1 : ℤ) < 0 by decide)
      with ⟨⟨j, hj, hcut⟩, herr⟩ | ⟨hnone, herr⟩
    · exact Or.inl ⟨⟨j, Or.inl rfl, hcut⟩, herr⟩
    · refine Or.inr ⟨?_, Or.inl ⟨rfl, herr⟩⟩
      rintro ⟨j, -, hcut⟩
      have hlt := lt_dataEnd_of_slow hcut
      exact hnone j (by omega) hcut
  · have hdiv : ((m.sizeField p : ℤ) - 4).tdiv 4 = k := by
      rw [hk, show ((4 * (k + 1) : ℕ) : ℤ) - 4 = k * 4 by omega]
      exact Int.mul_tdiv_cancel _ (by decide)
    rw [hdiv, readNeighbors_natCast (by omega)] at hx
    have hcuts : m.CutsAddress p ↔ ∃ j < k, m.Slow (p + 4 + 4 * j) 4 := by
      rw [CutsAddress, hk]
      exact exists_congr fun j ↦ and_congr_left fun _ ↦ by omega
    rw [← hx, hcuts]
    rcases readAddresses_spec m k (p + 4) with ⟨hcut, herr⟩ | ⟨hnone, l, -, hok⟩
    · exact Or.inl ⟨hcut, herr⟩
    · refine Or.inr ⟨fun ⟨j, hj, hcut⟩ ↦ hnone j hj hcut, Or.inr ⟨by omega, l, ?_⟩⟩
      rw [hok, hk, show p + 4 * (k + 1) = p + 4 + 4 * k by omega]

end Loops

/-! ## Link messages -/

section Links

variable {m : Bytes} {s p : ℕ} {helloSizeLeft : UInt16}

/-- An assertion of `Deserialize` stops the reader, or it does not go behind `s`. -/
def Stays {α : Type} (s : ℕ) : Except Failure (α × ℕ) → Prop
  | .ok (_, i) => i ≤ s
  | .error .aborted => True
  | .error (.missing q) => 4 ≤ q → q < s
  | .error .outOfFuel => False

theorem stays_map {α β : Type} {x : Except Failure (α × ℕ)} (f : α → β) :
    Stays s (x >>= fun y ↦ .ok (f y.1, y.2)) ↔ Stays s x := by
  rcases x with (q | _ | _) | ⟨a, i⟩ <;> exact Iff.rfl

theorem astray_iff (hleft : 4 ≤ left s p) : m.Astray s p ↔
    m.m_dataEnd < p + 2 ∧ s ≤ max p m.m_dataEnd ∨ m.Slow (p + 2) 2 ∧ s ≤ m.m_dataEnd ∨
      m.Link s p ∧ (m.CutsAddress p ∧ s ≤ m.m_dataEnd ∨
        ¬ m.CutsAddress p ∧ (m.sizeField p = 0 ∨
          0 < m.sizeField p ∧ m.Astray s (p + m.sizeField p))) := by
  constructor
  · intro h
    cases h with
    | past _ hzero => omega
    | cut _ hlt hs => exact Or.inl ⟨hlt, hs⟩
    | cutSize _ hslow hs => exact Or.inr (Or.inl ⟨hslow, hs⟩)
    | cutAddress hlink hcut hs => exact Or.inr (Or.inr ⟨hlink, Or.inl ⟨hcut, hs⟩⟩)
    | endless hlink hcut hzero => exact Or.inr (Or.inr ⟨hlink, Or.inr ⟨hcut, Or.inl hzero⟩⟩)
    | next hlink hcut hpos hrest =>
      exact Or.inr (Or.inr ⟨hlink, Or.inr ⟨hcut, Or.inr ⟨hpos, hrest⟩⟩⟩)
  · rintro (⟨hlt, hs⟩ | ⟨hslow, hs⟩ | ⟨hlink, ⟨hcut, hs⟩ | ⟨hcut, hzero | ⟨hpos, hrest⟩⟩⟩)
    · exact .cut hleft hlt hs
    · exact .cutSize hleft hslow hs
    · exact .cutAddress hlink hcut hs
    · exact .endless hlink hcut hzero
    · exact .next hlink hcut hpos hrest

theorem astray_iff_ne (hleft : left s p < 4) : m.Astray s p ↔ p ≠ s ∧ left s p = 0 := by
  constructor
  · intro h
    cases h with
    | past hne hzero => exact ⟨hne, hzero⟩
    | cut hfour => omega
    | cutSize hfour => omega
    | cutAddress hlink => exact absurd hlink.left hleft.not_ge
    | endless hlink => exact absurd hlink.left hleft.not_ge
    | next hlink => exact absurd hlink.left hleft.not_ge
  · exact fun h ↦ .past h.1 h.2

theorem four_le_ne_zero (hleft : 4 ≤ helloSizeLeft) : helloSizeLeft ≠ 0 := by
  rintro rfl
  exact absurd hleft (by decide)

/-- A link message whose code or size crosses the end of the data. -/
theorem readLinkMessages_cut (fuel : ℕ) (hleft : 4 ≤ helloSizeLeft) (hlt : m.m_dataEnd < p + 2) :
    m.readLinkMessages (fuel + 1) helloSizeLeft p = .error (.missing (max p m.m_dataEnd)) := by
  rw [readLinkMessages, if_neg (four_le_ne_zero hleft), nsAssert, if_pos hleft, Except.ok_bind]
  rcases Nat.lt_or_ge p m.m_dataEnd with hp | hp
  · have hend : m.m_dataEnd = p + 1 := by omega
    rw [readU8_of_lt hp, Except.ok_bind]
    dsimp only
    rw [readU8_of_le hend.le, Nat.max_eq_right hp.le, hend]
    rfl
  · rw [readU8_of_le hp, Nat.max_eq_left hp]
    rfl

theorem readLinkMessages_cutSize (fuel : ℕ) (hleft : 4 ≤ helloSizeLeft) (hslow : m.Slow (p + 2) 2) :
    m.readLinkMessages (fuel + 1) helloSizeLeft p = .error (.missing m.m_dataEnd) := by
  have hlt := lt_dataEnd_of_slow hslow
  rw [readLinkMessages, if_neg (four_le_ne_zero hleft), nsAssert, if_pos hleft, Except.ok_bind,
    readU8_of_lt (by omega), Except.ok_bind]
  dsimp only
  rw [readU8_of_lt (by omega), Except.ok_bind]
  dsimp only
  rw [readNtohU16_of_slow (p := p + 1 + 1) hslow]
  rfl

theorem readLinkMessages_succ (fuel : ℕ) (hleft : 4 ≤ helloSizeLeft) (hle : p + 2 ≤ m.m_dataEnd)
    (hslow : ¬ m.Slow (p + 2) 2) : ∃ lmSize : UInt16, lmSize.toNat = m.sizeField p ∧
      m.readLinkMessages (fuel + 1) helloSizeLeft p = (do
        nsAssert (((lmSize.toNat : ℤ) - 4).tmod 4 = 0)
        let (addresses, i) ←
          m.readNeighbors (m.m_dataEnd + lmSize.toNat + 1) (((lmSize.toNat : ℤ) - 4).tdiv 4) (p + 4)
        let (linkMessages, i) ← m.readLinkMessages fuel (helloSizeLeft - lmSize) i
        return (⟨m.byte p, addresses⟩ :: linkMessages, i)) := by
  refine ⟨m.u16At (p + 2), m.toNat_u16At (p + 2), ?_⟩
  rw [readLinkMessages, if_neg (four_le_ne_zero hleft), nsAssert, if_pos hleft, Except.ok_bind,
    readU8_of_lt (by omega), Except.ok_bind]
  dsimp only
  rw [readU8_of_lt (by omega), Except.ok_bind]
  dsimp only
  rw [readNtohU16_of_not_slow (p := p + 1 + 1) hslow]
  rfl

/-- **The loop over the link messages** stays within the message unless the link messages lead astray. -/
theorem stays_readLinkMessages {fuel : ℕ} (hfuel : m.m_dataEnd - p < fuel) (hp : 4 ≤ p)
    (hleft : (helloSizeLeft.toNat : ℤ) = left s p) (hs : s < 65536) :
    Stays s (m.readLinkMessages fuel helloSizeLeft p) ↔ ¬ m.Astray s p := by
  induction fuel generalizing p helloSizeLeft with
  | zero => exact absurd hfuel (Nat.not_lt_zero _)
  | succ fuel ih =>
    by_cases hzero : helloSizeLeft = 0
    · have hmod : left s p = 0 := by rw [← hleft, hzero]; rfl
      rw [readLinkMessages, if_pos hzero, astray_iff_ne (by omega), and_iff_left hmod, not_not]
      change p ≤ s ↔ p = s
      rw [left] at hmod
      omega
    by_cases hsmall : 4 ≤ helloSizeLeft
    · have hfour : 4 ≤ left s p := by
        have := UInt16.le_iff_toNat_le.mp hsmall
        rw [← hleft]
        exact_mod_cast this
      rcases Nat.lt_or_ge m.m_dataEnd (p + 2) with hlt | hle
      · have hnot (h : m.Slow (p + 2) 2) : False := (lt_dataEnd_of_slow h).not_gt hlt
        rw [readLinkMessages_cut fuel hsmall hlt, astray_iff hfour,
          or_iff_left fun h ↦ h.elim (fun h ↦ hnot h.1) fun h ↦ h.1.le_dataEnd.not_gt hlt,
          and_iff_right hlt, not_le]
        exact forall_prop_of_true (hp.trans (Nat.le_max_left _ _))
      rw [astray_iff hfour, or_iff_right fun h ↦ hle.not_gt h.1]
      by_cases hslow : m.Slow (p + 2) 2
      · rw [readLinkMessages_cutSize fuel hsmall hslow, and_iff_right hslow,
          or_iff_left fun h ↦ h.1.not_slow hslow, not_le]
        exact forall_prop_of_true (by omega)
      rw [or_iff_right fun h ↦ hslow h.1]
      obtain ⟨lmSize, hsize, hloop⟩ := readLinkMessages_succ fuel hsmall hle hslow
      rw [hloop, hsize]
      by_cases hdvd : 4 ∣ m.sizeField p
      · have hassert : ((m.sizeField p : ℤ) - 4).tmod 4 = 0 := Int.tmod_eq_zero_of_dvd (by omega)
        rw [nsAssert, if_pos hassert, Except.ok_bind, and_iff_right ⟨hfour, hle, hslow, hdvd⟩]
        generalize hx : m.readNeighbors _ _ (p + 4) = x
        rcases readNeighbors_spec hdvd hx with ⟨hcut, rfl⟩ | ⟨hcut, ⟨hnone, rfl⟩ | ⟨hpos, l, rfl⟩⟩
        · rw [and_iff_right hcut, or_iff_left fun h ↦ h.1 hcut, not_le]
          exact forall_prop_of_true (by omega)
        · exact iff_of_false id fun h ↦ h (Or.inr ⟨hcut, Or.inl hnone⟩)
        · -- what is left gets smaller by as much as the place moves on
          have hsub : ((helloSizeLeft - lmSize).toNat : ℤ) = left s (p + m.sizeField p) := by
            have hlt16 := lmSize.toNat_lt
            rw [left] at hleft ⊢
            rw [UInt16.toNat_sub]
            push_cast
            omega
          rw [or_iff_right fun h ↦ hcut h.1, and_iff_right hcut, or_iff_right hpos.ne', and_iff_right hpos,
            ← ih (by omega) (by omega) hsub, Except.ok_bind]
          exact stays_map _
      · have hassert : ¬ ((m.sizeField p : ℤ) - 4).tmod 4 = 0 := fun h ↦ hdvd (by
          have := Int.dvd_of_tmod_eq_zero h
          omega)
        rw [nsAssert, if_neg hassert]
        exact iff_of_true trivial fun h ↦ hdvd h.1.dvd
    · have hfour : left s p < 4 ∧ left s p ≠ 0 := by
        have hnot := mt UInt16.le_iff_toNat_le.mpr hsmall
        have hne : helloSizeLeft.toNat ≠ 0 := fun h ↦ hzero (UInt16.toNat_inj.mp h)
        change ¬ 4 ≤ helloSizeLeft.toNat at hnot
        omega
      rw [readLinkMessages, if_neg hzero, nsAssert, if_neg hsmall, astray_iff_ne hfour.1]
      exact iff_of_true trivial fun h ↦ hfour.2 h.2

end Links

/-! ## Bodies -/

section Bodies

variable {m : Bytes} {s : ℕ} {messageSize : UInt32} {x : Except Failure (Message × UInt32 × ℕ)}

/-- The body of a message of size `s` is read within that size. -/
def Within (s : ℕ) : Except Failure (Message × UInt32 × ℕ) → Prop
  | .ok (_, size, i) => (12 + size).toNat = s ∧ i ≤ s
  | .error .aborted => True
  | .error (.missing q) => 4 ≤ q → q < s
  | .error .outOfFuel => False

/-- The argument for the size of the body of a message of size `s`. -/
structure BodySize (s : ℕ) (messageSize : UInt32) : Prop where
  lt : s < 2 ^ 16
  toNat : messageSize.toNat = (s + (2 ^ 32 - 12)) % 2 ^ 32

theorem BodySize.add_header (h : BodySize s messageSize) : (12 + messageSize).toNat = s := by
  obtain ⟨hs, hsize⟩ := h
  rw [UInt32.toNat_add, hsize, show (12 : UInt32).toNat = 12 from rfl]
  omega

theorem toNat_sub_four (h4 : 4 ≤ messageSize) :
    (messageSize - 4).toNat = messageSize.toNat - 4 :=
  UInt32.toNat_sub_of_le _ _ h4

theorem BodySize.four_le_iff (h : BodySize s messageSize) :
    4 ≤ messageSize ↔ s < 12 ∨ 16 ≤ s := by
  obtain ⟨hs, hsize⟩ := h
  rw [UInt32.le_iff_toNat_le, hsize, show (4 : UInt32).toNat = 4 from rfl]
  omega

theorem mod_eq_zero_iff (messageSize k : UInt32) :
    messageSize % k = 0 ↔ messageSize.toNat % k.toNat = 0 := by
  rw [← UInt32.toNat_inj, UInt32.toNat_mod]
  rfl

/-- What reads on to the announced size is within it unless that is smaller than a header. -/
theorem within_of_takes (h : BodySize s messageSize)
    (hx : (∃ q, 12 < q ∧ q < 12 + messageSize.toNat ∧ x = .error (.missing q)) ∨
      ∃ a, x = .ok (a, messageSize, 12 + messageSize.toNat)) : Within s x ↔ ¬ s < 12 := by
  obtain ⟨hs, hsize⟩ := id h
  rcases hx with ⟨q, hlo, hhi, rfl⟩ | ⟨a, rfl⟩
  · rw [Within]
    omega
  · rw [Within, and_iff_right h.add_header]
    omega

theorem within_mid (h : BodySize s messageSize) :
    Within s (m.deserializeMid 12 messageSize) ↔ ¬ (s < 12 ∧ 4 ∣ s) := by
  obtain ⟨hs, hsize⟩ := id h
  have hmod : messageSize % 4 = 0 ↔ 4 ∣ s := by
    rw [mod_eq_zero_iff, hsize, show (4 : UInt32).toNat = 4 from rfl]
    omega
  rw [deserializeMid, nsAssert]
  by_cases hdvd : 4 ∣ s
  · have hcount : 4 * (messageSize / 4).toNat = messageSize.toNat := by
      rw [UInt32.toNat_div, show (4 : UInt32).toNat = 4 from rfl]
      omega
    rw [if_pos (hmod.mpr hdvd), Except.ok_bind, and_iff_left hdvd]
    refine within_of_takes h ?_
    rcases readAddresses_spec m (messageSize / 4).toNat 12 with ⟨⟨j, hj, hslow⟩, herr⟩ | ⟨-, l, hl, hok⟩
    · have hlt := lt_dataEnd_of_slow hslow
      have hcross := hslow.2
      rw [herr]
      exact Or.inl ⟨m.m_dataEnd, by omega, by omega, rfl⟩
    · have hreturned : UInt32.ofNat (l.length * 4) = messageSize := by
        rw [hl, Nat.mul_comm, hcount, UInt32.ofNat_toNat]
      rw [hok, Except.ok_bind, hcount]
      dsimp only
      rw [hreturned]
      exact Or.inr ⟨_, rfl⟩
  · rw [if_neg fun h ↦ hdvd (hmod.mp h)]
    exact iff_of_true trivial fun h ↦ hdvd h.2

theorem within_hna (h : BodySize s messageSize) :
    Within s (m.deserializeHna 12 messageSize) ↔ ¬ s = 4 := by
  obtain ⟨hs, hsize⟩ := id h
  have hmod : messageSize % (4 * 2) = 0 ↔ 8 ∣ s + 4 := by
    rw [mod_eq_zero_iff, hsize, show (4 * 2 : UInt32).toNat = 8 from rfl]
    omega
  rw [deserializeHna, nsAssert]
  by_cases hdvd : 8 ∣ s + 4
  · have hcount : 8 * (messageSize / 4 / 2).toNat = messageSize.toNat := by
      rw [UInt32.toNat_div, UInt32.toNat_div, show (4 : UInt32).toNat = 4 from rfl,
        show (2 : UInt32).toNat = 2 from rfl]
      omega
    have hfour : s = 4 ↔ s < 12 := by omega
    rw [if_pos (hmod.mpr hdvd), Except.ok_bind, hfour]
    refine within_of_takes h ?_
    rcases readAssociations_spec m (messageSize / 4 / 2).toNat 12 with ⟨q, hlo, hhi, herr⟩ | ⟨l, hok⟩
    · rw [herr]
      exact Or.inl ⟨q, hlo, by omega, rfl⟩
    · rw [hok, hcount]
      exact Or.inr ⟨_, rfl⟩
  · rw [if_neg fun h ↦ hdvd (hmod.mp h)]
    exact iff_of_true trivial fun h ↦ hdvd (by omega)

/-- The first bytes of a body, which are missing. -/
theorem within_missing {q : ℕ} (hlo : 12 < q) (hhi : q < 16) (hs : s < 12 ∨ 16 ≤ s) :
    Within s (.error (.missing q)) ↔ ¬ s < 12 := by
  rw [Within]
  omega

theorem within_tc (h : BodySize s messageSize) : Within s (m.deserializeTc 12 messageSize) ↔
    ¬ (s < 12 ∧ (m.Slow 12 2 ∨ m.Slow 14 2 ∨ 4 ∣ s)) := by
  obtain ⟨hs, hsize⟩ := id h
  rw [deserializeTc, nsAssert]
  by_cases hfour : 4 ≤ messageSize
  · have hs' := h.four_le_iff.mp hfour
    have hmod : (messageSize - 4) % 4 = 0 ↔ 4 ∣ s := by
      rw [mod_eq_zero_iff, toNat_sub_four hfour, hsize, show (4 : UInt32).toNat = 4 from rfl]
      omega
    rw [if_pos hfour, Except.ok_bind]
    by_cases hslow : m.Slow 12 2
    · have hlt := lt_dataEnd_of_slow hslow
      have hcross := hslow.2
      rw [readNtohU16_of_slow hslow, and_iff_left (Or.inl hslow)]
      exact within_missing hlt (by omega) hs'
    rw [readNtohU16_of_not_slow hslow, Except.ok_bind, or_iff_right hslow]
    dsimp only
    by_cases hslow' : m.Slow 14 2
    · have hlt := lt_dataEnd_of_slow hslow'
      have hcross := hslow'.2
      rw [readNtohU16_of_slow hslow', and_iff_left (Or.inl hslow')]
      exact within_missing (by omega) hcross hs'
    rw [readNtohU16_of_not_slow hslow', Except.ok_bind, or_iff_right hslow', nsAssert]
    by_cases hdvd : 4 ∣ s
    · have hcount : 16 + 4 * ((messageSize - 4) / 4).toNat = 12 + messageSize.toNat := by
        rw [UInt32.toNat_div, toNat_sub_four hfour, show (4 : UInt32).toNat = 4 from rfl]
        have := UInt32.le_iff_toNat_le.mp hfour
        change 4 ≤ messageSize.toNat at this
        omega
      dsimp only
      rw [if_pos (hmod.mpr hdvd), Except.ok_bind, and_iff_left hdvd]
      refine within_of_takes h ?_
      rcases readAddresses_spec m ((messageSize - 4) / 4).toNat 16 with
        ⟨⟨j, hj, hslow⟩, herr⟩ | ⟨-, l, -, hok⟩
      · have hlt := lt_dataEnd_of_slow hslow
        have hcross := hslow.2
        rw [herr]
        exact Or.inl ⟨m.m_dataEnd, by omega, by omega, rfl⟩
      · rw [hok, hcount]
        exact Or.inr ⟨_, rfl⟩
    · dsimp only
      rw [if_neg fun h ↦ hdvd (hmod.mp h)]
      exact iff_of_true trivial fun h ↦ hdvd h.2
  · rw [if_neg hfour]
    exact iff_of_true trivial fun h' ↦ hfour (h.four_le_iff.mpr (Or.inl h'.1))

/-- The first bytes of a HELLO, which are not there as a whole. -/
theorem deserializeHello_short (hfour : 4 ≤ messageSize) (hlt : m.m_dataEnd < 16) :
    ∃ q, 12 < q ∧ q < 16 ∧ m.deserializeHello 12 messageSize = .error (.missing q) := by
  rw [deserializeHello, nsAssert, if_pos hfour, Except.ok_bind]
  by_cases hslow : m.Slow 12 2
  · have hlt := lt_dataEnd_of_slow hslow
    have hcross := hslow.2
    rw [readNtohU16_of_slow hslow]
    exact ⟨m.m_dataEnd, hlt, by omega, rfl⟩
  rw [readNtohU16_of_not_slow hslow, Except.ok_bind]
  dsimp only
  rcases Nat.lt_or_ge 14 m.m_dataEnd with hmore | hless
  · rw [readU8_of_lt hmore, Except.ok_bind]
    dsimp only
    rw [readU8_of_le (by omega)]
    exact ⟨15, by decide, by decide, rfl⟩
  · rw [readU8_of_le hless]
    exact ⟨14, by decide, by decide, rfl⟩

theorem within_hello (h : BodySize s messageSize) : Within s (m.deserializeHello 12 messageSize) ↔
    ¬ ((s < 12 ∨ 16 ≤ s) ∧
      (m.m_dataEnd < 16 ∧ s < 12 ∨ 16 ≤ m.m_dataEnd ∧ m.Astray s 16)) := by
  obtain ⟨hs, hsize⟩ := id h
  by_cases hfour : 4 ≤ messageSize
  · have hs' := h.four_le_iff.mp hfour
    rw [and_iff_right hs']
    rcases Nat.lt_or_ge m.m_dataEnd 16 with hlt | hle
    · obtain ⟨q, hlo, hhi, hshort⟩ := deserializeHello_short hfour hlt
      rw [hshort, and_iff_right hlt, or_iff_left fun h ↦ h.1.not_gt hlt]
      exact within_missing hlo hhi hs'
    · have hnot (p : ℕ) (hp : p + 2 ≤ 16) : ¬ m.Slow p 2 := fun h ↦ (h.2.trans_le hp).not_ge hle
      have hleft : ((messageSize.toUInt16 - 4).toNat : ℤ) = left s 16 := by
        rw [UInt16.toNat_sub, UInt32.toNat_toUInt16, hsize, show (4 : UInt16).toNat = 4 from rfl, left]
        omega
      have hstays := stays_readLinkMessages (m := m) (p := 16)
        (Nat.lt_succ_of_le (Nat.sub_le m.m_dataEnd 16)) (by decide) hleft hs
      rw [and_iff_right hle, or_iff_right fun h ↦ h.1.not_ge hle, ← hstays, deserializeHello, nsAssert,
        if_pos hfour, Except.ok_bind, readNtohU16_of_not_slow (hnot 12 (by decide)), Except.ok_bind]
      dsimp only
      rw [readU8_of_lt (by omega), Except.ok_bind]
      dsimp only
      rw [readU8_of_lt (by omega), Except.ok_bind]
      dsimp only
      cases m.readLinkMessages (m.m_dataEnd + 1) (messageSize.toUInt16 - 4) 16 with
      | error e => cases e <;> exact Iff.rfl
      | ok x => exact and_iff_right h.add_header
  · rw [deserializeHello, nsAssert, if_neg hfour]
    exact iff_of_true trivial fun h' ↦ hfour (h.four_le_iff.mpr h'.1)

end Bodies

/-! ## Messages -/

section Messages

variable {m : Bytes}

theorem type_cases {t : UInt8} (ht : HELLO_MESSAGE ≤ t ∧ t ≤ HNA_MESSAGE) :
    t = HELLO_MESSAGE ∨ t = TC_MESSAGE ∨ t = MID_MESSAGE ∨ t = HNA_MESSAGE := by
  obtain ⟨hlow, hhigh⟩ := ht
  have hlow' : 1 ≤ t.toNat := UInt8.le_iff_toNat_le.mp hlow
  have hhigh' : t.toNat ≤ 4 := UInt8.le_iff_toNat_le.mp hhigh
  simp only [← UInt8.toNat_inj, HELLO_MESSAGE, TC_MESSAGE, MID_MESSAGE, HNA_MESSAGE, UInt8.reduceToNat]
  omega

/-- Before the size is read, an assertion may stop the reading. -/
theorem deserialize_early (h : ¬ (1 < m.m_dataEnd ∧
    (HELLO_MESSAGE ≤ m.byte 0 ∧ m.byte 0 ≤ HNA_MESSAGE) ∧ ¬ m.Slow 2 2)) :
    m.deserialize = .error .aborted ∨ ∃ q < 4, m.deserialize = .error (.missing q) := by
  rw [deserialize]
  rcases Nat.eq_zero_or_pos m.m_dataEnd with hzero | hpos
  · rw [readU8_of_le hzero.le]
    exact Or.inr ⟨0, by decide, rfl⟩
  rw [readU8_of_lt hpos, Except.ok_bind]
  dsimp only
  by_cases ht : HELLO_MESSAGE ≤ m.byte 0 ∧ m.byte 0 ≤ HNA_MESSAGE
  · rw [nsAssert, if_pos ht, Except.ok_bind]
    rcases Nat.lt_or_ge 1 m.m_dataEnd with hlen | hlen
    · have hslow : m.Slow 2 2 := not_not.mp fun hslow ↦ h ⟨hlen, ht, hslow⟩
      have hcross := hslow.2
      rw [readU8_of_lt hlen, Except.ok_bind]
      dsimp only
      rw [readNtohU16_of_slow hslow]
      exact Or.inr ⟨m.m_dataEnd, hcross, rfl⟩
    · rw [readU8_of_le hlen]
      exact Or.inr ⟨1, by decide, rfl⟩
  · rw [nsAssert, if_neg ht]
    exact Or.inl rfl

/-- The rest of a header whose size has been read. -/
theorem deserialize_eq (hlen : 1 < m.m_dataEnd)
    (ht : HELLO_MESSAGE ≤ m.byte 0 ∧ m.byte 0 ≤ HNA_MESSAGE) (hslow : ¬ m.Slow 2 2) :
    m.deserialize = (do
      let (m_originatorAddress, i) ← m.readNtohU32 4
      let (m_timeToLive, i) ← m.readU8 i
      let (m_hopCount, i) ← m.readU8 i
      let (m_messageSequenceNumber, i) ← m.readNtohU16 i
      let (m_message, size, i) ← m.deserializeBody (m.byte 0) i ((m.u16At 2).toUInt32 - 12)
      return (⟨m.byte 0, m.byte 1, m.u16At 2, m_originatorAddress, m_timeToLive, m_hopCount,
        m_messageSequenceNumber, m_message⟩, 12 + size, i)) := by
  rw [deserialize, readU8_of_lt (by omega), Except.ok_bind]
  dsimp only
  rw [nsAssert, if_pos ht, Except.ok_bind, readU8_of_lt hlen, Except.ok_bind]
  dsimp only
  rw [readNtohU16_of_not_slow hslow]
  rfl

/-- **The header**, which is there as a whole or not. -/
theorem bounded_iff_within (hlen : 1 < m.m_dataEnd)
    (ht : HELLO_MESSAGE ≤ m.byte 0 ∧ m.byte 0 ≤ HNA_MESSAGE) (hslow : ¬ m.Slow 2 2) :
    (∃ q, m.headerCut = some q ∧ (m.Bounded ↔ q < m.sizeField 0)) ∨
      m.headerCut = none ∧ ∃ messageSize, BodySize (m.sizeField 0) messageSize ∧
        (m.Bounded ↔ Within (m.sizeField 0) (m.deserializeBody (m.byte 0) 12 messageSize)) := by
  have heq := deserialize_eq hlen ht hslow
  have hcut {q : ℕ} (hq : 4 ≤ q) (h : m.deserialize = .error (.missing q)) :
      m.Bounded ↔ q < m.sizeField 0 := by
    rw [Bounded, h]
    exact forall_prop_of_true hq
  rw [headerCut]
  by_cases hslow₄ : m.Slow 4 4
  · have hlt := lt_dataEnd_of_slow hslow₄
    rw [readNtohU32_of_slow hslow₄] at heq
    exact Or.inl ⟨_, if_pos hslow₄, hcut hlt.le heq⟩
  rw [readNtohU32_of_not_slow hslow₄, Except.ok_bind] at heq
  dsimp only at heq
  rw [if_neg hslow₄]
  rcases Nat.lt_or_ge m.m_dataEnd 10 with hshort | hten
  · rw [if_pos hshort]
    refine Or.inl ⟨_, rfl, hcut (by omega) ?_⟩
    rcases Nat.lt_or_ge 8 m.m_dataEnd with hmore | hless
    · have hnine : m.m_dataEnd = 9 := by omega
      rw [readU8_of_lt hmore, Except.ok_bind] at heq
      dsimp only at heq
      rw [heq, readU8_of_le (by omega), Nat.max_eq_right hmore.le, hnine]
      rfl
    · rw [heq, readU8_of_le hless, Nat.max_eq_left hless]
      rfl
  rw [if_neg hten.not_gt]
  rw [readU8_of_lt (by omega), Except.ok_bind] at heq
  dsimp only at heq
  rw [readU8_of_lt (by omega), Except.ok_bind] at heq
  dsimp only at heq
  by_cases hslow₁₀ : m.Slow 10 2
  · have hlt := lt_dataEnd_of_slow hslow₁₀
    rw [readNtohU16_of_slow hslow₁₀] at heq
    exact Or.inl ⟨_, if_pos hslow₁₀, hcut (by omega) heq⟩
  · have hsize := m.toNat_u16At 2
    have hlt := (m.u16At 2).toNat_lt
    have hfield : m.sizeField 0 = (m.u16At 2).toNat := hsize.symm
    rw [readNtohU16_of_not_slow hslow₁₀, Except.ok_bind] at heq
    dsimp only at heq
    refine Or.inr ⟨if_neg hslow₁₀, (m.u16At 2).toUInt32 - 12, ⟨hfield ▸ hlt, ?_⟩, ?_⟩
    · rw [hfield, UInt32.toNat_sub, UInt16.toNat_toUInt32, show (12 : UInt32).toNat = 12 from rfl]
      omega
    · rw [Bounded, heq]
      cases m.deserializeBody (m.byte 0) 12 ((m.u16At 2).toUInt32 - 12) with
      | error e => cases e <;> exact Iff.rfl
      | ok x => exact Iff.rfl

/-- **The reading of a message is bounded** exactly where it does not lead beyond the message. -/
theorem bounded_iff (m : Bytes) : m.Bounded ↔ ¬ m.LeadsBeyond := by
  by_cases h : 1 < m.m_dataEnd ∧ (HELLO_MESSAGE ≤ m.byte 0 ∧ m.byte 0 ≤ HNA_MESSAGE) ∧ ¬ m.Slow 2 2
  · obtain ⟨hlen, ht, hslow⟩ := id h
    rw [LeadsBeyond, and_iff_right hlen, and_iff_right ht, and_iff_right hslow]
    rcases bounded_iff_within hlen ht hslow with ⟨q, hq, hiff⟩ | ⟨hnone, messageSize, hsize, hiff⟩
    · rw [hiff, hq, not_le]
    · rw [hiff, hnone, deserializeBody, BodyBeyond]
      dsimp only
      rcases type_cases ht with ht | ht | ht | ht <;> rw [ht]
      · exact (within_hello hsize).trans (by simp [HELLO_MESSAGE, MID_MESSAGE, TC_MESSAGE, HNA_MESSAGE])
      · exact (within_tc hsize).trans (by simp [HELLO_MESSAGE, MID_MESSAGE, TC_MESSAGE, HNA_MESSAGE])
      · exact (within_mid hsize).trans (by simp [HELLO_MESSAGE, MID_MESSAGE, TC_MESSAGE, HNA_MESSAGE])
      · exact (within_hna hsize).trans (by simp [HELLO_MESSAGE, MID_MESSAGE, TC_MESSAGE, HNA_MESSAGE])
  · refine iff_of_true ?_ fun hbeyond ↦ h ⟨hbeyond.1, hbeyond.2.1, hbeyond.2.2.1⟩
    rw [Bounded]
    rcases deserialize_early h with herr | ⟨q, hq, herr⟩
    · rw [herr]
      exact trivial
    · rw [herr]
      exact fun hle ↦ absurd hq hle.not_gt

/-- A packet of headers, whose zero area is empty and at its end; the memory behind it holds zeros. -/
def ofPacket (l : List UInt8) : Bytes :=
  ⟨l.length, l.length, l.length, fun p ↦ l.getD p 0, le_rfl, le_rfl⟩

/-- A HELLO of 20 bytes with one link message, which says that it has 8 bytes; a TC comes behind it. -/
def longLink : Bytes := ofPacket <|
  [1, 0, 0, 20, 10, 0, 0, 1, 1, 0, 0, 7] ++ [0, 0, 5, 3] ++ [6, 0, 0, 8] ++
    [2, 0, 0, 16, 10, 0, 0, 4, 1, 0, 0, 8] ++ [0, 1, 0, 0]

/-- A HELLO that announces 24 bytes, of which 20 are there, with a link message that says that it has none. -/
def emptyLink : Bytes := ofPacket <|
  [1, 0, 0, 24, 10, 0, 0, 1, 1, 0, 0, 7] ++ [0, 0, 5, 3] ++ [6, 0, 0, 0]

/-- A MID that says that it is smaller than its header; a TC comes behind it. -/
def smallMid : Bytes := ofPacket <|
  [3, 0, 0, 8, 10, 0, 0, 1, 1, 0, 0, 7] ++ [2, 0, 0, 16, 10, 0, 0, 4, 1, 0, 0, 8] ++ [0, 1, 0, 0]

/-- The first one is read to the end of the packet, over the TC; the reading of the second one does not end;
the third one is read beyond its size. -/
theorem not_bounded :
    (longLink.deserialize = .error (.missing 36) ∧ longLink.sizeField 0 = 20 ∧ ¬ longLink.Bounded) ∧
    (emptyLink.deserialize = .error .outOfFuel ∧ ¬ emptyLink.Bounded) ∧ ¬ smallMid.Bounded := by
  have hlong : longLink.deserialize = .error (.missing 36) := by decide +kernel
  have hsize : longLink.sizeField 0 = 20 := by decide
  have hempty : emptyLink.deserialize = .error .outOfFuel := by decide +kernel
  refine ⟨⟨hlong, hsize, fun h ↦ ?_⟩, ⟨hempty, fun h ↦ ?_⟩, ?_⟩
  · rw [Bounded, hlong, hsize] at h
    exact absurd (h (by decide)) (by decide)
  · rw [Bounded, hempty] at h
    exact h
  · have hnone : smallMid.headerCut = none := by decide
    rcases bounded_iff_within (m := smallMid) (by decide) (by decide) (by decide) with
      ⟨q, hq, -⟩ | ⟨-, messageSize, hbody, hiff⟩
    · rw [hnone] at hq
      cases hq
    · rw [hiff]
      exact fun h ↦ (within_mid hbody).mp h ⟨by decide, by decide⟩

end Messages

end Bytes

end Wire

end Olsr

end Ns3
