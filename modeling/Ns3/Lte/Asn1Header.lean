import Ns3.Library.Octet

/-!
# The bits of an RRC message

The messages of RRC are written bit by bit. What does not fill an octet waits in the object, and the next
element continues there; reading leaves the rest of an octet in the same place. An integer takes as many
bits as its range needs, so that one with a single value takes none.

Two things break the round trip. An integer that takes no bits is not assigned when it is read. And an
object keeps what is pending beyond the end of a message, so that one that has been used may write its
next message behind some bits of the last one, or over them.
-/

namespace Ns3

namespace Lte

open Octet

/-- An `Asn1Header`. -/
structure Asn1Header where
  m_serializationPendingBits : BitVec 8
  m_numSerializationPendingBits : ℕ
  m_isDataSerialized : Bool
  m_serializationResult : List (BitVec 8)
deriving DecidableEq

namespace Asn1Header

/-- The default constructor. -/
def create : Asn1Header where
  m_serializationPendingBits := 0x00#8
  m_numSerializationPendingBits := 0
  m_isDataSerialized := false
  m_serializationResult := []

/-! ## Writing -/

def writeOctet (h : Asn1Header) (octet : BitVec 8) : Asn1Header :=
  { h with m_serializationResult := h.m_serializationResult ++ [octet] }

/-- The second loop of `SerializeBitset`: whole octets are written, and the rest is stored. A bitset is the
list of its bits, the most significant one first. -/
def serializeOctets : List Bool → Asn1Header → Asn1Header
  | [], h => h
  | d₇ :: d₆ :: d₅ :: d₄ :: d₃ :: d₂ :: d₁ :: d₀ :: data, h =>
    serializeOctets data (h.writeOctet (setBitsUp [d₀, d₁, d₂, d₃, d₄, d₅, d₆, d₇] 1#8 0#8))
  | data, h =>
    { h with
      m_numSerializationPendingBits := data.length
      m_serializationPendingBits := setBits data 0x80#8 h.m_serializationPendingBits }

/-- The first loop of `SerializeBitset`: the first bits of `data` complete the pending octet. -/
def completeOctet (data : List Bool) (h : Asn1Header) : Asn1Header :=
  { h with
    m_serializationPendingBits := setBits (data.take (8 - h.m_numSerializationPendingBits))
      (0x80#8 >>> h.m_numSerializationPendingBits) h.m_serializationPendingBits
    m_numSerializationPendingBits := h.m_numSerializationPendingBits +
      (data.take (8 - h.m_numSerializationPendingBits)).length }

/-- The complete octet is written. -/
def flushOctet (h : Asn1Header) : Asn1Header :=
  if 8 ≤ h.m_numSerializationPendingBits then
    { h.writeOctet h.m_serializationPendingBits with
      m_numSerializationPendingBits := 0
      m_serializationPendingBits := 0#8 }
  else h

def serializeBitset (data : List Bool) (h : Asn1Header) : Asn1Header :=
  if data = [] then h
  else if 0 < h.m_numSerializationPendingBits then
    serializeOctets (data.drop (8 - h.m_numSerializationPendingBits)) (h.completeOctet data).flushOctet
  else serializeOctets data h

def serializeBitstring (data : List Bool) (h : Asn1Header) : Asn1Header := h.serializeBitset data

def serializeBoolean (value : Bool) (h : Asn1Header) : Asn1Header := h.serializeBitset [value]

def serializeSequence (optionalOrDefaultMask : List Bool) (isExtensionMarkerPresent : Bool)
    (h : Asn1Header) : Asn1Header :=
  (if isExtensionMarkerPresent then h.serializeBoolean false else h).serializeBitstring
    optionalOrDefaultMask

/-- The `std::bitset<N>` of an integer. -/
def bitset : ℕ → ℕ → List Bool
  | 0, _ => []
  | N + 1, n => n.testBit N :: bitset N n

/-- `std::ceil (std::log (range) / std::log (2.0))`. -/
def requiredBits (range : ℤ) : ℕ := Nat.clog 2 range.toNat

/-- `SerializeInteger`; `none` where an assertion fails or the program exits. -/
def serializeInteger (n nmin nmax : ℤ) (h : Asn1Header) : Option Asn1Header :=
  if nmin ≤ n ∧ n ≤ nmax then
    if nmax - nmin + 1 ≤ 1 then some h
    else if requiredBits (nmax - nmin + 1) ≤ 20 then
      some (h.serializeBitset (bitset (requiredBits (nmax - nmin + 1)) (n - nmin).toNat))
    else none
  else none

def serializeSequenceOf (numElems nMax nMin : ℤ) (h : Asn1Header) : Option Asn1Header :=
  h.serializeInteger numElems nMin nMax

def serializeEnum (numElems selectedElem : ℤ) (h : Asn1Header) : Option Asn1Header :=
  h.serializeInteger selectedElem 0 (numElems - 1)

def serializeChoice (numOptions selectedOption : ℤ) (isExtensionMarkerPresent : Bool)
    (h : Asn1Header) : Option Asn1Header :=
  let h' := if isExtensionMarkerPresent then h.serializeBoolean false else h
  if numOptions < 2 then some h' else h'.serializeInteger selectedOption 0 (numOptions - 1)

def finalizeSerialization (h : Asn1Header) : Asn1Header :=
  { (if 0 < h.m_numSerializationPendingBits then
      { h with m_numSerializationPendingBits := 0 }.serializeBitset (bits h.m_serializationPendingBits)
    else h) with m_isDataSerialized := true }

/-! ## Reading -/

/-- The first loop of `DeserializeBitset`: as many of the pending bits as are wanted. -/
def readPending : ℕ → Asn1Header → List Bool × ℕ × Asn1Header
  | 0, h => ([], 0, h)
  | n + 1, h =>
    if 0 < h.m_numSerializationPendingBits then
      let r := readPending n
        { h with
          m_numSerializationPendingBits := h.m_numSerializationPendingBits - 1
          m_serializationPendingBits := h.m_serializationPendingBits <<< 1 }
      (decide (h.m_serializationPendingBits &&& 0x80#8 ≠ 0#8) :: r.1, r.2)
    else ([], n + 1, h)

/-- The second loop of `DeserializeBitset`, over the octets of the buffer; `none` if they run out. -/
def readOctets : List (BitVec 8) → ℕ → Asn1Header →
    Option (List Bool × Asn1Header × List (BitVec 8))
  | i, 0, h => some ([], h, i)
  | [], _ + 1, _ => none
  | octet :: i, n + 1, h =>
    if 8 ≤ n + 1 then
      (readOctets i (n + 1 - 8) h).map fun r ↦ (readBits 8 0x80#8 octet ++ r.1, r.2)
    else
      some (readBits (n + 1) 0x80#8 octet,
        { h with
          m_numSerializationPendingBits := 8 - (n + 1)
          m_serializationPendingBits := octet <<< (n + 1) }, i)

def deserializeBitset (N : ℕ) (h : Asn1Header) (i : List (BitVec 8)) :
    Option (List Bool × Asn1Header × List (BitVec 8)) :=
  let p := readPending N h
  (readOctets i p.2.1 p.2.2).map fun r ↦ (p.1 ++ r.1, r.2)

def deserializeBitstring (N : ℕ) (h : Asn1Header) (i : List (BitVec 8)) :
    Option (List Bool × Asn1Header × List (BitVec 8)) := h.deserializeBitset N i

def deserializeBoolean (h : Asn1Header) (i : List (BitVec 8)) :
    Option (Bool × Asn1Header × List (BitVec 8)) :=
  (h.deserializeBitset 1 i).map fun r ↦ (r.1.headD false, r.2)

/-- The extension marker, which is read and dropped. -/
def deserializeMarker (isExtensionMarkerPresent : Bool) (h : Asn1Header) (i : List (BitVec 8)) :
    Option (Asn1Header × List (BitVec 8)) :=
  if isExtensionMarkerPresent then (h.deserializeBoolean i).map Prod.snd else some (h, i)

def deserializeSequence (N : ℕ) (isExtensionMarkerPresent : Bool) (h : Asn1Header)
    (i : List (BitVec 8)) : Option (List Bool × Asn1Header × List (BitVec 8)) :=
  (h.deserializeMarker isExtensionMarkerPresent i).bind fun r ↦ r.1.deserializeBitset N r.2

/-- `std::bitset::to_ulong`. -/
def toUlong (data : List Bool) : ℕ := data.foldl (fun n d ↦ 2 * n + d.toNat) 0

/-- `DeserializeInteger`, into a variable that holds `n`; `none` if the program exits. -/
def deserializeInteger (n nmin nmax : ℤ) (h : Asn1Header) (i : List (BitVec 8)) :
    Option (ℤ × Asn1Header × List (BitVec 8)) :=
  let bounds := if nmin > nmax then (nmax, nmin) else (nmin, nmax)
  let range := bounds.2 - bounds.1 + 1
  if range = 1 then some (n, h, i)
  else if requiredBits range ≤ 20 then
    (h.deserializeBitset (requiredBits range) i).map fun r ↦ ((toUlong r.1 : ℤ) + bounds.1, r.2)
  else none

def deserializeChoice (selectedOption numOptions : ℤ) (isExtensionMarkerPresent : Bool)
    (h : Asn1Header) (i : List (BitVec 8)) : Option (ℤ × Asn1Header × List (BitVec 8)) :=
  (h.deserializeMarker isExtensionMarkerPresent i).bind fun r ↦
    r.1.deserializeInteger selectedOption 0 (numOptions - 1) r.2

def deserializeEnum (selectedElem numElems : ℤ) (h : Asn1Header) (i : List (BitVec 8)) :
    Option (ℤ × Asn1Header × List (BitVec 8)) :=
  h.deserializeInteger selectedElem 0 (numElems - 1) i

def deserializeSequenceOf (numElems nMax nMin : ℤ) (h : Asn1Header) (i : List (BitVec 8)) :
    Option (ℤ × Asn1Header × List (BitVec 8)) :=
  h.deserializeInteger numElems nMin nMax i

/-! ## Messages -/

/-- What a primitive element is, as its writer and its reader are told. -/
inductive Form where
  | boolean
  | bitstring (N : ℕ)
  | integer (nmin nmax : ℤ)
  | enum (numElems : ℤ)
  | choice (numOptions : ℤ) (isExtensionMarkerPresent : Bool)
  | sequenceOf (nMax nMin : ℤ)
  | sequence (N : ℕ) (isExtensionMarkerPresent : Bool)
deriving DecidableEq

inductive Value where
  | bool (b : Bool)
  | bits (data : List Bool)
  | int (n : ℤ)
deriving DecidableEq

/-- The widths that `SerializeBitstring` has an overload for. -/
def bitstringWidths : List ℕ := [1, 2, 8, 10, 16, 27, 28, 32]

/-- The widths that `SerializeSequence` has an overload for. -/
def sequenceWidths : List ℕ := [0, 1, 2, 3, 4, 5, 6, 7, 9, 10, 11]

/-- An integer in its bounds, of a range that 20 bits can hold. -/
def InRange (n nmin nmax : ℤ) : Prop := nmin ≤ n ∧ n ≤ nmax ∧ nmax - nmin + 1 ≤ 2 ^ 20

instance (n nmin nmax : ℤ) : Decidable (InRange n nmin nmax) :=
  inferInstanceAs (Decidable (_ ∧ _ ∧ _))

/-- The values that an element of this form can have. -/
def Form.Admits : Form → Value → Prop
  | boolean, .bool _ => True
  | bitstring N, .bits data => N ∈ bitstringWidths ∧ data.length = N
  | integer nmin nmax, .int n => InRange n nmin nmax
  | enum numElems, .int n => InRange n 0 (numElems - 1)
  | choice numOptions _, .int n => InRange n 0 (numOptions - 1)
  | sequenceOf nMax nMin, .int n => InRange n nMin nMax
  | sequence N _, .bits data => N ∈ sequenceWidths ∧ data.length = N
  | _, _ => False

/-- Writes an element. -/
def Form.serialize : Form → Value → Asn1Header → Option Asn1Header
  | boolean, .bool b, h => some (h.serializeBoolean b)
  | bitstring _, .bits data, h => some (h.serializeBitstring data)
  | integer nmin nmax, .int n, h => h.serializeInteger n nmin nmax
  | enum numElems, .int n, h => h.serializeEnum numElems n
  | choice numOptions ext, .int n, h => h.serializeChoice numOptions n ext
  | sequenceOf nMax nMin, .int n, h => h.serializeSequenceOf n nMax nMin
  | sequence _ ext, .bits data, h => some (h.serializeSequence data ext)
  | _, _, _ => none

/-- Reads an element; one with an integer, into a variable that holds `n`. -/
def Form.deserialize (n : ℤ) (h : Asn1Header) (i : List (BitVec 8)) :
    Form → Option (Value × Asn1Header × List (BitVec 8))
  | boolean => (h.deserializeBoolean i).map fun r ↦ (.bool r.1, r.2)
  | bitstring N => (h.deserializeBitstring N i).map fun r ↦ (.bits r.1, r.2)
  | integer nmin nmax => (h.deserializeInteger n nmin nmax i).map fun r ↦ (.int r.1, r.2)
  | enum numElems => (h.deserializeEnum n numElems i).map fun r ↦ (.int r.1, r.2)
  | choice numOptions ext => (h.deserializeChoice n numOptions ext i).map fun r ↦ (.int r.1, r.2)
  | sequenceOf nMax nMin => (h.deserializeSequenceOf n nMax nMin i).map fun r ↦ (.int r.1, r.2)
  | sequence N ext => (h.deserializeSequence N ext i).map fun r ↦ (.bits r.1, r.2)

/-- An element of a message, with a value that it can have, and with what is held by the variable that its
value is read into. -/
structure Element where
  form : Form
  value : Value
  held : ℤ
  admits : form.Admits value

/-- Writes the elements one after the other. -/
def serializeAll : List Element → Asn1Header → Option Asn1Header
  | [], h => some h
  | e :: es, h => (e.form.serialize e.value h).bind (serializeAll es)

/-- `PreSerialize` of a message. -/
def preSerialize (es : List Element) (h : Asn1Header) : Option Asn1Header :=
  (serializeAll es { h with m_serializationResult := [] }).map finalizeSerialization

/-- Reads the elements one after the other. -/
def deserializeAll : List Element → Asn1Header → List (BitVec 8) →
    Option (List Value × Asn1Header × List (BitVec 8))
  | [], h, i => some ([], h, i)
  | e :: es, h, i =>
    (e.form.deserialize e.held h i).bind fun r ↦
      (deserializeAll es r.2.1 r.2.2).map fun rs ↦ (r.1 :: rs.1, rs.2)

/-- The values that `reader` gets out of a message that `writer` has written, and the octets that it
leaves. -/
def exchange (writer reader : Asn1Header) (es : List Element) :
    Option (List Value × List (BitVec 8)) :=
  (preSerialize es writer).bind fun h ↦
    (deserializeAll es reader h.m_serializationResult).map fun r ↦ (r.1, r.2.2)

/-- The same values are read, and nothing is left. -/
def RoundTrips (writer reader : Asn1Header) (es : List Element) : Prop :=
  exchange writer reader es = some (es.map Element.value, [])

instance (writer reader : Asn1Header) (es : List Element) :
    Decidable (RoundTrips writer reader es) := inferInstanceAs (Decidable (_ = _))

/-! ## What has been written -/

/-- The bits that an object has written: those of the whole octets, and the pending ones, beyond which the
pending octet is zero. -/
def Holds (h : Asn1Header) (sent : List Bool) : Prop :=
  ∃ p : List Bool, p.length < 8 ∧ h.m_numSerializationPendingBits = p.length ∧
    StartsWith h.m_serializationPendingBits p ∧ sent = h.m_serializationResult.flatMap bits ++ p

/-- Nothing is left over from an earlier use. -/
def Clean (h : Asn1Header) : Prop :=
  h.m_numSerializationPendingBits = 0 ∧ h.m_serializationPendingBits = 0#8

instance (h : Asn1Header) : Decidable h.Clean := inferInstanceAs (Decidable (_ ∧ _))

theorem Clean.holds {h : Asn1Header} (hc : h.Clean) :
    h.Holds (h.m_serializationResult.flatMap bits) :=
  ⟨[], by decide, hc.1, startsWith_nil_iff.mpr hc.2, (List.append_nil _).symm⟩

theorem Clean.holds_storeBits {h : Asn1Header} (hc : h.Clean) {data : List Bool}
    (hlt : data.length < 8) :
    Holds { h with
      m_numSerializationPendingBits := data.length
      m_serializationPendingBits := setBits data 0x80#8 h.m_serializationPendingBits }
      (h.m_serializationResult.flatMap bits ++ data) := by
  refine ⟨data, hlt, rfl, ?_, rfl⟩
  rw [hc.2]
  exact startsWith_nil.setBits data (by rw [List.length_nil]; omega)

theorem Clean.holds_serializeOctets : ∀ (data : List Bool) {h : Asn1Header}, h.Clean →
    (h.serializeOctets data).Holds (h.m_serializationResult.flatMap bits ++ data)
  | [], h, hc => by
    rw [serializeOctets, List.append_nil]
    exact hc.holds
  | [_], h, hc => hc.holds_storeBits (by simp)
  | [_, _], h, hc => hc.holds_storeBits (by simp)
  | [_, _, _], h, hc => hc.holds_storeBits (by simp)
  | [_, _, _, _], h, hc => hc.holds_storeBits (by simp)
  | [_, _, _, _, _], h, hc => hc.holds_storeBits (by simp)
  | [_, _, _, _, _, _], h, hc => hc.holds_storeBits (by simp)
  | [_, _, _, _, _, _, _], h, hc => hc.holds_storeBits (by simp)
  | d₇ :: d₆ :: d₅ :: d₄ :: d₃ :: d₂ :: d₁ :: d₀ :: data, h, hc => by
    have hrest := Clean.holds_serializeOctets data
      (h := h.writeOctet (setBitsUp [d₀, d₁, d₂, d₃, d₄, d₅, d₆, d₇] 1#8 0#8)) hc
    rw [serializeOctets]
    simpa [writeOctet, bits_setBitsUp] using hrest

theorem Holds.completeOctet {h : Asn1Header} {p : List Bool} (data : List Bool) (hlt : p.length < 8)
    (hnum : h.m_numSerializationPendingBits = p.length)
    (hp : StartsWith h.m_serializationPendingBits p) :
    (h.completeOctet data).m_numSerializationPendingBits = (p ++ data.take (8 - p.length)).length ∧
      StartsWith (h.completeOctet data).m_serializationPendingBits
        (p ++ data.take (8 - p.length)) := by
  unfold Asn1Header.completeOctet
  dsimp only
  rw [hnum]
  refine ⟨List.length_append.symm, hp.setBits _ ?_⟩
  rw [List.length_take]
  omega

/-- **What `SerializeBitset` does.** -/
theorem Holds.serializeBitset {h : Asn1Header} {sent : List Bool} (hh : h.Holds sent)
    (data : List Bool) : (h.serializeBitset data).Holds (sent ++ data) := by
  obtain ⟨p, hlt, hnum, hp, rfl⟩ := hh
  unfold Asn1Header.serializeBitset
  by_cases hnil : data = []
  · rw [if_pos hnil, hnil, List.append_nil]
    exact ⟨p, hlt, hnum, hp, rfl⟩
  · rw [if_neg hnil, hnum]
    by_cases hpos : 0 < p.length
    · rw [if_pos hpos]
      obtain ⟨hnum', hp'⟩ := Holds.completeOctet data hlt hnum hp
      by_cases hfull : 8 - p.length ≤ data.length
      · -- The pending octet is completed, and the rest starts at an octet.
        have hlen : (p ++ data.take (8 - p.length)).length = 8 := by
          rw [List.length_append, List.length_take, Nat.min_eq_left hfull]
          omega
        have hbits := hp'.bits_eq
        rw [hlen, List.replicate_zero, List.append_nil] at hbits
        rw [hlen] at hnum'
        have hc : (h.completeOctet data).flushOctet.Clean := by
          unfold flushOctet
          rw [if_pos hnum'.ge]
          exact ⟨rfl, rfl⟩
        have hres := hc.holds_serializeOctets (data.drop (8 - p.length))
        have hflush : (h.completeOctet data).flushOctet.m_serializationResult.flatMap bits =
            h.m_serializationResult.flatMap bits ++ (p ++ data.take (8 - p.length)) := by
          unfold flushOctet
          rw [if_pos hnum'.ge]
          change (h.m_serializationResult ++
            [(h.completeOctet data).m_serializationPendingBits]).flatMap bits = _
          rw [List.flatMap_append, List.flatMap_singleton, hbits]
        rw [hflush] at hres
        simpa [List.append_assoc] using hres
      · have hshort : data.length ≤ 8 - p.length := by omega
        rw [List.take_of_length_le hshort] at hnum' hp'
        rw [List.drop_eq_nil_of_le hshort, serializeOctets]
        unfold flushOctet
        rw [if_neg (by rw [hnum', List.length_append]; omega)]
        refine ⟨p ++ data, by rw [List.length_append]; omega, hnum', hp', ?_⟩
        rw [List.append_assoc]
        rfl
    · have hnil' : p = [] := List.length_eq_zero_iff.mp (by omega)
      subst hnil'
      rw [if_neg hpos, List.append_nil]
      exact Clean.holds_serializeOctets data ⟨hnum, startsWith_nil_iff.mp hp⟩

/-- The bits of an integer. -/
def encodeInteger (n nmin nmax : ℤ) : List Bool :=
  if nmax - nmin + 1 ≤ 1 then []
  else bitset (requiredBits (nmax - nmin + 1)) (n - nmin).toNat

/-- The bits of an element. -/
def Form.encode : Form → Value → List Bool
  | boolean, .bool b => [b]
  | bitstring _, .bits data => data
  | integer nmin nmax, .int n => encodeInteger n nmin nmax
  | enum numElems, .int n => encodeInteger n 0 (numElems - 1)
  | choice numOptions ext, .int n =>
    (if ext then [false] else []) ++ encodeInteger n 0 (numOptions - 1)
  | sequenceOf nMax nMin, .int n => encodeInteger n nMin nMax
  | sequence _ ext, .bits data => (if ext then [false] else []) ++ data
  | _, _ => []

theorem requiredBits_le {range : ℤ} (hle : range ≤ 2 ^ 20) : requiredBits range ≤ 20 := by
  rw [requiredBits, Nat.clog_le_iff_le_pow (by decide)]
  have : range.toNat ≤ (2 ^ 20 : ℤ).toNat := Int.toNat_le_toNat hle
  simpa using this

theorem Holds.serializeInteger {h : Asn1Header} {sent : List Bool} (hh : h.Holds sent)
    {n nmin nmax : ℤ} (hn : InRange n nmin nmax) : ∃ h', h.serializeInteger n nmin nmax = some h' ∧
      h'.Holds (sent ++ encodeInteger n nmin nmax) := by
  unfold Asn1Header.serializeInteger encodeInteger
  rw [if_pos ⟨hn.1, hn.2.1⟩]
  split_ifs with hone hbits
  · exact ⟨h, rfl, by rwa [List.append_nil]⟩
  · exact ⟨_, rfl, hh.serializeBitset _⟩
  · exact absurd (requiredBits_le hn.2.2) hbits

theorem Holds.serializeMarker {h : Asn1Header} {sent : List Bool} (hh : h.Holds sent) (ext : Bool) :
    (if ext then h.serializeBoolean false else h).Holds (sent ++ if ext then [false] else []) := by
  cases ext with
  | false => simpa using hh
  | true => exact hh.serializeBitset [false]

/-- **What an element adds.** -/
theorem Holds.serialize {h : Asn1Header} {sent : List Bool} (hh : h.Holds sent) :
    ∀ (f : Form) {v : Value}, f.Admits v →
      ∃ h', f.serialize v h = some h' ∧ h'.Holds (sent ++ f.encode v)
  | .boolean, .bool b, _ => ⟨_, rfl, hh.serializeBitset [b]⟩
  | .bitstring _, .bits data, _ => ⟨_, rfl, hh.serializeBitset data⟩
  | .integer _ _, .int _, hn => hh.serializeInteger hn
  | .enum _, .int _, hn => hh.serializeInteger hn
  | .sequenceOf _ _, .int _, hn => hh.serializeInteger hn
  | .sequence _ ext, .bits data, _ => by
    refine ⟨_, rfl, ?_⟩
    have := (hh.serializeMarker ext).serializeBitset data
    rwa [List.append_assoc] at this
  | .choice numOptions ext, .int n, hn => by
    have hmarker := hh.serializeMarker ext
    rw [Form.serialize, Form.encode, serializeChoice, ← List.append_assoc]
    by_cases hlt : numOptions < 2
    · -- A single option: the writer of choices and that of integers agree.
      have hnone : encodeInteger n 0 (numOptions - 1) = [] := if_pos (by omega)
      rw [if_pos hlt, hnone, List.append_nil]
      exact ⟨_, rfl, hmarker⟩
    · rw [if_neg hlt]
      exact hmarker.serializeInteger hn

theorem Holds.serializeAll : ∀ (es : List Element) {h : Asn1Header} {sent : List Bool},
    h.Holds sent → ∃ h', serializeAll es h = some h' ∧
      h'.Holds (sent ++ es.flatMap fun e ↦ e.form.encode e.value)
  | [], h, _, hh => ⟨h, rfl, by simpa using hh⟩
  | e :: es, h, sent, hh => by
    obtain ⟨h₁, heq, hh₁⟩ := hh.serialize e.form e.admits
    obtain ⟨h₂, heq₂, hh₂⟩ := Holds.serializeAll es hh₁
    refine ⟨h₂, ?_, ?_⟩
    · rw [Asn1Header.serializeAll, heq, Option.bind_some, heq₂]
    · rw [List.flatMap_cons, ← List.append_assoc]
      exact hh₂

theorem exists_bits (o : BitVec 8) : ∃ d₇ d₆ d₅ d₄ d₃ d₂ d₁ d₀ : Bool,
    bits o = [d₇, d₆, d₅, d₄, d₃, d₂, d₁, d₀] := ⟨_, _, _, _, _, _, _, _, rfl⟩

theorem finalizeSerialization_of_pos {h : Asn1Header} (hpos : 0 < h.m_numSerializationPendingBits) :
    ∃ o, h.finalizeSerialization.m_serializationResult = h.m_serializationResult ++ [o] ∧
      bits o = bits h.m_serializationPendingBits := by
  obtain ⟨d₇, d₆, d₅, d₄, d₃, d₂, d₁, d₀, heq⟩ := exists_bits h.m_serializationPendingBits
  unfold finalizeSerialization
  rw [if_pos hpos, heq]
  exact ⟨_, rfl, bits_setBitsUp d₇ d₆ d₅ d₄ d₃ d₂ d₁ d₀⟩

theorem Holds.finalizeSerialization {h : Asn1Header} {sent : List Bool} (hh : h.Holds sent) :
    ∃ n < 8, h.finalizeSerialization.m_serializationResult.flatMap bits =
      sent ++ List.replicate n false := by
  obtain ⟨p, hlt, hnum, hp, rfl⟩ := hh
  by_cases hpos : 0 < h.m_numSerializationPendingBits
  · obtain ⟨o, hres, ho⟩ := finalizeSerialization_of_pos hpos
    refine ⟨8 - p.length, by omega, ?_⟩
    rw [hres, List.flatMap_append, List.flatMap_singleton, ho, hp.bits_eq, List.append_assoc]
  · have hnil : p = [] := List.length_eq_zero_iff.mp (by omega)
    refine ⟨0, by decide, ?_⟩
    unfold Asn1Header.finalizeSerialization
    rw [if_neg hpos, hnil, List.append_nil, List.replicate_zero, List.append_nil]

/-- **What a message is**, if nothing was left over: the bits of its elements, and fewer than eight zeros. -/
theorem Clean.preSerialize {h : Asn1Header} (hc : h.Clean) (es : List Element) :
    ∃ h', preSerialize es h = some h' ∧ ∃ n < 8, h'.m_serializationResult.flatMap bits =
      (es.flatMap fun e ↦ e.form.encode e.value) ++ List.replicate n false := by
  have hstart : Clean { h with m_serializationResult := [] } := hc
  obtain ⟨h₁, heq, hh₁⟩ := Holds.serializeAll es hstart.holds
  obtain ⟨n, hlt, hres⟩ := hh₁.finalizeSerialization
  refine ⟨h₁.finalizeSerialization, ?_, n, hlt, hres⟩
  rw [Asn1Header.preSerialize, heq, Option.map_some]

/-! ## What is still to be read -/

/-- The bits that a reader will get: those that are pending, and those of the octets of the buffer. -/
def Reads (h : Asn1Header) (i : List (BitVec 8)) (rest : List Bool) : Prop :=
  h.m_numSerializationPendingBits < 8 ∧
    (bits h.m_serializationPendingBits).take h.m_numSerializationPendingBits ++ i.flatMap bits = rest

theorem take_bits_shiftLeft (o : BitVec 8) {k : ℕ} (hle : k ≤ 7) :
    o.getMsbD 0 :: (bits (o <<< 1)).take k = (bits o).take (k + 1) := by
  rw [bits_shiftLeft o (by decide), List.take_append_of_le_length (by simpa using hle)]
  rfl

theorem readPending_eq (N : ℕ) {h : Asn1Header} (hle : h.m_numSerializationPendingBits ≤ 8) :
    readPending N h =
      ((bits h.m_serializationPendingBits).take (min N h.m_numSerializationPendingBits),
        N - h.m_numSerializationPendingBits,
        { h with
          m_numSerializationPendingBits := h.m_numSerializationPendingBits - N
          m_serializationPendingBits :=
            h.m_serializationPendingBits <<< min N h.m_numSerializationPendingBits }) := by
  induction N generalizing h with
  | zero => simp [readPending]
  | succ N ih =>
    rw [readPending]
    by_cases hpos : 0 < h.m_numSerializationPendingBits
    · obtain ⟨n, hn⟩ := Nat.exists_eq_succ_of_ne_zero hpos.ne'
      have hmin : min (N + 1) (n + 1) = min N n + 1 := Nat.succ_min_succ N n
      have hbit := and_mask_ne_zero h.m_serializationPendingBits (show 0 < 8 by decide)
      have htake := take_bits_shiftLeft h.m_serializationPendingBits (k := min N n) (by omega)
      rw [if_pos hpos, ih (by dsimp only; omega)]
      dsimp only
      rw [hn, Nat.succ_eq_add_one, hmin, Nat.add_sub_cancel, Nat.add_sub_add_right,
        Nat.add_sub_add_right, ← htake, add_comm (min N n) 1, BitVec.shiftLeft_add]
      exact congrArg (fun b ↦ (b :: _, _)) hbit
    · have hzero : h.m_numSerializationPendingBits = 0 := by omega
      rw [if_neg hpos]
      simp [hzero]
      cases h
      simp_all

theorem readOctets_eq : ∀ (i : List (BitVec 8)) (N : ℕ) {h : Asn1Header},
    h.m_numSerializationPendingBits = 0 → N ≤ (i.flatMap bits).length →
    ∃ h' i', readOctets i N h = some ((i.flatMap bits).take N, h', i') ∧
      Reads h' i' ((i.flatMap bits).drop N)
  | i, 0, h, hzero, _ => by
    refine ⟨h, i, by rw [readOctets, List.take_zero], by omega, ?_⟩
    rw [hzero, List.take_zero, List.nil_append, List.drop_zero]
  | [], N + 1, h, _, hle => by simp at hle
  | octet :: i, N + 1, h, hzero, hle => by
    rw [List.flatMap_cons, List.length_append, length_bits] at hle
    by_cases hwhole : 8 ≤ N + 1
    · obtain ⟨h', i', heq, hreads⟩ := readOctets_eq i (N + 1 - 8) hzero (by omega)
      have hwhole' : (bits octet).length ≤ N + 1 := by rwa [length_bits]
      have hall : readBits 8 0x80#8 octet = bits octet :=
        (readBits_all octet (le_refl 8)).trans (List.take_of_length_le (length_bits octet).le)
      refine ⟨h', i', ?_, ?_⟩
      · rw [readOctets, if_pos hwhole, heq, Option.map_some, List.flatMap_cons, List.take_append,
          length_bits, List.take_of_length_le hwhole', hall]
      · rw [List.flatMap_cons, List.drop_append, length_bits,
          List.drop_of_length_le hwhole', List.nil_append]
        exact hreads
    · have hle' : N + 1 ≤ (bits octet).length := by
        rw [length_bits]
        omega
      have hread : readBits (N + 1) 0x80#8 octet = (bits octet).take (N + 1) :=
        readBits_all octet (by omega)
      refine ⟨{ h with
        m_numSerializationPendingBits := 8 - (N + 1)
        m_serializationPendingBits := octet <<< (N + 1) }, i, ?_, ?_⟩
      · rw [readOctets, if_neg hwhole, List.flatMap_cons, List.take_append_of_le_length hle', hread]
      · refine ⟨by dsimp only; omega, ?_⟩
        dsimp only
        rw [List.flatMap_cons, List.drop_append_of_le_length hle', bits_shiftLeft octet (by omega),
          List.take_append_of_le_length (by simp), List.take_of_length_le (by simp)]

/-- **What `DeserializeBitset` does.** -/
theorem Reads.deserializeBitset {h : Asn1Header} {i : List (BitVec 8)} {data rest : List Bool}
    (hr : Reads h i (data ++ rest)) : ∃ h' i',
      h.deserializeBitset data.length i = some (data, h', i') ∧ Reads h' i' rest := by
  obtain ⟨hlt, heq⟩ := hr
  have hlen := congrArg List.length heq
  rw [List.length_append, List.length_append, List.length_take, length_bits,
    Nat.min_eq_left hlt.le] at hlen
  have htake := congrArg (List.take data.length) heq
  have hdrop := congrArg (List.drop data.length) heq
  rw [List.take_left] at htake
  rw [List.drop_left] at hdrop
  unfold Asn1Header.deserializeBitset
  rw [readPending_eq _ hlt.le]
  dsimp only
  rcases Nat.lt_or_ge h.m_numSerializationPendingBits data.length with hmore | hless
  · rw [List.take_append, List.take_take, List.length_take, length_bits, Nat.min_eq_left hlt.le]
      at htake
    rw [List.drop_append, List.length_take, length_bits, Nat.min_eq_left hlt.le,
      List.drop_of_length_le (by rw [List.length_take, length_bits]; omega), List.nil_append] at hdrop
    obtain ⟨h', i', hread, hreads⟩ := readOctets_eq i (data.length - h.m_numSerializationPendingBits)
      (h := { h with
        m_numSerializationPendingBits := h.m_numSerializationPendingBits - data.length
        m_serializationPendingBits :=
          h.m_serializationPendingBits <<< min data.length h.m_numSerializationPendingBits })
      (Nat.sub_eq_zero_of_le hmore.le) (by omega)
    refine ⟨h', i', ?_, ?_⟩
    · rw [hread, Option.map_some, htake]
    · rwa [hdrop] at hreads
  · rw [List.take_append_of_le_length (by rw [List.length_take, length_bits]; omega),
      List.take_take] at htake
    rw [List.drop_append_of_le_length (by rw [List.length_take, length_bits]; omega)] at hdrop
    rw [Nat.sub_eq_zero_of_le hless, readOctets.eq_1, htake]
    refine ⟨_, i, by rw [Option.map_some, List.append_nil], by dsimp only; omega, ?_⟩
    dsimp only
    rw [Nat.min_eq_left hless, bits_shiftLeft _ (by omega),
      List.take_append_of_le_length (by simp; omega), List.take_drop] 
    rw [← hdrop]
    congr 3
    omega

@[simp] theorem length_bitset (N n : ℕ) : (bitset N n).length = N := by
  induction N with
  | zero => rfl
  | succ N ih => rw [bitset, List.length_cons, ih]

theorem foldl_bitset (N n a : ℕ) :
    (bitset N n).foldl (fun m d ↦ 2 * m + d.toNat) a = a * 2 ^ N + n % 2 ^ N := by
  induction N generalizing a with
  | zero => simp [bitset, Nat.mod_one]
  | succ N ih =>
    rw [bitset, List.foldl_cons, ih, Nat.mod_pow_succ, ← Nat.toNat_testBit]
    ring

theorem toUlong_bitset {N n : ℕ} (hlt : n < 2 ^ N) : toUlong (bitset N n) = n := by
  rw [toUlong, foldl_bitset, Nat.zero_mul, Nat.zero_add, Nat.mod_eq_of_lt hlt]

/-- What a variable that holds `held` holds after an integer has been read. -/
theorem Reads.deserializeInteger {h : Asn1Header} {i : List (BitVec 8)} {n nmin nmax : ℤ}
    {rest : List Bool} (hn : InRange n nmin nmax)
    (hr : Reads h i (encodeInteger n nmin nmax ++ rest)) (held : ℤ) : ∃ h' i',
      h.deserializeInteger held nmin nmax i = some (if nmin = nmax then held else n, h', i') ∧
        Reads h' i' rest := by
  obtain ⟨hmin, hmax, hrange⟩ := hn
  have hbounds : (if nmin > nmax then (nmax, nmin) else (nmin, nmax)) = (nmin, nmax) :=
    if_neg (by omega)
  unfold Asn1Header.deserializeInteger
  rw [encodeInteger] at hr
  rw [hbounds]
  dsimp only
  by_cases hone : nmin = nmax
  · rw [if_pos (by omega), if_pos hone]
    rw [if_pos (by omega), List.nil_append] at hr
    exact ⟨h, i, rfl, hr⟩
  · rw [if_neg (by omega), if_pos (requiredBits_le hrange), if_neg hone]
    rw [if_neg (by omega)] at hr
    obtain ⟨h', i', heq, hreads⟩ := hr.deserializeBitset
    have hlt : (n - nmin).toNat < 2 ^ requiredBits (nmax - nmin + 1) :=
      Nat.lt_of_lt_of_le (by omega) (Nat.le_pow_clog (by decide) (nmax - nmin + 1).toNat)
    rw [length_bitset] at heq
    refine ⟨h', i', ?_, hreads⟩
    rw [heq, Option.map_some, toUlong_bitset hlt, Int.toNat_of_nonneg (by omega)]
    exact congrArg (fun m ↦ some (m, h', i')) (sub_add_cancel n nmin)

theorem Reads.deserializeBoolean {h : Asn1Header} {i : List (BitVec 8)} {b : Bool}
    {rest : List Bool} (hr : Reads h i ([b] ++ rest)) : ∃ h' i',
      h.deserializeBoolean i = some (b, h', i') ∧ Reads h' i' rest := by
  obtain ⟨h', i', heq, hreads⟩ := hr.deserializeBitset
  refine ⟨h', i', ?_, hreads⟩
  unfold Asn1Header.deserializeBoolean
  rw [List.length_singleton] at heq
  rw [heq]
  rfl

theorem Reads.deserializeMarker {h : Asn1Header} {i : List (BitVec 8)} {ext : Bool}
    {rest : List Bool} (hr : Reads h i ((if ext then [false] else []) ++ rest)) : ∃ h' i',
      h.deserializeMarker ext i = some (h', i') ∧ Reads h' i' rest := by
  cases ext with
  | false => exact ⟨h, i, rfl, hr⟩
  | true =>
    obtain ⟨h', i', heq, hreads⟩ := Reads.deserializeBoolean hr
    refine ⟨h', i', ?_, hreads⟩
    unfold Asn1Header.deserializeMarker
    rw [if_pos rfl, heq]
    rfl

/-- An integer with a single value. -/
def Form.IsSingle : Form → Prop
  | integer nmin nmax => nmin = nmax
  | enum numElems => 0 = numElems - 1
  | choice numOptions _ => 0 = numOptions - 1
  | sequenceOf nMax nMin => nMin = nMax
  | _ => False

instance : DecidablePred Form.IsSingle
  | .boolean => inferInstanceAs (Decidable False)
  | .bitstring _ => inferInstanceAs (Decidable False)
  | .integer _ _ => inferInstanceAs (Decidable (_ = _))
  | .enum _ => inferInstanceAs (Decidable (_ = _))
  | .choice _ _ => inferInstanceAs (Decidable (_ = _))
  | .sequenceOf _ _ => inferInstanceAs (Decidable (_ = _))
  | .sequence _ _ => inferInstanceAs (Decidable False)

/-- The value that is read. -/
def Element.received (e : Element) : Value := if e.form.IsSingle then .int e.held else e.value

/-- **What reading an element does.** -/
theorem Reads.deserialize {h : Asn1Header} {i : List (BitVec 8)} {rest : List Bool} (held : ℤ) :
    ∀ (f : Form) (v : Value), f.Admits v → Reads h i (f.encode v ++ rest) → ∃ h' i',
      f.deserialize held h i = some (if f.IsSingle then .int held else v, h', i') ∧ Reads h' i' rest
  | .boolean, .bool b, _, hr => by
    obtain ⟨h', i', heq, hreads⟩ := Reads.deserializeBoolean hr
    refine ⟨h', i', ?_, hreads⟩
    rw [Form.deserialize, heq]
    rfl
  | .bitstring N, .bits data, hn, hr => by
    rw [Form.encode] at hr
    obtain ⟨h', i', heq, hreads⟩ := hr.deserializeBitset
    refine ⟨h', i', ?_, hreads⟩
    rw [hn.2] at heq
    rw [Form.deserialize, deserializeBitstring, heq]
    rfl
  | .integer nmin nmax, .int n, hn, hr => by
    obtain ⟨h', i', heq, hreads⟩ := Reads.deserializeInteger hn hr held
    refine ⟨h', i', ?_, hreads⟩
    rw [Form.deserialize, heq, Option.map_some, apply_ite Value.int]
    rfl
  | .enum numElems, .int n, hn, hr => by
    obtain ⟨h', i', heq, hreads⟩ := Reads.deserializeInteger hn hr held
    refine ⟨h', i', ?_, hreads⟩
    rw [Form.deserialize, deserializeEnum, heq, Option.map_some, apply_ite Value.int]
    rfl
  | .sequenceOf nMax nMin, .int n, hn, hr => by
    obtain ⟨h', i', heq, hreads⟩ := Reads.deserializeInteger hn hr held
    refine ⟨h', i', ?_, hreads⟩
    rw [Form.deserialize, deserializeSequenceOf, heq, Option.map_some, apply_ite Value.int]
    rfl
  | .choice numOptions ext, .int n, hn, hr => by
    rw [Form.encode, List.append_assoc] at hr
    obtain ⟨h₁, i₁, heq₁, hreads₁⟩ := hr.deserializeMarker
    obtain ⟨h', i', heq, hreads⟩ := Reads.deserializeInteger hn hreads₁ held
    refine ⟨h', i', ?_, hreads⟩
    rw [Form.deserialize, deserializeChoice, heq₁, Option.bind_some, heq, Option.map_some,
      apply_ite Value.int]
    rfl
  | .sequence N ext, .bits data, hn, hr => by
    rw [Form.encode, List.append_assoc] at hr
    obtain ⟨h₁, i₁, heq₁, hreads₁⟩ := hr.deserializeMarker
    obtain ⟨h', i', heq, hreads⟩ := hreads₁.deserializeBitset
    refine ⟨h', i', ?_, hreads⟩
    rw [hn.2] at heq
    rw [Form.deserialize, deserializeSequence, heq₁, Option.bind_some, heq]
    rfl

theorem Reads.deserializeAll : ∀ (es : List Element) {h : Asn1Header} {i : List (BitVec 8)}
    {rest : List Bool}, Reads h i ((es.flatMap fun e ↦ e.form.encode e.value) ++ rest) → ∃ h' i',
      deserializeAll es h i = some (es.map Element.received, h', i') ∧ Reads h' i' rest
  | [], h, i, _, hr => ⟨h, i, rfl, hr⟩
  | e :: es, h, i, rest, hr => by
    rw [List.flatMap_cons, List.append_assoc] at hr
    obtain ⟨h₁, i₁, heq₁, hreads₁⟩ := Reads.deserialize e.held e.form e.value e.admits hr
    obtain ⟨h', i', heq, hreads⟩ := Reads.deserializeAll es hreads₁
    refine ⟨h', i', ?_, hreads⟩
    rw [Asn1Header.deserializeAll, heq₁, Option.bind_some, heq]
    rfl

/-! ## Round trips -/

/-- **What a reader gets** from a writer that has nothing left over. -/
theorem Clean.exchange {writer reader : Asn1Header} (hw : writer.Clean)
    (hr : reader.m_numSerializationPendingBits = 0) (es : List Element) :
    exchange writer reader es = some (es.map Element.received, []) := by
  obtain ⟨h, heq, n, hlt, hres⟩ := hw.preSerialize es
  have hreads : Reads reader h.m_serializationResult
      ((es.flatMap fun e ↦ e.form.encode e.value) ++ List.replicate n false) := by
    refine ⟨by omega, ?_⟩
    rw [hr, List.take_zero, List.nil_append, hres]
  obtain ⟨h', i', hall, hrest⟩ := Reads.deserializeAll es hreads
  have hnil : i' = [] := by
    have hlen := congrArg List.length hrest.2
    rw [List.length_append, List.length_replicate] at hlen
    cases i' with
    | nil => rfl
    | cons o i' =>
      rw [List.flatMap_cons, List.length_append, length_bits] at hlen
      omega
  rw [Asn1Header.exchange, heq, Option.bind_some, hall, hnil]
  rfl

/-- The variable that an integer with a single value is read into holds that value already. -/
def Element.Settled (e : Element) : Prop := e.form.IsSingle → e.value = .int e.held

instance : DecidablePred Element.Settled := fun e ↦
  inferInstanceAs (Decidable (e.form.IsSingle → e.value = .int e.held))

theorem Element.received_eq_iff {e : Element} : e.received = e.value ↔ e.Settled := by
  rw [Element.received, Element.Settled]
  split_ifs with hone
  · exact ⟨fun heq _ ↦ heq.symm, fun heq ↦ (heq hone).symm⟩
  · exact ⟨fun _ hone' ↦ absurd hone' hone, fun _ ↦ rfl⟩

theorem Clean.roundTrips_iff {writer reader : Asn1Header} (hw : writer.Clean)
    (hr : reader.m_numSerializationPendingBits = 0) (es : List Element) :
    RoundTrips writer reader es ↔ ∀ e ∈ es, e.Settled := by
  rw [RoundTrips, hw.exchange hr, Option.some.injEq, Prod.mk.injEq, and_iff_left rfl,
    List.map_inj_left]
  exact forall₂_congr fun e _ ↦ Element.received_eq_iff

/-! ## Objects that have been used -/

theorem not_roundTrips_of_pending {writer : Asn1Header} (reader : Asn1Header)
    (hw : 0 < writer.m_numSerializationPendingBits) : ¬RoundTrips writer reader [] := by
  obtain ⟨o, hres, -⟩ := finalizeSerialization_of_pos
    (h := { writer with m_serializationResult := [] }) hw
  unfold RoundTrips Asn1Header.exchange Asn1Header.preSerialize Asn1Header.serializeAll
  rw [Option.map_some, Option.bind_some, hres]
  intro heq
  cases heq

/-- Eight bits that are not set. -/
def zeros : List Element :=
  [⟨.sequence 7 false, .bits (List.replicate 7 false), 0, by decide, rfl⟩,
    ⟨.boolean, .bool false, 0, trivial⟩]

theorem preSerialize_zeros {writer : Asn1Header} (hw : writer.m_numSerializationPendingBits = 0) :
    ∃ h, preSerialize zeros writer = some h ∧
      h.m_serializationResult = [writer.m_serializationPendingBits] := by
  cases writer
  subst hw
  refine ⟨_, rfl, ?_⟩
  simp [serializeSequence, serializeBitstring, serializeBoolean, serializeBitset, serializeOctets,
    completeOctet, flushOctet, finalizeSerialization, writeOctet, setBits]

theorem eq_zero_of_roundTrips_zeros {writer reader : Asn1Header}
    (hw : writer.m_numSerializationPendingBits = 0) (hr : reader.m_numSerializationPendingBits = 0)
    (hround : RoundTrips writer reader zeros) : writer.m_serializationPendingBits = 0#8 := by
  obtain ⟨h, heq, hres⟩ := preSerialize_zeros hw
  have hreads : Reads reader h.m_serializationResult
      ((bits writer.m_serializationPendingBits).take 7 ++
        ([writer.m_serializationPendingBits.getMsbD 7] ++ [])) := by
    refine ⟨by omega, ?_⟩
    rw [hr, List.take_zero, hres]
    rfl
  obtain ⟨h₁, i₁, heq₁, hreads₁⟩ := hreads.deserializeBitset
  obtain ⟨h₂, i₂, heq₂, -⟩ := Reads.deserializeBoolean hreads₁
  have hvalues : exchange writer reader zeros =
      some ([.bits ((bits writer.m_serializationPendingBits).take 7),
        .bool (writer.m_serializationPendingBits.getMsbD 7)], i₂) := by
    rw [exchange, heq, Option.bind_some]
    unfold zeros
    rw [List.length_take, length_bits] at heq₁
    simp only [deserializeAll, Form.deserialize, deserializeSequence, deserializeMarker,
      Option.bind_some, Bool.false_eq_true, if_false]
    rw [show min 7 8 = 7 from rfl] at heq₁
    rw [heq₁, Option.map_some, Option.bind_some, heq₂]
    rfl
  rw [RoundTrips, hvalues] at hround
  have hbits : bits writer.m_serializationPendingBits = List.replicate 8 false := by
    simp only [zeros, List.map_cons, List.map_nil, Option.some.injEq, Prod.mk.injEq,
      List.cons.injEq, Value.bits.injEq, Value.bool.injEq] at hround
    obtain ⟨⟨htake, hlast, -⟩, -⟩ := hround
    calc bits writer.m_serializationPendingBits
        = (bits writer.m_serializationPendingBits).take 7 ++
            [writer.m_serializationPendingBits.getMsbD 7] := rfl
      _ = List.replicate 8 false := by rw [htake, hlast]; rfl
  refine BitVec.eq_of_getMsbD_eq fun i hi ↦ ?_
  rw [← getD_bits _ hi, hbits]
  interval_cases i <;> rfl

theorem not_roundTrips_of_reader {writer reader : Asn1Header}
    (hw : writer.m_numSerializationPendingBits = 0)
    (hr : 0 < reader.m_numSerializationPendingBits) :
    ¬RoundTrips writer reader [⟨.boolean, .bool false, 0, trivial⟩] := by
  have hpre : ∃ h o, preSerialize [⟨.boolean, .bool false, 0, trivial⟩] writer = some h ∧
      h.m_serializationResult = [o] := by
    cases writer
    subst hw
    exact ⟨_, _, rfl, rfl⟩
  obtain ⟨h, o, heq, hres⟩ := hpre
  unfold RoundTrips exchange
  rw [heq, Option.bind_some, hres]
  simp only [deserializeAll, Form.deserialize, deserializeBoolean, deserializeBitset, readPending,
    if_pos hr, readOctets, Option.map_some, Option.bind_some, Option.some.injEq, Prod.mk.injEq]
  rintro ⟨-, hnil⟩
  cases hnil

/-- **When RRC messages survive.** Every message does, up to variables for single values, exactly if
nothing is left over in the object that writes it and no bits are pending in the one that reads it; and
then a message does if and only if such variables hold their values already. -/
theorem asn1_roundTrips_iff (writer reader : Asn1Header) :
    ((∀ es : List Element, (∀ e ∈ es, e.Settled) → RoundTrips writer reader es) ↔
      writer.Clean ∧ reader.m_numSerializationPendingBits = 0) ∧
    (writer.Clean → reader.m_numSerializationPendingBits = 0 → ∀ es : List Element,
      (RoundTrips writer reader es ↔ ∀ e ∈ es, e.Settled)) := by
  refine ⟨⟨fun hall ↦ ?_, fun hclean es hset ↦ (hclean.1.roundTrips_iff hclean.2 es).mpr hset⟩,
    fun hw hr es ↦ hw.roundTrips_iff hr es⟩
  have hw : writer.m_numSerializationPendingBits = 0 := by
    by_contra hne
    exact not_roundTrips_of_pending reader (Nat.pos_of_ne_zero hne) (hall [] (by simp))
  have hr : reader.m_numSerializationPendingBits = 0 := by
    by_contra hne
    exact not_roundTrips_of_reader hw (Nat.pos_of_ne_zero hne) (hall _ (by decide))
  exact ⟨⟨hw, eq_zero_of_roundTrips_zeros hw hr (hall zeros (by decide))⟩, hr⟩

/-- A bit string, an integer, a choice and a count with a single value, between fresh objects. -/
theorem asn1_roundTrips_iff_four : RoundTrips create create
    [⟨.bitstring 10, .bits [true, false, true, true, false, false, true, false, true, true], 0,
        by decide, rfl⟩,
      ⟨.integer (-4) 1000000, .int 999999, 0, show InRange _ _ _ by decide⟩,
      ⟨.choice 5 true, .int 3, 0, show InRange _ _ _ by decide⟩,
      ⟨.sequenceOf 7 7, .int 7, 7, show InRange _ _ _ by decide⟩] :=
  ((asn1_roundTrips_iff create create).2 (by decide) rfl _).2 (by decide)

/-- An integer that can only be five is read into a variable that holds zero; and an object that has
written `true` writes `true` again for `false`. -/
theorem not_roundTrips_of_used :
    ¬RoundTrips create create [⟨.integer 5 5, .int 5, 0, show InRange _ _ _ by decide⟩] ∧
      ∃ h, preSerialize [⟨.boolean, .bool true, 0, trivial⟩] create = some h ∧
        exchange h create [⟨.boolean, .bool false, 0, trivial⟩] = some ([.bool true], []) :=
  ⟨by decide, _, rfl, by decide⟩

end Asn1Header

end Lte

end Ns3
