import Ns3.Lte.LteRlcAmHeader
import Ns3.Lte.LteRlcDataField

/-!
# The header of RLC unacknowledged mode

The fixed part has two octets; behind it the length indicators are written and read as in acknowledged
mode. The length of the header is counted in sixteen bits: from the first octet of the fixed part on,
which only the first extension bit accounts for.
-/

namespace Ns3

namespace Lte

/-- A `LteRlcHeader`. -/
structure LteRlcHeader where
  m_headerLength : ℕ
  m_framingInfo : ℕ
  m_sequenceNumber : ℕ
  m_extensionBits : List ℕ
  m_lengthIndicators : List ℕ
  deriving DecidableEq

namespace LteRlcHeader

open LteRlcAmHeader (octet serializeLengthIndicators followingBits octets DATA_FIELD_FOLLOWS
  E_LI_FIELDS_FOLLOWS)

def create : LteRlcHeader where
  m_headerLength := 0
  m_framingInfo := 0xff
  m_sequenceNumber := 0xfffa % 1024
  m_extensionBits := []
  m_lengthIndicators := []

def setFramingInfo (h : LteRlcHeader) (framingInfo : ℕ) : LteRlcHeader :=
  { h with m_framingInfo := framingInfo &&& 0x03 }

/-- `SetSequenceNumber`, of a `SequenceNumber10`. -/
def setSequenceNumber (h : LteRlcHeader) (sequenceNumber : ℕ) : LteRlcHeader :=
  { h with m_sequenceNumber := sequenceNumber % 1024 }

def pushExtensionBit (h : LteRlcHeader) (extensionBit : ℕ) : LteRlcHeader :=
  let bits := h.m_extensionBits ++ [extensionBit]
  { h with
    m_extensionBits := bits
    m_headerLength :=
      if bits.length = 1 then 2
      else (h.m_headerLength + if bits.length % 2 = 1 then 1 else 2) % 65536 }

def pushLengthIndicator (h : LteRlcHeader) (lengthIndicator : ℕ) : LteRlcHeader :=
  { h with m_lengthIndicators := h.m_lengthIndicators ++ [lengthIndicator] }

instance : RlcHeader LteRlcHeader where
  pushExtensionBit := pushExtensionBit
  pushLengthIndicator := pushLengthIndicator

def getSerializedSize (h : LteRlcHeader) : ℕ := h.m_headerLength

def serialize (h : LteRlcHeader) : List UInt8 :=
  octet ((h.m_framingInfo <<< 3 &&& 0x18) ||| (h.m_extensionBits.headD 0 <<< 2 &&& 0x04) |||
      (h.m_sequenceNumber >>> 8 &&& 0x0003)) ::
    octet (h.m_sequenceNumber &&& 0x00FF) ::
    serializeLengthIndicators h.m_extensionBits.tail h.m_lengthIndicators

/-- `push_back` of an extension bit and a length indicator. -/
def readLengthIndicator (h : LteRlcHeader) (e li n : ℕ) : LteRlcHeader :=
  { h with
    m_headerLength := (h.m_headerLength + n) % 65536
    m_extensionBits := h.m_extensionBits ++ [e]
    m_lengthIndicators := h.m_lengthIndicators ++ [li] }

/-- The loop of `Deserialize` over the length indicators; `none` if the octets run out. -/
def deserializeLengthIndicators : List UInt8 → LteRlcHeader → Option LteRlcHeader
  | byte_1 :: byte_2 :: i, h =>
    let oddE := (byte_1.toNat &&& 0x80) >>> 7
    let oddLi := ((byte_1.toNat &&& 0x7F) <<< 4) ||| ((byte_2.toNat &&& 0xF0) >>> 4)
    let h' := h.readLengthIndicator oddE oddLi 2
    if oddE = E_LI_FIELDS_FOLLOWS then
      match i with
      | [] => none
      | byte_3 :: i' =>
        let evenE := (byte_2.toNat &&& 0x08) >>> 3
        let evenLi := ((byte_2.toNat &&& 0x07) <<< 8) ||| (byte_3.toNat &&& 0xFF)
        let h'' := h'.readLengthIndicator evenE evenLi 1
        if evenE = E_LI_FIELDS_FOLLOWS then deserializeLengthIndicators i' h'' else some h''
    else some h'
  | _, _ => none

def deserialize (start : List UInt8) (h : LteRlcHeader) : Option LteRlcHeader :=
  match start with
  | byte_1 :: byte_2 :: i =>
    let extensionBit := (byte_1.toNat &&& 0x04) >>> 2
    let h' := { h with
      m_headerLength := 2
      m_framingInfo := (byte_1.toNat &&& 0x18) >>> 3
      m_sequenceNumber := (((byte_1.toNat &&& 0x03) <<< 8) ||| byte_2.toNat) % 1024
      m_extensionBits := h.m_extensionBits ++ [extensionBit] }
    if extensionBit = DATA_FIELD_FOLLOWS then some h' else deserializeLengthIndicators i h'
  | _ => none

/-! ## Reading what was written -/

/-- The fields that the two headers share. -/
def ofAm (h : LteRlcAmHeader) : LteRlcHeader where
  m_headerLength := h.m_headerLength
  m_framingInfo := h.m_framingInfo
  m_sequenceNumber := h.m_sequenceNumber
  m_extensionBits := h.m_extensionBits
  m_lengthIndicators := h.m_lengthIndicators

theorem readLengthIndicator_ofAm (h : LteRlcAmHeader) (e li n : ℕ) :
    (ofAm h).readLengthIndicator e li n = ofAm (h.readLengthIndicator e li n) := rfl

theorem deserializeLengthIndicators_ofAm : ∀ (i : List UInt8) (h : LteRlcAmHeader),
    deserializeLengthIndicators i (ofAm h) =
      (LteRlcAmHeader.deserializeLengthIndicators i h).map fun r ↦ ofAm r.1
  | [], _ => rfl
  | [_], _ => rfl
  | [_, _], h => by
    unfold deserializeLengthIndicators LteRlcAmHeader.deserializeLengthIndicators
    dsimp only
    split_ifs
    · rfl
    · rfl
  | byte_1 :: byte_2 :: byte_3 :: i, h => by
    unfold deserializeLengthIndicators LteRlcAmHeader.deserializeLengthIndicators
    dsimp only
    rw [readLengthIndicator_ofAm, readLengthIndicator_ofAm]
    split_ifs
    · exact deserializeLengthIndicators_ofAm i _
    · rfl
    · rfl

/-- A header as it is built: its framing info, its sequence number and its length indicators. -/
def dataHeader (fi sn : ℕ) (lis : List ℕ) : LteRlcHeader :=
  ((pushAll create lis).setSequenceNumber sn).setFramingInfo fi

theorem foldl_pushLengthIndicator (lis : List ℕ) (e : ℕ) :
    (lis.foldl (fun h li ↦ (h.pushExtensionBit 1).pushLengthIndicator li) create).pushExtensionBit e =
      { create with
        m_headerLength := (2 + octets lis) % 65536
        m_extensionBits := List.replicate lis.length 1 ++ [e]
        m_lengthIndicators := lis } := by
  induction lis using List.reverseRecOn generalizing e with
  | nil => rfl
  | append_singleton lis li ih =>
    rw [List.foldl_append, List.foldl_cons, List.foldl_nil, ih, LteRlcAmHeader.octets_concat]
    simp only [pushLengthIndicator, pushExtensionBit, List.length_append, List.length_replicate,
      List.length_singleton, Nat.mod_add_mod, List.replicate_succ']
    have hparity : (if (lis.length + 1 + 1) % 2 = 1 then 1 else 2) =
        if (lis.length + 1) % 2 = 0 then 1 else 2 := by
      split_ifs <;> omega
    rw [if_neg (by omega), hparity, add_assoc]

theorem dataHeader_eq (fi sn : ℕ) (lis : List ℕ) : dataHeader fi sn lis =
    { m_headerLength := (2 + octets lis) % 65536
      m_framingInfo := fi &&& 0x03
      m_sequenceNumber := sn % 1024
      m_extensionBits := List.replicate lis.length 1 ++ [0]
      m_lengthIndicators := lis } := by
  have h := foldl_pushLengthIndicator lis 0
  change pushAll create lis = _ at h
  rw [dataHeader, h]
  rfl

theorem serialize_dataHeader (fi sn : ℕ) (lis : List ℕ) : (dataHeader fi sn lis).serialize =
    octet (((fi &&& 0x03) <<< 3 &&& 0x18) ||| ((if lis = [] then 0 else 1) <<< 2 &&& 0x04) |||
        ((sn % 1024) >>> 8 &&& 0x0003)) ::
      octet (sn % 1024 &&& 0x00FF) :: serializeLengthIndicators (followingBits lis) lis := by
  rw [dataHeader_eq]
  unfold serialize
  dsimp only
  have hbits := LteRlcAmHeader.replicate_bits lis
  rw [show List.replicate lis.length 1 ++ [0] = _ from hbits, List.headD_cons, List.tail_cons]

theorem length_serialize_dataHeader (fi sn : ℕ) (lis : List ℕ) :
    (dataHeader fi sn lis).serialize.length = 2 + octets lis := by
  rw [serialize_dataHeader, List.length_cons, List.length_cons,
    LteRlcAmHeader.length_serializeLengthIndicators]
  exact Nat.add_comm _ 2

theorem first_octet : ∀ fi < 4, ∀ e < 2, ∀ c < 4,
    ((octet ((fi <<< 3 &&& 0x18) ||| (e <<< 2 &&& 0x04) ||| c)).toNat &&& 0x18) >>> 3 = fi ∧
      ((octet ((fi <<< 3 &&& 0x18) ||| (e <<< 2 &&& 0x04) ||| c)).toNat &&& 0x04) >>> 2 = e ∧
      (octet ((fi <<< 3 &&& 0x18) ||| (e <<< 2 &&& 0x04) ||| c)).toNat &&& 0x03 = c := by
  simp only [LteRlcAmHeader.toNat_octet]
  decide +kernel

/-- **Reading a header that was built.** -/
theorem deserialize_dataHeader (fi sn : ℕ) {lis : List ℕ} (hlt : ∀ li ∈ lis, li < 2048)
    (payload : List UInt8) :
    deserialize ((dataHeader fi sn lis).serialize ++ payload) create = some (dataHeader fi sn lis) := by
  have hsn := LteRlcAmHeader.data_sequenceNumber (Nat.mod_lt sn (by decide : 0 < 1024))
  obtain ⟨hfi, he, hc⟩ := first_octet (fi &&& 0x03) (LteRlcAmHeader.and_lt fi 0x03)
    (if lis = [] then 0 else 1) (by split_ifs <;> decide) _
    (LteRlcAmHeader.and_lt ((sn % 1024) >>> 8) 0x0003)
  rw [← hc] at hsn
  rw [serialize_dataHeader, List.cons_append, List.cons_append]
  unfold deserialize
  dsimp only
  rw [hfi, he, hsn, Nat.mod_mod]
  by_cases hlis : lis = []
  · subst hlis
    rw [if_pos rfl, if_pos (show 0 = DATA_FIELD_FOLLOWS from rfl), dataHeader_eq]
    rfl
  · rw [if_neg hlis, if_neg (by decide)]
    have hread := deserializeLengthIndicators_ofAm
      (serializeLengthIndicators (followingBits lis) lis ++ payload)
      { LteRlcAmHeader.create 0 with
        m_headerLength := 2
        m_framingInfo := fi &&& 0x03
        m_sequenceNumber := sn % 1024
        m_extensionBits := [1] }
    rw [LteRlcAmHeader.deserializeLengthIndicators_serialize payload lis _ hlis hlt,
      Option.map_some] at hread
    refine hread.trans (congrArg some ?_)
    have hbits := LteRlcAmHeader.replicate_bits lis
    rw [if_neg hlis] at hbits
    rw [dataHeader_eq, show List.replicate lis.length 1 ++ [0] = _ from hbits]
    rfl

end LteRlcHeader

end Lte

end Ns3
