import Ns3.Network.PacketBBRoundTrip

/-!
# TLV blocks of addresses

A TLV of an address may have an index, or two, and its value may be one of several for the addresses. All of
that is written into six bits of flags, and the reader finds the fields by five of them. The flag of several
values is written and never read, so it comes back clear; everything else comes back as it was.
-/

namespace Ns3

namespace PacketBB

open Buffer (Failure Writer readU8 readU8_cons readNtohU16 readNtohU16_append)

namespace PbbTlv

variable {t : PbbTlv}

/-- A TLV that the setters build: the second index comes with the first one, the multivalue flag with a
value, and the value has less than `2 ^ 16` bytes. -/
structure WellFormed (t : PbbTlv) : Prop where
  index : t.m_indexStop.isSome → t.m_indexStart.isSome
  multivalue : t.m_isMultivalue → t.m_value.isSome
  short : t.Short

/-- The TLV without its multivalue flag. -/
def single (t : PbbTlv) : PbbTlv := { t with m_isMultivalue := false }

theorem single_eq_iff : t.single = t ↔ t.m_isMultivalue = false := by
  constructor
  · intro h
    rw [← h, single]
  · intro h
    rw [single, ← h]

theorem getSerializedSize_eq_length (h : t.WellFormed) :
    t.getSerializedSize = UInt32.ofNat t.serialize.length := by
  obtain ⟨m_type, m_typeExt, m_indexStart, m_indexStop, m_isMultivalue, m_value⟩ := t
  have hindex := h.index
  rw [getSerializedSize, serialize, List.length_append, List.length_append, List.length_append,
    UInt32.ofNat_add, UInt32.ofNat_add, UInt32.ofNat_add]
  have hvalue : m_value.elim 0 (fun value ↦ (if 255 < value.length then 2 else 1) +
      UInt32.ofNat value.length) = UInt32.ofNat (m_value.elim [] serializeValue).length := by
    cases m_value with
    | none => rfl
    | some value =>
      rw [Option.elim_some, Option.elim_some, length_serializeValue, UInt32.ofNat_add]
      split_ifs <;> rfl
  dsimp only at hindex ⊢
  rw [hvalue, add_assoc (_ + _) (ite _ _ _) (ite _ _ _)]
  congr 2
  · cases m_typeExt <;> rfl
  · rcases m_indexStart with _ | start
    · rcases m_indexStop with _ | stop
      · rfl
      · cases hindex rfl
    · cases m_indexStop <;> rfl

theorem index_flags_bits : ∀ ext start stop value long multi : Bool,
    let flags := (if ext then THAS_TYPE_EXT else 0) |||
      (if start then if stop then THAS_MULTI_INDEX else THAS_SINGLE_INDEX else 0) |||
      if value then THAS_VALUE ||| (if long then THAS_EXT_LEN else 0) |||
        (if multi then TIS_MULTIVALUE else 0) else 0
    decide (flags &&& THAS_TYPE_EXT ≠ 0) = ext ∧
      decide (flags &&& THAS_SINGLE_INDEX ≠ 0) = (start && !stop) ∧
      decide (flags &&& THAS_MULTI_INDEX ≠ 0) = (start && stop) ∧
      decide (flags &&& THAS_VALUE ≠ 0) = value ∧
      (value → decide (flags &&& THAS_EXT_LEN ≠ 0) = long) := by
  decide

theorem indexFlags_eq (t : PbbTlv) : t.indexFlags = if t.m_indexStart.isSome then
    if t.m_indexStop.isSome then THAS_MULTI_INDEX else THAS_SINGLE_INDEX else 0 := by
  rw [indexFlags]
  cases t.m_indexStart <;> cases t.m_indexStop <;> rfl

/-- The value has a length of two bytes. -/
def isLong (t : PbbTlv) : Bool := t.m_value.elim false fun value ↦ decide (255 < value.length)

theorem valueFlags_eq (t : PbbTlv) : t.valueFlags = if t.m_value.isSome then
    THAS_VALUE ||| (if t.isLong then THAS_EXT_LEN else 0) |||
      (if t.m_isMultivalue then TIS_MULTIVALUE else 0) else 0 := by
  rw [valueFlags, isLong]
  cases t.m_value with
  | none => rfl
  | some value =>
    rw [Option.elim_some, Option.elim_some, Option.isSome_some, if_pos rfl]
    simp only [decide_eq_true_eq]

theorem found_flags (t : PbbTlv) :
    decide (t.flags &&& THAS_TYPE_EXT ≠ 0) = t.m_typeExt.isSome ∧
      decide (t.flags &&& THAS_SINGLE_INDEX ≠ 0) = (t.m_indexStart.isSome && !t.m_indexStop.isSome) ∧
      decide (t.flags &&& THAS_MULTI_INDEX ≠ 0) = (t.m_indexStart.isSome && t.m_indexStop.isSome) ∧
      decide (t.flags &&& THAS_VALUE ≠ 0) = t.m_value.isSome ∧
      (t.m_value.isSome → decide (t.flags &&& THAS_EXT_LEN ≠ 0) = t.isLong) := by
  rw [flags, indexFlags_eq, valueFlags_eq]
  exact index_flags_bits _ _ _ _ _ _

theorem WellFormed.index_and (h : t.WellFormed) :
    (t.m_indexStart.isSome && t.m_indexStop.isSome) = t.m_indexStop.isSome := by
  rcases hstop : t.m_indexStop.isSome with _ | _
  · exact Bool.and_false _
  · rw [h.index hstop, Bool.and_true]

theorem WellFormed.index_or (h : t.WellFormed) :
    (t.m_indexStop.isSome || t.m_indexStart.isSome && !t.m_indexStop.isSome) =
      t.m_indexStart.isSome := by
  rcases hstop : t.m_indexStop.isSome with _ | _
  · rw [Bool.false_or, Bool.not_false, Bool.and_true]
  · rw [Bool.true_or, h.index hstop]

theorem WellFormed.serializeIndex_eq (h : t.WellFormed) :
    t.serializeIndex = t.m_indexStart.toList ++ t.m_indexStop.toList := by
  have hindex := h.index
  rw [serializeIndex]
  cases hstart : t.m_indexStart with
  | none =>
    rw [hstart] at hindex
    cases hstop : t.m_indexStop with
    | none => rfl
    | some stop => exact absurd (hindex (hstop ▸ rfl)) (by decide)
  | some start => rfl

theorem readValue (hs : t.Short) (i : List UInt8) :
    readIf t.m_value.isSome (deserializeValue t.isLong) (t.m_value.elim [] serializeValue ++ i) =
      .ok (t.m_value, i) := by
  rw [isLong]
  cases hvalue : t.m_value with
  | none => rfl
  | some value =>
    have hlt : value.length < 2 ^ 16 := hs value hvalue
    rw [Option.isSome_some, readIf_true, Option.elim_some, Option.elim_some,
      deserializeValue_serializeValue, Nat.mod_eq_of_lt hlt, List.take_length, List.drop_length]
    rfl

/-- **A TLV is read as it was written, without the multivalue flag.** -/
theorem deserialize_serialize_single (h : t.WellFormed) (i : List UInt8) :
    deserialize (t.serialize ++ i) = .ok (t.single, i) := by
  obtain ⟨hext, hsingle, hmulti, hvalue, hlong⟩ := t.found_flags
  have hread : readIf t.m_value.isSome (deserializeValue (decide (t.flags &&& THAS_EXT_LEN ≠ 0)))
      (t.m_value.elim [] serializeValue ++ i) = .ok (t.m_value, i) := by
    rcases hsome : t.m_value.isSome with _ | _
    · rw [Option.isSome_eq_false_iff, Option.isNone_iff_eq_none] at hsome
      rw [hsome]
      rfl
    · rw [hlong hsome, ← hsome]
      exact readValue h.short i
  rw [deserialize, serialize, h.serializeIndex_eq, List.append_assoc, List.append_assoc,
    List.append_assoc, List.append_assoc]
  dsimp only [List.cons_append, List.nil_append]
  rw [readU8_cons, Except.ok_bind, readU8_cons, Except.ok_bind]
  dsimp only
  rw [hext, readIf_toList, Except.ok_bind]
  dsimp only
  rw [hmulti, hsingle, hvalue, h.index_and, h.index_or, readIf_toList, Except.ok_bind]
  dsimp only
  rw [readIf_toList, Except.ok_bind]
  dsimp only
  rw [hread, Except.ok_bind]
  rfl

end PbbTlv

/-! ## Blocks -/

namespace PbbTlvBlock

variable {ts : PbbTlvBlock}

theorem getSerializedSize_eq_length (h : ∀ t ∈ ts, t.WellFormed) :
    getSerializedSize ts = UInt32.ofNat (serialize ts).length := by
  rw [length_serialize]
  exact foldl_size (fun t ht ↦ PbbTlv.getSerializedSize_eq_length (h t ht)) 2

/-- **A block is read as it was written, without the multivalue flags.** -/
theorem deserialize_serialize_single (h : ∀ t ∈ ts, t.WellFormed) (hlength : (serialize ts).length < 2 ^ 16)
    (i : List UInt8) : deserialize (serialize ts ++ i) = .ok (ts.map PbbTlv.single, i) := by
  rw [length_serialize] at hlength
  have hsize : (UInt16.ofNat (body ts).length).toNat = (body ts).length := by
    rw [UInt16.toNat_ofNat', Nat.mod_eq_of_lt (by omega)]
  rw [deserialize, serialize_eq, List.append_assoc, readNtohU16_append, Except.ok_bind]
  dsimp only
  rw [hsize]
  by_cases hnil : ts = []
  · rw [hnil]
    rfl
  · have hlast := length_body_dropLast hnil
    rw [if_pos (Nat.zero_lt_of_lt hlast)]
    have hfuel : ts.length < (body ts ++ i).length + 1 := by
      rw [List.length_append, Nat.lt_succ_iff]
      exact (length_le_flatMap fun t _ ↦ t.serialize_ne_nil).trans (Nat.le_add_right _ _)
    have hread : readWhile PbbTlv.deserialize (body ts).length (0 + (body ts ++ i).length)
        ((body ts ++ i).length + 1) (body ts ++ i) = .ok (ts.map PbbTlv.single, i) :=
      readWhile_flatMap (fun t ht i ↦ PbbTlv.deserialize_serialize_single (h t ht) i)
        (fun _ ↦ (Nat.zero_add _).trans_lt hlast) (Nat.zero_add _).ge hfuel
    rw [Nat.zero_add] at hread
    exact hread

/-- A block is written in as many bytes as its size says, and read from exactly these bytes as it was. -/
def RoundTrips (ts : PbbTlvBlock) : Prop :=
  (getSerializedSize ts).toNat = (serialize ts).length ∧
    ∀ i, deserialize (serialize ts ++ i) = .ok (ts, i)

/-- **A block of address TLVs round-trips** if and only if no value of it is one of several. -/
theorem addressTlvBlock_roundTrips_iff (h : ∀ t ∈ ts, t.WellFormed)
    (hlength : (serialize ts).length < 2 ^ 16) :
    RoundTrips ts ↔ ∀ t ∈ ts, t.m_isMultivalue = false := by
  have hsize : (getSerializedSize ts).toNat = (serialize ts).length := by
    rw [getSerializedSize_eq_length h, UInt32.toNat_ofNat', Nat.mod_eq_of_lt (by omega)]
  constructor
  · rintro ⟨-, hread⟩ t ht
    have hmap := deserialize_serialize_single h hlength []
    rw [hread [], Except.ok_inj] at hmap
    have hsingle : ts.map PbbTlv.single = ts.map id := by
      rw [List.map_id]
      exact (Prod.mk.inj hmap).1.symm
    exact PbbTlv.single_eq_iff.mp (List.map_inj_left.mp hsingle t ht)
  · intro hall
    refine ⟨hsize, fun i ↦ ?_⟩
    have hmap : ts.map PbbTlv.single = ts := by
      conv_rhs => rw [← List.map_id ts]
      exact List.map_inj_left.mpr fun t ht ↦ PbbTlv.single_eq_iff.mpr (hall t ht)
    rw [deserialize_serialize_single h hlength, hmap]

/-- A TLV for two addresses with a value for each. -/
def twoValues : PbbTlv := ⟨1, none, some 0, some 1, true, some [10, 20]⟩

/-- A long value, with a type extension and one index. -/
def oneValue : PbbTlv := ⟨1, some 2, some 3, none, false, some (List.replicate 300 7)⟩

theorem twoValues_wellFormed : twoValues.WellFormed := ⟨by decide, by decide, by decide⟩

theorem oneValue_wellFormed : oneValue.WellFormed := ⟨by decide, by decide, by decide +kernel⟩

theorem addressTlvBlock_roundTrips_iff_one : RoundTrips [oneValue] ∧
    (RoundTrips [oneValue] ↔ ∀ t ∈ [oneValue], t.m_isMultivalue = false) := by
  have hiff : RoundTrips [oneValue] ↔ ∀ t ∈ [oneValue], t.m_isMultivalue = false :=
    addressTlvBlock_roundTrips_iff (List.forall_mem_singleton.mpr oneValue_wellFormed) (by decide +kernel)
  exact ⟨hiff.mpr (List.forall_mem_singleton.mpr rfl), hiff⟩

/-- **The multivalue flag is lost.** -/
theorem not_addressTlvBlock_roundTrips : twoValues.WellFormed ∧ (serialize [twoValues]).length < 2 ^ 16 ∧
    deserialize (serialize [twoValues]) = .ok ([{ twoValues with m_isMultivalue := false }], []) ∧
    ¬ RoundTrips [twoValues] := by
  have hread : deserialize (serialize [twoValues]) =
      .ok ([{ twoValues with m_isMultivalue := false }], []) := by decide +kernel
  refine ⟨twoValues_wellFormed, by decide, hread, ?_⟩
  rintro ⟨-, h⟩
  have hback := h []
  rw [List.append_nil, hread] at hback
  exact absurd hback (by decide)

end PbbTlvBlock

end PacketBB

end Ns3
