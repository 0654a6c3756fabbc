import Ns3.Library.Partial
import Ns3.Network.PacketBB

/-!
# Writing and reading packets of RFC 5444

Every part of a packet is written so that reading it gives the same part and leaves what follows. The
exception is the tail of an address block: the scan of `GetHeadTail` can run past what an earlier pair of
addresses has in common, and then an address gets the tail of another one.
-/

namespace Ns3

namespace PacketBB

open Buffer (Failure Writer readU8 readNtohU16 read readU8_cons readNtohU16_append)

/-! ## Reading -/

section Reading

variable {α : Type} {r : List UInt8 → Except Failure (α × List UInt8)} {w : α → List UInt8}
  {l : List α} {i : List UInt8}

theorem read_append {n : ℕ} {bytes : List UInt8} (h : bytes.length = n) :
    read n (bytes ++ i) = .ok (bytes, i) := by
  have hle : n ≤ (bytes ++ i).length := by
    rw [List.length_append, h]
    exact Nat.le_add_right n _
  rw [Buffer.read, if_pos hle, List.take_left' h, List.drop_left' h]

theorem readIf_true : readIf true r i = (do
    let (a, i) ← r i
    return (some a, i)) := rfl

theorem readIf_false : readIf false r i = .ok (none, i) := rfl

theorem readIf_elim {o : Option α} (h : ∀ a ∈ o, r (w a ++ i) = .ok (a, i)) :
    readIf o.isSome r (o.elim [] w ++ i) = .ok (o, i) := by
  cases o with
  | none => rfl
  | some a =>
    rw [Option.isSome_some, readIf_true, Option.elim_some, h a rfl]
    rfl

theorem readIf_toList {o : Option UInt8} : readIf o.isSome readU8 (o.toList ++ i) = .ok (o, i) := by
  cases o <;> rfl

theorem length_flatMap_dropLast (hw : ∀ a ∈ l, w a ≠ []) (hl : l ≠ []) :
    (l.dropLast.flatMap w).length < (l.flatMap w).length := by
  conv_rhs => rw [← List.dropLast_append_getLast hl, List.flatMap_append, List.length_append,
    List.flatMap_singleton]
  exact Nat.lt_add_of_pos_right (List.length_pos_of_ne_nil (hw _ (List.getLast_mem hl)))

theorem length_le_flatMap (hw : ∀ a ∈ l, w a ≠ []) : l.length ≤ (l.flatMap w).length := by
  have hpos : ∀ n ∈ l.map fun a ↦ (w a).length, 1 ≤ n :=
    List.forall_mem_map.mpr fun a ha ↦ List.length_pos_of_ne_nil (hw a ha)
  have hcard := List.card_nsmul_le_sum _ 1 hpos
  rwa [List.length_map, smul_eq_mul, Nat.mul_one, ← List.length_flatMap] at hcard

theorem length_flatMap_dropLast_cons (a b : α) :
    ((a :: b :: l).dropLast.flatMap w).length = (w a).length + ((b :: l).dropLast.flatMap w).length := by
  rw [List.dropLast_cons_cons, List.flatMap_cons, List.length_append]

theorem readWhile_flatMap {g : α → α} (hr : ∀ a ∈ l, ∀ i, r (w a ++ i) = .ok (g a, i))
    {size c : ℕ} (hgo : l ≠ [] → c + (l.dropLast.flatMap w).length < size)
    (hstop : size ≤ c + (l.flatMap w).length) {fuel : ℕ} (hfuel : l.length < fuel) :
    readWhile r size (c + (l.flatMap w ++ i).length) fuel (l.flatMap w ++ i) = .ok (l.map g, i) := by
  induction l generalizing c fuel with
  | nil =>
    obtain ⟨fuel, rfl⟩ := Nat.exists_eq_succ_of_ne_zero hfuel.ne_bot
    rw [List.flatMap_nil, List.nil_append, readWhile, if_neg]
    · rfl
    · rw [List.flatMap_nil, List.length_nil] at hstop
      omega
  | cons a l ih =>
    obtain ⟨fuel, rfl⟩ := Nat.exists_eq_succ_of_ne_zero hfuel.ne_bot
    have hc : c < size := lt_of_le_of_lt (Nat.le_add_right _ _) (hgo (List.cons_ne_nil _ _))
    rw [List.forall_mem_cons] at hr
    rw [readWhile, if_pos (by omega), List.flatMap_cons, List.append_assoc, hr.1, Except.ok_bind]
    have hfront : c + (w a ++ (l.flatMap w ++ i)).length =
        c + (w a).length + (l.flatMap w ++ i).length := by
      rw [List.length_append, Nat.add_assoc]
    rw [List.flatMap_cons, List.length_append, ← Nat.add_assoc] at hstop
    have hnext : l ≠ [] → c + (w a).length + (l.dropLast.flatMap w).length < size := by
      intro hne
      obtain ⟨b, l, rfl⟩ := List.exists_cons_of_ne_nil hne
      have hlast := hgo (List.cons_ne_nil _ _)
      rwa [length_flatMap_dropLast_cons, ← Nat.add_assoc] at hlast
    dsimp only
    rw [hfront, ih hr.2 hnext hstop (Nat.lt_of_succ_lt_succ hfuel)]
    rfl

theorem readWhile_ne_ok {good : α → Prop} {g : α → α}
    (hr : ∀ a ∈ l, good a → ∀ i, r (w a ++ i) = .ok (g a, i))
    (hbad : ∀ a ∈ l, ¬ good a → ∀ i x, r (w a ++ i) ≠ .ok x) (hex : ∃ a ∈ l, ¬ good a)
    {size c : ℕ} (hgo : l ≠ [] → c + (l.dropLast.flatMap w).length < size) (fuel : ℕ)
    (x : List α × List UInt8) :
    readWhile r size (c + (l.flatMap w ++ i).length) fuel (l.flatMap w ++ i) ≠ .ok x := by
  induction l generalizing c fuel x with
  | nil =>
    obtain ⟨a, ha, -⟩ := hex
    exact absurd ha List.not_mem_nil
  | cons a l ih =>
    cases fuel with
    | zero => exact Except.error_ne_ok
    | succ fuel =>
      have hc : c < size := lt_of_le_of_lt (Nat.le_add_right _ _) (hgo (List.cons_ne_nil _ _))
      rw [List.forall_mem_cons] at hr hbad
      rw [readWhile, if_pos (by omega), List.flatMap_cons, List.append_assoc]
      intro heq
      obtain ⟨⟨a', i'⟩, hfirst, heq⟩ := Except.bind_eq_ok.mp heq
      by_cases ha : good a
      · rw [hr.1 ha, Except.ok_inj] at hfirst
        obtain ⟨-, rfl⟩ := Prod.mk.inj hfirst
        have hfront : c + (w a ++ (l.flatMap w ++ i)).length =
            c + (w a).length + (l.flatMap w ++ i).length := by
          rw [List.length_append, Nat.add_assoc]
        have hex' : ∃ a ∈ l, ¬ good a := by
          obtain ⟨b, hb, hnot⟩ := hex
          rcases List.mem_cons.mp hb with rfl | hb
          · exact absurd ha hnot
          · exact ⟨b, hb, hnot⟩
        have hnext : l ≠ [] → c + (w a).length + (l.dropLast.flatMap w).length < size := by
          intro hne
          obtain ⟨b, l, rfl⟩ := List.exists_cons_of_ne_nil hne
          have hlast := hgo (List.cons_ne_nil _ _)
          rwa [length_flatMap_dropLast_cons, ← Nat.add_assoc] at hlast
        dsimp only at heq
        rw [hfront] at heq
        obtain ⟨y, hrest, -⟩ := Except.bind_eq_ok.mp heq
        exact ih hr.2 hbad.2 hex' hnext fuel y hrest
      · exact hbad.1 ha _ _ hfirst

theorem foldl_size {size : α → UInt32} (h : ∀ a ∈ l, size a = UInt32.ofNat (w a).length) (n : ℕ) :
    l.foldl (fun s a ↦ s + size a) (UInt32.ofNat n) = UInt32.ofNat (n + (l.flatMap w).length) := by
  induction l generalizing n with
  | nil => rfl
  | cons a l ih =>
    rw [List.forall_mem_cons] at h
    rw [List.foldl_cons, h.1, ← UInt32.ofNat_add, ih h.2, List.flatMap_cons, List.length_append,
      Nat.add_assoc]

end Reading

/-! ## TLVs -/

namespace PbbTlv

variable {t : PbbTlv}

/-- There is no index and no multivalue flag. -/
def Plain (t : PbbTlv) : Prop :=
  t.m_indexStart = none ∧ t.m_indexStop = none ∧ t.m_isMultivalue = false

instance (t : PbbTlv) : Decidable t.Plain := inferInstanceAs (Decidable (_ ∧ _ ∧ _))

/-- The length of the value is a number of 16 bits. -/
def Short (t : PbbTlv) : Prop := ∀ value ∈ t.m_value, value.length < 2 ^ 16

instance (t : PbbTlv) : Decidable t.Short :=
  match h : t.m_value with
  | none => .isTrue fun value hv ↦ by rw [h] at hv; exact absurd hv (Option.not_mem_none _)
  | some value => decidable_of_iff (value.length < 2 ^ 16) ⟨
      fun hlt v hv ↦ by rw [h, Option.mem_some] at hv; exact hv ▸ hlt, fun hs ↦ hs value h⟩

theorem serialize_ne_nil (t : PbbTlv) : t.serialize ≠ [] := List.cons_ne_nil _ _

theorem length_serializeValue (value : List UInt8) :
    (serializeValue value).length = (if 255 < value.length then 2 else 1) + value.length := by
  rw [serializeValue, List.length_append]
  split_ifs <;> rfl

theorem getSerializedSize_eq (hp : t.Plain) :
    t.getSerializedSize = UInt32.ofNat t.serialize.length := by
  obtain ⟨m_type, m_typeExt, m_indexStart, m_indexStop, m_isMultivalue, m_value⟩ := t
  obtain ⟨rfl, rfl, rfl⟩ := hp
  rw [getSerializedSize, serialize, List.length_append, List.length_append, List.length_append,
    UInt32.ofNat_add, UInt32.ofNat_add, UInt32.ofNat_add]
  have hvalue : m_value.elim 0 (fun value ↦ (if 255 < value.length then 2 else 1) +
      UInt32.ofNat value.length) = UInt32.ofNat (m_value.elim [] serializeValue).length := by
    cases m_value with
    | none => rfl
    | some value =>
      rw [Option.elim_some, Option.elim_some, length_serializeValue, UInt32.ofNat_add]
      split_ifs <;> rfl
  dsimp only
  rw [hvalue]
  cases m_typeExt <;> rfl

theorem flags_bits : ∀ ext value long : Bool,
    let flags := (if ext then THAS_TYPE_EXT else 0) ||| 0 |||
      if value then THAS_VALUE ||| (if long then THAS_EXT_LEN else 0) ||| 0 else 0
    decide (flags &&& THAS_TYPE_EXT ≠ 0) = ext ∧ decide (flags &&& THAS_SINGLE_INDEX ≠ 0) = false ∧
      decide (flags &&& THAS_MULTI_INDEX ≠ 0) = false ∧ decide (flags &&& THAS_VALUE ≠ 0) = value ∧
      (value → decide (flags &&& THAS_EXT_LEN ≠ 0) = long) := by
  decide

theorem flags_eq (hp : t.Plain) :
    decide (t.flags &&& THAS_TYPE_EXT ≠ 0) = t.m_typeExt.isSome ∧
    decide (t.flags &&& THAS_SINGLE_INDEX ≠ 0) = false ∧
    decide (t.flags &&& THAS_MULTI_INDEX ≠ 0) = false ∧
    decide (t.flags &&& THAS_VALUE ≠ 0) = t.m_value.isSome ∧
    ∀ value ∈ t.m_value, decide (t.flags &&& THAS_EXT_LEN ≠ 0) = decide (255 < value.length) := by
  obtain ⟨m_type, m_typeExt, m_indexStart, m_indexStop, m_isMultivalue, m_value⟩ := t
  obtain ⟨rfl, rfl, rfl⟩ := hp
  cases m_value with
  | none =>
    obtain ⟨hext, hsingle, hmulti, hvalue, -⟩ := flags_bits m_typeExt.isSome false false
    exact ⟨hext, hsingle, hmulti, hvalue, fun value hv ↦ absurd hv (Option.not_mem_none _)⟩
  | some value =>
    have hite : (if 255 < value.length then THAS_EXT_LEN else 0) =
        if decide (255 < value.length) = true then THAS_EXT_LEN else 0 := by
      simp only [decide_eq_true_eq]
    obtain ⟨hext, hsingle, hmulti, hvalue, hlong⟩ :=
      flags_bits m_typeExt.isSome true (decide (255 < value.length))
    rw [flags, valueFlags]
    dsimp only
    rw [Option.elim_some, hite]
    refine ⟨hext, hsingle, hmulti, hvalue, fun v hv ↦ ?_⟩
    rw [Option.mem_some] at hv
    exact hv ▸ hlong rfl

theorem deserializeValue_serializeValue (value i : List UInt8) :
    deserializeValue (decide (255 < value.length)) (serializeValue value ++ i) =
      .ok (value.take (value.length % 2 ^ 16), value.drop (value.length % 2 ^ 16) ++ i) := by
  have hread : readLength (decide (255 < value.length)) (serializeValue value ++ i) =
      .ok (value.length % 2 ^ 16, value ++ i) := by
    rw [serializeValue]
    by_cases hlong : 255 < value.length
    · rw [decide_eq_true hlong, if_pos hlong, List.append_assoc, readLength, if_pos rfl,
        readNtohU16_append, Except.ok_bind]
      dsimp only
      rw [UInt16.toNat_ofNat']
      rfl
    · rw [decide_eq_false hlong, if_neg hlong, List.append_assoc, readLength,
        if_neg Bool.false_ne_true]
      dsimp only [List.cons_append, List.nil_append]
      rw [readU8_cons, Except.ok_bind, Nat.mod_eq_of_lt (by omega)]
      dsimp only
      rw [UInt8.toNat_ofNat', Nat.mod_eq_of_lt (by omega)]
      rfl
  have hle : value.length % 2 ^ 16 ≤ value.length := Nat.mod_le _ _
  rw [deserializeValue, hread, Except.ok_bind]
  dsimp only
  rw [← List.take_append_drop (value.length % 2 ^ 16) value, List.append_assoc,
    List.take_append_drop]
  exact read_append (List.length_take_of_le hle)

/-- **A TLV is read with its value cut off** where the length has been. -/
theorem deserialize_serialize_eq (hp : t.Plain) (i : List UInt8) :
    deserialize (t.serialize ++ i) =
      .ok ({ t with m_value := t.m_value.map fun value ↦ value.take (value.length % 2 ^ 16) },
        (t.m_value.elim [] fun value ↦ value.drop (value.length % 2 ^ 16)) ++ i) := by
  obtain ⟨hext, hsingle, hmulti, hvalue, hlong⟩ := flags_eq hp
  have hread : readIf t.m_value.isSome (deserializeValue (decide (t.flags &&& THAS_EXT_LEN ≠ 0)))
      (t.m_value.elim [] serializeValue ++ i) =
      .ok (t.m_value.map fun value ↦ value.take (value.length % 2 ^ 16),
        (t.m_value.elim [] fun value ↦ value.drop (value.length % 2 ^ 16)) ++ i) := by
    cases hv : t.m_value with
    | none => rfl
    | some value =>
      rw [Option.isSome_some, readIf_true, Option.elim_some, hlong value hv,
        deserializeValue_serializeValue]
      rfl
  rw [deserialize, serialize, List.append_assoc, List.append_assoc, List.append_assoc]
  dsimp only [List.cons_append, List.nil_append]
  rw [readU8_cons, Except.ok_bind, readU8_cons, Except.ok_bind]
  dsimp only
  rw [hext, readIf_toList, Except.ok_bind]
  dsimp only
  rw [hmulti, hsingle, hvalue, serializeIndex]
  obtain ⟨hstart, hstop, hmultivalue⟩ := hp
  rw [hstart]
  dsimp only [List.nil_append]
  rw [Bool.or_false, readIf_false, Except.ok_bind]
  dsimp only
  rw [readIf_false, Except.ok_bind]
  dsimp only
  rw [hread, Except.ok_bind, hstop, hmultivalue]
  rfl

theorem deserialize_serialize (hp : t.Plain) (hs : t.Short) (i : List UInt8) :
    deserialize (t.serialize ++ i) = .ok (t, i) := by
  rw [deserialize_serialize_eq hp]
  obtain ⟨m_type, m_typeExt, m_indexStart, m_indexStop, m_isMultivalue, m_value⟩ := t
  cases m_value with
  | none => rfl
  | some value =>
    have hlt : value.length < 2 ^ 16 := hs value rfl
    dsimp only
    rw [Option.map_some, Option.elim_some, Nat.mod_eq_of_lt hlt, List.take_length, List.drop_length]
    rfl

theorem not_equal_of_deserialize (hp : t.Plain) (hs : ¬ t.Short) {i i' : List UInt8} {t' : PbbTlv}
    (h : deserialize (t.serialize ++ i) = .ok (t', i')) : ¬ t.Equal t' := by
  rw [deserialize_serialize_eq hp, Except.ok_inj] at h
  obtain ⟨rfl, -⟩ := Prod.mk.inj h
  rintro ⟨-, -, hvalue⟩
  refine hs fun value hv ↦ ?_
  rw [Option.mem_def] at hv
  rw [hv, Option.map_some, Option.some_inj] at hvalue
  have hlen := congrArg List.length hvalue
  rw [List.length_take_of_le (Nat.mod_le _ _)] at hlen
  exact hlen ▸ Nat.mod_lt _ (by decide)

theorem equal_refl (t : PbbTlv) : t.Equal t := ⟨rfl, rfl, rfl⟩

end PbbTlv

/-! ## TLV blocks -/

namespace PbbTlvBlock

variable {ts ts' : PbbTlvBlock} {i i' : List UInt8}

/-- The values have lengths of 16 bits, and the last TLV begins before the size that is left of the
block's when it is written in 16 bits. -/
def Fits (ts : PbbTlvBlock) : Prop :=
  (∀ t ∈ ts, t.Short) ∧ (ts ≠ [] → (body ts.dropLast).length < (body ts).length % 2 ^ 16)

instance (ts : PbbTlvBlock) : Decidable (Fits ts) := inferInstanceAs (Decidable (_ ∧ (_ → _)))

theorem serialize_eq (ts : PbbTlvBlock) :
    serialize ts = (Writer.writeHtonU16 (UInt16.ofNat (body ts).length)).bytes ++ body ts := by
  rw [serialize]
  split_ifs with hnil
  · rw [hnil]
    rfl
  · rfl

theorem length_serialize (ts : PbbTlvBlock) : (serialize ts).length = 2 + (body ts).length := by
  rw [serialize_eq, List.length_append]
  rfl

theorem getSerializedSize_eq (hp : ∀ t ∈ ts, t.Plain) :
    getSerializedSize ts = UInt32.ofNat (serialize ts).length := by
  rw [length_serialize]
  exact foldl_size (fun t ht ↦ PbbTlv.getSerializedSize_eq (hp t ht)) 2

theorem length_body_dropLast (hne : ts ≠ []) : (body ts.dropLast).length < (body ts).length :=
  length_flatMap_dropLast (fun t _ ↦ t.serialize_ne_nil) hne

theorem fits_of_length (h : (body ts).length < 2 ^ 16) : Fits ts := by
  refine ⟨fun t ht value hv ↦ ?_, fun hne ↦ ?_⟩
  · have hvalue : value.length ≤ t.serialize.length := by
      rw [PbbTlv.serialize, List.length_append, Option.mem_def.mp hv, Option.elim_some,
        PbbTlv.length_serializeValue]
      omega
    have hle : t.serialize.length ≤ (body ts).length :=
      (List.sublist_flatten_of_mem (List.mem_map_of_mem ht)).length_le
    exact (hvalue.trans hle).trans_lt h
  · rw [Nat.mod_eq_of_lt h]
    exact length_body_dropLast hne

/-- **A block that fits is read as it is.** -/
theorem deserialize_serialize (hp : ∀ t ∈ ts, t.Plain) (hf : Fits ts) (i : List UInt8) :
    deserialize (serialize ts ++ i) = .ok (ts, i) := by
  have hsize : (UInt16.ofNat (body ts).length).toNat = (body ts).length % 2 ^ 16 :=
    UInt16.toNat_ofNat'
  rw [deserialize, serialize_eq, List.append_assoc, readNtohU16_append, Except.ok_bind]
  dsimp only
  rw [hsize]
  by_cases hnil : ts = []
  · rw [hnil]
    rfl
  · have hlast := hf.2 hnil
    rw [if_pos (Nat.zero_lt_of_lt hlast)]
    have hlen : ts.length < (body ts ++ i).length + 1 := by
      rw [List.length_append, Nat.lt_succ_iff]
      exact (length_le_flatMap fun t _ ↦ t.serialize_ne_nil).trans (Nat.le_add_right _ _)
    have hread : readWhile PbbTlv.deserialize ((body ts).length % 2 ^ 16)
        (0 + (body ts ++ i).length) ((body ts ++ i).length + 1) (body ts ++ i) =
        .ok (ts.map id, i) :=
      readWhile_flatMap (fun t ht i ↦ PbbTlv.deserialize_serialize (hp t ht) (hf.1 t ht) i)
        (fun _ ↦ (Nat.zero_add _).trans_lt hlast)
        ((Nat.mod_le _ _).trans_eq (Nat.zero_add _).symm) hlen
    rw [Nat.zero_add, List.map_id] at hread
    exact hread

theorem not_equal_of_readWhile (hp : ∀ t ∈ ts, t.Plain) {size c fuel : ℕ}
    (h : (∃ t ∈ ts, ¬ t.Short) ∨ (ts ≠ [] ∧ size ≤ c + (body ts.dropLast).length))
    (hread : readWhile PbbTlv.deserialize size (c + (body ts ++ i).length) fuel (body ts ++ i) =
      .ok (ts', i')) : ¬ Equal ts ts' := by
  induction ts generalizing c fuel ts' i' with
  | nil =>
    rcases h with ⟨t, ht, -⟩ | ⟨hne, -⟩
    · exact absurd ht List.not_mem_nil
    · exact absurd rfl hne
  | cons t ts ih =>
    rw [List.forall_mem_cons] at hp
    cases fuel with
    | zero => exact absurd hread Except.error_ne_ok
    | succ fuel =>
      rw [readWhile, Nat.add_sub_cancel] at hread
      split_ifs at hread with hc
      · obtain ⟨⟨t', i₁⟩, hfirst, hrest⟩ := Except.bind_eq_ok.mp hread
        obtain ⟨⟨l, i₂⟩, hloop, heq⟩ := Except.bind_eq_ok.mp hrest
        obtain ⟨rfl, -⟩ := Prod.mk.inj (Except.pure_eq_ok.mp heq)
        rw [body, List.flatMap_cons, List.append_assoc] at hfirst
        intro hequal
        obtain ⟨hhead, htail⟩ := List.forall₂_cons.mp hequal
        by_cases hs : t.Short
        · rw [PbbTlv.deserialize_serialize hp.1 hs, Except.ok_inj] at hfirst
          obtain ⟨-, rfl⟩ := Prod.mk.inj hfirst
          have hfront : c + (body (t :: ts) ++ i).length =
              c + t.serialize.length + (body ts ++ i).length := by
            rw [body, List.flatMap_cons, List.append_assoc, List.length_append, ← Nat.add_assoc]
            rfl
          rw [hfront] at hloop
          refine ih hp.2 ?_ hloop htail
          rcases h with ⟨t', ht', hnot⟩ | ⟨-, hsize⟩
          · rcases List.mem_cons.mp ht' with rfl | hmem
            · exact absurd hs hnot
            · exact .inl ⟨t', hmem, hnot⟩
          · cases ts with
            | nil => exact absurd hc (not_lt.mpr hsize)
            | cons b ts =>
              rw [body, length_flatMap_dropLast_cons, ← Nat.add_assoc] at hsize
              exact .inr ⟨List.cons_ne_nil _ _, hsize⟩
        · exact PbbTlv.not_equal_of_deserialize hp.1 hs hfirst hhead
      · obtain ⟨rfl, -⟩ := Prod.mk.inj (Except.ok_inj.mp hread)
        exact fun hequal ↦ nomatch hequal

theorem not_equal_of_deserialize (hp : ∀ t ∈ ts, t.Plain) (hf : ¬ Fits ts)
    (h : deserialize (serialize ts ++ i) = .ok (ts', i')) : ¬ Equal ts ts' := by
  have hsize : (UInt16.ofNat (body ts).length).toNat = (body ts).length % 2 ^ 16 :=
    UInt16.toNat_ofNat'
  have hbad : (∃ t ∈ ts, ¬ t.Short) ∨
      (ts ≠ [] ∧ (body ts).length % 2 ^ 16 ≤ 0 + (body ts.dropLast).length) := by
    rw [Fits, not_and_or] at hf
    rcases hf with hshort | hlast
    · push Not at hshort
      exact .inl hshort
    · rw [Classical.not_imp, not_lt] at hlast
      rw [Nat.zero_add]
      exact .inr hlast
  rw [deserialize, serialize_eq, List.append_assoc, readNtohU16_append, Except.ok_bind] at h
  dsimp only at h
  rw [hsize] at h
  split_ifs at h with hpos
  · rw [← Nat.zero_add (body ts ++ i).length] at h
    exact not_equal_of_readWhile hp hbad h
  · obtain ⟨rfl, -⟩ := Prod.mk.inj (Except.pure_eq_ok.mp h)
    rintro hequal
    rw [Equal, List.forall₂_nil_right_iff] at hequal
    rcases hbad with ⟨t, ht, -⟩ | ⟨hne, -⟩
    · rw [hequal] at ht
      exact List.not_mem_nil ht
    · exact hne hequal

theorem equal_refl (ts : PbbTlvBlock) : Equal ts ts := List.forall₂_same.mpr fun t _ ↦ t.equal_refl

end PbbTlvBlock

/-! ## Head and tail of addresses -/

theorem PbbAddressLength.bytes_pos (f : PbbAddressLength) : 0 < f.bytes := by cases f <;> decide

theorem PbbAddressLength.bytes_lt (f : PbbAddressLength) : f.bytes < 256 := by cases f <;> decide

namespace PbbAddressBlock

variable {f : PbbAddressLength} {l l' : List (List.Vector UInt8 f.bytes)}
  {a y z : List.Vector UInt8 f.bytes} {h t j k n : ℕ}

theorem same_le (n : ℕ) (xs ys : List UInt8) : same n xs ys ≤ n := by
  induction n generalizing xs ys with
  | zero => exact le_rfl
  | succ n ih =>
    match xs, ys with
    | [], _ => exact Nat.zero_le _
    | _ :: _, [] => exact Nat.zero_le _
    | x :: xs, y :: ys =>
      rw [same]
      split_ifs
      · exact Nat.zero_le _
      · exact Nat.succ_le_succ (ih xs ys)

theorem le_same_iff {xs ys : List UInt8} (hlen : xs.length = ys.length) :
    k ≤ same n xs ys ↔ k ≤ n ∧ k ≤ xs.length ∧ xs.take k = ys.take k := by
  induction n generalizing xs ys k with
  | zero =>
    refine ⟨fun hk ↦ ?_, fun hk ↦ hk.1⟩
    rw [Nat.le_zero.mp hk]
    exact ⟨le_rfl, Nat.zero_le _, rfl⟩
  | succ n ih =>
    match xs, ys with
    | [], [] =>
      refine ⟨fun hk ↦ ?_, fun hk ↦ hk.2.1⟩
      rw [Nat.le_zero.mp hk]
      exact ⟨Nat.zero_le _, le_rfl, rfl⟩
    | [], _ :: _ => exact absurd hlen (Nat.succ_ne_zero _).symm
    | _ :: _, [] => exact absurd hlen (Nat.succ_ne_zero _)
    | x :: xs, y :: ys =>
      cases k with
      | zero => exact iff_of_true (Nat.zero_le _) ⟨Nat.zero_le _, Nat.zero_le _, rfl⟩
      | succ k =>
        rw [same, List.take_succ_cons, List.take_succ_cons, List.cons.injEq, List.length_cons]
        split_ifs with hne
        · exact iff_of_false (Nat.not_succ_le_zero k) fun hk ↦ hne hk.2.2.1
        · rw [Nat.add_le_add_iff_right, Nat.add_le_add_iff_right, Nat.add_le_add_iff_right,
            ih (Nat.succ.inj hlen), and_iff_right (not_not.mp hne)]

/-- All addresses have the first `k` bytes in common. -/
def SharesHead (k : ℕ) (l : List (List.Vector UInt8 f.bytes)) : Prop :=
  ∀ a ∈ l, ∀ b ∈ l, a.toList.take k = b.toList.take k

/-- All addresses have the last `k` bytes in common. -/
def SharesTail (k : ℕ) (l : List (List.Vector UInt8 f.bytes)) : Prop :=
  ∀ a ∈ l, ∀ b ∈ l, a.toList.drop (f.bytes - k) = b.toList.drop (f.bytes - k)

instance (k : ℕ) (l : List (List.Vector UInt8 f.bytes)) : Decidable (SharesHead k l) :=
  decidable_of_iff (l.all fun a ↦ l.all fun b ↦ a.toList.take k = b.toList.take k) <| by
    simp only [List.all_eq_true, decide_eq_true_eq]
    exact Iff.rfl

instance (k : ℕ) (l : List (List.Vector UInt8 f.bytes)) : Decidable (SharesTail k l) :=
  decidable_of_iff (l.all fun a ↦ l.all fun b ↦
    a.toList.drop (f.bytes - k) = b.toList.drop (f.bytes - k)) <| by
    simp only [List.all_eq_true, decide_eq_true_eq]
    exact Iff.rfl

theorem SharesHead.mono (hs : SharesHead k l) (hjk : j ≤ k) (hl : ∀ a ∈ l', a ∈ l) :
    SharesHead j l' := by
  intro a ha b hb
  have heq := congrArg (List.take j) (hs a (hl a ha) b (hl b hb))
  rwa [List.take_take, List.take_take, min_eq_left hjk] at heq

theorem SharesTail.mono (hs : SharesTail k l) (hjk : j ≤ k) (hl : ∀ a ∈ l', a ∈ l) :
    SharesTail j l' := by
  intro a ha b hb
  have heq := congrArg (List.drop (f.bytes - j - (f.bytes - k))) (hs a (hl a ha) b (hl b hb))
  rwa [List.drop_drop, List.drop_drop, Nat.add_sub_cancel' (by omega)] at heq

theorem take_reverse_iff (a b : List.Vector UInt8 f.bytes) :
    a.toList.reverse.take k = b.toList.reverse.take k ↔
      a.toList.drop (f.bytes - k) = b.toList.drop (f.bytes - k) := by
  rw [List.take_reverse, List.take_reverse, List.reverse_inj, List.Vector.toList_length,
    List.Vector.toList_length]

theorem le_same_reverse_iff (a b : List.Vector UInt8 f.bytes) :
    k ≤ same n a.toList.reverse b.toList.reverse ↔
      k ≤ n ∧ k ≤ f.bytes ∧ a.toList.drop (f.bytes - k) = b.toList.drop (f.bytes - k) := by
  rw [le_same_iff (by simp), take_reverse_iff, List.length_reverse, List.Vector.toList_length]

/-- What holds of the lengths after some addresses: the head is exact, and the tail is not too short. -/
structure Scanned (l : List (List.Vector UInt8 f.bytes)) (h t : ℕ)
    (buflast : List.Vector UInt8 f.bytes) : Prop where
  last_mem : buflast ∈ l
  le : h ≤ f.bytes
  heads : SharesHead h l
  full : h = f.bytes → t = f.bytes
  differs : h < f.bytes → ¬ SharesHead (h + 1) l
  bound : h < f.bytes → h + t < f.bytes
  tails : ∀ k ≤ f.bytes, SharesTail k l → k ≤ t

/-- The length of the tail after another address. -/
def nextTail (h t : ℕ) (y z : List.Vector UInt8 f.bytes) : ℕ :=
  if 0 < f.bytes - h then same (min (t + 1) (f.bytes - 1 - h)) y.toList.reverse z.toList.reverse else t

theorem sharesHead_succ (hh : SharesHead h l) (ht : SharesTail k l) (hle : f.bytes ≤ h + k) :
    SharesHead (h + 1) l := by
  intro a ha b hb
  have hdrop := ht.mono (j := f.bytes - h) (by omega) (fun _ ↦ id) a ha b hb
  by_cases hN : h ≤ f.bytes
  · rw [Nat.sub_sub_self hN] at hdrop
    have heq : a.toList = b.toList := by
      rw [← List.take_append_drop h a.toList, ← List.take_append_drop h b.toList, hh a ha b hb, hdrop]
    rw [heq]
  · have htake := hh a ha b hb
    rw [List.take_of_length_le (by simp; omega), List.take_of_length_le (by simp; omega)] at htake
    rw [htake]

theorem Scanned.step (hs : Scanned l h t y) (z : List.Vector UInt8 f.bytes) :
    Scanned (l ++ [z]) (same h y.toList z.toList)
      (nextTail (same h y.toList z.toList) t y z) z := by
  obtain ⟨hmem, hle, hheads, hfull, hdiffers, hbound, htails⟩ := hs
  have hpre : ∀ a ∈ l, a ∈ l ++ [z] := fun a ha ↦ List.mem_append_left _ ha
  have hz : z ∈ l ++ [z] := List.mem_append_right _ (List.mem_singleton_self z)
  have hsame := same_le h y.toList z.toList
  have hiff : ∀ k, k ≤ same h y.toList z.toList ↔
      k ≤ h ∧ k ≤ f.bytes ∧ y.toList.take k = z.toList.take k := fun k ↦ by
    rw [le_same_iff (by simp), List.Vector.toList_length]
  have hnew : SharesHead (same h y.toList z.toList) (l ++ [z]) := by
    have hy : ∀ a ∈ l ++ [z], a.toList.take (same h y.toList z.toList) =
        y.toList.take (same h y.toList z.toList) := by
      intro a ha
      rcases List.mem_append.mp ha with ha | ha
      · exact hheads.mono hsame (fun _ ↦ id) a ha y hmem
      · rw [List.mem_singleton.mp ha]
        exact ((hiff _).mp le_rfl).2.2.symm
    exact fun a ha b hb ↦ (hy a ha).trans (hy b hb).symm
  have hnot : same h y.toList z.toList < f.bytes →
      ¬ SharesHead (same h y.toList z.toList + 1) (l ++ [z]) := by
    intro hlt hshares
    rcases hsame.eq_or_lt with heq | hless
    · rw [heq] at hlt hshares
      exact hdiffers hlt (hshares.mono le_rfl hpre)
    · have htake := hshares y (hpre y hmem) z hz
      exact absurd ((hiff _).mpr ⟨hless, hlt, htake⟩) (Nat.not_succ_le_self _)
  refine ⟨hz, hsame.trans hle, hnew, fun heq ↦ ?_, hnot, fun hlt ↦ ?_, fun k hk hshares ↦ ?_⟩
  · rw [nextTail, if_neg (by omega)]
    exact hfull (by omega)
  · have hle' := same_le (min (t + 1) (f.bytes - 1 - same h y.toList z.toList)) y.toList.reverse
      z.toList.reverse
    rw [nextTail, if_pos (Nat.sub_pos_of_lt hlt)]
    omega
  · have hold := htails k hk (hshares.mono le_rfl hpre)
    rw [nextTail]
    split_ifs with hpos
    · have hbehind : same h y.toList z.toList + k < f.bytes := by
        by_contra hge
        exact hnot (by omega) (sharesHead_succ hnew hshares (not_lt.mp hge))
      rw [le_same_reverse_iff]
      exact ⟨by omega, hk, hshares y (hpre y hmem) z hz⟩
    · exact hold

theorem headTailLoop_cons (hle : h ≤ f.bytes) (bufcur : List.Vector UInt8 f.bytes) :
    headTailLoop h t y bufcur (z :: l) = headTailLoop (same h y.toList z.toList)
      (nextTail (same h y.toList z.toList) t y z) z y l := by
  rw [headTailLoop, nextTail]
  by_cases hpos : 0 < f.bytes - same h y.toList z.toList
  · rw [if_pos hpos, if_pos hpos]
  · have hN := f.bytes_pos
    rw [if_neg hpos, if_neg hpos, if_neg (by omega)]

/-- **The loop up to the last address.** -/
theorem headTailLoop_concat (hs : Scanned l' h t y) (bufcur : List.Vector UInt8 f.bytes) :
    ∃ h₁ t₁ bufcur', Scanned (l' ++ l) h₁ t₁ ((y :: l).getLast (List.cons_ne_nil _ _)) ∧
      headTailLoop h t y bufcur (l ++ [z]) =
        headTailLoop h₁ t₁ ((y :: l).getLast (List.cons_ne_nil _ _)) bufcur' [z] := by
  induction l generalizing l' h t y bufcur with
  | nil => exact ⟨h, t, bufcur, by rwa [List.append_nil], rfl⟩
  | cons a l ih =>
    obtain ⟨h₁, t₁, bufcur', hscanned, hloop⟩ := ih (hs.step a) y
    refine ⟨h₁, t₁, bufcur', ?_, ?_⟩
    · rw [List.append_assoc] at hscanned
      exact hscanned
    · rw [List.cons_append, headTailLoop_cons hs.le, hloop]
      rfl

/-- What the last two addresses have in common at the end, behind the byte at which the addresses begin
to differ, all of them have in common. -/
def TailFits (l : List (List.Vector UInt8 f.bytes)) : Prop :=
  ∀ k ≤ f.bytes, SharesTail k (l.reverse.take 2) → ¬ SharesHead (f.bytes - k) l → SharesTail k l

instance (l : List (List.Vector UInt8 f.bytes)) : Decidable (TailFits l) :=
  inferInstanceAs (Decidable (∀ k ≤ f.bytes, _ → _ → _))

/-- **What `GetHeadTail` finds**: everything, if the addresses are all the same; otherwise the head, and
the tail if and only if it fits. -/
theorem getHeadTail_spec (l : List (List.Vector UInt8 f.bytes)) (y z : List.Vector UInt8 f.bytes) :
    ∃ h t, getHeadTail (l ++ [y, z]) = (y.toList.take h, y.toList.drop (f.bytes - t)) ∧
      (SharesHead f.bytes (l ++ [y, z]) ∧ h = f.bytes ∧ t = f.bytes ∨
        ¬ SharesHead f.bytes (l ++ [y, z]) ∧ h + t < f.bytes ∧ SharesHead h (l ++ [y, z]) ∧
          (SharesTail t (l ++ [y, z]) ↔ TailFits (l ++ [y, z]))) := by
  obtain ⟨first, rest, hfirst⟩ := List.exists_cons_of_ne_nil (List.append_ne_nil_of_right_ne_nil l
    (List.cons_ne_nil y [z]))
  have hconcat : first :: rest = (l ++ [y]) ++ [z] := by
    rw [← hfirst, List.append_assoc]
    rfl
  have hinit : Scanned [first] f.bytes f.bytes first := by
    refine ⟨List.mem_singleton_self first, le_rfl, ?_, fun _ ↦ rfl, fun hlt ↦ absurd hlt (lt_irrefl _),
      fun hlt ↦ absurd hlt (lt_irrefl _), fun k hk _ ↦ hk⟩
    intro a ha b hb
    rw [List.mem_singleton.mp ha, List.mem_singleton.mp hb]
  obtain ⟨h₁, t₁, bufcur, hscanned, hloop⟩ :=
    headTailLoop_concat (l := l ++ [y]) (z := z) hinit first
  have hlast : (first :: (l ++ [y])).getLast (List.cons_ne_nil _ _) = y := by
    rw [List.getLast_cons (by simp), List.getLast_append_singleton]
  rw [hlast] at hscanned hloop
  rw [headTailLoop_cons hscanned.le, headTailLoop] at hloop
  have hstep := hscanned.step z
  -- the first address is scanned twice
  have hsub : ∀ a ∈ [first] ++ (l ++ [y]) ++ [z], a ∈ l ++ [y, z] := by
    intro a ha
    rw [hfirst]
    rw [List.append_assoc, ← hconcat] at ha
    rcases List.mem_append.mp ha with ha | ha
    · exact List.mem_singleton.mp ha ▸ List.mem_cons_self
    · exact ha
  have hsup : ∀ a ∈ l ++ [y, z], a ∈ [first] ++ (l ++ [y]) ++ [z] := by
    intro a ha
    rw [hfirst, hconcat] at ha
    rw [List.append_assoc]
    exact List.mem_append_right _ ha
  have hresult : getHeadTail (l ++ [y, z]) = (y.toList.take (same h₁ y.toList z.toList),
      y.toList.drop (f.bytes - nextTail (same h₁ y.toList z.toList) t₁ y z)) := by
    rw [hfirst, getHeadTail, hconcat, hloop]
  refine ⟨_, _, hresult, ?_⟩
  rcases hstep.le.eq_or_lt with heq | hlt
  · exact .inl ⟨hstep.heads.mono heq.ge hsup, heq, hstep.full heq⟩
  · refine .inr ⟨fun hall ↦ hstep.differs hlt (hall.mono hlt hsub), hstep.bound hlt,
      hstep.heads.mono le_rfl hsup, ?_⟩
    have htwo : ∀ k, SharesTail k ((l ++ [y, z]).reverse.take 2) ↔
        y.toList.drop (f.bytes - k) = z.toList.drop (f.bytes - k) := by
      intro k
      rw [List.reverse_append]
      change SharesTail k [z, y] ↔ _
      refine ⟨fun hpair ↦ hpair y (by simp) z (by simp), fun heq a ha b hb ↦ ?_⟩
      rw [List.mem_pair] at ha hb
      rcases ha with rfl | rfl <;> rcases hb with rfl | rfl <;> simp [heq]
    have hiff : ∀ k, k ≤ nextTail (same h₁ y.toList z.toList) t₁ y z ↔
        k ≤ min (t₁ + 1) (f.bytes - 1 - same h₁ y.toList z.toList) ∧ k ≤ f.bytes ∧
          y.toList.drop (f.bytes - k) = z.toList.drop (f.bytes - k) := by
      intro k
      rw [nextTail, if_pos (Nat.sub_pos_of_lt hlt), le_same_reverse_iff]
    obtain ⟨hmin, hbytes, hshares⟩ := (hiff _).mp le_rfl
    constructor
    · intro htail k hk hpair hhead
      have hold := hscanned.tails _ hbytes (htail.mono le_rfl fun a ha ↦
        hsub a (List.mem_append_left _ ha))
      have hbehind : k ≤ f.bytes - 1 - same h₁ y.toList z.toList := by
        by_contra hgt
        exact hhead ((hstep.heads.mono le_rfl hsup).mono (by omega) fun _ ↦ id)
      refine htail.mono ((hiff k).mpr ⟨le_min ?_ hbehind, hk, (htwo k).mp hpair⟩) fun _ ↦ id
      -- otherwise the scan would have been one byte longer
      by_contra hgt
      have hmore := (hiff (t₁ + 1)).mpr ⟨le_min le_rfl (by omega), by omega,
        ((htwo _).mp ((show SharesTail k _ from hpair).mono (by omega) fun _ ↦ id))⟩
      omega
    · intro hfits
      refine hfits _ hbytes ((htwo _).mpr hshares) fun hhead ↦ ?_
      have hbound := hstep.bound hlt
      exact hstep.differs hlt (hhead.mono (by omega) hsub)

end PbbAddressBlock

/-! ## Address blocks -/

namespace PbbAddressBlock

variable {f : PbbAddressLength} {b : PbbAddressBlock f} {head tail i : List UInt8}

/-- The head as it is written. -/
def headBytes (head : List UInt8) : List UInt8 :=
  if 0 < head.length then UInt8.ofNat head.length :: head else []

/-- The tail as it is written. -/
def tailBytes (tail : List UInt8) : List UInt8 :=
  if 0 < tail.length then
    if hasZeroTail tail then [UInt8.ofNat tail.length] else UInt8.ofNat tail.length :: tail
  else []

/-- The flags of head and tail. -/
def headTailFlags (head tail : List UInt8) : UInt8 :=
  (if 0 < head.length then AHAS_HEAD else 0) |||
    if 0 < tail.length then if hasZeroTail tail then AHAS_ZERO_TAIL else AHAS_FULL_TAIL else 0

/-- The addresses without head and tail. -/
def midBytes (head tail : List UInt8) (addresses : List (List.Vector UInt8 f.bytes)) : List UInt8 :=
  addresses.flatMap fun mid ↦ (mid.toList.drop head.length).take (f.bytes - head.length - tail.length)

theorem serializeAddresses_of_two (htwo : 2 ≤ b.m_addressList.length)
    (hget : getHeadTail b.m_addressList = (head, tail)) : b.serializeAddresses =
      (headTailFlags head tail ||| b.getPrefixFlags, headBytes head ++ tailBytes tail ++
        (if head.length + tail.length < f.bytes then midBytes head tail b.m_addressList else []) ++
        b.m_prefixList) := by
  obtain ⟨m_addressList, m_prefixList, m_addressTlvList⟩ := b
  match m_addressList with
  | [] => exact absurd htwo (Nat.not_succ_le_zero 1)
  | [_] => exact absurd htwo (Nat.not_succ_le_self 1)
  | a₀ :: a₁ :: rest =>
    rw [serializeAddresses]
    dsimp only at hget ⊢
    rw [hget, headTailFlags, headBytes, tailBytes, midBytes]
    dsimp only
    split_ifs <;> simp [UInt8.or_zero, UInt8.zero_or]

theorem length_serialize_of_two (htwo : 2 ≤ b.m_addressList.length)
    (hget : getHeadTail b.m_addressList = (head, tail)) (hlt : head.length + tail.length < f.bytes) :
    b.getSerializedSize = 2 + UInt32.ofNat (headBytes head).length +
      UInt32.ofNat (tailBytes tail).length +
      UInt32.ofNat ((f.bytes - head.length - tail.length) * b.m_addressList.length) +
      UInt32.ofNat b.m_prefixList.length + PbbTlvBlock.getSerializedSize b.m_addressTlvList := by
  have hmid : UInt32.ofNat f.bytes - UInt32.ofNat head.length - UInt32.ofNat tail.length =
      UInt32.ofNat (f.bytes - head.length - tail.length) := by
    rw [UInt32.ofNat_sub (by omega), UInt32.ofNat_sub (by omega)]
  obtain ⟨m_addressList, m_prefixList, m_addressTlvList⟩ := b
  match m_addressList with
  | [] => exact absurd htwo (Nat.not_succ_le_zero 1)
  | [_] => exact absurd htwo (Nat.not_succ_le_self 1)
  | a₀ :: a₁ :: rest =>
    rw [getSerializedSize]
    dsimp only at hget ⊢
    rw [hget, UInt32.ofNat_mul, ← hmid, headBytes, tailBytes]
    dsimp only
    split_ifs <;> simp only [List.length_cons, List.length_nil, UInt32.ofNat_add] <;> grind

theorem length_midBytes (hle : head.length + tail.length ≤ f.bytes)
    (l : List (List.Vector UInt8 f.bytes)) :
    (midBytes head tail l).length = (f.bytes - head.length - tail.length) * l.length := by
  induction l with
  | nil => rfl
  | cons a l ih =>
    have hlen : ((a.toList.drop head.length).take (f.bytes - head.length - tail.length)).length =
        f.bytes - head.length - tail.length := by
      rw [List.length_take, List.length_drop, List.Vector.toList_length]
      omega
    rw [midBytes, List.flatMap_cons, List.length_append, hlen, ← midBytes, ih, List.length_cons,
      Nat.mul_succ, Nat.add_comm]

theorem flags_bits : ∀ h t z : Bool, ∀ p ∈ [0, AHAS_SINGLE_PRE_LEN, AHAS_MULTI_PRE_LEN],
    let flags := ((if h then AHAS_HEAD else 0) |||
      if t then if z then AHAS_ZERO_TAIL else AHAS_FULL_TAIL else 0) ||| p
    decide (flags &&& AHAS_HEAD ≠ 0) = h ∧
      decide ((flags &&& AHAS_FULL_TAIL) ^^^ (flags &&& AHAS_ZERO_TAIL) ≠ 0) = t ∧
      (t → decide (flags &&& AHAS_FULL_TAIL ≠ 0) = !z) ∧
      flags &&& AHAS_SINGLE_PRE_LEN = p &&& AHAS_SINGLE_PRE_LEN ∧
      flags &&& AHAS_MULTI_PRE_LEN = p &&& AHAS_MULTI_PRE_LEN := by
  decide +kernel

theorem toNat_ofNat_of_le {n : ℕ} (hle : n ≤ f.bytes) : (UInt8.ofNat n).toNat = n := by
  rw [UInt8.toNat_ofNat', Nat.mod_eq_of_lt (hle.trans_lt f.bytes_lt)]

theorem readHead_headBytes (hle : head.length ≤ f.bytes) (i : List UInt8) :
    (readIf (decide (0 < head.length)) (readHead f) (headBytes head ++ i)) =
      .ok (if 0 < head.length then some head else none, i) := by
  rw [headBytes]
  split_ifs with hpos
  · rw [decide_eq_true hpos, readIf_true, List.cons_append, readHead, readU8_cons, Except.ok_bind]
    dsimp only
    rw [toNat_ofNat_of_le hle, if_neg (not_lt.mpr hle), read_append rfl]
    rfl
  · rw [decide_eq_false hpos]
    rfl

theorem readTail_tailBytes (hle : tail.length ≤ f.bytes) {fullTail : Bool}
    (hfull : 0 < tail.length → fullTail = !hasZeroTail tail) (i : List UInt8) :
    (readIf (decide (0 < tail.length)) (readTail f fullTail) (tailBytes tail ++ i)) =
      .ok (if 0 < tail.length then some tail else none, i) := by
  rw [tailBytes]
  by_cases hpos : 0 < tail.length
  · rw [if_pos hpos, if_pos hpos, decide_eq_true hpos, readIf_true, readTail, hfull hpos]
    cases hzero : hasZeroTail tail with
    | true =>
      have hreplicate : List.replicate tail.length 0 = tail := by
        rw [hasZeroTail, List.all_eq_true] at hzero
        exact (List.eq_replicate_iff.mpr ⟨rfl, fun x hx ↦ of_decide_eq_true (hzero x hx)⟩).symm
      rw [if_pos rfl, List.cons_append, readU8_cons, Except.ok_bind]
      dsimp only
      rw [toNat_ofNat_of_le hle, if_neg (by decide), hreplicate]
      rfl
    | false =>
      rw [if_neg Bool.false_ne_true, List.cons_append, readU8_cons, Except.ok_bind]
      dsimp only
      rw [toNat_ofNat_of_le hle, if_pos Bool.not_false, if_neg (not_lt.mpr hle), read_append rfl]
      rfl
  · rw [if_neg hpos, if_neg hpos, decide_eq_false hpos]
    rfl

/-- An address with another tail. -/
def withTail (tail : List UInt8) (a : List.Vector UInt8 f.bytes) : List.Vector UInt8 f.bytes :=
  if h : tail.length ≤ f.bytes then
    ⟨a.toList.take (f.bytes - tail.length) ++ tail, by
      rw [List.length_append, List.length_take, List.Vector.toList_length]
      omega⟩
  else a

theorem toList_withTail (hle : tail.length ≤ f.bytes) (a : List.Vector UInt8 f.bytes) :
    (withTail tail a).toList = a.toList.take (f.bytes - tail.length) ++ tail := by
  exact congrArg List.Vector.toList (dif_pos hle)

theorem deserializeAddress_toList (a : List.Vector UInt8 f.bytes) :
    deserializeAddress a.toList = .ok a := dif_pos a.toList_length

/-- **The addresses are read with the tail that has been written.** -/
theorem readAddresses_midBytes (hle : head.length + tail.length ≤ f.bytes)
    {l : List (List.Vector UInt8 f.bytes)} (hl : ∀ a ∈ l, a.toList.take head.length = head)
    (i : List UInt8) : readAddresses head tail l.length (midBytes head tail l ++ i) =
      .ok (l.map (withTail tail), i) := by
  induction l with
  | nil => rfl
  | cons a l ih =>
    rw [List.forall_mem_cons] at hl
    have hlen : ((a.toList.drop head.length).take (f.bytes - head.length - tail.length)).length =
        f.bytes - head.length - tail.length := by
      rw [List.length_take, List.length_drop, List.Vector.toList_length]
      omega
    have haddress : head ++ (a.toList.drop head.length).take (f.bytes - head.length - tail.length) ++
        tail = (withTail tail a).toList := by
      have hsum : f.bytes - tail.length = head.length + (f.bytes - head.length - tail.length) := by
        omega
      rw [toList_withTail (by omega), hsum, List.take_add, hl.1]
    rw [List.length_cons, readAddresses, if_neg (not_lt.mpr hle), midBytes, List.flatMap_cons,
      List.append_assoc, ← midBytes]
    dsimp only
    rw [read_append hlen, Except.ok_bind]
    dsimp only
    rw [haddress, deserializeAddress_toList, Except.ok_bind, ih hl.2]
    rfl

theorem getPrefixFlags_mem (b : PbbAddressBlock f) :
    b.getPrefixFlags ∈ [0, AHAS_SINGLE_PRE_LEN, AHAS_MULTI_PRE_LEN] := by
  rw [getPrefixFlags]
  split <;> decide

theorem readPrefixes_append {flags : UInt8} {n : ℕ} (hn : 2 ≤ n)
    (hlen : b.m_prefixList.length = 0 ∨ b.m_prefixList.length = 1 ∨ b.m_prefixList.length = n)
    (hsingle : flags &&& AHAS_SINGLE_PRE_LEN = b.getPrefixFlags &&& AHAS_SINGLE_PRE_LEN)
    (hmulti : flags &&& AHAS_MULTI_PRE_LEN = b.getPrefixFlags &&& AHAS_MULTI_PRE_LEN)
    (i : List UInt8) : readPrefixes flags n (b.m_prefixList ++ i) = .ok (b.m_prefixList, i) := by
  rw [readPrefixes, hsingle, hmulti, getPrefixFlags]
  rcases hlen with hlen | hlen | hlen
  · rw [hlen, List.length_eq_zero_iff.mp hlen]
    rfl
  · rw [hlen]
    exact read_append hlen
  · obtain ⟨m, rfl⟩ := Nat.exists_eq_add_of_le' hn
    rw [hlen]
    change (if AHAS_MULTI_PRE_LEN &&& AHAS_SINGLE_PRE_LEN ≠ 0 then _
      else if AHAS_MULTI_PRE_LEN &&& AHAS_MULTI_PRE_LEN ≠ 0 then _ else _) = _
    rw [if_neg (by decide), if_pos (by decide)]
    exact read_append hlen

/-- A block as the sender makes it: 1 to 255 addresses, no prefix length, one, or one for each address, and
plain TLVs. -/
structure Valid (b : PbbAddressBlock f) : Prop where
  pos : 0 < b.m_addressList.length
  lt : b.m_addressList.length < 256
  prefixes : b.m_prefixList.length = 0 ∨ b.m_prefixList.length = 1 ∨
    b.m_prefixList.length = b.m_addressList.length
  plain : ∀ t ∈ b.m_addressTlvList, t.Plain

/-- The addresses are not all the same, and the tail fits; this is about blocks of two addresses and
more. -/
def Compressible (b : PbbAddressBlock f) : Prop :=
  2 ≤ b.m_addressList.length →
    ¬ SharesHead f.bytes b.m_addressList ∧ TailFits b.m_addressList

instance (b : PbbAddressBlock f) : Decidable b.Compressible :=
  inferInstanceAs (Decidable (_ → _ ∧ _))

theorem flags_eq (b : PbbAddressBlock f) (head tail : List UInt8) :
    let flags := headTailFlags head tail ||| b.getPrefixFlags
    decide (flags &&& AHAS_HEAD ≠ 0) = decide (0 < head.length) ∧
      decide ((flags &&& AHAS_FULL_TAIL) ^^^ (flags &&& AHAS_ZERO_TAIL) ≠ 0) =
        decide (0 < tail.length) ∧
      (0 < tail.length → decide (flags &&& AHAS_FULL_TAIL ≠ 0) = !hasZeroTail tail) ∧
      flags &&& AHAS_SINGLE_PRE_LEN = b.getPrefixFlags &&& AHAS_SINGLE_PRE_LEN ∧
      flags &&& AHAS_MULTI_PRE_LEN = b.getPrefixFlags &&& AHAS_MULTI_PRE_LEN := by
  have hflags : headTailFlags head tail = (if decide (0 < head.length) = true then AHAS_HEAD else 0) |||
      if decide (0 < tail.length) = true then
        if hasZeroTail tail then AHAS_ZERO_TAIL else AHAS_FULL_TAIL
      else 0 := by
    rw [headTailFlags]
    simp only [decide_eq_true_eq]
  obtain ⟨hhead, htail, hfull, hprefix⟩ := flags_bits (decide (0 < head.length))
    (decide (0 < tail.length)) (hasZeroTail tail) b.getPrefixFlags b.getPrefixFlags_mem
  rw [hflags]
  exact ⟨hhead, htail, fun hpos ↦ hfull (decide_eq_true hpos), hprefix⟩

theorem getD_ite (bytes : List UInt8) :
    (if 0 < bytes.length then some bytes else none).getD [] = bytes := by
  split_ifs with hpos
  · rfl
  · exact (List.length_eq_zero_iff.mp (Nat.eq_zero_of_not_pos hpos)).symm

theorem deserialize_serialize_of_two (hv : b.Valid) (htwo : 2 ≤ b.m_addressList.length)
    (hget : getHeadTail b.m_addressList = (head, tail)) (hhead : head.length ≤ f.bytes)
    (htail : tail.length ≤ f.bytes) (i : List UInt8) :
    (deserialize (b.serialize ++ i) : Except Failure (PbbAddressBlock f × List UInt8)) = (do
      let (m_addressList, i) ← readAddresses (f := f) head tail b.m_addressList.length
        ((if head.length + tail.length < f.bytes then midBytes head tail b.m_addressList else []) ++
          (b.m_prefixList ++ (PbbTlvBlock.serialize b.m_addressTlvList ++ i)))
      let (m_prefixList, i) ← readPrefixes (headTailFlags head tail ||| b.getPrefixFlags)
        b.m_addressList.length i
      let (m_addressTlvList, i) ← PbbTlvBlock.deserialize i
      return (⟨m_addressList, m_prefixList, m_addressTlvList⟩, i)) := by
  have hnum : (UInt8.ofNat b.m_addressList.length).toNat = b.m_addressList.length := by
    rw [UInt8.toNat_ofNat', Nat.mod_eq_of_lt hv.lt]
  obtain ⟨hhasHead, hhasTail, hfull, -⟩ := b.flags_eq head tail
  rw [deserialize, serialize, serializeAddresses_of_two htwo hget]
  simp only [List.append_assoc, List.cons_append, List.nil_append]
  rw [readU8_cons, Except.ok_bind, readU8_cons, Except.ok_bind]
  dsimp only
  rw [hnum, if_pos hv.pos, hhasHead, readHead_headBytes hhead, Except.ok_bind]
  dsimp only
  rw [hhasTail, readTail_tailBytes htail hfull, Except.ok_bind]
  dsimp only
  rw [getD_ite, getD_ite]

theorem exists_append_pair {α : Type} {l : List α} (htwo : 2 ≤ l.length) :
    ∃ l' y z, l = l' ++ [y, z] := by
  rcases List.eq_nil_or_concat' l with rfl | ⟨l₁, z, rfl⟩
  · exact absurd htwo (Nat.not_succ_le_zero 1)
  rcases List.eq_nil_or_concat' l₁ with rfl | ⟨l', y, rfl⟩
  · exact absurd htwo (Nat.not_succ_le_self 1)
  · exact ⟨l', y, z, by rw [List.append_assoc]; rfl⟩

theorem withTail_eq_self_iff (hle : tail.length ≤ f.bytes) (a : List.Vector UInt8 f.bytes) :
    withTail tail a = a ↔ a.toList.drop (f.bytes - tail.length) = tail := by
  rw [← List.Vector.toList_injective.eq_iff, toList_withTail hle]
  have hsplit := List.take_append_drop (f.bytes - tail.length) a.toList
  constructor
  · intro heq
    exact (List.append_cancel_left (heq.trans hsplit.symm)).symm
  · intro heq
    rw [heq] at hsplit
    exact hsplit

/-- **A block is read with the tail of its last address but one.** -/
theorem exists_deserialize (hv : b.Valid) (hf : PbbTlvBlock.Fits b.m_addressTlvList)
    (htwo : 2 ≤ b.m_addressList.length) (hdiffer : ¬ SharesHead f.bytes b.m_addressList) :
    ∃ tail, (getHeadTail b.m_addressList).2 = tail ∧ (∀ i, deserialize (b.serialize ++ i) =
        .ok ({ b with m_addressList := b.m_addressList.map (withTail tail) }, i)) ∧
      (b.m_addressList.map (withTail tail) = b.m_addressList ↔ TailFits b.m_addressList) ∧
      b.getSerializedSize = UInt32.ofNat b.serialize.length := by
  obtain ⟨l, y, z, heq⟩ := exists_append_pair htwo
  obtain ⟨h, t, hget, hcases⟩ := getHeadTail_spec l y z
  rw [← heq] at hget hcases
  rcases hcases with ⟨hsame, -⟩ | ⟨-, hbound, hshares, hfits⟩
  · exact absurd hsame hdiffer
  have hhead : (y.toList.take h).length = h := by
    rw [List.length_take, List.Vector.toList_length]
    omega
  have htail : (y.toList.drop (f.bytes - t)).length = t := by
    rw [List.length_drop, List.Vector.toList_length]
    omega
  have hy : y ∈ b.m_addressList := by
    rw [heq]
    simp
  have hlt : (y.toList.take h).length + (y.toList.drop (f.bytes - t)).length < f.bytes := by
    rw [hhead, htail]
    exact hbound
  have hheads : ∀ a ∈ b.m_addressList,
      a.toList.take (y.toList.take h).length = y.toList.take h := by
    rw [hhead]
    exact fun a ha ↦ hshares a ha y hy
  refine ⟨y.toList.drop (f.bytes - t), congrArg Prod.snd hget, fun i ↦ ?_, ?_, ?_⟩
  · obtain ⟨-, -, -, hsingle, hmulti⟩ := b.flags_eq (y.toList.take h) (y.toList.drop (f.bytes - t))
    rw [deserialize_serialize_of_two hv htwo hget (by omega) (by omega), if_pos hlt,
      readAddresses_midBytes hlt.le hheads, Except.ok_bind]
    dsimp only
    rw [readPrefixes_append htwo hv.prefixes hsingle hmulti, Except.ok_bind]
    dsimp only
    rw [PbbTlvBlock.deserialize_serialize hv.plain hf]
    rfl
  · have hself : ∀ a : List.Vector UInt8 f.bytes, withTail (y.toList.drop (f.bytes - t)) a = a ↔
        a.toList.drop (f.bytes - t) = y.toList.drop (f.bytes - t) := fun a ↦ by
      rw [withTail_eq_self_iff (by omega), htail]
    rw [← hfits]
    constructor
    · intro hmap a ha c hc
      have hall : ∀ a ∈ b.m_addressList, withTail (y.toList.drop (f.bytes - t)) a = id a := by
        rw [← List.map_inj_left, List.map_id]
        exact hmap
      exact ((hself a).mp (hall a ha)).trans ((hself c).mp (hall c hc)).symm
    · intro htails
      refine (List.map_congr_left fun a ha ↦ ?_).trans (List.map_id _)
      exact (hself a).mpr (htails a ha y hy)
  · rw [length_serialize_of_two htwo hget hlt, serialize, serializeAddresses_of_two htwo hget,
      if_pos hlt, PbbTlvBlock.getSerializedSize_eq hv.plain]
    simp only [List.length_append, List.length_cons, List.length_nil, UInt32.ofNat_add,
      length_midBytes hlt.le]
    grind

/-- Addresses that are all the same are not read at all: their head and their tail are the whole of them. -/
theorem deserialize_ne_ok (hv : b.Valid) (htwo : 2 ≤ b.m_addressList.length)
    (hsame : SharesHead f.bytes b.m_addressList) (i : List UInt8)
    (x : PbbAddressBlock f × List UInt8) : deserialize (b.serialize ++ i) ≠ .ok x := by
  obtain ⟨l, y, z, heq⟩ := exists_append_pair htwo
  obtain ⟨h, t, hget, hcases⟩ := getHeadTail_spec l y z
  rw [← heq] at hget hcases
  rcases hcases with ⟨-, rfl, rfl⟩ | ⟨hdiffer, -⟩
  · have hhead : (y.toList.take f.bytes).length = f.bytes := by
      rw [List.length_take, List.Vector.toList_length, min_self]
    have htail : (y.toList.drop (f.bytes - f.bytes)).length = f.bytes := by
      rw [List.length_drop, List.Vector.toList_length]
      omega
    have hpos := f.bytes_pos
    rw [deserialize_serialize_of_two hv htwo hget hhead.le htail.le]
    obtain ⟨n, hn⟩ := Nat.exists_eq_add_of_le' htwo
    rw [hn, readAddresses, if_pos (by omega)]
    exact Except.error_ne_ok
  · exact absurd hsame hdiffer

theorem deserialize_one {flags : UInt8} (hflags : flags = 0 ∨ flags = AHAS_SINGLE_PRE_LEN)
    (i : List UInt8) :
    (deserialize (1 :: flags :: i) : Except Failure (PbbAddressBlock f × List UInt8)) = (do
      let (m_addressList, i) ← readAddresses (f := f) [] [] 1 i
      let (m_prefixList, i) ← readPrefixes flags 1 i
      let (m_addressTlvList, i) ← PbbTlvBlock.deserialize i
      return (⟨m_addressList, m_prefixList, m_addressTlvList⟩, i)) := by
  rcases hflags with rfl | rfl <;> rfl

theorem readAddresses_one (a : List.Vector UInt8 f.bytes) (i : List UInt8) :
    readAddresses (f := f) [] [] 1 (a.toList ++ i) = .ok ([a], i) := by
  have hread : readAddresses (f := f) [] [] [a].length (midBytes [] [] [a] ++ i) =
      .ok ([a].map (withTail []), i) :=
    readAddresses_midBytes (Nat.zero_le _) (fun _ _ ↦ by rfl) i
  have hmid : midBytes [] [] [a] = a.toList := by simp [midBytes]
  have hself : withTail [] a = a := (withTail_eq_self_iff (Nat.zero_le _) a).mpr (by simp)
  rw [hmid, List.map_singleton, hself] at hread
  exact hread

theorem deserialize_serialize_of_one (hv : b.Valid) (hf : PbbTlvBlock.Fits b.m_addressTlvList)
    (hone : b.m_addressList.length = 1) : (∀ i, deserialize (b.serialize ++ i) = .ok (b, i)) ∧
      b.getSerializedSize = UInt32.ofNat b.serialize.length := by
  have hprefixes := hv.prefixes
  have hplain := hv.plain
  obtain ⟨m_addressList, m_prefixList, m_addressTlvList⟩ := b
  obtain ⟨a, rfl⟩ := List.length_eq_one_iff.mp hone
  dsimp only at hprefixes hplain hf
  have hlen : m_prefixList = [] ∨ ∃ prefixLength, m_prefixList = [prefixLength] := by
    rcases hprefixes with hnil | hsingle | hsingle
    · exact .inl (List.length_eq_zero_iff.mp hnil)
    · exact .inr (List.length_eq_one_iff.mp hsingle)
    · exact .inr (List.length_eq_one_iff.mp hsingle)
  obtain ⟨flags, hflags, hserialize, hread⟩ : ∃ flags, (flags = 0 ∨ flags = AHAS_SINGLE_PRE_LEN) ∧
      serialize ⟨[a], m_prefixList, m_addressTlvList⟩ = 1 :: flags :: (a.toList ++ (m_prefixList ++
        PbbTlvBlock.serialize m_addressTlvList)) ∧
      ∀ i, readPrefixes flags 1 (m_prefixList ++ i) = .ok (m_prefixList, i) := by
    rcases hlen with rfl | ⟨prefixLength, rfl⟩
    · exact ⟨0, .inl rfl, rfl, fun i ↦ rfl⟩
    · refine ⟨AHAS_SINGLE_PRE_LEN, .inr rfl, ?_, fun i ↦ rfl⟩
      rw [serialize, serializeAddresses]
      simp
  refine ⟨fun i ↦ ?_, ?_⟩
  · rw [hserialize, List.cons_append, List.cons_append, List.append_assoc, List.append_assoc,
      deserialize_one hflags, readAddresses_one, Except.ok_bind]
    dsimp only
    rw [hread, Except.ok_bind]
    dsimp only
    rw [PbbTlvBlock.deserialize_serialize hplain hf]
    rfl
  · rw [hserialize, getSerializedSize, PbbTlvBlock.getSerializedSize_eq hplain]
    simp only [List.length_cons, List.length_append, List.Vector.toList_length, UInt32.ofNat_add]
    grind

/-- What is read of a block. -/
def parsed (b : PbbAddressBlock f) : PbbAddressBlock f :=
  if 2 ≤ b.m_addressList.length then
    { b with m_addressList := b.m_addressList.map (withTail (getHeadTail b.m_addressList).2) }
  else b

/-- Two addresses are different, if there are two. -/
def Readable (b : PbbAddressBlock f) : Prop :=
  2 ≤ b.m_addressList.length → ¬ SharesHead f.bytes b.m_addressList

theorem Compressible.readable (hc : b.Compressible) : b.Readable := fun htwo ↦ (hc htwo).1

theorem deserialize_ne_ok_of_not_readable (hv : b.Valid) (hr : ¬ b.Readable) (i : List UInt8)
    (x : PbbAddressBlock f × List UInt8) : deserialize (b.serialize ++ i) ≠ .ok x := by
  rw [Readable, Classical.not_imp, not_not] at hr
  exact deserialize_ne_ok hv hr.1 hr.2 i x

/-- **What is read of a block** is the block if and only if the tail fits. -/
theorem deserialize_serialize (hv : b.Valid) (hf : PbbTlvBlock.Fits b.m_addressTlvList)
    (hr : b.Readable) : (∀ i, deserialize (b.serialize ++ i) = .ok (b.parsed, i)) ∧
      (b.Equal b.parsed ↔ b.Compressible) ∧
      b.getSerializedSize = UInt32.ofNat b.serialize.length := by
  by_cases htwo : 2 ≤ b.m_addressList.length
  · obtain ⟨tail, htail, hread, hmap, hsize⟩ := exists_deserialize hv hf htwo (hr htwo)
    rw [parsed, if_pos htwo, htail, Compressible, imp_iff_right htwo, and_iff_right (hr htwo), ← hmap,
      Equal]
    refine ⟨hread, ?_, hsize⟩
    dsimp only
    rw [and_iff_left ⟨rfl, PbbTlvBlock.equal_refl _⟩, eq_comm]
  · have hone : b.m_addressList.length = 1 := by
      have hpos := hv.pos
      omega
    obtain ⟨hread, hsize⟩ := deserialize_serialize_of_one hv hf hone
    rw [parsed, if_neg htwo]
    exact ⟨hread, iff_of_true ⟨rfl, rfl, PbbTlvBlock.equal_refl _⟩ fun h ↦ absurd h htwo, hsize⟩

end PbbAddressBlock

/-! ## Messages -/

namespace PbbMessage

variable {f : PbbAddressLength} {m : PbbMessage f} {i : List UInt8}

/-- A message of less than 2^16 bytes as the sender makes it. -/
structure Valid (m : PbbMessage f) : Prop where
  length_lt : m.serialize.length < 2 ^ 16
  plain : ∀ t ∈ m.m_tlvList, t.Plain
  blocks : ∀ b ∈ m.m_addressBlockList, b.Valid

/-- What is read of a message. -/
def parsed (m : PbbMessage f) : PbbMessage f :=
  { m with m_addressBlockList := m.m_addressBlockList.map PbbAddressBlock.parsed }

/-- What stands before the address blocks. -/
def front (m : PbbMessage f) : List UInt8 :=
  m.m_originatorAddress.elim [] List.Vector.toList ++ m.m_hopLimit.toList ++ m.m_hopCount.toList ++
    (m.m_sequenceNumber.elim [] fun n ↦ (Writer.writeHtonU16 n).bytes) ++
    PbbTlvBlock.serialize m.m_tlvList

theorem body_eq (m : PbbMessage f) :
    m.body = m.front ++ m.m_addressBlockList.flatMap PbbAddressBlock.serialize := rfl

theorem length_serialize (m : PbbMessage f) : m.serialize.length = 4 + m.body.length := by
  rw [serialize, List.length_append, List.length_append]
  rfl

theorem tlvs_fit (hv : m.Valid) : PbbTlvBlock.Fits m.m_tlvList := by
  apply PbbTlvBlock.fits_of_length
  have hlen := hv.length_lt
  rw [length_serialize, body_eq, front] at hlen
  simp only [List.length_append, PbbTlvBlock.length_serialize] at hlen
  omega

theorem blockTlvs_fit (hv : m.Valid) :
    ∀ b ∈ m.m_addressBlockList, PbbTlvBlock.Fits b.m_addressTlvList := by
  intro b hb
  apply PbbTlvBlock.fits_of_length
  have hle : b.serialize.length ≤ (m.m_addressBlockList.flatMap PbbAddressBlock.serialize).length :=
    (List.sublist_flatten_of_mem (List.mem_map_of_mem hb)).length_le
  have hlen := hv.length_lt
  rw [length_serialize, body_eq, List.length_append] at hlen
  rw [PbbAddressBlock.serialize, List.length_append, PbbTlvBlock.length_serialize] at hle
  omega

/-- What `DeserializeMessage` and `Deserialize` find in the flags. -/
theorem flags_bits (f : PbbAddressLength) : ∀ o l c n : Bool,
    let flags := f.toUInt8 ||| (if o then MHAS_ORIG else 0) ||| (if l then MHAS_HOP_LIMIT else 0) |||
      (if c then MHAS_HOP_COUNT else 0) ||| if n then MHAS_SEQ_NUM else 0
    flags &&& 0xf = f.toUInt8 ∧ decide (flags &&& MHAS_ORIG ≠ 0) = o ∧
      decide (flags &&& MHAS_HOP_LIMIT ≠ 0) = l ∧ decide (flags &&& MHAS_HOP_COUNT ≠ 0) = c ∧
      decide (flags &&& MHAS_SEQ_NUM ≠ 0) = n := by
  cases f <;> decide

theorem flags_eq (m : PbbMessage f) :
    m.flags &&& 0xf = f.toUInt8 ∧
      decide (m.flags &&& MHAS_ORIG ≠ 0) = m.m_originatorAddress.isSome ∧
      decide (m.flags &&& MHAS_HOP_LIMIT ≠ 0) = m.m_hopLimit.isSome ∧
      decide (m.flags &&& MHAS_HOP_COUNT ≠ 0) = m.m_hopCount.isSome ∧
      decide (m.flags &&& MHAS_SEQ_NUM ≠ 0) = m.m_sequenceNumber.isSome :=
  flags_bits f _ _ _ _

theorem deserializeOriginatorAddress_append (a : List.Vector UInt8 f.bytes) (i : List UInt8) :
    deserializeOriginatorAddress (a.toList ++ i) = .ok (a, i) := by
  rw [deserializeOriginatorAddress, read_append a.toList_length, Except.ok_bind]
  dsimp only
  rw [PbbAddressBlock.deserializeAddress_toList]
  rfl

theorem deserialize_serialize_eq (hv : m.Valid) (i : List UInt8) :
    (deserialize (m.serialize ++ i) : Except Failure (PbbMessage f × List UInt8)) = (do
      let (m_addressBlockList, i) ← readWhile PbbAddressBlock.deserialize (4 + m.body.length)
        (4 + m.front.length +
          (m.m_addressBlockList.flatMap PbbAddressBlock.serialize ++ i).length)
        ((m.serialize ++ i).length + 1)
        (m.m_addressBlockList.flatMap PbbAddressBlock.serialize ++ i)
      return ({ m with m_addressBlockList := m_addressBlockList }, i)) := by
  obtain ⟨-, horig, hlimit, hcount, hseq⟩ := m.flags_eq
  have hsize : (UInt16.ofNat (4 + m.body.length)).toNat = 4 + m.body.length := by
    rw [UInt16.toNat_ofNat']
    exact Nat.mod_eq_of_lt ((length_serialize m).symm.trans_lt hv.length_lt)
  have hfront : (m.serialize ++ i).length = 4 + m.front.length +
      (m.m_addressBlockList.flatMap PbbAddressBlock.serialize ++ i).length := by
    rw [List.length_append, length_serialize, body_eq, List.length_append, List.length_append]
    omega
  have hbody : m.body ++ i = m.m_originatorAddress.elim [] List.Vector.toList ++
      (m.m_hopLimit.toList ++ (m.m_hopCount.toList ++
        ((m.m_sequenceNumber.elim [] fun n ↦ (Writer.writeHtonU16 n).bytes) ++
          (PbbTlvBlock.serialize m.m_tlvList ++
            (m.m_addressBlockList.flatMap PbbAddressBlock.serialize ++ i))))) := by
    rw [body_eq, front]
    simp only [List.append_assoc]
  have hbytes : m.serialize ++ i = m.m_type :: m.flags ::
      ((Writer.writeHtonU16 (UInt16.ofNat (4 + m.body.length))).bytes ++ (m.body ++ i)) := by
    rw [serialize]
    simp only [List.append_assoc, List.cons_append, List.nil_append]
  rw [deserialize, hfront, hbytes, readU8_cons, Except.ok_bind]
  dsimp only
  rw [readU8_cons, Except.ok_bind]
  dsimp only
  rw [readNtohU16_append, Except.ok_bind]
  dsimp only
  rw [hbody, horig, readIf_elim fun a _ ↦ deserializeOriginatorAddress_append a _, Except.ok_bind]
  dsimp only
  rw [hlimit, readIf_toList, Except.ok_bind]
  dsimp only
  rw [hcount, readIf_toList, Except.ok_bind]
  dsimp only
  rw [hseq, readIf_elim fun a _ ↦ readNtohU16_append _ a, Except.ok_bind]
  dsimp only
  rw [PbbTlvBlock.deserialize_serialize hv.plain (tlvs_fit hv), Except.ok_bind]
  dsimp only
  rw [hsize, if_pos (by omega)]

/-- The address blocks follow each other up to the end of the message. -/
theorem blocks_go (m : PbbMessage f) (hne : m.m_addressBlockList ≠ []) :
    4 + m.front.length + (m.m_addressBlockList.dropLast.flatMap PbbAddressBlock.serialize).length <
      4 + m.body.length := by
  have hlt := length_flatMap_dropLast (w := PbbAddressBlock.serialize)
    (fun b _ ↦ List.cons_ne_nil _ _) hne
  rw [body_eq, List.length_append]
  omega

/-- **What is read of a message.** -/
theorem deserialize_serialize (hv : m.Valid) (hr : ∀ b ∈ m.m_addressBlockList, b.Readable)
    (i : List UInt8) : deserialize (m.serialize ++ i) = .ok (m.parsed, i) := by
  have hlen : m.m_addressBlockList.length < (m.serialize ++ i).length + 1 := by
    have hle := length_le_flatMap (l := m.m_addressBlockList) (w := PbbAddressBlock.serialize)
      fun b _ ↦ List.cons_ne_nil _ _
    rw [List.length_append, length_serialize, body_eq, List.length_append]
    omega
  rw [deserialize_serialize_eq hv, readWhile_flatMap
    (fun b hb i ↦ (PbbAddressBlock.deserialize_serialize (hv.blocks b hb) (blockTlvs_fit hv b hb)
      (hr b hb)).1 i) m.blocks_go (by rw [body_eq, List.length_append, Nat.add_assoc]) hlen]
  rfl

theorem deserialize_ne_ok (hv : m.Valid) (hr : ∃ b ∈ m.m_addressBlockList, ¬ b.Readable)
    (i : List UInt8) (x : PbbMessage f × List UInt8) : deserialize (m.serialize ++ i) ≠ .ok x := by
  rw [deserialize_serialize_eq hv]
  intro heq
  obtain ⟨y, hread, -⟩ := Except.bind_eq_ok.mp heq
  refine readWhile_ne_ok (fun b hb hgood i ↦ (PbbAddressBlock.deserialize_serialize (hv.blocks b hb)
    (blockTlvs_fit hv b hb) hgood).1 i) (fun b hb hbad i x ↦
    PbbAddressBlock.deserialize_ne_ok_of_not_readable (hv.blocks b hb) hbad i x) hr m.blocks_go _ y
    hread

theorem getSerializedSize_eq (hv : m.Valid) (hr : ∀ b ∈ m.m_addressBlockList, b.Readable) :
    m.getSerializedSize = UInt32.ofNat m.serialize.length := by
  have hfront : 4 + (if m.m_originatorAddress.isSome then f.toUInt8.toUInt32 + 1 else 0) +
      (if m.m_hopLimit.isSome then 1 else 0) + (if m.m_hopCount.isSome then 1 else 0) +
      (if m.m_sequenceNumber.isSome then 2 else 0) + PbbTlvBlock.getSerializedSize m.m_tlvList =
      UInt32.ofNat (4 + m.front.length) := by
    have horig : (if m.m_originatorAddress.isSome then f.toUInt8.toUInt32 + 1 else 0) =
        UInt32.ofNat (m.m_originatorAddress.elim [] List.Vector.toList).length := by
      cases m.m_originatorAddress with
      | none => rfl
      | some a =>
        rw [Option.elim_some, List.Vector.toList_length]
        cases f <;> rfl
    have hseq : (if m.m_sequenceNumber.isSome then 2 else 0 : UInt32) = UInt32.ofNat
        (m.m_sequenceNumber.elim [] fun n ↦ (Writer.writeHtonU16 n).bytes).length := by
      cases m.m_sequenceNumber <;> rfl
    have hlimit : ∀ o : Option UInt8,
        (if o.isSome then 1 else 0 : UInt32) = UInt32.ofNat o.toList.length := fun o ↦ by
      cases o <;> rfl
    rw [horig, hseq, hlimit, hlimit, PbbTlvBlock.getSerializedSize_eq hv.plain, front]
    simp only [List.length_append, UInt32.ofNat_add]
    grind
  rw [getSerializedSize, hfront, foldl_size fun b hb ↦ (PbbAddressBlock.deserialize_serialize
    (hv.blocks b hb) (blockTlvs_fit hv b hb) (hr b hb)).2.2, length_serialize, body_eq,
    List.length_append, Nat.add_assoc]

/-- The address blocks are read as they are if and only if they are compressible. -/
theorem same_parsed_iff (hv : m.Valid) (hr : ∀ b ∈ m.m_addressBlockList, b.Readable) :
    m.Same m.parsed ↔ ∀ b ∈ m.m_addressBlockList, b.Compressible := by
  have hblocks : List.Forall₂ PbbAddressBlock.Equal m.m_addressBlockList
      (m.m_addressBlockList.map PbbAddressBlock.parsed) ↔
      ∀ b ∈ m.m_addressBlockList, b.Equal b.parsed := by
    rw [List.forall₂_map_right_iff, List.forall₂_same]
  rw [Same, parsed]
  dsimp only
  rw [hblocks]
  simp only [PbbTlvBlock.equal_refl, true_and]
  refine forall₂_congr fun b hb ↦ ?_
  exact (PbbAddressBlock.deserialize_serialize (hv.blocks b hb) (blockTlvs_fit hv b hb) (hr b hb)).2.1

theorem deserializeMessage_serialize (m : PbbMessage f) (i : List UInt8) :
    deserializeMessage (m.serialize ++ i) = (do
      let (newmsg, i) ← deserialize (f := f) (m.serialize ++ i)
      return (some ⟨f, newmsg⟩, i)) := by
  obtain ⟨hfamily, -⟩ := m.flags_eq
  have hbytes : m.serialize ++ i = m.m_type :: m.flags ::
      ((Writer.writeHtonU16 (UInt16.ofNat (4 + m.body.length))).bytes ++ (m.body ++ i)) := by
    rw [serialize]
    simp only [List.append_assoc, List.cons_append, List.nil_append]
  rw [deserializeMessage, hbytes, readU8_cons, Except.ok_bind]
  dsimp only
  rw [readU8_cons, Except.ok_bind]
  dsimp only
  rw [hfamily]
  cases f <;> rfl

theorem serialize_ne_nil (m : PbbMessage f) : m.serialize ≠ [] := List.cons_ne_nil _ _

end PbbMessage

/-! ## Packets -/

namespace PbbPacket

variable {p : PbbPacket}

/-- A packet as a sender makes it. -/
structure Valid (p : PbbPacket) : Prop where
  plain : ∀ t ∈ p.m_tlvList, t.Plain
  messages : ∀ message ∈ p.m_messageList, message.2.Valid

/-- What is read of a message of either family. -/
def parsedMessage (message : PbbMessage.Any) : PbbMessage.Any := ⟨message.1, message.2.parsed⟩

theorem deserializeMessage_serialize {message : PbbMessage.Any} (hv : message.2.Valid)
    (hr : ∀ b ∈ message.2.m_addressBlockList, b.Readable) (i : List UInt8) :
    PbbMessage.deserializeMessage (message.2.serialize ++ i) =
      .ok (some (parsedMessage message), i) := by
  rw [PbbMessage.deserializeMessage_serialize, PbbMessage.deserialize_serialize hv hr]
  rfl

/-- The messages as they are written. -/
def messageBytes (messages : List PbbMessage.Any) : List UInt8 :=
  messages.flatMap fun message ↦ message.2.serialize

theorem readMessages_eq {messages : List PbbMessage.Any} (hv : ∀ message ∈ messages, message.2.Valid)
    (hr : ∀ message ∈ messages, ∀ b ∈ message.2.m_addressBlockList, b.Readable) {fuel : ℕ}
    (hfuel : messages.length < fuel) :
    readMessages fuel (messageBytes messages) = .ok (messages.map parsedMessage, true, []) := by
  induction messages generalizing fuel with
  | nil =>
    obtain ⟨fuel, rfl⟩ := Nat.exists_eq_succ_of_ne_zero hfuel.ne_bot
    rfl
  | cons message messages ih =>
    obtain ⟨fuel, rfl⟩ := Nat.exists_eq_succ_of_ne_zero hfuel.ne_bot
    rw [List.forall_mem_cons] at hv hr
    have hne : message.2.serialize ++ messageBytes messages ≠ [] :=
      List.append_ne_nil_of_left_ne_nil message.2.serialize_ne_nil _
    rw [messageBytes, List.flatMap_cons, ← messageBytes, readMessages, if_neg hne,
      deserializeMessage_serialize hv.1 hr.1, Except.ok_bind]
    dsimp only
    rw [ih hv.2 hr.2 (Nat.lt_of_succ_lt_succ hfuel)]
    rfl

theorem readMessages_ne_ok {messages : List PbbMessage.Any}
    (hv : ∀ message ∈ messages, message.2.Valid)
    (hr : ∃ message ∈ messages, ∃ b ∈ message.2.m_addressBlockList, ¬ b.Readable) (fuel : ℕ)
    (x : List PbbMessage.Any × Bool × List UInt8) :
    readMessages fuel (messageBytes messages) ≠ .ok x := by
  induction messages generalizing fuel x with
  | nil =>
    obtain ⟨message, hmem, -⟩ := hr
    exact absurd hmem List.not_mem_nil
  | cons message messages ih =>
    cases fuel with
    | zero => exact Except.error_ne_ok
    | succ fuel =>
      rw [List.forall_mem_cons] at hv
      have hne : message.2.serialize ++ messageBytes messages ≠ [] :=
        List.append_ne_nil_of_left_ne_nil message.2.serialize_ne_nil _
      rw [messageBytes, List.flatMap_cons, ← messageBytes, readMessages, if_neg hne]
      intro heq
      by_cases hgood : ∀ b ∈ message.2.m_addressBlockList, b.Readable
      · rw [deserializeMessage_serialize hv.1 hgood, Except.ok_bind] at heq
        obtain ⟨y, hrest, -⟩ := Except.bind_eq_ok.mp heq
        obtain ⟨message', hmem, b, hb, hbad⟩ := hr
        rcases List.mem_cons.mp hmem with rfl | hmem
        · exact hbad (hgood b hb)
        · exact ih hv.2 ⟨message', hmem, b, hb, hbad⟩ fuel y hrest
      · obtain ⟨y, hfirst, -⟩ := Except.bind_eq_ok.mp heq
        rw [PbbMessage.deserializeMessage_serialize] at hfirst
        obtain ⟨z, hmessage, -⟩ := Except.bind_eq_ok.mp hfirst
        push Not at hgood
        exact PbbMessage.deserialize_ne_ok hv.1 hgood _ z hmessage

theorem flags_bits : ∀ s t : Bool,
    let flags := (VERSION <<< 4) ||| (if s then PHAS_SEQ_NUM else 0) ||| if t then PHAS_TLV else 0
    decide (flags &&& PHAS_SEQ_NUM ≠ 0) = s ∧ decide (flags &&& PHAS_TLV ≠ 0) = t ∧
      flags >>> 4 = VERSION := by
  decide

theorem flags_eq (p : PbbPacket) :
    decide (p.flags &&& PHAS_SEQ_NUM ≠ 0) = p.m_seqnum.isSome ∧
      decide (p.flags &&& PHAS_TLV ≠ 0) = decide (p.m_tlvList ≠ []) ∧ p.flags >>> 4 = VERSION := by
  rw [flags]
  by_cases hnil : p.m_tlvList = []
  · rw [if_pos hnil, decide_eq_false (not_not.mpr hnil)]
    exact flags_bits p.m_seqnum.isSome false
  · rw [if_neg hnil, decide_eq_true hnil]
    exact flags_bits p.m_seqnum.isSome true

theorem deserialize_serialize_eq (p : PbbPacket) : deserialize p.serialize = (do
    let (m_tlvList, i) ← readIf (decide (p.m_tlvList ≠ [])) PbbTlvBlock.deserialize
      ((if p.m_tlvList = [] then [] else PbbTlvBlock.serialize p.m_tlvList) ++
        messageBytes p.m_messageList)
    let (m_messageList, _, i) ← readMessages (i.length + 1) i
    return (⟨VERSION, p.m_seqnum, m_tlvList.getD [], m_messageList⟩,
      p.serialize.length - i.length)) := by
  obtain ⟨hseq, htlv, hversion⟩ := p.flags_eq
  have hread : readU8 p.serialize = .ok (p.flags,
      (p.m_seqnum.elim [] fun n ↦ (Writer.writeHtonU16 n).bytes) ++
        ((if p.m_tlvList = [] then [] else PbbTlvBlock.serialize p.m_tlvList) ++
          messageBytes p.m_messageList)) := by
    rw [serialize, List.append_assoc, List.append_assoc]
    rfl
  rw [deserialize, hread, Except.ok_bind]
  dsimp only
  rw [hseq, readIf_elim fun a _ ↦ readNtohU16_append _ a, Except.ok_bind, htlv]
  simp only [hversion, ite_self]

/-- **A packet comes back**: as many bytes are written as announced, and what is read of them is the
packet. -/
def RoundTrips (p : PbbPacket) : Prop :=
  p.serialize.length = p.getSerializedSize.toNat ∧
    ∃ q size, deserialize p.serialize = .ok (q, size) ∧ p.Equal q

instance (p : PbbPacket) : Decidable p.RoundTrips :=
  match h : deserialize p.serialize with
  | .ok (q, size) => decidable_of_iff (p.serialize.length = p.getSerializedSize.toNat ∧ p.Equal q) <| by
      rw [RoundTrips, h]
      refine and_congr_right fun _ ↦ ⟨fun heq ↦ ⟨q, size, rfl, heq⟩, ?_⟩
      rintro ⟨q', size', hok, heq⟩
      obtain ⟨rfl, -⟩ := Prod.mk.inj (Except.ok_inj.mp hok)
      exact heq
  | .error e => .isFalse <| by
      rw [RoundTrips, h]
      rintro ⟨-, q, size, hok, -⟩
      exact Except.error_ne_ok hok

/-- What it takes for a packet to come back: it is of this version and not longer than a buffer can be, its
own TLVs fit, and its address blocks are compressible. -/
structure Good (p : PbbPacket) : Prop where
  version : p.m_version = VERSION
  length_lt : p.serialize.length < 2 ^ 32
  tlvs : PbbTlvBlock.Fits p.m_tlvList
  blocks : ∀ message ∈ p.m_messageList, ∀ b ∈ message.2.m_addressBlockList, b.Compressible

theorem getSerializedSize_eq (hv : p.Valid)
    (hr : ∀ message ∈ p.m_messageList, ∀ b ∈ message.2.m_addressBlockList, b.Readable) :
    p.getSerializedSize = UInt32.ofNat p.serialize.length := by
  have hfront : 1 + (if p.m_seqnum.isSome then 2 else 0) +
      (if p.m_tlvList = [] then 0 else PbbTlvBlock.getSerializedSize p.m_tlvList) =
      UInt32.ofNat (1 + (p.m_seqnum.elim [] fun n ↦ (Writer.writeHtonU16 n).bytes).length +
        (if p.m_tlvList = [] then [] else PbbTlvBlock.serialize p.m_tlvList).length) := by
    have hseq : (if p.m_seqnum.isSome then 2 else 0 : UInt32) = UInt32.ofNat
        (p.m_seqnum.elim [] fun n ↦ (Writer.writeHtonU16 n).bytes).length := by
      cases p.m_seqnum <;> rfl
    rw [hseq, UInt32.ofNat_add, UInt32.ofNat_add, PbbTlvBlock.getSerializedSize_eq hv.plain]
    split_ifs <;> rfl
  rw [getSerializedSize, hfront, foldl_size fun message hmem ↦
    PbbMessage.getSerializedSize_eq (hv.messages message hmem) (hr message hmem), serialize]
  simp only [List.length_append, List.length_cons, List.length_nil, Nat.zero_add]

theorem equal_parsedMessage_iff (message : PbbMessage.Any) :
    PbbMessage.Equal message (parsedMessage message) ↔ message.2.Same message.2.parsed := by
  obtain ⟨f, m⟩ := message
  cases f <;> exact Iff.rfl

theorem readTlvs (hv : p.Valid) (hf : PbbTlvBlock.Fits p.m_tlvList) (i : List UInt8) :
    ∃ o, readIf (decide (p.m_tlvList ≠ [])) PbbTlvBlock.deserialize
      ((if p.m_tlvList = [] then [] else PbbTlvBlock.serialize p.m_tlvList) ++ i) = .ok (o, i) ∧
      o.getD [] = p.m_tlvList := by
  by_cases hnil : p.m_tlvList = []
  · rw [decide_eq_false (not_not.mpr hnil), if_pos hnil]
    exact ⟨none, rfl, hnil.symm⟩
  · rw [decide_eq_true hnil, if_neg hnil, readIf_true, PbbTlvBlock.deserialize_serialize hv.plain hf]
    exact ⟨some p.m_tlvList, rfl, rfl⟩

theorem deserialize_eq (hv : p.Valid) (hf : PbbTlvBlock.Fits p.m_tlvList)
    (hr : ∀ message ∈ p.m_messageList, ∀ b ∈ message.2.m_addressBlockList, b.Readable) :
    deserialize p.serialize =
      .ok (⟨VERSION, p.m_seqnum, p.m_tlvList, p.m_messageList.map parsedMessage⟩,
        p.serialize.length) := by
  obtain ⟨o, hread, ho⟩ := readTlvs hv hf (messageBytes p.m_messageList)
  have hfuel : p.m_messageList.length < (messageBytes p.m_messageList).length + 1 :=
    Nat.lt_succ_of_le (length_le_flatMap fun message _ ↦ message.2.serialize_ne_nil)
  rw [deserialize_serialize_eq, hread, Except.ok_bind]
  dsimp only
  rw [readMessages_eq hv.messages hr hfuel, Except.ok_bind, ho]
  rfl

theorem readable_of_deserialize (hv : p.Valid) (hf : PbbTlvBlock.Fits p.m_tlvList)
    {x : PbbPacket × ℕ} (h : deserialize p.serialize = .ok x) :
    ∀ message ∈ p.m_messageList, ∀ b ∈ message.2.m_addressBlockList, b.Readable := by
  obtain ⟨o, hread, -⟩ := readTlvs hv hf (messageBytes p.m_messageList)
  rw [deserialize_serialize_eq, hread, Except.ok_bind] at h
  obtain ⟨y, hmessages, -⟩ := Except.bind_eq_ok.mp h
  by_contra hbad
  push Not at hbad
  exact readMessages_ne_ok hv.messages hbad _ y hmessages

theorem fits_of_equal (hv : p.Valid) {q : PbbPacket} {size : ℕ}
    (h : deserialize p.serialize = .ok (q, size)) (heq : p.Equal q) :
    PbbTlvBlock.Fits p.m_tlvList := by
  by_contra hf
  have hne : p.m_tlvList ≠ [] := by
    intro hnil
    rw [hnil] at hf
    exact hf (by decide)
  rw [deserialize_serialize_eq, decide_eq_true hne, if_neg hne, readIf_true] at h
  obtain ⟨⟨o, i⟩, hread, hrest⟩ := Except.bind_eq_ok.mp h
  obtain ⟨⟨tlvs, i'⟩, htlvs, ho⟩ := Except.bind_eq_ok.mp hread
  obtain ⟨⟨messages, complete, i''⟩, -, hq⟩ := Except.bind_eq_ok.mp hrest
  obtain ⟨rfl, -⟩ := Prod.mk.inj (Except.pure_eq_ok.mp ho)
  obtain ⟨rfl, -⟩ := Prod.mk.inj (Except.pure_eq_ok.mp hq)
  exact PbbTlvBlock.not_equal_of_deserialize hv.plain hf htlvs heq.2.2.1

theorem equal_iff (hv : p.Valid)
    (hr : ∀ message ∈ p.m_messageList, ∀ b ∈ message.2.m_addressBlockList, b.Readable) :
    p.Equal ⟨VERSION, p.m_seqnum, p.m_tlvList, p.m_messageList.map parsedMessage⟩ ↔
      p.m_version = VERSION ∧
        ∀ message ∈ p.m_messageList, ∀ b ∈ message.2.m_addressBlockList, b.Compressible := by
  have hmessages : List.Forall₂ PbbMessage.Equal p.m_messageList
      (p.m_messageList.map parsedMessage) ↔
      ∀ message ∈ p.m_messageList, PbbMessage.Equal message (parsedMessage message) := by
    rw [List.forall₂_map_right_iff, List.forall₂_same]
  rw [Equal]
  dsimp only
  rw [hmessages]
  simp only [PbbTlvBlock.equal_refl, true_and]
  refine and_congr_right fun _ ↦ forall₂_congr fun message hmem ↦ ?_
  rw [equal_parsedMessage_iff]
  exact PbbMessage.same_parsed_iff (hv.messages message hmem) (hr message hmem)

theorem Good.roundTrips (hv : p.Valid) (hg : p.Good) : p.RoundTrips := by
  have hr : ∀ message ∈ p.m_messageList, ∀ b ∈ message.2.m_addressBlockList, b.Readable :=
    fun message hmem b hb ↦ (hg.blocks message hmem b hb).readable
  refine ⟨?_, _, _, deserialize_eq hv hg.tlvs hr, (equal_iff hv hr).mpr ⟨hg.version, hg.blocks⟩⟩
  rw [getSerializedSize_eq hv hr, UInt32.toNat_ofNat', Nat.mod_eq_of_lt hg.length_lt]

/-- **A packet comes back if and only if it is good.** -/
theorem packet_roundTrips_iff (hv : p.Valid) : p.RoundTrips ↔ p.Good := by
  refine ⟨?_, fun hg ↦ hg.roundTrips hv⟩
  rintro ⟨hsize, q, size, hread, heq⟩
  have hf := fits_of_equal hv hread heq
  have hr := readable_of_deserialize hv hf hread
  rw [deserialize_eq hv hf hr, Except.ok_inj] at hread
  obtain ⟨rfl, -⟩ := Prod.mk.inj hread
  obtain ⟨hversion, hblocks⟩ := (equal_iff hv hr).mp heq
  exact ⟨hversion, hsize ▸ p.getSerializedSize.toNat_lt, hf, hblocks⟩

/-- An address block of a message. -/
def sampleBlock (m_addressList : List (List.Vector UInt8 4)) : PbbAddressBlock .IPV4 :=
  ⟨m_addressList, [24], [⟨1, none, none, none, false, some [7, 8]⟩]⟩

/-- A packet with one message, with one address block. -/
def samplePacket (m_addressList : List (List.Vector UInt8 4)) : PbbPacket :=
  ⟨VERSION, some 5, [], [⟨.IPV4, 2, some ⟨[10, 0, 0, 1], rfl⟩, some 255, none, some 9, [],
    [sampleBlock m_addressList]⟩]⟩

theorem packet_roundTrips_iff_sample : (samplePacket
    [⟨[10, 0, 0, 1], rfl⟩, ⟨[10, 0, 1, 1], rfl⟩, ⟨[10, 0, 2, 1], rfl⟩]).RoundTrips := by
  refine (packet_roundTrips_iff ⟨by decide, ?_⟩).mpr ⟨rfl, by decide +kernel, by decide, ?_⟩
  · refine List.forall_mem_singleton.mpr ⟨by decide +kernel, by decide, ?_⟩
    exact List.forall_mem_singleton.mpr ⟨by decide, by decide, by decide, by decide⟩
  · exact List.forall_mem_singleton.mpr (List.forall_mem_singleton.mpr (by decide +kernel))

/-- The first two addresses have nothing in common at the end, but the last two do: the first address comes
back as 1.1.1.8. -/
theorem not_roundTrips : ¬ (samplePacket
    [⟨[1, 1, 1, 9], rfl⟩, ⟨[2, 2, 2, 8], rfl⟩, ⟨[3, 2, 2, 8], rfl⟩]).RoundTrips := by
  decide +kernel

end PbbPacket

end PacketBB

end Ns3
