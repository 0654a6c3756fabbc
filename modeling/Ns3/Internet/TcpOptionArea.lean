import Ns3.Internet.TcpHeader

/-!
# The option area of a TCP header

`TcpHeader::Deserialize` reads options until the area is used up that the data offset leaves for them.
Each option finds its own size: some compare their length octet with the only size that they can have,
a SACK option computes the number of its blocks, and an unknown option takes the octet as it is.

## What can go wrong

* A malformed option, and an `END`, end the loop. The size that is returned is that of the options so
  far, rounded up: it is the data offset just if fewer than four bytes are left.
* An unknown option with the length octet 0 has the size 0, and is read again for ever.
* The size is compared with the rest of the area after the option has been read.
* An MSS option with another length octet than 4 aborts.

`Admissible` are the areas where none of this happens (`parsesWithin_iff`).
-/

namespace Ns3

open Buffer (Failure readU8 readNtohU16 readNtohU32)

namespace TcpOption

/-- What a turn of the loop of `Deserialize` does with the bytes that are left. -/
inductive Step
  /-- An option of some size is read. -/
  | keeps (size : ℕ)
  /-- An `END` is read. -/
  | ends
  /-- The option is malformed, and the loop is left. -/
  | stops
  /-- The option has the size 0. -/
  | loops
  /-- The length octet is missing, or the program aborts. -/
  | fails
  deriving DecidableEq, Repr

/-- The step for an option with a length octet. -/
def sizedStep (kind size : UInt8) : Step :=
  if kind = 2 then if size = 4 then .keeps 4 else .fails
  else if kind = 3 then if size = 3 then .keeps 3 else .stops
  else if kind = 4 then if size = 2 then .keeps 2 else .stops
  else if kind = 5 then .keeps (2 + (size.toNat - 2) / 8 * 8)
  else if kind = 8 then if size = 10 then .keeps 10 else .stops
  else if size = 0 then .loops
  else if size < 2 ∨ 40 < size then .stops
  else .keeps size.toNat

/-- The step for the bytes of an option area. -/
def step : List UInt8 → Step
  | [] => .fails
  | [kind] => if kind = 0 then .ends else if kind = 1 then .keeps 1 else .fails
  | kind :: size :: _ =>
    if kind = 0 then .ends else if kind = 1 then .keeps 1 else sizedStep kind size

/-- The option areas that are read to their end: options that fit, up to an `END` or a malformed option
with at most three bytes behind what has been read. -/
inductive Admissible : List UInt8 → Prop
  | nil : Admissible []
  | keeps {area : List UInt8} {size : ℕ} (hstep : step area = .keeps size) (hle : size ≤ area.length)
      (hrest : Admissible (area.drop size)) : Admissible area
  | ends {area : List UInt8} (hstep : step area = .ends) (hle : area.length ≤ 4) : Admissible area
  | stops {area : List UInt8} (hstep : step area = .stops) (hle : area.length ≤ 3) : Admissible area

/-- The option that the loop makes for a kind. -/
def forKind (kind : UInt8) : TcpOption := createOption (if isKindKnown kind then kind else 255)

/-! ## Reading -/

section Reading

variable {i : List UInt8} {n : ℕ}

theorem exists_readNtohU16 (h : 2 ≤ i.length) : ∃ data, readNtohU16 i = .ok (data, i.drop 2) := by
  obtain _ | ⟨b₀, _ | ⟨b₁, i⟩⟩ := i
  · exact absurd h (by decide)
  · exact absurd h (by simp)
  · exact ⟨_, rfl⟩

theorem readNtohU16_ne_ok (h : i.length < 2) (r : UInt16 × List UInt8) : readNtohU16 i ≠ .ok r := by
  obtain _ | ⟨b₀, _ | ⟨b₁, i⟩⟩ := i
  · exact Except.error_ne_ok
  · exact Except.error_ne_ok
  · exact absurd h (by simp)

theorem exists_readNtohU32 (h : 4 ≤ i.length) : ∃ data, readNtohU32 i = .ok (data, i.drop 4) := by
  obtain _ | ⟨b₀, _ | ⟨b₁, _ | ⟨b₂, _ | ⟨b₃, i⟩⟩⟩⟩ := i
  · exact absurd h (by decide)
  · exact absurd h (by simp)
  · exact absurd h (by simp)
  · exact absurd h (by simp)
  · exact ⟨_, rfl⟩

theorem readNtohU32_ne_ok (h : i.length < 4) (r : UInt32 × List UInt8) : readNtohU32 i ≠ .ok r := by
  obtain _ | ⟨b₀, _ | ⟨b₁, _ | ⟨b₂, _ | ⟨b₃, i⟩⟩⟩⟩ := i
  · exact Except.error_ne_ok
  · exact Except.error_ne_ok
  · exact Except.error_ne_ok
  · exact Except.error_ne_ok
  · exact absurd h (by simp)

theorem exists_readBlocks (h : n * 8 ≤ i.length) :
    ∃ blocks, readBlocks n i = .ok blocks ∧ blocks.length = n := by
  induction n generalizing i with
  | zero => exact ⟨[], rfl, rfl⟩
  | succ n ih =>
    obtain ⟨leftEdge, hleft⟩ := exists_readNtohU32 (i := i) (by omega)
    obtain ⟨rightEdge, hright⟩ := exists_readNtohU32 (i := i.drop 4) (by rw [List.length_drop]; omega)
    obtain ⟨blocks, hblocks, hlen⟩ := ih (i := (i.drop 4).drop 4) (by
      rw [List.length_drop, List.length_drop]
      omega)
    refine ⟨(⟨leftEdge.toBitVec⟩, ⟨rightEdge.toBitVec⟩) :: blocks, ?_, congrArg (· + 1) hlen⟩
    rw [readBlocks, hleft, Except.ok_bind]
    dsimp only
    rw [hright, Except.ok_bind]
    dsimp only
    rw [hblocks, Except.ok_bind]
    rfl

theorem readBlocks_ne_ok (h : i.length < n * 8) (blocks : List SackBlock) :
    readBlocks n i ≠ .ok blocks := by
  induction n generalizing i blocks with
  | zero => exact absurd h (by omega)
  | succ n ih =>
    intro hread
    rw [readBlocks] at hread
    obtain ⟨⟨leftEdge, i₁⟩, hleft, hread⟩ := Except.bind_eq_ok.mp hread
    obtain ⟨⟨rightEdge, i₂⟩, hright, hread⟩ := Except.bind_eq_ok.mp hread
    obtain ⟨blocks', hblocks, -⟩ := Except.bind_eq_ok.mp hread
    by_cases hfirst : i.length < 4
    · exact readNtohU32_ne_ok hfirst _ hleft
    rw [not_lt] at hfirst
    obtain ⟨data, hdata⟩ := exists_readNtohU32 hfirst
    obtain rfl : i₁ = i.drop 4 := congrArg Prod.snd (Except.ok.inj (hleft.symm.trans hdata))
    by_cases hsecond : (i.drop 4).length < 4
    · exact readNtohU32_ne_ok hsecond _ hright
    rw [not_lt] at hsecond
    obtain ⟨data', hdata'⟩ := exists_readNtohU32 hsecond
    obtain rfl : i₂ = (i.drop 4).drop 4 := congrArg Prod.snd (Except.ok.inj (hright.symm.trans hdata'))
    refine ih ?_ _ hblocks
    rw [List.length_drop] at hsecond
    rw [List.length_drop, List.length_drop]
    omega

end Reading

/-! ## One option -/

section Option

variable {kind size : UInt8} {rest : List UInt8} {n : ℕ}

theorem forKind_unknown (h : kind ∉ ([0, 1, 2, 3, 4, 5, 8] : List UInt8)) :
    forKind kind = unknown 255 0 [] := by
  rw [forKind, isKindKnown, decide_eq_false h]
  rfl

theorem deserialize_keeps (hstep : step (kind :: rest) = .keeps n) (hle : n ≤ rest.length + 1)
    (beyond : List UInt8) : ∃ option, (forKind kind).deserialize (kind :: rest ++ beyond) =
      .ok (n, option) ∧ option.getSerializedSize = n ∧ option.getKind ≠ 0 ∧ 0 < n := by
  have hnop : kind = 1 → n = 1 → ∃ option, (forKind kind).deserialize (kind :: rest ++ beyond) =
      .ok (n, option) ∧ option.getSerializedSize = n ∧ option.getKind ≠ 0 ∧ 0 < n := by
    rintro rfl rfl
    exact ⟨nop, rfl, rfl, by decide, Nat.one_pos⟩
  cases rest with
  | nil =>
    rw [step] at hstep
    split_ifs at hstep with hend hone
    exact hnop hone (Step.keeps.inj hstep).symm
  | cons size rest =>
    rw [List.length_cons] at hle
    rw [step] at hstep
    split_ifs at hstep with hend hone
    · exact hnop hone (Step.keeps.inj hstep).symm
    · rw [sizedStep] at hstep
      split_ifs at hstep with hmss h4 hscale h3 hperm h2 hsack hts h10 hzero hbad
      · obtain rfl := Step.keeps.inj hstep
        obtain ⟨data, hdata⟩ := exists_readNtohU16 (i := rest ++ beyond) (by
          rw [List.length_append]
          omega)
        rw [hmss, h4]
        refine ⟨mss data, ?_, rfl, (by decide : (2 : UInt8) ≠ 0), by decide⟩
        change (readNtohU16 (rest ++ beyond) >>= fun p ↦ _) = _
        rw [hdata]
        rfl
      · obtain rfl := Step.keeps.inj hstep
        rw [hscale, h3]
        cases rest with
        | nil => exact absurd hle (by decide)
        | cons scale rest => exact ⟨winScale scale, rfl, rfl, (by decide : (3 : UInt8) ≠ 0), by decide⟩
      · obtain rfl := Step.keeps.inj hstep
        rw [hperm, h2]
        exact ⟨sackPermitted, rfl, rfl, by decide, by decide⟩
      · obtain rfl := Step.keeps.inj hstep
        obtain ⟨blocks, hblocks, hlen⟩ := exists_readBlocks (n := (size.toNat - 2) / 8)
          (i := rest ++ beyond) (by
            rw [List.length_append]
            omega)
        have hsize : (sack blocks).getSerializedSize = 2 + (size.toNat - 2) / 8 * 8 := by
          have := size.toNat_lt
          rw [getSerializedSize, hlen]
          exact Nat.mod_eq_of_lt (by omega)
        rw [hsack]
        refine ⟨sack blocks, ?_, hsize, (by decide : (5 : UInt8) ≠ 0), by omega⟩
        change (readBlocks ((size.toNat - 2) / 8) (rest ++ beyond) >>= fun l ↦ _) = _
        rw [hblocks]
        change Except.ok ((sack blocks).getSerializedSize, sack blocks) = _
        rw [hsize]
      · obtain rfl := Step.keeps.inj hstep
        obtain ⟨stamp, hstamp⟩ := exists_readNtohU32 (i := rest ++ beyond) (by
          rw [List.length_append]
          omega)
        obtain ⟨echo, hecho⟩ := exists_readNtohU32 (i := (rest ++ beyond).drop 4) (by
          rw [List.length_drop, List.length_append]
          omega)
        rw [hts, h10]
        refine ⟨ts stamp echo, ?_, rfl, (by decide : (8 : UInt8) ≠ 0), by decide⟩
        change (readNtohU32 (rest ++ beyond) >>= fun p ↦ readNtohU32 p.2 >>= fun q ↦ _) = _
        rw [hstamp]
        change (readNtohU32 ((rest ++ beyond).drop 4) >>= fun q ↦ _) = _
        rw [hecho]
        rfl
      · obtain rfl := Step.keeps.inj hstep
        have hread : Buffer.read (size.toNat - 2) (rest ++ beyond) =
            .ok ((rest ++ beyond).take (size.toNat - 2), (rest ++ beyond).drop (size.toNat - 2)) := by
          rw [Buffer.read, if_pos]
          rw [List.length_append]
          omega
        rw [forKind_unknown (by simp [hend, hone, hmss, hscale, hperm, hsack, hts])]
        refine ⟨unknown kind size ((rest ++ beyond).take (size.toNat - 2)), ?_, rfl, hend, ?_⟩
        · rw [List.cons_append, List.cons_append, deserialize]
          simp only [Buffer.readU8_cons, Except.ok_bind]
          rw [if_neg hbad, hread]
          rfl
        · rw [Nat.pos_iff_ne_zero]
          exact fun h ↦ hzero (UInt8.toNat_inj.mp h)

theorem deserialize_keeps_ne_ok (hstep : step (kind :: rest) = .keeps n) (hlt : rest.length + 1 < n)
    (r : ℕ × TcpOption) : (forKind kind).deserialize (kind :: rest) ≠ .ok r := by
  intro hread
  cases rest with
  | nil =>
    rw [step] at hstep
    split_ifs at hstep with hend hone
    obtain rfl := Step.keeps.inj hstep
    exact absurd hlt (by decide)
  | cons size rest =>
    rw [List.length_cons] at hlt
    rw [step] at hstep
    split_ifs at hstep with hend hone
    · obtain rfl := Step.keeps.inj hstep
      omega
    · rw [sizedStep] at hstep
      split_ifs at hstep with hmss h4 hscale h3 hperm h2 hsack hts h10 hzero hbad
      · obtain rfl := Step.keeps.inj hstep
        rw [hmss, h4] at hread
        change (readNtohU16 rest >>= fun p ↦ _) = _ at hread
        obtain ⟨p, hp, -⟩ := Except.bind_eq_ok.mp hread
        exact readNtohU16_ne_ok (by omega) p hp
      · obtain rfl := Step.keeps.inj hstep
        rw [hscale, h3] at hread
        obtain rfl : rest = [] := List.eq_nil_of_length_eq_zero (by omega)
        exact absurd hread Except.error_ne_ok
      · obtain rfl := Step.keeps.inj hstep
        omega
      · obtain rfl := Step.keeps.inj hstep
        rw [hsack] at hread
        change (readBlocks ((size.toNat - 2) / 8) rest >>= fun l ↦ _) = _ at hread
        obtain ⟨l, hl, -⟩ := Except.bind_eq_ok.mp hread
        exact readBlocks_ne_ok (by omega) l hl
      · obtain rfl := Step.keeps.inj hstep
        rw [hts, h10] at hread
        change (readNtohU32 rest >>= fun p ↦ readNtohU32 p.2 >>= fun q ↦ _) = _ at hread
        obtain ⟨p, hp, hread⟩ := Except.bind_eq_ok.mp hread
        obtain ⟨q, hq, -⟩ := Except.bind_eq_ok.mp hread
        by_cases hfirst : rest.length < 4
        · exact readNtohU32_ne_ok hfirst p hp
        obtain ⟨data, hdata⟩ := exists_readNtohU32 (not_lt.mp hfirst)
        obtain rfl : p = (data, rest.drop 4) := Except.ok.inj (hp.symm.trans hdata)
        exact readNtohU32_ne_ok (by rw [List.length_drop]; omega) q hq
      · obtain rfl := Step.keeps.inj hstep
        rw [forKind_unknown (by simp [hend, hone, hmss, hscale, hperm, hsack, hts]), deserialize]
          at hread
        simp only [Buffer.readU8_cons, Except.ok_bind] at hread
        rw [if_neg hbad, Buffer.read, if_neg (by omega)] at hread
        exact absurd hread Except.error_ne_ok

theorem deserialize_stops (hstep : step (kind :: rest) = .stops) (beyond : List UInt8) :
    ∃ n option, (forKind kind).deserialize (kind :: rest ++ beyond) = .ok (n, option) ∧
      n ≠ option.getSerializedSize := by
  cases rest with
  | nil =>
    rw [step] at hstep
    split_ifs at hstep
  | cons size rest =>
    rw [step] at hstep
    split_ifs at hstep with hend hone
    rw [sizedStep] at hstep
    split_ifs at hstep with hmss h4 hscale h3 hperm h2 hsack hts h10 hzero hbad
    · rw [hscale]
      refine ⟨0, winScale 0, ?_, by decide⟩
      change (if size ≠ 3 then _ else _) = _
      rw [if_pos h3]
      rfl
    · rw [hperm]
      refine ⟨0, sackPermitted, ?_, by decide⟩
      change Except.ok (if size ≠ 2 then _ else _) = _
      rw [if_pos h2]
    · rw [hts]
      refine ⟨0, ts 0 0, ?_, by decide⟩
      change (if size ≠ 10 then _ else _) = _
      rw [if_pos h10]
      rfl
    · rw [forKind_unknown (by simp [hend, hone, hmss, hscale, hperm, hsack, hts])]
      refine ⟨0, unknown kind size [], ?_, ?_⟩
      · rw [List.cons_append, List.cons_append, deserialize]
        simp only [Buffer.readU8_cons, Except.ok_bind]
        rw [if_pos hbad]
        rfl
      · exact fun h ↦ hzero (UInt8.toNat_inj.mp h.symm)

theorem deserialize_loops (hstep : step (kind :: rest) = .loops) : ∃ option,
    (forKind kind).deserialize (kind :: rest) = .ok (0, option) ∧ option.getSerializedSize = 0 ∧
      option.getKind ≠ 0 := by
  cases rest with
  | nil =>
    rw [step] at hstep
    split_ifs at hstep
  | cons size rest =>
    rw [step] at hstep
    split_ifs at hstep with hend hone
    rw [sizedStep] at hstep
    split_ifs at hstep with hmss h4 hscale h3 hperm h2 hsack hts h10 hzero hbad
    rw [forKind_unknown (by simp [hend, hone, hmss, hscale, hperm, hsack, hts]), hzero]
    exact ⟨unknown kind 0 [], rfl, rfl, hend⟩

theorem deserialize_fails (hstep : step (kind :: rest) = .fails) (r : ℕ × TcpOption) :
    (forKind kind).deserialize (kind :: rest) ≠ .ok r := by
  intro hread
  cases rest with
  | nil =>
    rw [step] at hstep
    split_ifs at hstep with hend hone
    by_cases hknown : kind ∈ ([0, 1, 2, 3, 4, 5, 8] : List UInt8)
    · simp only [List.mem_cons, List.not_mem_nil, or_false] at hknown
      rcases hknown with rfl | rfl | rfl | rfl | rfl | rfl | rfl
      · exact hend rfl
      · exact hone rfl
      all_goals exact absurd hread Except.error_ne_ok
    · rw [forKind_unknown hknown] at hread
      exact absurd hread Except.error_ne_ok
  | cons size rest =>
    rw [step] at hstep
    split_ifs at hstep with hend hone
    rw [sizedStep] at hstep
    split_ifs at hstep with hmss h4 hscale h3 hperm h2 hsack hts h10 hzero hbad
    rw [hmss] at hread
    change (if size ≠ 4 then _ else _) = _ at hread
    rw [if_pos h4] at hread
    exact absurd hread Except.error_ne_ok

theorem deserialize_ends (hstep : step (kind :: rest) = .ends) : kind = 0 := by
  cases rest with
  | nil =>
    rw [step] at hstep
    split_ifs at hstep with hend
    exact hend
  | cons size rest =>
    rw [step] at hstep
    split_ifs at hstep with hend hone
    · exact hend
    · rw [sizedStep] at hstep
      split_ifs at hstep

end Option

end TcpOption

namespace TcpHeader

open TcpOption (Admissible forKind step)

/-! ## The loop -/

section Loop

variable {kind : UInt8} {rest i : List UInt8} {n : ℕ} {option : TcpOption}

theorem readOptions_turn (hread : (forKind kind).deserialize (kind :: i) = .ok (n, option))
    (fuel optionLen : ℕ) (options : List TcpOption) (optionsLen : UInt8) :
    readOptions (fuel + 1) (kind :: i) (optionLen + 1) options optionsLen =
      if n ≠ option.getSerializedSize then .ok (options, optionsLen)
      else if n ≤ optionLen + 1 then
        if option.getKind = 0 then
          readOptions fuel ((kind :: i).drop (n + (optionLen + 1 - n))) 0 (options ++ [option])
            (optionsLen + UInt8.ofNat n + UInt8.ofNat (optionLen + 1 - n))
        else readOptions fuel ((kind :: i).drop n) (optionLen + 1 - n) (options ++ [option])
          (optionsLen + UInt8.ofNat n)
      else .ok (options, optionsLen) := by
  conv_lhs => rw [readOptions, Buffer.readU8_cons, Except.ok_bind]
  change ((forKind kind).deserialize (kind :: i) >>= fun p ↦ _) = _
  rw [hread]
  rfl

theorem exists_deserialize_of_readOptions {fuel optionLen : ℕ} {options : List TcpOption}
    {optionsLen : UInt8} {r : List TcpOption × UInt8}
    (h : readOptions (fuel + 1) (kind :: i) (optionLen + 1) options optionsLen = .ok r) :
    ∃ p, (forKind kind).deserialize (kind :: i) = .ok p := by
  rw [readOptions, Buffer.readU8_cons, Except.ok_bind] at h
  obtain ⟨p, hp, -⟩ := Except.bind_eq_ok.mp h
  exact ⟨p, hp⟩

theorem readOptions_keeps (hstep : step (kind :: rest) = .keeps n) (hle : n ≤ rest.length + 1)
    (beyond : List UInt8) : ∃ option : TcpOption, option.getSerializedSize = n ∧ 0 < n ∧
      ∀ fuel options optionsLen,
        readOptions (fuel + 1) (kind :: rest ++ beyond) (rest.length + 1) options optionsLen =
          readOptions fuel ((kind :: rest).drop n ++ beyond) ((kind :: rest).drop n).length
            (options ++ [option]) (optionsLen + UInt8.ofNat n) := by
  obtain ⟨option, hread, hsize, hkind, hpos⟩ := TcpOption.deserialize_keeps hstep hle beyond
  refine ⟨option, hsize, hpos, fun fuel options optionsLen ↦ ?_⟩
  rw [List.cons_append] at hread ⊢
  rw [readOptions_turn hread, if_neg (not_not_intro hsize.symm), if_pos hle,
    if_neg hkind, ← List.cons_append, List.drop_append_of_le_length hle, List.length_drop]
  rfl

theorem readOptions_ends (hstep : step (kind :: rest) = .ends) (beyond : List UInt8) (fuel : ℕ)
    (options : List TcpOption) (optionsLen : UInt8) : ∃ optionsLen',
    readOptions (fuel + 1) (kind :: rest ++ beyond) (rest.length + 1) options optionsLen =
      .ok (options ++ [.opEnd], optionsLen') := by
  obtain rfl := TcpOption.deserialize_ends hstep
  have hread : (forKind 0).deserialize (0 :: (rest ++ beyond)) = .ok (1, .opEnd) := rfl
  refine ⟨optionsLen + 1 + UInt8.ofNat (rest.length + 1 - 1), ?_⟩
  rw [List.cons_append, readOptions_turn hread,
    if_neg (not_not_intro (by rfl)), if_pos (Nat.le_add_left 1 _), if_pos (by rfl), readOptions]
  rfl

theorem readOptions_stops (hstep : step (kind :: rest) = .stops) (beyond : List UInt8) (fuel : ℕ)
    (options : List TcpOption) (optionsLen : UInt8) :
    readOptions (fuel + 1) (kind :: rest ++ beyond) (rest.length + 1) options optionsLen =
      .ok (options, optionsLen) := by
  obtain ⟨n, option, hread, hne⟩ := TcpOption.deserialize_stops hstep beyond
  rw [List.cons_append] at hread ⊢
  rw [readOptions_turn hread, if_pos hne]

theorem readOptions_loops (hstep : step (kind :: rest) = .loops) (fuel : ℕ)
    (options : List TcpOption) (optionsLen : UInt8) :
    readOptions fuel (kind :: rest) (rest.length + 1) options optionsLen = .error .outOfFuel := by
  obtain ⟨option, hread, hsize, hkind⟩ := TcpOption.deserialize_loops hstep
  induction fuel generalizing options optionsLen with
  | zero => rw [readOptions]
  | succ fuel ih =>
    rw [readOptions_turn hread, if_neg (not_not_intro hsize.symm), if_pos (Nat.zero_le _),
      if_neg hkind]
    exact ih _ _

/-- The options of an area that is admissible fill it, up to three bytes. Whatever follows the area is
not read. -/
theorem readOptions_of_admissible {area : List UInt8} (h : Admissible area) (beyond : List UInt8)
    {fuel : ℕ} (hfuel : area.length ≤ fuel) (options : List TcpOption) (optionsLen : UInt8) :
    ∃ new optionsLen', readOptions fuel (area ++ beyond) area.length options optionsLen =
        .ok (options ++ new, optionsLen') ∧
      optionsSize new ≤ area.length ∧ area.length ≤ optionsSize new + 3 := by
  induction h generalizing fuel options optionsLen with
  | nil => exact ⟨[], optionsLen, by rw [List.length_nil, readOptions, List.append_nil],
      Nat.zero_le 0, Nat.zero_le 3⟩
  | @keeps area n hstep hle _ ih =>
    cases area with
    | nil => cases hstep
    | cons kind rest =>
      obtain ⟨fuel, rfl⟩ := Nat.exists_eq_succ_of_ne_zero (Nat.ne_of_gt (Nat.zero_lt_of_lt hfuel))
      rw [List.length_cons] at hle hfuel ⊢
      obtain ⟨option, hsize, hpos, hturn⟩ := readOptions_keeps hstep hle beyond
      have hdrop : ((kind :: rest).drop n).length = rest.length + 1 - n := List.length_drop
      have hfewer : ((kind :: rest).drop n).length ≤ fuel := by
        rw [hdrop]
        omega
      obtain ⟨new, optionsLen', hrest, hupper, hlower⟩ := ih hfewer (options ++ [option])
        (optionsLen + UInt8.ofNat n)
      refine ⟨option :: new, optionsLen', ?_, ?_, ?_⟩
      · rw [hturn, hrest, List.append_assoc]
        rfl
      · rw [optionsSize_cons, hsize]
        omega
      · rw [optionsSize_cons, hsize]
        omega
  | @ends area hstep hle =>
    cases area with
    | nil => cases hstep
    | cons kind rest =>
      obtain ⟨fuel, rfl⟩ := Nat.exists_eq_succ_of_ne_zero (Nat.ne_of_gt (Nat.zero_lt_of_lt hfuel))
      obtain ⟨optionsLen', hturn⟩ := readOptions_ends hstep beyond fuel options optionsLen
      exact ⟨[.opEnd], optionsLen', hturn, Nat.le_add_left 1 _, hle⟩
  | @stops area hstep hle =>
    cases area with
    | nil => cases hstep
    | cons kind rest =>
      obtain ⟨fuel, rfl⟩ := Nat.exists_eq_succ_of_ne_zero (Nat.ne_of_gt (Nat.zero_lt_of_lt hfuel))
      refine ⟨[], optionsLen, ?_, Nat.zero_le _, hle⟩
      rw [List.append_nil]
      exact readOptions_stops hstep beyond fuel options optionsLen

theorem admissible_of_readOptions {fuel : ℕ} {area : List UInt8} {options : List TcpOption}
    {optionsLen : UInt8} {r : List TcpOption × UInt8}
    (h : readOptions fuel area area.length options optionsLen = .ok r) :
    ∃ new, r.1 = options ++ new ∧ optionsSize new ≤ area.length ∧
      (area.length ≤ optionsSize new + 3 → Admissible area) := by
  induction fuel generalizing area options optionsLen with
  | zero =>
    cases area with
    | nil =>
      rw [List.length_nil, readOptions] at h
      obtain rfl := Except.ok.inj h
      exact ⟨[], (List.append_nil _).symm, Nat.zero_le 0, fun _ ↦ .nil⟩
    | cons kind rest => exact absurd h Except.error_ne_ok
  | succ fuel ih =>
    cases area with
    | nil =>
      rw [List.length_nil, readOptions] at h
      obtain rfl := Except.ok.inj h
      exact ⟨[], (List.append_nil _).symm, Nat.zero_le 0, fun _ ↦ .nil⟩
    | cons kind rest =>
      rw [List.length_cons] at h ⊢
      obtain ⟨p, hp⟩ := exists_deserialize_of_readOptions h
      cases hstep : step (kind :: rest) with
      | keeps n =>
        by_cases hle : n ≤ rest.length + 1
        · obtain ⟨option, hsize, -, hturn⟩ := readOptions_keeps hstep hle []
          rw [List.append_nil] at hturn
          rw [hturn, List.append_nil] at h
          obtain ⟨new, hnew, hupper, hrest⟩ := ih h
          have hdrop : ((kind :: rest).drop n).length = rest.length + 1 - n := List.length_drop
          refine ⟨option :: new, ?_, ?_, fun hlower ↦ ?_⟩
          · rw [hnew, List.append_assoc]
            rfl
          · rw [optionsSize_cons, hsize]
            omega
          · rw [optionsSize_cons, hsize] at hlower
            exact .keeps hstep hle (hrest (by omega))
        · exact absurd hp (TcpOption.deserialize_keeps_ne_ok hstep (not_le.mp hle) p)
      | ends =>
        obtain ⟨optionsLen', hturn⟩ := readOptions_ends hstep [] fuel options optionsLen
        rw [List.append_nil] at hturn
        obtain rfl := Except.ok.inj (hturn.symm.trans h)
        exact ⟨[.opEnd], rfl, Nat.le_add_left 1 _, fun hlower ↦ .ends hstep hlower⟩
      | stops =>
        have hturn := readOptions_stops hstep [] fuel options optionsLen
        rw [List.append_nil] at hturn
        obtain rfl := Except.ok.inj (hturn.symm.trans h)
        exact ⟨[], (List.append_nil _).symm, Nat.zero_le _, fun hlower ↦ .stops hstep hlower⟩
      | loops => exact absurd ((readOptions_loops hstep _ _ _).symm.trans h) Except.error_ne_ok
      | fails => exact absurd hp (TcpOption.deserialize_fails hstep p)

end Loop

/-! ## The whole header -/

/-- The data offset, in words of four bytes, from its byte. -/
def dataOffset (start : List UInt8) : ℕ := (start.getD 12 0 >>> 4).toNat

/-- The bytes that the data offset leaves for the options. -/
def optionArea (start : List UInt8) : List UInt8 := (start.take (4 * dataOffset start)).drop 20

/-- `Deserialize` returns, and what it returns is the length that the data offset says. It does so too
where the bytes end that the data offset counts: none behind them is read. -/
def ParsesWithin (checksum : TcpHeader → List UInt8 → UInt16) (h₀ : TcpHeader)
    (start : List UInt8) : Prop :=
  ∃ enough, ∀ fuel ≥ enough, ∃ h h' : TcpHeader,
    deserialize fuel checksum h₀ start = .ok (4 * dataOffset start, h) ∧
    deserialize fuel checksum h₀ (start.take (4 * dataOffset start)) =
      .ok (4 * dataOffset start, h')

section Whole

variable {start i : List UInt8} {fuel : ℕ} {checksum : TcpHeader → List UInt8 → UInt16}
  {h : TcpHeader}

theorem dataOffset_lt (start : List UInt8) : dataOffset start < 16 := by
  have hlt := (start.getD 12 0).toNat_lt
  rw [dataOffset, UInt8.toNat_shiftRight, Nat.shiftRight_eq_div_pow]
  change _ / 16 < 16
  omega

theorem exists_readField (hlen : 14 ≤ start.length) : ∃ field,
    readNtohU16 (start.drop 12) = .ok (field, start.drop 14) ∧
      (field >>> 12).toUInt8.toNat = dataOffset start := by
  have hget : start.getD 12 0 = (start.drop 12).getD 0 0 := by
    rw [List.getD_eq_getElem?_getD, List.getD_eq_getElem?_getD, List.getElem?_drop]
  have hdrop : start.drop 14 = (start.drop 12).drop 2 := by rw [List.drop_drop]
  have hrest : 2 ≤ (start.drop 12).length := by
    rw [List.length_drop]
    omega
  rw [dataOffset, hget, hdrop]
  generalize start.drop 12 = i at hrest
  obtain _ | ⟨b₀, _ | ⟨b₁, i⟩⟩ := i
  · exact absurd hrest (by decide)
  · exact absurd hrest (by simp)
  · refine ⟨_, rfl, ?_⟩
    have h₀ := b₀.toNat_lt
    have h₁ := b₁.toNat_lt
    rw [UInt16.toNat_toUInt8, UInt16.toNat_shiftRight, Buffer.toNat_shiftLeft_or16
      (by rw [UInt8.toNat_toUInt16]; omega), UInt8.toNat_toUInt16, List.getD_cons_zero,
      UInt8.toNat_shiftRight, Nat.shiftRight_eq_div_pow, Nat.shiftRight_eq_div_pow]
    change (b₀.toNat * 256 + b₁.toNat) / 4096 % 256 = b₀.toNat / 16
    omega

theorem exists_deserializeOptions (hlen : 20 ≤ start.length)
    (checksum : TcpHeader → List UInt8 → UInt16) (h₀ : TcpHeader) : ∃ h : TcpHeader,
    h.m_length.toNat = dataOffset start ∧ ∀ fuel, deserialize fuel checksum h₀ start =
      deserializeOptions fuel checksum h start (start.drop 20) := by
  have hread16 : ∀ n, n + 2 ≤ 20 → ∃ data,
      readNtohU16 (start.drop n) = .ok (data, start.drop (n + 2)) := fun n hn ↦ by
    rw [← List.drop_drop]
    exact TcpOption.exists_readNtohU16 (by rw [List.length_drop]; omega)
  have hread32 : ∀ n, n + 4 ≤ 20 → ∃ data,
      readNtohU32 (start.drop n) = .ok (data, start.drop (n + 4)) := fun n hn ↦ by
    rw [← List.drop_drop]
    exact TcpOption.exists_readNtohU32 (by rw [List.length_drop]; omega)
  obtain ⟨sourcePort, h0⟩ := hread16 0 (by decide)
  obtain ⟨destinationPort, h2⟩ := hread16 2 (by decide)
  obtain ⟨sequenceNumber, h4⟩ := hread32 4 (by decide)
  obtain ⟨ackNumber, h8⟩ := hread32 8 (by decide)
  have hfield : 14 ≤ start.length := (by decide : 14 ≤ 20).trans hlen
  obtain ⟨field, h12, hoffset⟩ := exists_readField hfield
  obtain ⟨windowSize, h14⟩ := hread16 14 (by decide)
  obtain ⟨urgentPointer, h18⟩ := hread16 18 (by decide)
  refine ⟨{ h₀ with
    m_sourcePort := sourcePort
    m_destinationPort := destinationPort
    m_sequenceNumber := ⟨sequenceNumber.toBitVec⟩
    m_ackNumber := ⟨ackNumber.toBitVec⟩
    m_flags := (field &&& 255).toUInt8
    m_length := (field >>> 12).toUInt8
    m_windowSize := windowSize
    m_urgentPointer := urgentPointer
    m_options := []
    m_optionsLen := 0 }, hoffset, fun fuel ↦ ?_⟩
  rw [List.drop_zero] at h0
  rw [deserialize, h0, Except.ok_bind]
  dsimp only
  rw [h2, Except.ok_bind]
  dsimp only
  rw [h4, Except.ok_bind]
  dsimp only
  rw [h8, Except.ok_bind]
  dsimp only
  rw [h12, Except.ok_bind]
  dsimp only
  rw [h14, Except.ok_bind]
  dsimp only
  rw [List.drop_drop, h18, Except.ok_bind]

theorem optionLen_eq (hlength : 5 ≤ h.m_length.toNat) (hle : h.m_length.toNat < 16) :
    sub32 h.m_length.toNat 5 * 4 % 2 ^ 32 = 4 * h.m_length.toNat - 20 ∧
      ¬m_maxOptionsLen < 4 * h.m_length.toNat - 20 := by
  rw [sub32_eq hlength (by omega), m_maxOptionsLen]
  omega

theorem deserializeOptions_of_readOptions (checksum : TcpHeader → List UInt8 → UInt16)
    (start : List UInt8) (hlength : 5 ≤ h.m_length.toNat) (hle : h.m_length.toNat < 16) {options : List TcpOption} {optionsLen : UInt8}
    (hread : readOptions fuel i (4 * h.m_length.toNat - 20) [] 0 = .ok (options, optionsLen)) :
    ∃ h', deserializeOptions fuel checksum h start i = .ok (h'.getSerializedSize, h') ∧
      h'.m_options = options := by
  obtain ⟨heq, hmax⟩ := optionLen_eq hlength hle
  rw [deserializeOptions]
  dsimp only
  rw [heq, if_neg hmax, hread, Except.ok_bind]
  exact ⟨_, rfl, rfl⟩

theorem readOptions_of_deserializeOptions (hlength : 5 ≤ h.m_length.toNat)
    (hle : h.m_length.toNat < 16) {n : ℕ} {h' : TcpHeader}
    (hread : deserializeOptions fuel checksum h start i = .ok (n, h')) :
    n = h'.getSerializedSize ∧ ∃ optionsLen,
      readOptions fuel i (4 * h.m_length.toNat - 20) [] 0 = .ok (h'.m_options, optionsLen) := by
  obtain ⟨heq, hmax⟩ := optionLen_eq hlength hle
  rw [deserializeOptions] at hread
  dsimp only at hread
  rw [heq, if_neg hmax] at hread
  obtain ⟨⟨options, optionsLen⟩, hoptions, hread⟩ := Except.bind_eq_ok.mp hread
  cases hread
  exact ⟨rfl, optionsLen, hoptions⟩

/-- With the options that are read, the length is the one of the data offset just if at most three
bytes are left. -/
theorem getSerializedSize_eq_iff {d : ℕ} (hlower : 5 ≤ d) (hupper : d < 16)
    (hle : optionsSize h.m_options ≤ 4 * d - 20) :
    h.getSerializedSize = 4 * d ↔ 4 * d - 20 ≤ optionsSize h.m_options + 3 := by
  rw [getSerializedSize_eq (by omega)]
  omega

theorem deserialize_of_admissible {area beyond : List UInt8} (hlen : 20 ≤ start.length)
    (hoffset : 5 ≤ dataOffset start) (harea : area.length = 4 * dataOffset start - 20)
    (hdrop : start.drop 20 = area ++ beyond) (hadmissible : Admissible area)
    (checksum : TcpHeader → List UInt8 → UInt16) (h₀ : TcpHeader) (hfuel : area.length ≤ fuel) :
    ∃ h, deserialize fuel checksum h₀ start = .ok (4 * dataOffset start, h) := by
  have hlt := dataOffset_lt start
  obtain ⟨h, hlength, hread⟩ := exists_deserializeOptions hlen checksum h₀
  obtain ⟨new, optionsLen, hloop, hupper, hlower⟩ :=
    readOptions_of_admissible hadmissible beyond hfuel [] 0
  rw [← hdrop, harea, ← hlength, List.nil_append] at hloop
  rw [← hlength] at hoffset hlt
  obtain ⟨h', hread', hoptions⟩ :=
    deserializeOptions_of_readOptions checksum start hoffset hlt hloop
  refine ⟨h', ?_⟩
  rw [harea, ← hlength, ← hoptions] at hupper hlower
  rw [hread, hread', (getSerializedSize_eq_iff hoffset hlt hupper).mpr hlower, hlength]

/-- **The options are parsed within the bytes of the data offset, which is returned, exactly if they
are admissible.** -/
theorem parsesWithin_iff (checksum : TcpHeader → List UInt8 → UInt16) (h₀ : TcpHeader)
    (hlen : 20 ≤ start.length) (hoffset : 5 ≤ dataOffset start)
    (hle : 4 * dataOffset start ≤ start.length) :
    ParsesWithin checksum h₀ start ↔ Admissible (optionArea start) := by
  have hlt := dataOffset_lt start
  have htake : (start.take (4 * dataOffset start)).length = 4 * dataOffset start :=
    List.length_take_of_le hle
  have hget : (start.take (4 * dataOffset start)).getD 12 0 = start.getD 12 0 := by
    rw [List.getD_eq_getElem?_getD, List.getElem?_take_of_lt (by omega), List.getD_eq_getElem?_getD]
  have hsame : dataOffset (start.take (4 * dataOffset start)) = dataOffset start :=
    congrArg (fun b : UInt8 ↦ (b >>> 4).toNat) hget
  have harea : (optionArea start).length = 4 * dataOffset start - 20 := by
    rw [optionArea, List.length_drop, htake]
  have hprefix : 20 ≤ (start.take (4 * dataOffset start)).length := by
    rw [htake]
    omega
  constructor
  · rintro ⟨enough, hparses⟩
    obtain ⟨-, h', -, hread⟩ := hparses enough le_rfl
    obtain ⟨h, hlength, hfixed⟩ := exists_deserializeOptions hprefix checksum h₀
    rw [hsame] at hlength
    rw [hfixed] at hread
    rw [← hlength] at hoffset hlt
    obtain ⟨hsize, optionsLen, hloop⟩ := readOptions_of_deserializeOptions hoffset hlt hread
    have harea' : readOptions enough (optionArea start) (optionArea start).length [] 0 =
        .ok (h'.m_options, optionsLen) := by
      rw [harea, ← hlength]
      exact hloop
    obtain ⟨new, hnew, hupper, hadmissible⟩ := admissible_of_readOptions harea'
    obtain rfl : h'.m_options = new := hnew
    rw [hlength] at hoffset hlt
    rw [harea] at hupper hadmissible
    exact hadmissible ((getSerializedSize_eq_iff hoffset hlt hupper).mp hsize.symm)
  · intro hadmissible
    refine ⟨(optionArea start).length, fun fuel hfuel ↦ ?_⟩
    have hwhole : start.drop 20 = optionArea start ++ start.drop (4 * dataOffset start) := by
      rw [optionArea, ← List.drop_append_of_le_length hprefix, List.take_append_drop]
    have hpart : (start.take (4 * dataOffset start)).drop 20 = optionArea start ++ [] := by
      rw [optionArea, List.append_nil]
    obtain ⟨h, hread⟩ := deserialize_of_admissible hlen hoffset harea hwhole hadmissible checksum
      h₀ hfuel
    obtain ⟨h', hread'⟩ := deserialize_of_admissible hprefix (by rw [hsame]; exact hoffset)
      (by rw [hsame]; exact harea) hpart hadmissible checksum h₀ hfuel
    rw [hsame] at hread'
    exact ⟨h, h', hread, hread'⟩

end Whole

/-- A header of eight words: an MSS option, an unknown one, a `NOP` and an `END` with two bytes of
padding behind it. -/
def paddedHeader : List UInt8 :=
  [0, 80, 0, 81, 0, 0, 0, 1, 0, 0, 0, 2, 128, 16, 255, 255, 0, 0, 0, 0, 2, 4, 5, 180, 77, 4, 9, 9, 1,
    0, 0, 0, 42]

theorem admissible_paddedHeader : Admissible (optionArea paddedHeader) := by
  have hmss : step (optionArea paddedHeader) = .keeps 4 := rfl
  have hunknown : step ((optionArea paddedHeader).drop 4) = .keeps 4 := rfl
  have hnop : step (((optionArea paddedHeader).drop 4).drop 4) = .keeps 1 := rfl
  apply Admissible.keeps hmss (by decide)
  apply Admissible.keeps hunknown (by decide)
  apply Admissible.keeps hnop (by decide)
  exact .ends (by decide) (by decide)

/-- The header is parsed to its end, and the payload behind it is not read. -/
theorem parsesWithin_paddedHeader : 20 ≤ paddedHeader.length ∧ 5 ≤ dataOffset paddedHeader ∧
    4 * dataOffset paddedHeader ≤ paddedHeader.length ∧
    ParsesWithin (fun _ _ ↦ 0) emptyHeader paddedHeader :=
  ⟨by decide, by decide, by decide,
    (parsesWithin_iff _ _ (by decide) (by decide) (by decide)).mpr admissible_paddedHeader⟩

/-- A header of six words with an unknown option whose length octet is 0. -/
def zeroLengthOption : List UInt8 :=
  [0, 80, 0, 81, 0, 0, 0, 1, 0, 0, 0, 2, 96, 16, 255, 255, 0, 0, 0, 0, 77, 0, 0, 0]

/-- The option is read for ever. -/
theorem not_parsesWithin_zeroLengthOption : 20 ≤ zeroLengthOption.length ∧
    5 ≤ dataOffset zeroLengthOption ∧ 4 * dataOffset zeroLengthOption ≤ zeroLengthOption.length ∧
    ¬ParsesWithin (fun _ _ ↦ 0) emptyHeader zeroLengthOption := by
  refine ⟨by decide, by decide, by decide, ?_⟩
  rintro ⟨enough, hparses⟩
  obtain ⟨h, -, hread, -⟩ := hparses enough le_rfl
  obtain ⟨h₁, hlength, hfixed⟩ := exists_deserializeOptions
    (by decide : 20 ≤ zeroLengthOption.length) (fun _ _ ↦ 0) emptyHeader
  rw [show dataOffset zeroLengthOption = 6 by decide] at hlength
  rw [hfixed] at hread
  obtain ⟨-, optionsLen, hloop⟩ := readOptions_of_deserializeOptions (by omega) (by omega) hread
  rw [hlength] at hloop
  have hforever := readOptions_loops (by decide : step (77 :: [0, 0, 0]) = .loops) enough [] 0
  exact absurd (hforever.symm.trans hloop) Except.error_ne_ok

end TcpHeader

end Ns3
