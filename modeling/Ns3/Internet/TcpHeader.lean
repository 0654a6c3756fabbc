import Ns3.Internet.TcpOption
import Ns3.Library.Partial

/-!
# TCP headers

The length of a `TcpHeader` is computed three times: `AppendOption` counts the bytes of the options in
`m_optionsLen` and derives `m_length`, which goes into the data offset field; `CalculateHeaderLength`
adds up the sizes of the options; and `Serialize` writes the options and pads them with `END` bytes,
the first of which the parser turns into an option.

`AppendOption` compares the sum of `m_optionsLen` and the size of the option in 32 bits. A SACK option
with about `2 ^ 29` blocks passes although it does not fit; all others are read back as they were.

The checksum that is written and checked is a parameter: what is read back does not depend on it.
-/

namespace Ns3

open Buffer (Failure Writer readU8 readNtohU16 readNtohU32)

/-- The members of a `TcpHeader` other than those for the pseudo header of the checksum. -/
structure TcpHeader where
  m_sourcePort : UInt16
  m_destinationPort : UInt16
  m_sequenceNumber : SequenceNumber32
  m_ackNumber : SequenceNumber32
  m_length : UInt8
  m_flags : UInt8
  m_windowSize : UInt16
  m_urgentPointer : UInt16
  m_calcChecksum : Bool
  m_goodChecksum : Bool
  m_options : List TcpOption
  m_optionsLen : UInt8
  deriving DecidableEq, Repr

namespace TcpHeader

def m_maxOptionsLen : ℕ := 40

def appendOption (h : TcpHeader) (option : TcpOption) : Bool × TcpHeader :=
  if add32 h.m_optionsLen.toNat option.getSerializedSize ≤ m_maxOptionsLen then
    if !TcpOption.isKindKnown option.getKind then (false, h)
    else if option.getKind ≠ 0 then
      let optionsLen := h.m_optionsLen + UInt8.ofNat option.getSerializedSize
      let totalLen := 20 + 3 + optionsLen.toNat
      (true, { h with
        m_options := h.m_options ++ [option]
        m_optionsLen := optionsLen
        m_length := UInt8.ofNat (totalLen >>> 2) })
    else (true, h)
  else (false, h)

/-- A header with the members of `h`, to which options have been appended. -/
def appendOptions (h : TcpHeader) (options : List TcpOption) : TcpHeader :=
  options.foldl (fun h option ↦ (h.appendOption option).2)
    { h with m_length := 5, m_options := [], m_optionsLen := 0 }

def calculateHeaderLength (h : TcpHeader) : UInt8 :=
  let len := h.m_options.foldl (fun len option ↦ add32 len option.getSerializedSize) 20
  let len := if len % 4 ≠ 0 then add32 len (4 - len % 4) else len
  UInt8.ofNat (len >>> 2)

def getSerializedSize (h : TcpHeader) : ℕ := h.calculateHeaderLength.toNat * 4

/-- The data offset and the flags. -/
def field (h : TcpHeader) : UInt16 := (h.m_length.toUInt16 <<< 12) ||| h.m_flags.toUInt16

/-- The part of the header before the options. -/
def fixedPart (h : TcpHeader) : List UInt8 :=
  (Writer.writeHtonU16 h.m_sourcePort).bytes ++ ((Writer.writeHtonU16 h.m_destinationPort).bytes ++
    ((Writer.writeHtonU32 ⟨h.m_sequenceNumber.m_value⟩).bytes ++
      ((Writer.writeHtonU32 ⟨h.m_ackNumber.m_value⟩).bytes ++
        ((Writer.writeHtonU16 h.field).bytes ++ ((Writer.writeHtonU16 h.m_windowSize).bytes ++
          ((Writer.writeHtonU16 0).bytes ++ (Writer.writeHtonU16 h.m_urgentPointer).bytes))))))

/-- The loop of `Serialize` over the options: the buffer, the place in it and `optionLen`. -/
def writeOptions : List TcpOption → List UInt8 × ℕ × ℕ → List UInt8 × ℕ × ℕ
  | [], w => w
  | op :: ops, (buffer, i, optionLen) =>
    writeOptions ops (overwrite buffer i op.serialize, i + op.getSerializedSize,
      add32 optionLen op.getSerializedSize)

/-- `Serialize` into a buffer with the bytes `start`. -/
def serialize (checksum : TcpHeader → List UInt8 → UInt16) (h : TcpHeader) (start : List UInt8) :
    List UInt8 :=
  let (buffer, i, optionLen) := writeOptions h.m_options (overwrite start 0 h.fixedPart, 20, 0)
  -- one `END` for each turn of the loop `while (optionLen % 4)`
  let buffer := overwrite buffer i (List.replicate ((4 - optionLen % 4) % 4) 0)
  if h.m_calcChecksum = true then
    let checksum := checksum h buffer
    overwrite buffer 16 [checksum.toUInt8, (checksum >>> 8).toUInt8]
  else buffer

/-- The loop of `Deserialize`: the options and `m_optionsLen`. -/
def readOptions : ℕ → List UInt8 → ℕ → List TcpOption → UInt8 →
    Except Failure (List TcpOption × UInt8)
  | _, _, 0, options, optionsLen => .ok (options, optionsLen)
  | 0, _, _ + 1, _, _ => .error .outOfFuel
  | fuel + 1, i, optionLen + 1, options, optionsLen => do
    let (kind, _) ← readU8 i
    let op := TcpOption.createOption (if TcpOption.isKindKnown kind then kind else 255)
    let (optionSize, op) ← op.deserialize i
    if optionSize ≠ op.getSerializedSize then return (options, optionsLen)
    if optionSize ≤ optionLen + 1 then
      let rest := optionLen + 1 - optionSize
      let options := options ++ [op]
      let optionsLen := optionsLen + UInt8.ofNat optionSize
      if op.getKind = 0 then
        -- the bytes after an `END` are skipped
        readOptions fuel (i.drop (optionSize + rest)) 0 options (optionsLen + UInt8.ofNat rest)
      else readOptions fuel (i.drop optionSize) rest options optionsLen
    else return (options, optionsLen)

/-- `Deserialize` from a buffer with the bytes `start` on, after the fixed part, which `i` follows:
the size it returns and the header. -/
def deserializeOptions (fuel : ℕ) (checksum : TcpHeader → List UInt8 → UInt16) (h : TcpHeader)
    (start i : List UInt8) : Except Failure (ℕ × TcpHeader) :=
  let optionLen := sub32 h.m_length.toNat 5 * 4 % 2 ^ 32
  if m_maxOptionsLen < optionLen then .ok (20, h)
  else do
    let (m_options, m_optionsLen) ← readOptions fuel i optionLen [] 0
    let h := { h with m_options := m_options, m_optionsLen := m_optionsLen }
    let goodChecksum := if h.m_calcChecksum then decide (checksum h start = 0) else h.m_goodChecksum
    let h := { h with m_goodChecksum := goodChecksum }
    return (h.getSerializedSize, h)

/-- `Deserialize` from a buffer with the bytes `start` on: the size it returns and the header. -/
def deserialize (fuel : ℕ) (checksum : TcpHeader → List UInt8 → UInt16) (h : TcpHeader)
    (start : List UInt8) : Except Failure (ℕ × TcpHeader) := do
  let (m_sourcePort, i) ← readNtohU16 start
  let (m_destinationPort, i) ← readNtohU16 i
  let (sequenceNumber, i) ← readNtohU32 i
  let (ackNumber, i) ← readNtohU32 i
  let (field, i) ← readNtohU16 i
  let (m_windowSize, i) ← readNtohU16 i
  let (m_urgentPointer, i) ← readNtohU16 (i.drop 2)
  deserializeOptions fuel checksum { h with
    m_sourcePort := m_sourcePort
    m_destinationPort := m_destinationPort
    m_sequenceNumber := ⟨sequenceNumber.toBitVec⟩
    m_ackNumber := ⟨ackNumber.toBitVec⟩
    m_flags := (field &&& 255).toUInt8
    m_length := (field >>> 12).toUInt8
    m_windowSize := m_windowSize
    m_urgentPointer := m_urgentPointer
    m_options := []
    m_optionsLen := 0 } start i

/-! ## The round trip -/

/-- `h'` has the ports, numbers, flags, window, urgent pointer and options of `h`. -/
structure ReadAs (h h' : TcpHeader) : Prop where
  sourcePort : h'.m_sourcePort = h.m_sourcePort
  destinationPort : h'.m_destinationPort = h.m_destinationPort
  sequenceNumber : h'.m_sequenceNumber = h.m_sequenceNumber
  ackNumber : h'.m_ackNumber = h.m_ackNumber
  flags : h'.m_flags = h.m_flags
  windowSize : h'.m_windowSize = h.m_windowSize
  urgentPointer : h'.m_urgentPointer = h.m_urgentPointer
  options : h'.m_options = h.m_options ∨ h'.m_options = h.m_options ++ [.opEnd]

/-- The header is written, in front of any payload, as bytes of its size, from which it is read. -/
def RoundTrips (checksum : TcpHeader → List UInt8 → UInt16) (h : TcpHeader) : Prop :=
  ∀ payload : List UInt8, ∃ bytes : List UInt8, bytes.length = h.getSerializedSize ∧
    (∀ space : List UInt8, space.length = h.getSerializedSize →
      h.serialize checksum (space ++ payload) = bytes ++ payload) ∧
    ((bytes.getD 12 0) >>> 4).toNat * 4 = h.getSerializedSize ∧
    ∀ h₀ : TcpHeader, ∃ enough, ∀ fuel ≥ enough, ∃ h',
      deserialize fuel checksum h₀ (bytes ++ payload) = .ok (h.getSerializedSize, h') ∧ h.ReadAs h'

/-- The number of blocks of a SACK option is so small that adding its size does not overflow. -/
def SmallOption : TcpOption → Prop
  | .sack m_sackList => m_sackList.length < 2 ^ 29 - 5
  | _ => True

instance : DecidablePred SmallOption
  | .sack m_sackList => inferInstanceAs (Decidable (m_sackList.length < 2 ^ 29 - 5))
  | .opEnd | .nop | .mss _ | .winScale _ | .sackPermitted | .ts _ _ | .unknown _ _ _ =>
    .isTrue trivial

/-! ### The options that are appended -/

/-- The size of all options. -/
def optionsSize (options : List TcpOption) : ℕ := (options.map TcpOption.getSerializedSize).sum

@[simp] theorem optionsSize_cons (option : TcpOption) (options : List TcpOption) :
    optionsSize (option :: options) = option.getSerializedSize + optionsSize options := rfl

theorem optionsSize_append (options options' : List TcpOption) :
    optionsSize (options ++ options') = optionsSize options + optionsSize options' := by
  rw [optionsSize, List.map_append, List.sum_append]
  rfl

/-- What `AppendOption` keeps up, as long as no size overflows. -/
structure Appended (h : TcpHeader) : Prop where
  optionsLen : h.m_optionsLen.toNat = optionsSize h.m_options
  le : optionsSize h.m_options ≤ 40
  length : h.m_length.toNat = (23 + optionsSize h.m_options) / 4
  fits : ∀ option ∈ h.m_options, option.Fits ∧ option.getKind ≠ 0

theorem options_appendOption (h : TcpHeader) (option : TcpOption) :
    h.m_options <+: (h.appendOption option).2.m_options := by
  rw [appendOption]
  split_ifs
  · exact List.prefix_rfl
  · exact List.prefix_append _ _
  · exact List.prefix_rfl
  · exact List.prefix_rfl

theorem options_foldl (options : List TcpOption) (h : TcpHeader) :
    h.m_options <+: (options.foldl (fun h option ↦ (h.appendOption option).2) h).m_options := by
  induction options generalizing h with
  | nil => exact List.prefix_rfl
  | cons option options ih => exact (options_appendOption h option).trans (ih _)

theorem fits_of_small {n : ℕ} {option : TcpOption} (hknown : ∀ k s c, option ≠ .unknown k s c)
    (hsmall : SmallOption option) (hn : n ≤ 40)
    (hle : add32 n option.getSerializedSize ≤ m_maxOptionsLen) :
    option.Fits ∧ n + option.getSerializedSize ≤ 40 := by
  rw [m_maxOptionsLen] at hle
  have hadd : n + option.getSerializedSize < 2 ^ 32 → n + option.getSerializedSize ≤ 40 :=
    fun h ↦ (add32_eq h).symm.le.trans hle
  cases option with
  | unknown k s c => exact absurd rfl (hknown k s c)
  | sack m_sackList =>
    have hlt : m_sackList.length < 2 ^ 29 - 5 := hsmall
    have hsize : (TcpOption.sack m_sackList).getSerializedSize = 2 + m_sackList.length * 8 :=
      Nat.mod_eq_of_lt (by omega)
    have hroom := hadd (by omega)
    refine ⟨?_, hroom⟩
    change m_sackList.length ≤ 4
    omega
  | _ => exact ⟨trivial, hadd (by simp only [TcpOption.getSerializedSize]; omega)⟩

theorem Appended.appendOption {h : TcpHeader} (hh : h.Appended) {option : TcpOption}
    (hknown : ∀ k s c, option ≠ .unknown k s c)
    (hsmall : ∀ o ∈ (h.appendOption option).2.m_options, SmallOption o) :
    (h.appendOption option).2.Appended := by
  rw [TcpHeader.appendOption] at hsmall ⊢
  split_ifs at hsmall ⊢ with hle hkind hend
  · exact hh
  · have hn : h.m_optionsLen.toNat ≤ 40 := hh.optionsLen.trans_le hh.le
    have hlast := hsmall option (List.mem_append_right _ List.mem_cons_self)
    obtain ⟨hfits, hroom⟩ := fits_of_small hknown hlast hn hle
    have hsum : optionsSize (h.m_options ++ [option]) =
        optionsSize h.m_options + option.getSerializedSize := optionsSize_append _ _
    have hlen : (h.m_optionsLen + UInt8.ofNat option.getSerializedSize).toNat =
        optionsSize h.m_options + option.getSerializedSize := by
      rw [UInt8.toNat_add, UInt8.toNat_ofNat', ← hh.optionsLen]
      omega
    rw [hh.optionsLen] at hroom
    refine ⟨hlen.trans hsum.symm, hsum.trans_le hroom, ?_, ?_⟩
    · change (UInt8.ofNat _).toNat = (23 + optionsSize (h.m_options ++ [option])) / 4
      rw [hlen, hsum, Nat.shiftRight_eq_div_pow, UInt8.toNat_ofNat']
      omega
    · intro o ho
      rcases List.mem_append.mp ho with ho | ho
      · exact hh.fits o ho
      · rw [List.mem_singleton.mp ho]
        exact ⟨hfits, hend⟩
  · exact hh
  · exact hh

/-- **All options are counted if the ones that the header has are small.** -/
theorem appended_appendOptions {h : TcpHeader} {options : List TcpOption}
    (hknown : ∀ o ∈ options, ∀ k s c, o ≠ .unknown k s c)
    (hsmall : ∀ o ∈ (h.appendOptions options).m_options, SmallOption o) :
    (h.appendOptions options).Appended := by
  have hempty : Appended { h with m_length := 5, m_options := [], m_optionsLen := 0 } :=
    ⟨rfl, Nat.zero_le 40, show 5 = 23 / 4 by decide, by simp⟩
  rw [appendOptions] at hsmall ⊢
  generalize ({ h with m_length := 5, m_options := [], m_optionsLen := 0 } : TcpHeader) = h₀
    at hempty hsmall ⊢
  induction options generalizing h₀ with
  | nil => exact hempty
  | cons option options ih =>
    refine ih (fun o ho ↦ hknown o (List.mem_cons_of_mem _ ho)) _ (hempty.appendOption ?_ ?_) hsmall
    · exact hknown option List.mem_cons_self
    · -- an option that is stored now is among the ones of the final header
      exact fun o ho ↦ hsmall o ((options_foldl options _).subset ho)

/-! ### Writing -/

section Appended

variable {h : TcpHeader} (hh : h.Appended)

/-- The number of `END` bytes after options of size `n`. -/
def padding (n : ℕ) : ℕ := (4 - n % 4) % 4

theorem overwrite_append {α : Type*} (l l' l₀ : List α) :
    overwrite (l ++ l₀) l.length l' = l ++ (l' ++ l₀.drop l'.length) := by
  rw [overwrite, List.take_left, List.append_assoc, List.drop_append]
  simp

theorem writeOptions_append {options : List TcpOption} (hfits : ∀ o ∈ options, o.Fits)
    (l l₀ : List UInt8) {n : ℕ} (hn : n + optionsSize options < 2 ^ 32) :
    writeOptions options (l ++ l₀, l.length, n) =
      (l ++ (options.flatMap TcpOption.serialize ++ l₀.drop (optionsSize options)),
        l.length + optionsSize options, n + optionsSize options) := by
  induction options generalizing l l₀ n with
  | nil => rfl
  | cons option options ih =>
    have hlen := TcpOption.length_serialize (hfits option List.mem_cons_self)
    rw [optionsSize_cons] at hn
    have hrest := ih (fun o ho ↦ hfits o (List.mem_cons_of_mem _ ho)) (l ++ option.serialize)
      (l₀.drop option.getSerializedSize) (n := n + option.getSerializedSize) (by omega)
    rw [List.length_append, hlen] at hrest
    rw [writeOptions, overwrite_append, hlen, add32_eq (by omega), ← List.append_assoc, hrest,
      List.drop_drop, optionsSize_cons, List.flatMap_cons, List.append_assoc, List.append_assoc,
      add_assoc, add_assoc]

/-- The part of the header before the checksum. -/
def beforeChecksum (h : TcpHeader) : List UInt8 :=
  (Writer.writeHtonU16 h.m_sourcePort).bytes ++ ((Writer.writeHtonU16 h.m_destinationPort).bytes ++
    ((Writer.writeHtonU32 ⟨h.m_sequenceNumber.m_value⟩).bytes ++
      ((Writer.writeHtonU32 ⟨h.m_ackNumber.m_value⟩).bytes ++
        ((Writer.writeHtonU16 h.field).bytes ++ (Writer.writeHtonU16 h.m_windowSize).bytes))))

/-- The part of the header after the checksum. -/
def afterChecksum (h : TcpHeader) : List UInt8 :=
  (Writer.writeHtonU16 h.m_urgentPointer).bytes ++ (h.m_options.flatMap TcpOption.serialize ++
    List.replicate (padding (optionsSize h.m_options)) 0)

theorem fixedPart_eq (h : TcpHeader) : h.fixedPart =
    h.beforeChecksum ++ ([0, 0] ++ (Writer.writeHtonU16 h.m_urgentPointer).bytes) := rfl

theorem length_flatMap_serialize {options : List TcpOption} (hfits : ∀ o ∈ options, o.Fits) :
    (options.flatMap TcpOption.serialize).length = optionsSize options := by
  induction options with
  | nil => rfl
  | cons option options ih =>
    rw [List.flatMap_cons, List.length_append, optionsSize_cons,
      TcpOption.length_serialize (hfits option List.mem_cons_self),
      ih fun o ho ↦ hfits o (List.mem_cons_of_mem _ ho)]

include hh

theorem Appended.length_afterChecksum : h.afterChecksum.length =
    2 + (optionsSize h.m_options + padding (optionsSize h.m_options)) := by
  rw [afterChecksum, List.length_append, List.length_append, List.length_replicate,
    length_flatMap_serialize fun o ho ↦ (hh.fits o ho).1]
  rfl

theorem Appended.m_length_eq :
    h.m_length.toNat * 4 = 20 + (optionsSize h.m_options + padding (optionsSize h.m_options)) := by
  rw [hh.length, padding]
  omega

theorem Appended.writeOptions (start : List UInt8) :
    TcpHeader.writeOptions h.m_options (overwrite start 0 h.fixedPart, 20, 0) =
      (h.fixedPart ++ (h.m_options.flatMap TcpOption.serialize ++
        start.drop (20 + optionsSize h.m_options)),
        20 + optionsSize h.m_options, optionsSize h.m_options) := by
  have hfixed : overwrite start 0 h.fixedPart = h.fixedPart ++ start.drop 20 :=
    overwrite_append [] h.fixedPart start
  have hle := hh.le
  have hoptions := writeOptions_append (fun o ho ↦ (hh.fits o ho).1) h.fixedPart (start.drop 20)
    (n := 0) (by omega)
  rw [Nat.zero_add, List.drop_drop] at hoptions
  rw [hfixed]
  exact hoptions

theorem Appended.serialize (checksum : TcpHeader → List UInt8 → UInt16) (payload : List UInt8) :
    ∃ b₀ b₁ : UInt8, ∀ space : List UInt8, space.length = h.m_length.toNat * 4 →
      h.serialize checksum (space ++ payload) =
        h.beforeChecksum ++ ([b₀, b₁] ++ (h.afterChecksum ++ payload)) := by
  set written := h.beforeChecksum ++ ([0, 0] ++ (h.afterChecksum ++ payload)) with hdef
  -- the buffer before the checksum is written
  have hwritten : ∀ space : List UInt8, space.length = h.m_length.toNat * 4 →
      overwrite (h.fixedPart ++ (h.m_options.flatMap TcpOption.serialize ++
        (space ++ payload).drop (20 + optionsSize h.m_options))) (20 + optionsSize h.m_options)
        (List.replicate ((4 - optionsSize h.m_options % 4) % 4) 0) = written := by
    intro space hspace
    change overwrite _ _ (List.replicate (padding (optionsSize h.m_options)) 0) = _
    have hdrop : (space ++ payload).drop
        (20 + (optionsSize h.m_options + padding (optionsSize h.m_options))) = payload := by
      rw [← hh.m_length_eq, ← hspace, List.drop_left]
    have hlen : (h.fixedPart ++ h.m_options.flatMap TcpOption.serialize).length =
        20 + optionsSize h.m_options := by
      rw [List.length_append, length_flatMap_serialize fun o ho ↦ (hh.fits o ho).1]
      rfl
    rw [← List.append_assoc, ← hlen, overwrite_append, List.length_replicate, hlen, List.drop_drop,
      add_assoc, hdrop, hdef, fixedPart_eq, afterChecksum]
    simp only [List.append_assoc]
  by_cases hcalc : h.m_calcChecksum = true
  · refine ⟨(checksum h written).toUInt8, (checksum h written >>> 8).toUInt8, fun space hspace ↦ ?_⟩
    rw [TcpHeader.serialize, hh.writeOptions]
    dsimp only
    rw [if_pos hcalc, hwritten space hspace]
    exact overwrite_append h.beforeChecksum _ _
  · refine ⟨0, 0, fun space hspace ↦ ?_⟩
    rw [TcpHeader.serialize, hh.writeOptions]
    dsimp only
    rw [if_neg hcalc]
    exact hwritten space hspace

end Appended

/-! ### Reading -/

theorem foldl_getSerializedSize (options : List TcpOption) {n : ℕ}
    (hlt : n + optionsSize options < 2 ^ 32) :
    options.foldl (fun len option ↦ add32 len option.getSerializedSize) n =
      n + optionsSize options := by
  induction options generalizing n with
  | nil => rfl
  | cons option options ih =>
    rw [optionsSize_cons, ← add_assoc] at hlt
    rw [List.foldl_cons, add32_eq (by omega), ih hlt, optionsSize_cons, add_assoc]

theorem getSerializedSize_eq {h : TcpHeader} (hle : optionsSize h.m_options ≤ 41) :
    h.getSerializedSize = (23 + optionsSize h.m_options) / 4 * 4 := by
  rw [getSerializedSize, calculateHeaderLength, foldl_getSerializedSize _ (by omega)]
  rw [UInt8.toNat_ofNat', Nat.shiftRight_eq_div_pow]
  split_ifs with hmod
  · rw [add32_eq (by omega)]
    omega
  · omega

theorem readOptions_serialize_append {option : TcpOption} (hfits : option.Fits) (i : List UInt8)
    {n : ℕ} (hle : option.getSerializedSize ≤ n) (fuel : ℕ) (read : List TcpOption)
    (optionsLen : UInt8) :
    readOptions (fuel + 1) (option.serialize ++ i) n read optionsLen =
      if option.getKind = 0 then
        readOptions fuel (i.drop (n - option.getSerializedSize)) 0 (read ++ [option])
          (optionsLen + UInt8.ofNat option.getSerializedSize +
            UInt8.ofNat (n - option.getSerializedSize))
      else readOptions fuel i (n - option.getSerializedSize) (read ++ [option])
        (optionsLen + UInt8.ofNat option.getSerializedSize) := by
  have hlen := TcpOption.length_serialize hfits
  obtain ⟨rest, hrest⟩ := TcpOption.serialize_eq_cons hfits
  have hpos : 0 < option.getSerializedSize := by
    rw [← hlen, hrest]
    exact Nat.succ_pos _
  obtain ⟨m, rfl⟩ := Nat.exists_eq_succ_of_ne_zero (hpos.trans_le hle).ne'
  have hkind : readU8 (option.serialize ++ i) = .ok (option.getKind, rest ++ i) := by
    rw [hrest]
    rfl
  have hdrop : ∀ k, (option.serialize ++ i).drop (option.getSerializedSize + k) = i.drop k := by
    intro k
    rw [← List.drop_drop, ← hlen, List.drop_left]
  conv_lhs => rw [readOptions, hkind]
  simp only [bind, Except.bind, TcpOption.isKindKnown_of_fits hfits, if_true,
    TcpOption.deserialize_serialize hfits, ne_eq, not_true_eq_false, if_false, if_pos hle, hdrop]
  rw [← Nat.add_zero option.getSerializedSize, hdrop, List.drop_zero]

theorem readOptions_append {options : List TcpOption} (hfits : ∀ o ∈ options, o.Fits ∧ o.getKind ≠ 0)
    (i : List UInt8) (pad : ℕ) {fuel : ℕ} (hfuel : options.length < fuel)
    (read : List TcpOption) (optionsLen : UInt8) :
    ∃ optionsLen', readOptions fuel (options.flatMap TcpOption.serialize ++
        (List.replicate pad 0 ++ i)) (optionsSize options + pad) read optionsLen =
      .ok (read ++ (options ++ if pad = 0 then [] else [.opEnd]), optionsLen') := by
  induction options generalizing fuel read optionsLen with
  | nil =>
    obtain ⟨fuel, rfl⟩ := Nat.exists_eq_succ_of_ne_zero (Nat.ne_of_gt (Nat.zero_lt_of_lt hfuel))
    cases pad with
    | zero => exact ⟨optionsLen, by simp [readOptions, optionsSize]⟩
    | succ pad =>
      have hturn := readOptions_serialize_append (show TcpOption.opEnd.Fits from trivial)
        (List.replicate pad 0 ++ i) (Nat.le_add_left 1 pad) fuel read optionsLen
      rw [show (optionsSize [] + (pad + 1)) = pad + 1 from Nat.zero_add _]
      rw [if_pos (show TcpOption.opEnd.getKind = 0 from rfl), readOptions] at hturn
      exact ⟨_, hturn⟩
  | cons option options ih =>
    obtain ⟨fuel, rfl⟩ := Nat.exists_eq_succ_of_ne_zero (Nat.ne_of_gt (Nat.zero_lt_of_lt hfuel))
    obtain ⟨hfit, hkind⟩ := hfits option List.mem_cons_self
    have hturn := readOptions_serialize_append hfit (options.flatMap TcpOption.serialize ++
      (List.replicate pad 0 ++ i)) (Nat.le_add_right _ (optionsSize options + pad)) fuel read
      optionsLen
    rw [if_neg hkind, Nat.add_sub_cancel_left] at hturn
    obtain ⟨optionsLen', hrest⟩ := ih (fun o ho ↦ hfits o (List.mem_cons_of_mem _ ho))
      (Nat.lt_of_succ_lt_succ hfuel) (read ++ [option])
      (optionsLen + UInt8.ofNat option.getSerializedSize)
    refine ⟨optionsLen', ?_⟩
    rw [List.flatMap_cons, List.append_assoc, optionsSize_cons, add_assoc, hturn, hrest,
      List.append_assoc]
    rfl

section Appended

variable {h : TcpHeader} (hh : h.Appended)

include hh

theorem Appended.field_eq : (h.field &&& 255).toUInt8 = h.m_flags ∧
    (h.field >>> 12).toUInt8 = h.m_length ∧
    ((h.field >>> 8).toUInt8 >>> 4).toNat = h.m_length.toNat := by
  have hle := hh.le
  have hlen := hh.length
  have hflags := h.m_flags.toNat_lt
  have hfield : h.field.toNat = h.m_length.toNat * 4096 + h.m_flags.toNat := by
    have hshift : h.m_length.toNat <<< 12 = h.m_length.toNat * 4096 := Nat.shiftLeft_eq _ 12
    rw [field, UInt16.toNat_or, UInt16.toNat_shiftLeft, UInt8.toNat_toUInt16, UInt8.toNat_toUInt16]
    change h.m_length.toNat <<< 12 % 2 ^ 16 ||| h.m_flags.toNat = _
    rw [hshift, Nat.mod_eq_of_lt (by omega), ← hshift,
      ← Nat.shiftLeft_add_eq_or_of_lt (hflags.trans (by decide)), hshift]
  refine ⟨?_, ?_, ?_⟩
  · apply UInt8.toNat_inj.mp
    rw [UInt16.toNat_toUInt8, UInt16.toNat_and, hfield]
    change (_ &&& 2 ^ 8 - 1) % 256 = _
    rw [Nat.and_two_pow_sub_one_eq_mod]
    omega
  · apply UInt8.toNat_inj.mp
    rw [UInt16.toNat_toUInt8, UInt16.toNat_shiftRight, hfield, Nat.shiftRight_eq_div_pow]
    change (_ / 4096) % 256 = _
    omega
  · rw [UInt8.toNat_shiftRight, UInt16.toNat_toUInt8, UInt16.toNat_shiftRight, hfield,
      Nat.shiftRight_eq_div_pow, Nat.shiftRight_eq_div_pow]
    change (_ / 256 % 256) / 16 = _
    omega

theorem Appended.deserialize (checksum : TcpHeader → List UInt8 → UInt16) (h₀ : TcpHeader)
    (b₀ b₁ : UInt8) (payload : List UInt8) (fuel : ℕ) :
    TcpHeader.deserialize fuel checksum h₀
        (h.beforeChecksum ++ ([b₀, b₁] ++ (h.afterChecksum ++ payload))) =
      deserializeOptions fuel checksum { h with
          m_calcChecksum := h₀.m_calcChecksum
          m_goodChecksum := h₀.m_goodChecksum
          m_options := []
          m_optionsLen := 0 }
        (h.beforeChecksum ++ ([b₀, b₁] ++ (h.afterChecksum ++ payload)))
        (h.m_options.flatMap TcpOption.serialize ++
          (List.replicate (padding (optionsSize h.m_options)) 0 ++ payload)) := by
  obtain ⟨hflags, hoffset, -⟩ := hh.field_eq
  have hdrop : ∀ l : List UInt8, ([b₀, b₁] ++ l).drop 2 = l := fun _ ↦ rfl
  rw [TcpHeader.deserialize, beforeChecksum, afterChecksum]
  simp only [List.append_assoc]
  rw [Buffer.readNtohU16_append, Except.ok_bind]
  dsimp only
  rw [Buffer.readNtohU16_append, Except.ok_bind]
  dsimp only
  rw [Buffer.readNtohU32_append, Except.ok_bind]
  dsimp only
  rw [Buffer.readNtohU32_append, Except.ok_bind]
  dsimp only
  rw [Buffer.readNtohU16_append, Except.ok_bind]
  dsimp only
  rw [Buffer.readNtohU16_append, Except.ok_bind]
  dsimp only
  rw [hdrop, Buffer.readNtohU16_append, Except.ok_bind]
  dsimp only
  rw [hflags, hoffset]

theorem Appended.deserializeOptions (checksum : TcpHeader → List UInt8 → UInt16) (h₀ : TcpHeader)
    (start payload : List UInt8) {fuel : ℕ} (hfuel : h.m_options.length < fuel) :
    ∃ h', TcpHeader.deserializeOptions fuel checksum { h with
          m_calcChecksum := h₀.m_calcChecksum
          m_goodChecksum := h₀.m_goodChecksum
          m_options := []
          m_optionsLen := 0 } start
        (h.m_options.flatMap TcpOption.serialize ++
          (List.replicate (padding (optionsSize h.m_options)) 0 ++ payload)) =
        .ok (h'.getSerializedSize, h') ∧ h.ReadAs h' ∧
      h'.m_options =
        h.m_options ++ if padding (optionsSize h.m_options) = 0 then [] else [.opEnd] := by
  have hle := hh.le
  have hsize := hh.m_length_eq
  obtain ⟨optionsLen', hread⟩ := readOptions_append hh.fits payload
    (padding (optionsSize h.m_options)) hfuel [] 0
  rw [List.nil_append] at hread
  have hoptions : ∀ options : List TcpOption,
      options = h.m_options ++ (if padding (optionsSize h.m_options) = 0 then [] else [.opEnd]) →
      options = h.m_options ∨ options = h.m_options ++ [.opEnd] := by
    rintro options rfl
    split_ifs
    · exact .inl (List.append_nil _)
    · exact .inr rfl
  have hlen : 5 ≤ h.m_length.toNat ∧ h.m_length.toNat ≤ 15 := by
    rw [hh.length]
    omega
  have hrest : sub32 h.m_length.toNat 5 * 4 % 2 ^ 32 =
      optionsSize h.m_options + padding (optionsSize h.m_options) := by
    rw [sub32_eq hlen.1 (by omega)]
    omega
  have hroom : ¬m_maxOptionsLen < optionsSize h.m_options + padding (optionsSize h.m_options) := by
    rw [m_maxOptionsLen]
    omega
  rw [TcpHeader.deserializeOptions]
  dsimp only
  rw [hrest, if_neg hroom, hread, Except.ok_bind]
  exact ⟨_, rfl, ⟨rfl, rfl, rfl, rfl, rfl, rfl, rfl, hoptions _ rfl⟩, rfl⟩

/-- **A header with small options is read as it was written.** -/
theorem Appended.roundTrips (checksum : TcpHeader → List UInt8 → UInt16) :
    h.RoundTrips checksum := by
  have hle := hh.le
  obtain ⟨-, -, hbyte⟩ := hh.field_eq
  have hserialized : h.getSerializedSize = h.m_length.toNat * 4 := by
    rw [getSerializedSize_eq (by omega), hh.length]
  intro payload
  obtain ⟨b₀, b₁, hwritten⟩ := hh.serialize checksum payload
  refine ⟨h.beforeChecksum ++ ([b₀, b₁] ++ h.afterChecksum), ?_, ?_, ?_, fun h₀ ↦ ?_⟩
  · rw [hserialized, hh.m_length_eq, List.length_append, List.length_append,
      hh.length_afterChecksum]
    change 16 + (2 + _) = _
    omega
  · intro space hspace
    rw [hwritten space (hspace.trans hserialized), List.append_assoc, List.append_assoc]
  · change ((h.field >>> 8).toUInt8 >>> 4).toNat * 4 = _
    rw [hbyte, hserialized]
  · refine ⟨h.m_options.length + 1, fun fuel hfuel ↦ ?_⟩
    obtain ⟨h', hread, hread_as, hoptions⟩ := hh.deserializeOptions checksum h₀
      (h.beforeChecksum ++ ([b₀, b₁] ++ (h.afterChecksum ++ payload))) payload hfuel
    have hsize : optionsSize h'.m_options =
        optionsSize h.m_options + if padding (optionsSize h.m_options) = 0 then 0 else 1 := by
      rw [hoptions, optionsSize_append]
      split_ifs <;> rfl
    rw [padding] at hsize
    have hsame : h'.getSerializedSize = h.getSerializedSize := by
      rw [getSerializedSize_eq (by split_ifs at hsize <;> omega), getSerializedSize_eq (by omega)]
      split_ifs at hsize <;> omega
    rw [hsame] at hread
    rw [List.append_assoc, List.append_assoc, hh.deserialize, hread]
    exact ⟨h', rfl, hread_as⟩

end Appended

/-! ### The size of a large option -/

theorem length_overwrite {α : Type*} (l : List α) (i : ℕ) (l' : List α) :
    l.length ≤ (overwrite l i l').length ∧ l'.length ≤ (overwrite l i l').length := by
  rw [overwrite, List.length_append, List.length_append, List.length_take, List.length_drop]
  omega

theorem length_writeOptions (options : List TcpOption) (w : List UInt8 × ℕ × ℕ) :
    w.1.length ≤ (writeOptions options w).1.length ∧
      ∀ o ∈ options, o.serialize.length ≤ (writeOptions options w).1.length := by
  induction options generalizing w with
  | nil => exact ⟨le_rfl, by simp⟩
  | cons option options ih =>
    obtain ⟨buffer, i, optionLen⟩ := w
    obtain ⟨hbuffer, hserialize⟩ := length_overwrite buffer i option.serialize
    obtain ⟨hle, hrest⟩ := ih (overwrite buffer i option.serialize, i + option.getSerializedSize,
      add32 optionLen option.getSerializedSize)
    refine ⟨hbuffer.trans hle, fun o ho ↦ ?_⟩
    rcases List.mem_cons.mp ho with rfl | ho
    · exact hserialize.trans hle
    · exact hrest o ho

theorem length_serialize_le (checksum : TcpHeader → List UInt8 → UInt16) (h : TcpHeader)
    (start : List UInt8) {o : TcpOption} (ho : o ∈ h.m_options) :
    o.serialize.length ≤ (h.serialize checksum start).length := by
  rw [serialize]
  have hle := (length_writeOptions h.m_options (overwrite start 0 h.fixedPart, 20, 0)).2 o ho
  generalize writeOptions h.m_options (overwrite start 0 h.fixedPart, 20, 0) = w at hle ⊢
  obtain ⟨buffer, i, optionLen⟩ := w
  dsimp only at hle ⊢
  have hpadded := hle.trans (length_overwrite buffer i (List.replicate ((4 - optionLen % 4) % 4) 0)).1
  split_ifs
  · exact hpadded.trans (length_overwrite _ 16 _).1
  · exact hpadded

theorem smallOption_of_length {o : TcpOption} (h : o.serialize.length < 2 ^ 31) :
    SmallOption o := by
  cases o with
  | sack m_sackList =>
    rw [TcpOption.serialize, List.length_append, TcpOption.length_flatMap_blockBytes] at h
    change m_sackList.length < 2 ^ 29 - 5
    omega
  | _ => trivial

theorem RoundTrips.smallOption {checksum : TcpHeader → List UInt8 → UInt16} {h : TcpHeader}
    (hround : h.RoundTrips checksum) {o : TcpOption} (ho : o ∈ h.m_options) : SmallOption o := by
  obtain ⟨bytes, hlen, hwritten, -⟩ := hround []
  have hle := length_serialize_le checksum h (List.replicate h.getSerializedSize 0 ++ []) ho
  rw [hwritten _ List.length_replicate, List.append_nil, hlen, getSerializedSize] at hle
  have hlt := h.calculateHeaderLength.toNat_lt
  exact smallOption_of_length (by omega)

/-- **A header to which options have been appended is read as it was written exactly if the SACK
options among them are small.** -/
theorem roundTrips_appendOptions_iff (checksum : TcpHeader → List UInt8 → UInt16) (h : TcpHeader)
    {options : List TcpOption} (hknown : ∀ o ∈ options, ∀ k s c, o ≠ .unknown k s c) :
    (h.appendOptions options).RoundTrips checksum ↔
      ∀ o ∈ (h.appendOptions options).m_options, SmallOption o :=
  ⟨fun hround _ ho ↦ hround.smallOption ho,
    fun hsmall ↦ (appended_appendOptions hknown hsmall).roundTrips checksum⟩

/-- A header without options. -/
def emptyHeader : TcpHeader :=
  ⟨0, 0, ⟨0⟩, ⟨0⟩, 5, 0, 65535, 0, false, true, [], 0⟩

/-- A header with three options, and two bytes of padding, is read as it was written. -/
theorem roundTrips_emptyHeader : (emptyHeader.appendOptions
    [.mss 1460, .sackPermitted, .sack [(⟨1⟩, ⟨2⟩), (⟨3⟩, ⟨4⟩)]]).RoundTrips fun _ _ ↦ 0 :=
  (roundTrips_appendOptions_iff _ _ (by simp)).mpr (by decide)

/-- The size of a SACK option with `2 ^ 29` blocks is taken for two: the option is appended. -/
theorem appendOption_sack {blocks : List SackBlock} (hlen : blocks.length = 2 ^ 29) :
    (emptyHeader.appendOption (.sack blocks)).1 = true ∧
      (emptyHeader.appendOptions [.sack blocks]).m_options = [.sack blocks] := by
  have hsize : (TcpOption.sack blocks).getSerializedSize = 2 := by
    rw [TcpOption.getSerializedSize, hlen]
    norm_num
  rw [appendOptions, List.foldl_cons, appendOption, appendOption, hsize]
  exact ⟨rfl, rfl⟩

/-- A header with such an option is not read as it was written. -/
theorem not_roundTrips_sack :
    (emptyHeader.appendOption (.sack (List.replicate (2 ^ 29) (⟨1⟩, ⟨2⟩)))).1 = true ∧
      ¬(emptyHeader.appendOptions
        [.sack (List.replicate (2 ^ 29) (⟨1⟩, ⟨2⟩))]).RoundTrips fun _ _ ↦ 0 := by
  have hlen : (List.replicate (2 ^ 29) ((⟨1⟩, ⟨2⟩) : SackBlock)).length = 2 ^ 29 :=
    List.length_replicate
  generalize List.replicate (2 ^ 29) ((⟨1⟩, ⟨2⟩) : SackBlock) = blocks at hlen ⊢
  obtain ⟨happend, hoptions⟩ := appendOption_sack hlen
  refine ⟨happend, fun hround ↦ ?_⟩
  have hmem : .sack blocks ∈ (emptyHeader.appendOptions [.sack blocks]).m_options := by
    rw [hoptions]
    exact List.mem_cons_self
  have hsmall : blocks.length < 2 ^ 29 - 5 := hround.smallOption hmem
  omega

end TcpHeader

end Ns3
