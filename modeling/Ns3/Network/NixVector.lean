import Ns3.Library.BitFields
import Ns3.Library.Partial

/-!
# Nix-vectors

A nix-vector is the list of the neighbor indices along a path, one bit field each, in a vector of
words of 32 bits. An index is added above the ones that are there, and so may lie in two words;
extracting one takes the highest bits that have not been used yet. Nothing is erased: only the count
of used bits grows.

A shift of a word by 32 or more is undefined, and the functions here fail on it. Adding never does
one. Extracting does whenever the bits that remain fill their highest word: `totalRemainingBits % 32`
is then zero, and the word is shifted by 32 bits to the left.
-/

namespace Ns3

/-- Why a function of a nix-vector stops: a fatal error, an index outside the vector, or a shift that
is undefined. -/
inductive NixError
  | tooManyBits
  | tooManyBitsLeft
  | noBits
  | outOfRange
  | undefinedShift
  deriving DecidableEq, Repr

/-- `NixVector`. -/
structure NixVector where
  m_nixVector : List UInt32
  m_used : UInt32
  m_currentVectorBitSize : UInt32
  m_totalBitSize : UInt32
  deriving DecidableEq, Repr

namespace NixVector

/-! ## The code -/

/-- The shift `x << n` of a word. -/
def shl (x n : UInt32) : Except NixError UInt32 :=
  if n < 32 then .ok (x <<< n) else .error .undefinedShift

/-- The shift `x >> n` of a word. -/
def shr (x n : UInt32) : Except NixError UInt32 :=
  if n < 32 then .ok (x >>> n) else .error .undefinedShift

/-- The default constructor. -/
def create : NixVector := ⟨[0], 0, 0, 0⟩

/-- `m_nixVector.at`. -/
def wordAt (v : NixVector) (i : UInt32) : Except NixError UInt32 :=
  match v.m_nixVector[i.toNat]? with
  | some word => .ok word
  | none => .error .outOfRange

/-- `m_nixVector.back`. -/
def back (v : NixVector) : Except NixError UInt32 :=
  match v.m_nixVector.getLast? with
  | some word => .ok word
  | none => .error .outOfRange

/-- The assignment to `m_nixVector.back`. -/
def setBack (v : NixVector) (word : UInt32) : List UInt32 := v.m_nixVector.dropLast ++ [word]

def getRemainingBits (v : NixVector) : UInt32 := v.m_totalBitSize - v.m_used

def addNeighborIndex (v : NixVector) (newBits numberOfBits : UInt32) : Except NixError NixVector :=
  if 32 < numberOfBits then .error .tooManyBits
  else if 32 < v.m_currentVectorBitSize + numberOfBits then
    if v.m_currentVectorBitSize = 32 then
      .ok { v with
        m_nixVector := v.m_nixVector ++ [newBits]
        m_currentVectorBitSize := numberOfBits
        m_totalBitSize := v.m_totalBitSize + numberOfBits }
    else do
      let tempBits ← shl newBits v.m_currentVectorBitSize
      let last ← v.back
      let rest ← shr newBits (32 - v.m_currentVectorBitSize)
      .ok { v with
        m_nixVector := v.setBack (tempBits ||| last) ++ [rest]
        m_currentVectorBitSize := numberOfBits - (32 - v.m_currentVectorBitSize)
        m_totalBitSize := v.m_totalBitSize + numberOfBits }
  else do
    let shifted ← shl newBits v.m_currentVectorBitSize
    let last ← v.back
    .ok { v with
      m_nixVector := v.setBack (shifted ||| last)
      m_currentVectorBitSize := v.m_currentVectorBitSize + numberOfBits
      m_totalBitSize := v.m_totalBitSize + numberOfBits }

/-- The statement `m_used += numberOfBits`. -/
def use (v : NixVector) (numberOfBits : UInt32) : NixVector :=
  { v with m_used := v.m_used + numberOfBits }

def extractNeighborIndex (v : NixVector) (numberOfBits : UInt32) :
    Except NixError (UInt32 × NixVector) :=
  let totalRemainingBits := v.getRemainingBits
  if 32 < numberOfBits then .error .tooManyBits
  else if totalRemainingBits < numberOfBits then .error .tooManyBitsLeft
  else if numberOfBits ≤ 0 then .error .noBits
  else
    let vectorIndex := (totalRemainingBits - 1) / 32
    if 0 < vectorIndex ∧ (totalRemainingBits - 1) % 32 < numberOfBits - 1 then do
      let high ← v.wordAt vectorIndex
      let high ← shl high (32 - totalRemainingBits % 32)
      let high ← shr high ((32 - totalRemainingBits % 32) - (numberOfBits - totalRemainingBits % 32))
      let low ← v.wordAt (vectorIndex - 1)
      let low ← shr low (32 - (numberOfBits - totalRemainingBits % 32))
      .ok (high ||| low, v.use numberOfBits)
    else do
      let word ← v.wordAt vectorIndex
      let word ← shl word (32 - totalRemainingBits % 32)
      let word ← shr word (32 - numberOfBits)
      .ok (word, v.use numberOfBits)

def getSerializedSize (v : NixVector) : UInt32 :=
  4 + 4 + 4 + 4 * UInt32.ofNat v.m_nixVector.length

/-! ## The bits of a nix-vector as one number -/

/-- The number whose digits to the base `2 ^ 32` are the words. -/
def number (words : List UInt32) : ℕ := Nat.ofDigits (2 ^ 32) (words.map UInt32.toNat)

theorem number_append (l m : List UInt32) :
    number (l ++ m) = number l + 2 ^ (32 * l.length) * number m := by
  rw [number, List.map_append, Nat.ofDigits_append, List.length_map, ← pow_mul]
  rfl

theorem number_singleton (w : UInt32) : number [w] = w.toNat := Nat.ofDigits_singleton

theorem testBit_number (words : List UInt32) (j : ℕ) :
    (number words).testBit j = (words.getD (j / 32) 0).toNat.testBit (j % 32) := by
  induction words generalizing j with
  | nil => simp [number]
  | cons w words ih =>
    have hcons : number (w :: words) = 2 ^ 32 * number words + w.toNat := by
      rw [number, List.map_cons, Nat.ofDigits_cons, add_comm]
      rfl
    rw [hcons, Nat.testBit_two_pow_mul_add _ w.toNat_lt]
    by_cases hj : j < 32
    · rw [if_pos hj, Nat.div_eq_of_lt hj, Nat.mod_eq_of_lt hj, List.getD_cons_zero]
    · have hdiv : j / 32 = (j - 32) / 32 + 1 := by omega
      have hmod : j % 32 = (j - 32) % 32 := by omega
      rw [if_neg hj, ih, hdiv, hmod, List.getD_cons_succ]

/-! ## Adding -/

/-- The words of a nix-vector are what these fields are packed into. -/
structure Written (v : NixVector) (fs : List BitField) : Prop where
  number_eq : number v.m_nixVector = BitField.pack fs
  nonempty : v.m_nixVector ≠ []
  size : BitField.size fs + 32 = 32 * v.m_nixVector.length + v.m_currentVectorBitSize.toNat
  current_le : v.m_currentVectorBitSize.toNat ≤ 32
  total : v.m_totalBitSize = UInt32.ofNat (BitField.size fs)

variable {v v' : NixVector} {fs : List BitField} {newBits numberOfBits : UInt32}

theorem written_create : Written create [] :=
  ⟨rfl, by decide, rfl, by decide, rfl⟩

/-- An index and the number of its bits, as a field. -/
def field (newBits numberOfBits : UInt32) : BitField := ⟨numberOfBits.toNat, newBits.toNat⟩

theorem Written.concat (hw : v.Written fs) {words : List UInt32} {current : UInt32}
    (hnumber : number words =
      number v.m_nixVector + 2 ^ BitField.size fs * newBits.toNat)
    (hnonempty : words ≠ []) (hcurrent : current.toNat ≤ 32)
    (hsize : 32 * words.length + current.toNat =
      32 * v.m_nixVector.length + v.m_currentVectorBitSize.toNat + numberOfBits.toNat) :
    Written { v with
      m_nixVector := words
      m_currentVectorBitSize := current
      m_totalBitSize := v.m_totalBitSize + numberOfBits } (fs ++ [field newBits numberOfBits]) where
  number_eq := by rw [hnumber, hw.number_eq, BitField.pack_concat]; rfl
  nonempty := hnonempty
  size := by
    have := hw.size
    rw [BitField.size_concat, hsize, ← this]
    exact Nat.add_right_comm _ _ _
  current_le := hcurrent
  total := by
    rw [BitField.size_concat, UInt32.ofNat_add, hw.total, field, UInt32.ofNat_toNat]

theorem Written.exists_last (hw : v.Written fs) (hfs : ∀ f ∈ fs, f.Fits) :
    ∃ words last, v.m_nixVector = words ++ [last] ∧
      last.toNat < 2 ^ v.m_currentVectorBitSize.toNat ∧
      BitField.size fs = 32 * words.length + v.m_currentVectorBitSize.toNat := by
  obtain ⟨words, last, hwords⟩ := (List.eq_nil_or_concat' v.m_nixVector).resolve_left hw.nonempty
  have hsize := hw.size
  rw [hwords, List.length_append, List.length_singleton] at hsize
  have hsize' : BitField.size fs = 32 * words.length + v.m_currentVectorBitSize.toNat := by omega
  refine ⟨words, last, hwords, ?_, hsize'⟩
  have hlt := BitField.pack_lt hfs
  rw [← hw.number_eq, hwords, number_append, number_singleton, hsize', pow_add] at hlt
  exact Nat.lt_of_mul_lt_mul_left (lt_of_le_of_lt (Nat.le_add_left _ _) hlt)

theorem toNat_shl_or {last current : UInt32} (hlast : last.toNat < 2 ^ current.toNat)
    (hlt : current.toNat < 32) (hfit : newBits.toNat * 2 ^ current.toNat < 2 ^ 32) :
    (newBits <<< current ||| last).toNat = last.toNat + 2 ^ current.toNat * newBits.toNat := by
  have hmod : current.toNat % 32 = current.toNat := Nat.mod_eq_of_lt hlt
  rw [UInt32.toNat_or, UInt32.toNat_shiftLeft, hmod, Nat.shiftLeft_eq, Nat.mod_eq_of_lt hfit,
    ← Nat.shiftLeft_eq, ← Nat.shiftLeft_add_eq_or_of_lt hlast, Nat.shiftLeft_eq]
  ring

theorem toNat_shl_or_add_shr (newBits : UInt32) {last current : UInt32} (hlast : last.toNat < 2 ^ current.toNat)
    (hpos : 0 < current.toNat) (hlt : current.toNat < 32) :
    (newBits <<< current ||| last).toNat + 2 ^ 32 * (newBits >>> (32 - current)).toNat =
      last.toNat + 2 ^ current.toNat * newBits.toNat := by
  have hmod : current.toNat % 32 = current.toNat := Nat.mod_eq_of_lt hlt
  have hsub : (32 - current).toNat = 32 - current.toNat := UInt32.toNat_sub_of_le _ _ hlt.le
  have hsub' : (32 - current).toNat % 32 = 32 - current.toNat := by omega
  have hpow : (2 : ℕ) ^ 32 = 2 ^ (32 - current.toNat) * 2 ^ current.toNat := by
    rw [← pow_add, Nat.sub_add_cancel hlt.le]
  have hdiv := Nat.div_add_mod newBits.toNat (2 ^ (32 - current.toNat))
  have hcut : newBits.toNat * 2 ^ current.toNat % 2 ^ 32 =
      newBits.toNat % 2 ^ (32 - current.toNat) * 2 ^ current.toNat := by
    rw [hpow, Nat.mul_mod_mul_right]
  rw [UInt32.toNat_or, UInt32.toNat_shiftLeft, hmod, UInt32.toNat_shiftRight, hsub',
    Nat.shiftLeft_eq, hcut, ← Nat.shiftLeft_eq, ← Nat.shiftLeft_add_eq_or_of_lt hlast,
    Nat.shiftLeft_eq, Nat.shiftRight_eq_div_pow, hpow]
  conv_rhs => rw [← hdiv]
  ring

theorem shl_eq_ok {x n : UInt32} (h : n.toNat < 32) : shl x n = .ok (x <<< n) := if_pos h

theorem shr_eq_ok {x n : UInt32} (h : n.toNat < 32) : shr x n = .ok (x >>> n) := if_pos h

theorem back_concat {words : List UInt32} {last : UInt32} (h : v.m_nixVector = words ++ [last]) :
    v.back = .ok last := by
  rw [back, h, List.getLast?_concat]

theorem setBack_concat {words : List UInt32} {last word : UInt32}
    (h : v.m_nixVector = words ++ [last]) : v.setBack word = words ++ [word] := by
  rw [setBack, h, List.dropLast_concat]

theorem Written.exists_words (hw : v.Written fs) (hfs : ∀ f ∈ fs, f.Fits) :
    ∃ words last, v.m_nixVector = words ++ [last] ∧
      last.toNat < 2 ^ v.m_currentVectorBitSize.toNat ∧
      BitField.size fs = 32 * words.length + v.m_currentVectorBitSize.toNat ∧
      number v.m_nixVector = number words + 2 ^ (32 * words.length) * last.toNat := by
  obtain ⟨words, last, hwords, hlast, hsize⟩ := hw.exists_last hfs
  refine ⟨words, last, hwords, hlast, hsize, ?_⟩
  rw [hwords, number_append, number_singleton]

theorem not_tooManyBits (hle : numberOfBits.toNat ≤ 32) : ¬ 32 < numberOfBits :=
  fun h ↦ absurd (UInt32.lt_iff_toNat_lt.mp h) (not_lt.mpr hle)

theorem toNat_current_add (hle : v.m_currentVectorBitSize.toNat ≤ 32)
    (hle' : numberOfBits.toNat ≤ 32) : (v.m_currentVectorBitSize + numberOfBits).toNat =
      v.m_currentVectorBitSize.toNat + numberOfBits.toNat := by
  rw [UInt32.toNat_add]
  omega

theorem Written.add_full (hw : v.Written fs) (hpos : 0 < numberOfBits.toNat)
    (hle : numberOfBits.toNat ≤ 32) (hfull : v.m_currentVectorBitSize = 32) :
    ∃ v', v.addNeighborIndex newBits numberOfBits = .ok v' ∧
      v'.Written (fs ++ [field newBits numberOfBits]) ∧ v'.m_used = v.m_used := by
  have h32 : (32 : UInt32).toNat = 32 := rfl
  have hsize := hw.size
  have hover : 32 < v.m_currentVectorBitSize + numberOfBits := by
    rw [UInt32.lt_iff_toNat_lt, toNat_current_add hw.current_le hle, hfull]
    omega
  rw [addNeighborIndex, if_neg (not_tooManyBits hle), if_pos hover,
    if_pos hfull]
  rw [hfull, h32] at hsize
  refine ⟨_, rfl, hw.concat ?_ (List.append_ne_nil_of_right_ne_nil _ (by simp)) hle ?_, rfl⟩
  · rw [number_append, number_singleton, Nat.add_right_cancel hsize]
  · rw [hfull, List.length_append, List.length_singleton]
    omega

theorem Written.add_split (hw : v.Written fs) (hfs : ∀ f ∈ fs, f.Fits)
    (hle : numberOfBits.toNat ≤ 32) (hfull : v.m_currentVectorBitSize ≠ 32)
    (hover : 32 < v.m_currentVectorBitSize.toNat + numberOfBits.toNat) :
    ∃ v', v.addNeighborIndex newBits numberOfBits = .ok v' ∧
      v'.Written (fs ++ [field newBits numberOfBits]) ∧ v'.m_used = v.m_used := by
  obtain ⟨words, last, hwords, hlast, hsize, hnumber⟩ := hw.exists_words hfs
  have hlt : v.m_currentVectorBitSize.toNat < 32 :=
    lt_of_le_of_ne hw.current_le fun h ↦ hfull (UInt32.toNat_inj.mp h)
  have hpos : 0 < v.m_currentVectorBitSize.toNat := by omega
  have hsub : (32 - v.m_currentVectorBitSize).toNat = 32 - v.m_currentVectorBitSize.toNat :=
    UInt32.toNat_sub_of_le _ _ hlt.le
  have hsub' : (numberOfBits - (32 - v.m_currentVectorBitSize)).toNat =
      numberOfBits.toNat - (32 - v.m_currentVectorBitSize.toNat) := by
    rw [UInt32.toNat_sub_of_le, hsub]
    rw [UInt32.le_iff_toNat_le, hsub]
    omega
  have hover' : 32 < v.m_currentVectorBitSize + numberOfBits := by
    rw [UInt32.lt_iff_toNat_lt, toNat_current_add hw.current_le hle]
    exact hover
  rw [addNeighborIndex, if_neg (not_tooManyBits hle), if_pos hover',
    if_neg hfull, shl_eq_ok hlt, Except.ok_bind, back_concat hwords, Except.ok_bind,
    shr_eq_ok (by omega), Except.ok_bind, setBack_concat hwords]
  refine ⟨_, rfl, hw.concat ?_ (List.append_ne_nil_of_right_ne_nil _ (by simp)) ?_ ?_, rfl⟩
  · have hsplit := toNat_shl_or_add_shr newBits hlast hpos hlt
    rw [List.append_assoc, number_append, number_append, number_singleton, number_singleton,
      List.length_singleton, hnumber, hsize, pow_add, Nat.mul_one, hsplit]
    ring
  · omega
  · rw [List.length_append, List.length_append, hsub', hwords, List.length_append]
    simp only [List.length_singleton]
    omega

theorem Written.add_within (hw : v.Written fs) (hfs : ∀ f ∈ fs, f.Fits)
    (hpos : 0 < numberOfBits.toNat) (hbits : newBits.toNat < 2 ^ numberOfBits.toNat)
    (hfits : v.m_currentVectorBitSize.toNat + numberOfBits.toNat ≤ 32) :
    ∃ v', v.addNeighborIndex newBits numberOfBits = .ok v' ∧
      v'.Written (fs ++ [field newBits numberOfBits]) ∧ v'.m_used = v.m_used := by
  obtain ⟨words, last, hwords, hlast, hsize, hnumber⟩ := hw.exists_words hfs
  have hle : numberOfBits.toNat ≤ 32 := by omega
  have hlt : v.m_currentVectorBitSize.toNat < 32 := by omega
  have hsum := toNat_current_add hw.current_le hle
  have hover : ¬ 32 < v.m_currentVectorBitSize + numberOfBits := by
    rw [UInt32.lt_iff_toNat_lt, hsum]
    exact not_lt.mpr hfits
  rw [addNeighborIndex, if_neg (not_tooManyBits hle), if_neg hover,
    shl_eq_ok hlt, Except.ok_bind, back_concat hwords, Except.ok_bind, setBack_concat hwords]
  refine ⟨_, rfl, hw.concat ?_ (List.append_ne_nil_of_right_ne_nil _ (by simp)) ?_ ?_, rfl⟩
  · have hfit : newBits.toNat * 2 ^ v.m_currentVectorBitSize.toNat < 2 ^ 32 :=
      calc newBits.toNat * 2 ^ v.m_currentVectorBitSize.toNat
          < 2 ^ numberOfBits.toNat * 2 ^ v.m_currentVectorBitSize.toNat :=
            Nat.mul_lt_mul_of_pos_right hbits (Nat.two_pow_pos _)
        _ = 2 ^ (numberOfBits.toNat + v.m_currentVectorBitSize.toNat) := (pow_add _ _ _).symm
        _ ≤ 2 ^ 32 := Nat.pow_le_pow_right (by decide) (by omega)
    rw [number_append, number_singleton, toNat_shl_or hlast hlt hfit, hnumber, hsize, pow_add]
    ring
  · rw [hsum]
    exact hfits
  · rw [hsum, hwords, List.length_append, List.length_append]
    simp only [List.length_singleton]
    omega

/-- **Adding an index packs one more field.** -/
theorem Written.add (hw : v.Written fs) (hfs : ∀ f ∈ fs, f.Fits) (hpos : 0 < numberOfBits.toNat)
    (hle : numberOfBits.toNat ≤ 32) (hbits : newBits.toNat < 2 ^ numberOfBits.toNat) :
    ∃ v', v.addNeighborIndex newBits numberOfBits = .ok v' ∧
      v'.Written (fs ++ [field newBits numberOfBits]) ∧ v'.m_used = v.m_used := by
  by_cases hfits : v.m_currentVectorBitSize.toNat + numberOfBits.toNat ≤ 32
  · exact hw.add_within hfs hpos hbits hfits
  · by_cases hfull : v.m_currentVectorBitSize = 32
    · exact hw.add_full hpos hle hfull
    · exact hw.add_split hfs hle hfull (not_le.mp hfits)

/-! ## Extracting -/

variable {n : ℕ}

theorem testBit_shr_shl (w : UInt32) {r : ℕ} (hr : r < 32) (hpos : 0 < r) (hn : numberOfBits.toNat ≤ 32)
    (hnpos : 0 < numberOfBits.toNat) {sl : UInt32} (hsl : sl.toNat = 32 - r) (i : ℕ) :
    (w <<< sl >>> (32 - numberOfBits)).toNat.testBit i =
      (decide (i < numberOfBits.toNat) && decide (numberOfBits.toNat ≤ i + r) &&
        w.toNat.testBit (i + r - numberOfBits.toNat)) := by
  have hsub : (32 - numberOfBits).toNat = 32 - numberOfBits.toNat := UInt32.toNat_sub_of_le _ _ hn
  have hmod : (32 - numberOfBits).toNat % 32 = 32 - numberOfBits.toNat := by omega
  have hmod' : sl.toNat % 32 = 32 - r := by omega
  rw [UInt32.toNat_shiftRight, hmod, UInt32.toNat_shiftLeft, hmod', Nat.testBit_shiftRight,
    Nat.testBit_mod_two_pow, Nat.testBit_shiftLeft]
  have h1 : decide (32 - numberOfBits.toNat + i < 32) = decide (i < numberOfBits.toNat) :=
    decide_eq_decide.mpr (by omega)
  have h2 : decide (32 - numberOfBits.toNat + i ≥ 32 - r) = decide (numberOfBits.toNat ≤ i + r) :=
    decide_eq_decide.mpr (by omega)
  have h3 : 32 - numberOfBits.toNat + i - (32 - r) = i + r - numberOfBits.toNat := by omega
  rw [h1, h2, h3, Bool.and_assoc]

/-- The number of an index in the words of a nix-vector, when so many bits remain. -/
def index (words : List UInt32) (remaining n : ℕ) : ℕ :=
  number words / 2 ^ (remaining - n) % 2 ^ n

theorem testBit_index (words : List UInt32) (remaining n i : ℕ) :
    (index words remaining n).testBit i = (decide (i < n) &&
      (words.getD ((remaining - n + i) / 32) 0).toNat.testBit ((remaining - n + i) % 32)) := by
  rw [index, Nat.testBit_mod_two_pow, Nat.testBit_div_two_pow, testBit_number,
    add_comm i]

theorem wordAt_eq_ok {i : UInt32} (h : i.toNat < v.m_nixVector.length) :
    v.wordAt i = .ok (v.m_nixVector.getD i.toNat 0) := by
  rw [wordAt, List.getElem?_eq_getElem h, List.getD_eq_getElem _ _ h]

theorem index_split (words : List UInt32) {remaining : ℕ} {sl sr : UInt32}
    (hlow : 0 < remaining % 32) (hspan : remaining % 32 < numberOfBits.toNat)
    (hn : numberOfBits.toNat ≤ 32) (hword : 32 < remaining)
    (hsl : sl.toNat = 32 - remaining % 32)
    (hsr : sr.toNat = 32 - (numberOfBits.toNat - remaining % 32)) :
    (words.getD (remaining / 32) 0 <<< sl >>> (32 - numberOfBits) |||
      words.getD (remaining / 32 - 1) 0 >>> sr).toNat = index words remaining numberOfBits.toNat := by
  refine Nat.eq_of_testBit_eq fun i ↦ ?_
  have hr : remaining % 32 < 32 := Nat.mod_lt _ (by decide)
  have hmod : sr.toNat % 32 = 32 - (numberOfBits.toNat - remaining % 32) := by omega
  rw [UInt32.toNat_or, Nat.testBit_or, testBit_shr_shl _ hr hlow hn (by omega) hsl,
    UInt32.toNat_shiftRight, hmod, Nat.testBit_shiftRight, testBit_index]
  by_cases hi : i < numberOfBits.toNat
  · by_cases hhigh : numberOfBits.toNat ≤ i + remaining % 32
    · -- the bit is in the higher word
      have hdiv : (remaining - numberOfBits.toNat + i) / 32 = remaining / 32 := by omega
      have hmod' : (remaining - numberOfBits.toNat + i) % 32 =
          i + remaining % 32 - numberOfBits.toNat := by omega
      have hout : (words.getD (remaining / 32 - 1) 0).toNat.testBit
          (32 - (numberOfBits.toNat - remaining % 32) + i) = false :=
        Nat.testBit_lt_two_pow (lt_of_lt_of_le (UInt32.toNat_lt _)
          (Nat.pow_le_pow_right (by decide) (by omega)))
      rw [hdiv, hmod', hout, decide_eq_true hi, decide_eq_true hhigh]
      simp
    · have hdiv : (remaining - numberOfBits.toNat + i) / 32 = remaining / 32 - 1 := by omega
      have hmod' : (remaining - numberOfBits.toNat + i) % 32 =
          32 - (numberOfBits.toNat - remaining % 32) + i := by omega
      rw [hdiv, hmod', decide_eq_true hi, decide_eq_false hhigh]
      simp
  · have hout : (words.getD (remaining / 32 - 1) 0).toNat.testBit
        (32 - (numberOfBits.toNat - remaining % 32) + i) = false :=
      Nat.testBit_lt_two_pow (lt_of_lt_of_le (UInt32.toNat_lt _)
        (Nat.pow_le_pow_right (by decide) (by omega)))
    rw [hout, decide_eq_false hi]
    simp

theorem index_within (words : List UInt32) {remaining : ℕ} {sl : UInt32}
    (hlow : 0 < remaining % 32) (hwithin : numberOfBits.toNat ≤ remaining % 32)
    (hnpos : 0 < numberOfBits.toNat) (hsl : sl.toNat = 32 - remaining % 32) :
    (words.getD (remaining / 32) 0 <<< sl >>> (32 - numberOfBits)).toNat =
      index words remaining numberOfBits.toNat := by
  refine Nat.eq_of_testBit_eq fun i ↦ ?_
  have hr : remaining % 32 < 32 := Nat.mod_lt _ (by decide)
  rw [testBit_shr_shl _ hr hlow (by omega) hnpos hsl, testBit_index]
  by_cases hi : i < numberOfBits.toNat
  · have hdiv : (remaining - numberOfBits.toNat + i) / 32 = remaining / 32 := by omega
    have hmod : (remaining - numberOfBits.toNat + i) % 32 =
        i + remaining % 32 - numberOfBits.toNat := by omega
    have hle : numberOfBits.toNat ≤ i + remaining % 32 := by omega
    rw [hdiv, hmod, decide_eq_true hi, decide_eq_true hle]
    simp
  · rw [decide_eq_false hi]
    simp

theorem shl_eq_error {x k : UInt32} (h : k.toNat = 32) : shl x k = .error .undefinedShift :=
  if_neg fun hlt ↦ absurd (UInt32.lt_iff_toNat_lt.mp hlt) (by rw [h]; decide)

theorem toNat_remaining {t : UInt32} (ht : 0 < t.toNat) :
    ((t - 1) / 32).toNat = (t.toNat - 1) / 32 ∧ ((t - 1) % 32).toNat = (t.toNat - 1) % 32 ∧
      (32 - t % 32).toNat = 32 - t.toNat % 32 := by
  have hone : (1 : UInt32) ≤ t := UInt32.le_iff_toNat_le.mpr ht
  have hmod : (t % 32).toNat = t.toNat % 32 := UInt32.toNat_mod _ _
  refine ⟨?_, ?_, ?_⟩
  · rw [UInt32.toNat_div, UInt32.toNat_sub_of_le _ _ hone]
    rfl
  · rw [UInt32.toNat_mod, UInt32.toNat_sub_of_le _ _ hone]
    rfl
  · rw [UInt32.toNat_sub_of_le, hmod]
    · rfl
    · rw [UInt32.le_iff_toNat_le, hmod]
      exact (Nat.mod_lt _ (by decide)).le

/-- **Extracting takes the highest bits that remain**, unless these fill their word. -/
theorem extract_eq (hnpos : 0 < numberOfBits.toNat) (hn : numberOfBits.toNat ≤ 32)
    (hle : numberOfBits.toNat ≤ v.getRemainingBits.toNat)
    (hlen : v.getRemainingBits.toNat ≤ 32 * v.m_nixVector.length)
    (hlow : v.getRemainingBits.toNat % 32 ≠ 0) :
    ∃ bits, v.extractNeighborIndex numberOfBits = .ok (bits, v.use numberOfBits) ∧
      bits.toNat = index v.m_nixVector v.getRemainingBits.toNat numberOfBits.toNat := by
  obtain ⟨hidx, hrem, hsl⟩ := toNat_remaining (lt_of_lt_of_le hnpos hle)
  have hcut : ¬ v.getRemainingBits < numberOfBits := fun h ↦
    absurd (UInt32.lt_iff_toNat_lt.mp h) (not_lt.mpr hle)
  have hzero : ¬ numberOfBits ≤ 0 := fun h ↦
    absurd (UInt32.le_iff_toNat_le.mp h) (not_le.mpr hnpos)
  have hidx' : ((v.getRemainingBits - 1) / 32).toNat = v.getRemainingBits.toNat / 32 := by omega
  have hword : ((v.getRemainingBits - 1) / 32).toNat < v.m_nixVector.length := by omega
  have hmod : (v.getRemainingBits % 32).toNat = v.getRemainingBits.toNat % 32 := UInt32.toNat_mod _ _
  have hone : (numberOfBits - 1).toNat = numberOfBits.toNat - 1 :=
    UInt32.toNat_sub_of_le _ _ (UInt32.le_iff_toNat_le.mpr hnpos)
  have hsn : (32 - numberOfBits).toNat = 32 - numberOfBits.toNat := UInt32.toNat_sub_of_le _ _ hn
  simp only [extractNeighborIndex]
  rw [if_neg (not_tooManyBits hn), if_neg hcut, if_neg hzero]
  split
  · next hspan =>
    have hfirst : 0 < v.getRemainingBits.toNat / 32 := by
      rw [← hidx']
      exact UInt32.lt_iff_toNat_lt.mp hspan.1
    have hsecond : v.getRemainingBits.toNat % 32 < numberOfBits.toNat := by
      have := UInt32.lt_iff_toNat_lt.mp hspan.2
      omega
    have hprev : ((v.getRemainingBits - 1) / 32 - 1).toNat = v.getRemainingBits.toNat / 32 - 1 := by
      rw [UInt32.toNat_sub_of_le _ _ (UInt32.le_iff_toNat_le.mpr (hidx' ▸ hfirst)), hidx']
      rfl
    have hdiff : (numberOfBits - v.getRemainingBits % 32).toNat =
        numberOfBits.toNat - v.getRemainingBits.toNat % 32 := by
      rw [UInt32.toNat_sub_of_le, hmod]
      rw [UInt32.le_iff_toNat_le, hmod]
      exact hsecond.le
    have hsr : (32 - (numberOfBits - v.getRemainingBits % 32)).toNat =
        32 - (numberOfBits.toNat - v.getRemainingBits.toNat % 32) := by
      rw [UInt32.toNat_sub_of_le, hdiff]
      · rfl
      · rw [UInt32.le_iff_toNat_le, hdiff]
        exact (Nat.sub_le _ _).trans hn
    -- the two shifts of the higher word are one shift by what does not belong to the index
    have hshift : (32 - v.getRemainingBits % 32) - (numberOfBits - v.getRemainingBits % 32) =
        32 - numberOfBits := by grind
    rw [hshift, wordAt_eq_ok hword, Except.ok_bind, shl_eq_ok (by omega), Except.ok_bind,
      shr_eq_ok (by omega), Except.ok_bind, wordAt_eq_ok (by omega), Except.ok_bind,
      shr_eq_ok (by omega), Except.ok_bind]
    refine ⟨_, rfl, ?_⟩
    rw [hidx', hprev]
    exact index_split _ (by omega) hsecond hn (by omega) hsl hsr
  · next hspan =>
    have hwithin : numberOfBits.toNat ≤ v.getRemainingBits.toNat % 32 := by
      by_contra hlt
      refine hspan ⟨UInt32.lt_iff_toNat_lt.mpr ?_, UInt32.lt_iff_toNat_lt.mpr ?_⟩
      · rw [hidx']
        show 0 < _
        omega
      · omega
    rw [wordAt_eq_ok hword, Except.ok_bind, shl_eq_ok (by omega), Except.ok_bind,
      shr_eq_ok (by omega), Except.ok_bind]
    refine ⟨_, rfl, ?_⟩
    rw [hidx']
    exact index_within _ (by omega) hwithin hnpos hsl

theorem extract_eq_error (hnpos : 0 < numberOfBits.toNat) (hn : numberOfBits.toNat ≤ 32)
    (hle : numberOfBits.toNat ≤ v.getRemainingBits.toNat)
    (hlen : v.getRemainingBits.toNat ≤ 32 * v.m_nixVector.length)
    (hlow : v.getRemainingBits.toNat % 32 = 0) :
    v.extractNeighborIndex numberOfBits = .error .undefinedShift := by
  obtain ⟨hidx, hrem, hsl⟩ := toNat_remaining (lt_of_lt_of_le hnpos hle)
  have hcut : ¬ v.getRemainingBits < numberOfBits := fun h ↦
    absurd (UInt32.lt_iff_toNat_lt.mp h) (not_lt.mpr hle)
  have hzero : ¬ numberOfBits ≤ 0 := fun h ↦
    absurd (UInt32.le_iff_toNat_le.mp h) (not_le.mpr hnpos)
  have hword : ((v.getRemainingBits - 1) / 32).toNat < v.m_nixVector.length := by omega
  have hone : (numberOfBits - 1).toNat = numberOfBits.toNat - 1 :=
    UInt32.toNat_sub_of_le _ _ (UInt32.le_iff_toNat_le.mpr hnpos)
  have hspan : ¬ (0 < (v.getRemainingBits - 1) / 32 ∧
      (v.getRemainingBits - 1) % 32 < numberOfBits - 1) := by
    rintro ⟨-, h⟩
    have := UInt32.lt_iff_toNat_lt.mp h
    omega
  simp only [extractNeighborIndex]
  rw [if_neg (not_tooManyBits hn), if_neg hcut, if_neg hzero, if_neg hspan, wordAt_eq_ok hword,
    Except.ok_bind, shl_eq_error (by omega)]
  rfl

/-! ## Sequences of indices -/

/-- `AddNeighborIndex`, for every entry of a list: an index and the number of its bits. -/
def addAll (v : NixVector) : List (UInt32 × UInt32) → Except NixError NixVector
  | [] => .ok v
  | e :: es => do
    let v ← v.addNeighborIndex e.1 e.2
    v.addAll es

/-- `ExtractNeighborIndex`, for every number of bits of a list. -/
def extractAll (v : NixVector) : List UInt32 → Except NixError (List UInt32 × NixVector)
  | [] => .ok ([], v)
  | n :: ns => do
    let (bits, v) ← v.extractNeighborIndex n
    let (rest, v) ← v.extractAll ns
    .ok (bits :: rest, v)

/-- What may be added: one to 32 bits, and an index that fits in them. -/
def Valid (e : UInt32 × UInt32) : Prop :=
  1 ≤ e.2.toNat ∧ e.2.toNat ≤ 32 ∧ e.1.toNat < 2 ^ e.2.toNat

instance : DecidablePred Valid := fun e ↦
  inferInstanceAs (Decidable (1 ≤ e.2.toNat ∧ e.2.toNat ≤ 32 ∧ e.1.toNat < 2 ^ e.2.toNat))

/-- The fields of a list of entries. -/
def fields (es : List (UInt32 × UInt32)) : List BitField := es.map fun e ↦ field e.1 e.2

/-- The number of bits of a list of entries. -/
def totalBits (es : List (UInt32 × UInt32)) : ℕ := BitField.size (fields es)

/-- The entries come back, the last one first, and use up the vector. -/
def ReadsBack (es : List (UInt32 × UInt32)) : Prop :=
  ∃ v v', create.addAll es = .ok v ∧
    v.extractAll (es.reverse.map Prod.snd) = .ok (es.reverse.map Prod.fst, v') ∧
    v'.getRemainingBits = 0

variable {es : List (UInt32 × UInt32)} {e : UInt32 × UInt32}

theorem fits_fields (h : ∀ e ∈ es, Valid e) : ∀ f ∈ fields es, f.Fits := by
  intro f hf
  obtain ⟨e, he, rfl⟩ := List.mem_map.mp hf
  exact (h e he).2.2

theorem fields_concat : fields (es ++ [e]) = fields es ++ [field e.1 e.2] := List.map_append

theorem Written.addAll (hw : v.Written fs) (hfs : ∀ f ∈ fs, f.Fits) (hes : ∀ e ∈ es, Valid e) :
    ∃ v', v.addAll es = .ok v' ∧ v'.Written (fs ++ fields es) ∧ v'.m_used = v.m_used := by
  induction es generalizing v fs with
  | nil => exact ⟨v, rfl, (List.append_nil fs).symm ▸ hw, rfl⟩
  | cons e es ih =>
    obtain ⟨hpos, hle, hbits⟩ := hes e List.mem_cons_self
    obtain ⟨v₁, hadd, hw₁, hused⟩ := hw.add hfs hpos hle hbits
    have hfs₁ : ∀ f ∈ fs ++ [field e.1 e.2], f.Fits := by
      intro f hf
      rcases List.mem_append.mp hf with hf | hf
      · exact hfs f hf
      · rw [List.mem_singleton.mp hf]
        exact hbits
    obtain ⟨v', hall, hw', hused'⟩ := ih hw₁ hfs₁ fun e' he' ↦ hes e' (List.mem_cons_of_mem _ he')
    refine ⟨v', ?_, ?_, hused'.trans hused⟩
    · rw [NixVector.addAll, hadd]
      exact hall
    · rw [List.append_assoc] at hw'
      exact hw'

/-- These fields are left in a nix-vector. -/
structure Left (v : NixVector) (fs : List BitField) : Prop where
  remaining : v.getRemainingBits.toNat = BitField.size fs
  length : BitField.size fs ≤ 32 * v.m_nixVector.length
  number_mod : number v.m_nixVector % 2 ^ BitField.size fs = BitField.pack fs

theorem Written.left (hw : v.Written fs) (hfs : ∀ f ∈ fs, f.Fits) (hused : v.m_used = 0)
    (hlt : BitField.size fs < 2 ^ 32) : v.Left fs where
  remaining := by
    rw [getRemainingBits, hused, UInt32.sub_zero, hw.total, UInt32.toNat_ofNat', Nat.mod_eq_of_lt hlt]
  length := by
    have := hw.size
    have := hw.current_le
    omega
  number_mod := by rw [hw.number_eq, Nat.mod_eq_of_lt (BitField.pack_lt hfs)]

theorem toNat_getRemainingBits_use (hle : numberOfBits.toNat ≤ v.getRemainingBits.toNat) :
    (v.use numberOfBits).getRemainingBits.toNat =
      v.getRemainingBits.toNat - numberOfBits.toNat := by
  have huse : (v.use numberOfBits).getRemainingBits = v.getRemainingBits - numberOfBits := by
    show v.m_totalBitSize - (v.m_used + numberOfBits) = v.m_totalBitSize - v.m_used - numberOfBits
    grind
  rw [huse, UInt32.toNat_sub_of_le _ _ (UInt32.le_iff_toNat_le.mpr hle)]

/-- **Extracting takes the last field off.** -/
theorem Left.extract (hl : v.Left (fs ++ [field e.1 e.2])) (hfs : ∀ f ∈ fs, f.Fits) (he : Valid e)
    (hlow : BitField.size (fs ++ [field e.1 e.2]) % 32 ≠ 0) :
    v.extractNeighborIndex e.2 = .ok (e.1, v.use e.2) ∧ (v.use e.2).Left fs := by
  obtain ⟨hpos, hle, hbits⟩ := he
  have hsize : BitField.size (fs ++ [field e.1 e.2]) = BitField.size fs + e.2.toNat :=
    BitField.size_concat
  have hrem := hl.remaining
  have hlen := hl.length
  have hmod : number v.m_nixVector % 2 ^ (BitField.size fs + e.2.toNat) =
      BitField.pack (fs ++ [field e.1 e.2]) := hsize ▸ hl.number_mod
  have hn : e.2.toNat ≤ v.getRemainingBits.toNat := by omega
  obtain ⟨bits, hex, hbitseq⟩ := extract_eq hpos hle hn (by omega) (hrem ▸ hlow)
  have hidx : index v.m_nixVector v.getRemainingBits.toNat e.2.toNat = e.1.toNat := by
    have hdiff : v.getRemainingBits.toNat - e.2.toNat = BitField.size fs := by omega
    have hdiv := BitField.pack_concat_div (f := field e.1 e.2) hfs
    rw [← hmod, pow_add, Nat.mod_mul_right_div_self] at hdiv
    rw [index, hdiff, hdiv]
    rfl
  refine ⟨?_, ?_, ?_, ?_⟩
  · rw [hex, UInt32.toNat_inj.mp (hbitseq.trans hidx)]
  · rw [toNat_getRemainingBits_use hn, hrem, hsize, Nat.add_sub_cancel]
  · exact le_trans (by omega) hlen
  · have hcut := BitField.pack_concat_mod (f := field e.1 e.2) hfs
    rwa [← hmod, Nat.mod_mod_of_dvd _ (pow_dvd_pow _ (Nat.le_add_right _ _))] at hcut

theorem sum_le_of_extractAll {ns values : List UInt32} (h : v.extractAll ns = .ok (values, v')) :
    (ns.map UInt32.toNat).sum ≤ v.getRemainingBits.toNat := by
  induction ns generalizing v v' values with
  | nil => exact Nat.zero_le _
  | cons n ns ih =>
    rw [extractAll, Except.bind_eq_ok] at h
    obtain ⟨⟨bits, v₁⟩, hex, hrest⟩ := h
    obtain ⟨⟨rest, v₂⟩, hall, -⟩ := Except.bind_eq_ok.mp hrest
    have hle : n.toNat ≤ v.getRemainingBits.toNat ∧ v₁ = v.use n := by
      simp only [extractNeighborIndex] at hex
      split at hex
      · exact absurd hex Except.error_ne_ok
      split at hex
      · exact absurd hex Except.error_ne_ok
      next hnot =>
      refine ⟨not_lt.mp fun h ↦ hnot (UInt32.lt_iff_toNat_lt.mpr h), ?_⟩
      split at hex
      · exact absurd hex Except.error_ne_ok
      split at hex
      · simp only [Except.bind_eq_ok, Except.ok_inj] at hex
        obtain ⟨_, _, _, _, _, _, _, _, _, _, heq⟩ := hex
        exact (Prod.mk.inj heq).2.symm
      · simp only [Except.bind_eq_ok, Except.ok_inj] at hex
        obtain ⟨_, _, _, _, _, _, heq⟩ := hex
        exact (Prod.mk.inj heq).2.symm
    obtain ⟨hle, rfl⟩ := hle
    have := ih hall
    rw [toNat_getRemainingBits_use hle] at this
    rw [List.map_cons, List.sum_cons]
    omega

theorem sum_reverse_eq_totalBits :
    ((es.reverse.map Prod.snd).map UInt32.toNat).sum = totalBits es := by
  have hfields : BitField.size (fields es) = (es.map fun e ↦ e.2.toNat).sum := by
    rw [BitField.size, fields, List.map_map]
    rfl
  rw [totalBits, hfields, List.map_map, ← List.sum_reverse, List.map_reverse, List.reverse_reverse]
  rfl

/-- No word is full when its last bits are extracted. -/
def NeverFull (es : List (UInt32 × UInt32)) : Prop :=
  ∀ p ∈ es.inits, p ≠ [] → totalBits p % 32 ≠ 0

instance : DecidablePred NeverFull := fun es ↦
  inferInstanceAs (Decidable (∀ p ∈ es.inits, p ≠ [] → totalBits p % 32 ≠ 0))

theorem neverFull_concat :
    NeverFull (es ++ [e]) ↔ NeverFull es ∧ totalBits (es ++ [e]) % 32 ≠ 0 := by
  simp only [NeverFull, List.mem_inits]
  constructor
  · intro h
    refine ⟨fun p hp ↦ h p (hp.trans (List.prefix_append _ _)), h _ List.prefix_rfl (by simp)⟩
  · rintro ⟨h, hlast⟩ p hp hne
    rcases List.prefix_concat_iff.mp hp with rfl | hp
    · exact hlast
    · exact h p hp hne

/-- **The entries that are left come back if and only if no word is full.** -/
theorem Left.extractAll_iff (hl : v.Left (fields es)) (hes : ∀ e ∈ es, Valid e) :
    (∃ v', v.extractAll (es.reverse.map Prod.snd) = .ok (es.reverse.map Prod.fst, v') ∧
      v'.getRemainingBits = 0) ↔ NeverFull es := by
  induction es using List.reverseRecOn generalizing v with
  | nil =>
    refine ⟨fun _ p hp hne ↦ ?_, fun _ ↦ ⟨v, rfl, UInt32.toNat_inj.mp hl.remaining⟩⟩
    exact absurd (List.prefix_nil.mp (List.mem_inits _ _ |>.mp hp)) hne
  | append_singleton es e ih =>
    have he : Valid e := hes e (List.mem_append_right _ List.mem_cons_self)
    have hes' : ∀ e ∈ es, Valid e := fun e' he' ↦ hes e' (List.mem_append_left _ he')
    have hl' : v.Left (fields es ++ [field e.1 e.2]) := fields_concat ▸ hl
    have htotal : totalBits (es ++ [e]) = BitField.size (fields es ++ [field e.1 e.2]) := by
      rw [totalBits, fields_concat]
    rw [neverFull_concat, List.reverse_concat, List.map_cons, List.map_cons, extractAll, htotal]
    by_cases hlow : BitField.size (fields es ++ [field e.1 e.2]) % 32 = 0
    · have hrem := hl'.remaining
      have hlen := hl'.length
      have hsize : BitField.size (fields es ++ [field e.1 e.2]) =
        BitField.size (fields es) + e.2.toNat := BitField.size_concat
      rw [extract_eq_error he.1 he.2.1 (by omega) (by omega) (hrem ▸ hlow)]
      refine ⟨?_, fun h ↦ absurd hlow h.2⟩
      rintro ⟨_, h, -⟩
      exact absurd h Except.error_ne_ok
    · obtain ⟨hex, hleft⟩ := hl'.extract (fits_fields hes') he hlow
      rw [hex, Except.ok_bind, ← ih hleft hes']
      constructor
      · rintro ⟨v', h, hzero⟩
        obtain ⟨⟨rest, v₁⟩, hall, heq⟩ := Except.bind_eq_ok.mp h
        obtain ⟨hlist, rfl⟩ := Prod.mk.inj (Except.ok_inj.mp heq)
        obtain rfl := (List.cons.inj hlist).2
        exact ⟨⟨v₁, hall, hzero⟩, hlow⟩
      · rintro ⟨⟨v', hall, hzero⟩, -⟩
        refine ⟨v', ?_, hzero⟩
        simp only [hall, Except.ok_bind]

/-- **A nix-vector gives its entries back if and only if** no word is ever full when it is extracted
from, and the number of bits fits in its 32-bit count. -/
theorem nixVector_readsBack_iff (es : List (UInt32 × UInt32)) (hes : ∀ e ∈ es, Valid e) :
    ReadsBack es ↔ NeverFull es ∧ totalBits es < 2 ^ 32 := by
  obtain ⟨v, hall, hw, hused⟩ := written_create.addAll (fun f hf ↦ absurd hf (by simp)) hes
  rw [List.nil_append] at hw
  constructor
  · rintro ⟨v₁, v', hadd, hex, hzero⟩
    obtain rfl : v = v₁ := Except.ok_inj.mp (hall.symm.trans hadd)
    have hlt : totalBits es < 2 ^ 32 := by
      rw [← sum_reverse_eq_totalBits]
      exact lt_of_le_of_lt (sum_le_of_extractAll hex) (UInt32.toNat_lt _)
    exact ⟨((hw.left (fits_fields hes) hused hlt).extractAll_iff hes).mp ⟨v', hex, hzero⟩, hlt⟩
  · rintro ⟨hnever, hlt⟩
    obtain ⟨v', hex, hzero⟩ :=
      ((hw.left (fits_fields hes) hused hlt).extractAll_iff hes).mpr hnever
    exact ⟨v, v', hall, hex, hzero⟩

theorem nixVector_readsBack_iff_straddling : ReadsBack [(5, 3), (19, 32), (1, 2), (77, 20)] := by
  have htotal : totalBits [(5, 3), (19, 32), (1, 2), (77, 20)] = 57 := by decide +kernel
  refine (nixVector_readsBack_iff _ (by simp [Valid])).mpr ⟨by decide +kernel, ?_⟩
  rw [htotal]
  decide

/-- Eight indices of four bits fill a word. -/
theorem not_readsBack : ¬ ReadsBack (List.replicate 8 (9, 4)) := by
  rintro ⟨v, v', hadd, hex, -⟩
  have hfull : create.addAll (List.replicate 8 (9, 4)) = .ok ⟨[0x99999999], 0, 32, 32⟩ := by
    decide +kernel
  have hfirst : extractNeighborIndex ⟨[0x99999999], 0, 32, 32⟩ 4 = .error .undefinedShift := by
    decide +kernel
  rw [hfull, Except.ok_inj] at hadd
  rw [← hadd, List.reverse_replicate, List.map_replicate, List.replicate_succ, extractAll,
    hfirst] at hex
  exact absurd hex Except.error_ne_ok

end NixVector

end Ns3
