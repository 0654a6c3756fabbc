import Mathlib

/-!
# The bits of an octet

An octet is read from its most significant bit on. The loops of a bit writer and of a bit reader walk
through it with a mask of one bit, which they shift at every step; here is what such a loop does to the
list of the eight bits.
-/

namespace Ns3

namespace Octet

/-- The bits of an octet, the most significant one first. -/
def bits (o : BitVec 8) : List Bool := (List.range 8).map o.getMsbD

/-- The mask of the bit at place `k`. -/
def mask (k : ℕ) : BitVec 8 := 0x80#8 >>> k

@[simp] theorem length_bits (o : BitVec 8) : (bits o).length = 8 := by simp [bits]

theorem getD_bits (o : BitVec 8) {i : ℕ} (hi : i < 8) : (bits o).getD i false = o.getMsbD i := by
  simp [bits, List.getD_eq_getElem?_getD, hi]

theorem ext_bits {o : BitVec 8} {l : List Bool} (hlen : l.length = 8)
    (h : ∀ i < 8, o.getMsbD i = l.getD i false) : bits o = l := by
  refine List.ext_getElem (by rw [length_bits, hlen]) fun i hi hi' ↦ ?_
  have hlt : i < 8 := by rwa [length_bits] at hi
  have heq := h i hlt
  rw [List.getD_eq_getElem _ _ hi'] at heq
  simpa [bits] using heq

theorem getMsbD_mask : ∀ k < 8, ∀ i < 8, (mask k).getMsbD i = decide (i = k) := by decide

theorem and_mask_ne_zero (o : BitVec 8) {k : ℕ} (hk : k < 8) :
    decide (o &&& mask k ≠ 0#8) = o.getMsbD k := by
  have hmask : mask k = BitVec.twoPow 8 (7 - k) := by
    interval_cases k <;> rfl
  have hne : BitVec.twoPow 8 (7 - k) ≠ 0#8 := by
    interval_cases k <;> decide
  rw [hmask, BitVec.and_twoPow, BitVec.getMsbD_eq_getLsbD, decide_eq_true hk, Bool.true_and]
  cases o.getLsbD (7 - k) with
  | false => simp
  | true => simpa using hne

/-! ## Writing -/

/-- The step of a mask in a writer. -/
def down (m : BitVec 8) : BitVec 8 := (m >>> 1) &&& ~~~m

theorem down_mask : ∀ k < 8, down (mask k) = mask (k + 1) := by decide

/-- Sets bits in an octet, from the mask on downwards. -/
def setBits : List Bool → BitVec 8 → BitVec 8 → BitVec 8
  | [], _, o => o
  | d :: data, m, o => setBits data (down m) (o ||| if d then m else 0#8)

/-- The octet starts with these bits, and the others are zero. -/
def StartsWith (o : BitVec 8) (p : List Bool) : Prop :=
  p.length ≤ 8 ∧ ∀ i < 8, o.getMsbD i = p.getD i false

theorem startsWith_nil : StartsWith 0#8 [] := ⟨by simp, fun i _ ↦ by simp⟩

theorem startsWith_nil_iff {o : BitVec 8} : StartsWith o [] ↔ o = 0#8 := by
  constructor
  · rintro ⟨-, h⟩
    refine BitVec.eq_of_getMsbD_eq fun i hi ↦ ?_
    simpa using h i hi
  · rintro rfl
    exact startsWith_nil

theorem StartsWith.bits_eq {o : BitVec 8} {p : List Bool} (h : StartsWith o p) :
    bits o = p ++ List.replicate (8 - p.length) false := by
  have hle := h.1
  refine ext_bits (by simp [hle]) fun i hi ↦ ?_
  rw [h.2 i hi]
  rcases Nat.lt_or_ge i p.length with hlt | hge
  · rw [List.getD_append _ _ _ _ hlt]
  · rw [List.getD_append_right _ _ _ _ hge, List.getD_eq_default _ _ hge,
      List.getD_eq_getElem?_getD, List.getElem?_getD_replicate_default_eq]

theorem StartsWith.or_mask {o : BitVec 8} {p : List Bool} (h : StartsWith o p) (hlt : p.length < 8)
    (d : Bool) : StartsWith (o ||| if d then mask p.length else 0#8) (p ++ [d]) := by
  refine ⟨by simpa using hlt, fun i hi ↦ ?_⟩
  rw [BitVec.getMsbD_or, h.2 i hi]
  have hbit : (if d then mask p.length else 0#8).getMsbD i = (d && decide (i = p.length)) := by
    cases d with
    | false => simp
    | true => simpa using getMsbD_mask p.length hlt i hi
  rw [hbit]
  rcases lt_trichotomy i p.length with hi' | rfl | hi'
  · rw [List.getD_append _ _ _ _ hi']
    simp [hi'.ne]
  · rw [List.getD_append_right _ _ _ _ le_rfl, List.getD_eq_default _ _ le_rfl]
    simp
  · rw [List.getD_append_right _ _ _ _ hi'.le, List.getD_eq_default _ _ hi'.le,
      List.getD_eq_default _ _ (by simp; omega)]
    simp [hi'.ne']

/-- **What the writer's loop does.** -/
theorem StartsWith.setBits {o : BitVec 8} {p : List Bool} (h : StartsWith o p) (data : List Bool)
    (hle : p.length + data.length ≤ 8) :
    StartsWith (setBits data (mask p.length) o) (p ++ data) := by
  induction data generalizing p o with
  | nil => simpa [Octet.setBits] using h
  | cons d data ih =>
    rw [List.length_cons] at hle
    have hlt : p.length < 8 := by omega
    have hstep := ih (h.or_mask hlt d) (by rw [List.length_append, List.length_singleton]; omega)
    rw [List.length_append, List.length_singleton, List.append_assoc] at hstep
    rw [Octet.setBits, down_mask _ hlt]
    exact hstep

/-- Sets bits in an octet, from the mask on upwards. -/
def setBitsUp : List Bool → BitVec 8 → BitVec 8 → BitVec 8
  | [], _, o => o
  | d :: data, m, o => setBitsUp data ((m <<< 1) &&& ~~~m) (o ||| if d then m else 0#8)

theorem bits_setBitsUp : ∀ d₇ d₆ d₅ d₄ d₃ d₂ d₁ d₀ : Bool,
    bits (setBitsUp [d₀, d₁, d₂, d₃, d₄, d₅, d₆, d₇] 1#8 0#8) = [d₇, d₆, d₅, d₄, d₃, d₂, d₁, d₀] := by
  decide +kernel

/-! ## Reading -/

/-- Reads bits of an octet, from the mask on downwards. -/
def readBits : ℕ → BitVec 8 → BitVec 8 → List Bool
  | 0, _, _ => []
  | n + 1, m, o => decide (o &&& m ≠ 0#8) :: readBits n (m >>> 1) o

theorem mask_shiftRight (k : ℕ) : mask k >>> 1 = mask (k + 1) := (BitVec.shiftRight_add _ k 1).symm

/-- **What the reader's loop does.** -/
theorem readBits_eq (o : BitVec 8) {n k : ℕ} (hle : k + n ≤ 8) :
    readBits n (mask k) o = ((bits o).drop k).take n := by
  induction n generalizing k with
  | zero => rw [readBits, List.take_zero]
  | succ n ih =>
    have hlt : k < (bits o).length := by
      rw [length_bits]
      omega
    rw [readBits, mask_shiftRight, ih (by omega), and_mask_ne_zero o (by omega),
      List.drop_eq_getElem_cons hlt, List.take_succ_cons]
    simp [bits]

theorem readBits_all (o : BitVec 8) {n : ℕ} (hle : n ≤ 8) :
    readBits n (mask 0) o = (bits o).take n := by
  rw [readBits_eq o (by omega), List.drop_zero]

theorem bits_shiftLeft (o : BitVec 8) {n : ℕ} (hle : n ≤ 8) :
    bits (o <<< n) = (bits o).drop n ++ List.replicate n false := by
  refine ext_bits (by simp [hle]) fun i hi ↦ ?_
  rw [BitVec.getMsbD_shiftLeft]
  rcases Nat.lt_or_ge i (8 - n) with hlt | hge
  · rw [List.getD_append _ _ _ _ (by simpa using hlt), List.getD_eq_getElem?_getD,
      List.getElem?_drop, ← List.getD_eq_getElem?_getD, getD_bits o (by omega), add_comm]
  · rw [List.getD_append_right _ _ _ _ (by simpa using hge), BitVec.getMsbD_of_ge _ _ (by omega),
      List.getD_eq_getElem?_getD, List.getElem?_getD_replicate_default_eq]

end Octet

end Ns3
