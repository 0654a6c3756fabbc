import Mathlib

/-!
# Words in little-endian byte order

A number of `k` bytes is written byte by byte, the lowest one first. An array of words of `k` bytes is
a number, too, with the first word as the lowest one, and writing it word by word is writing that
number.
-/

namespace Ns3

namespace LittleEndian

/-- The lowest `k` bytes of a number. -/
def write : ℕ → ℕ → List UInt8
  | 0, _ => []
  | k + 1, n => UInt8.ofNat n :: write k (n / 256)

/-- The number of some bytes. -/
def read : List UInt8 → ℕ
  | [] => 0
  | b :: bytes => b.toNat + 256 * read bytes

/-- Word by word, `m` words of `k` bytes. -/
def writeWords (k m n : ℕ) : List UInt8 :=
  (List.range m).flatMap fun j ↦ write k (n / 256 ^ (k * j) % 256 ^ k)

/-- The number of `m` words of `k` bytes. -/
def readWords (k : ℕ) : ℕ → List UInt8 → ℕ
  | 0, _ => 0
  | m + 1, bytes => read (bytes.take k) + 256 ^ k * readWords k m (bytes.drop k)

@[simp] theorem length_write : ∀ k n : ℕ, (write k n).length = k
  | 0, _ => rfl
  | k + 1, n => congrArg Nat.succ (length_write k (n / 256))

theorem read_write (k : ℕ) : ∀ n : ℕ, read (write k n) = n % 256 ^ k := by
  induction k with
  | zero => exact fun n ↦ (Nat.mod_one n).symm
  | succ k ih =>
    intro n
    have hbyte : (UInt8.ofNat n).toNat = n % 256 := UInt8.toNat_ofNat'
    rw [write, read, ih, hbyte, pow_succ']
    exact Nat.mod_mul.symm

theorem write_add (j k : ℕ) : ∀ n : ℕ, write (j + k) n = write j n ++ write k (n / 256 ^ j) := by
  induction j with
  | zero =>
    intro n
    rw [Nat.zero_add, pow_zero, Nat.div_one]
    rfl
  | succ j ih =>
    intro n
    rw [Nat.succ_add, write, write, ih, Nat.div_div_eq_div_mul, pow_succ', List.cons_append]

theorem write_mod (k : ℕ) : ∀ n : ℕ, write k (n % 256 ^ k) = write k n := by
  induction k with
  | zero => exact fun n ↦ rfl
  | succ k ih =>
    intro n
    have hlow : UInt8.ofNat (n % 256 ^ (k + 1)) = UInt8.ofNat n := by
      refine UInt8.toNat_inj.mp ?_
      rw [UInt8.toNat_ofNat', UInt8.toNat_ofNat', pow_succ']
      exact Nat.mod_mul_right_mod _ _ _
    rw [write, write, hlow, pow_succ', Nat.mod_mul_right_div_self, ih]

theorem length_writeWords (k m n : ℕ) : (writeWords k m n).length = m * k := by
  rw [writeWords, List.length_flatMap]
  simp

/-- An array is written as its number is. -/
theorem writeWords_eq (k m n : ℕ) : writeWords k m n = write (k * m) n := by
  induction m with
  | zero => rfl
  | succ m ih =>
    rw [writeWords, List.range_succ, List.flatMap_append, Nat.mul_succ, write_add, ← ih,
      List.flatMap_singleton, write_mod]
    rfl

theorem read_append (a b : List UInt8) : read (a ++ b) = read a + 256 ^ a.length * read b := by
  induction a with
  | nil =>
    rw [List.nil_append, List.length_nil, pow_zero, Nat.one_mul]
    exact (Nat.zero_add _).symm
  | cons c a ih =>
    rw [List.cons_append, read, read, ih, List.length_cons, pow_succ', Nat.mul_add, Nat.mul_assoc,
      Nat.add_assoc]

theorem readWords_eq (k m : ℕ) : ∀ {bytes : List UInt8}, k * m ≤ bytes.length →
    readWords k m bytes = read (bytes.take (k * m)) := by
  induction m with
  | zero => exact fun _ ↦ rfl
  | succ m ih =>
    intro bytes hle
    rw [Nat.mul_succ] at hle
    rw [readWords, ih (by rw [List.length_drop]; omega), Nat.mul_succ, Nat.add_comm (k * m),
      List.take_add, read_append, List.length_take, min_eq_left (by omega)]

/-- **What is written word by word is read word by word.** -/
theorem readWords_writeWords {k m n : ℕ} (hn : n < 256 ^ (k * m)) (rest : List UInt8) :
    readWords k m (writeWords k m n ++ rest) = n := by
  have hlen := length_writeWords k m n
  have hmul := Nat.mul_comm k m
  rw [readWords_eq k m (by rw [List.length_append]; omega), List.take_left' (hlen.trans hmul.symm),
    writeWords_eq, read_write, Nat.mod_eq_of_lt hn]

end LittleEndian

end Ns3
