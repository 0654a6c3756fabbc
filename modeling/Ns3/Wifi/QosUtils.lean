import Mathlib

/-!
# Sequence numbers of MPDUs

Sequence numbers of MPDUs have 12 bits. They stand for numbers that do not wrap (`seq`), and the
comparisons of the code are right for numbers that are less than half of the space apart.
-/

namespace Ns3

namespace Wifi

/-- The sequence number of a number that does not wrap. -/
def seq (n : ℤ) : ℕ := (n % 4096).toNat

/-- `(b - a + 4096) % 4096`: how far `b` is ahead of `a`. -/
def distance (a b : ℕ) : ℕ := (b + 4096 - a) % 4096

/-- `QosUtilsMapSeqControlToUniqueInteger`: sequence controls in the order of their numbers after
`endSequence`. -/
def qosUtilsMapSeqControlToUniqueInteger (seqControl endSequence : ℕ) : ℕ :=
  (4096 - (endSequence + 1) + seqControl / 16 % 4096) % 4096 * 16 + seqControl % 16

def qosUtilsIsOldPacket (startingSeq seqNumber : ℕ) : Bool :=
  decide (2048 ≤ distance startingSeq seqNumber)

def isInWindow (seq winstart winsize : ℕ) : Bool := decide (distance winstart seq < winsize)

variable {a b : ℤ}

theorem seq_lt (a : ℤ) : seq a < 4096 := by
  rw [seq]
  omega

theorem coe_seq (a : ℤ) : (seq a : ℤ) = a % 4096 :=
  Int.toNat_of_nonneg (Int.emod_nonneg a (by decide))

theorem seq_add (a : ℤ) (k : ℕ) : (seq a + k) % 4096 = seq (a + k) := by
  have h := coe_seq a
  have h' := coe_seq (a + k)
  omega

theorem seq_succ (a : ℤ) : (seq a + 1) % 4096 = seq (a + 1) := seq_add a 1

theorem seq_pred (a : ℤ) : (seq a + 4096 - 1) % 4096 = seq (a - 1) := by
  have h := coe_seq a
  have h' := coe_seq (a - 1)
  omega

theorem distance_seq (a b : ℤ) : (distance (seq a) (seq b) : ℤ) = (b - a) % 4096 := by
  have ha := coe_seq a
  have hb := coe_seq b
  have hlt := seq_lt a
  rw [distance]
  omega

theorem distance_seq_of_le (hle : a ≤ b) (hlt : b - a < 4096) :
    (distance (seq a) (seq b) : ℤ) = b - a := by
  rw [distance_seq, Int.emod_eq_of_lt (by omega) hlt]

theorem seq_inj (h : seq a = seq b) (hlt : b - a < 4096) (hgt : a - b < 4096) : a = b := by
  have ha := coe_seq a
  have hb := coe_seq b
  omega

/-- **Old packets are those behind the start**, up to half of the space. -/
theorem qosUtilsIsOldPacket_iff (hlo : a - 2048 ≤ b) (hhi : b ≤ a + 2047) :
    qosUtilsIsOldPacket (seq a) (seq b) = true ↔ b < a := by
  have h := distance_seq a b
  rw [qosUtilsIsOldPacket, decide_eq_true_iff]
  omega

/-- **The window** of numbers that are not behind its start. -/
theorem isInWindow_iff {winsize : ℕ} (hle : a ≤ b) (hlt : b - a < 4096) :
    isInWindow (seq b) (seq a) winsize = true ↔ b < a + winsize := by
  have h := distance_seq_of_le hle hlt
  rw [isInWindow, decide_eq_true_iff]
  omega

theorem qosUtilsMapSeqControlToUniqueInteger_seq (hlo : a - 2048 ≤ b) (hhi : b ≤ a + 2047) :
    (qosUtilsMapSeqControlToUniqueInteger (seq b * 16) (seq (a + 2047)) : ℤ) =
      (b - a + 2048) * 16 := by
  have ha := coe_seq (a + 2047)
  have hb := coe_seq b
  rw [qosUtilsMapSeqControlToUniqueInteger]
  omega

/-- **The mapping keeps the order** of the 4096 numbers around `a`. -/
theorem map_lt_map_iff {x y : ℤ} (hx : a - 2048 ≤ x) (hx' : x ≤ a + 2047) (hy : a - 2048 ≤ y)
    (hy' : y ≤ a + 2047) :
    qosUtilsMapSeqControlToUniqueInteger (seq x * 16) (seq (a + 2047)) <
      qosUtilsMapSeqControlToUniqueInteger (seq y * 16) (seq (a + 2047)) ↔ x < y := by
  have h := qosUtilsMapSeqControlToUniqueInteger_seq hx hx'
  have h' := qosUtilsMapSeqControlToUniqueInteger_seq hy hy'
  omega

end Wifi

end Ns3
