import Mathlib

/-!
# Sequence numbers of ten bits

A `SequenceNumber10` is a number modulo 1024 with a modulus base, and two of them can only be compared
where their bases are the same: an assertion sees to that, so that a comparison is partial here. What is
compared are the differences to the base, of which the remainder is taken although they may be
negative; it is negative then, and becomes a large number of sixteen bits.

A sequence number stands for a natural number that is at most 1023 above the one that its base stands
for (`Denotes`), and numbers with the same base are compared as what they stand for.
-/

namespace Ns3

namespace Lte

/-- A `SequenceNumber10`. -/
structure SequenceNumber10 where
  m_value : ℕ
  m_modulusBase : ℕ
  deriving DecidableEq

namespace SequenceNumber10

/-- The constructor. -/
def ofValue (value : ℕ) : SequenceNumber10 := ⟨value % 1024, 0⟩

/-- `operator=`, of a number. -/
def assign (s : SequenceNumber10) (value : ℕ) : SequenceNumber10 := { s with m_value := value % 1024 }

def setModulusBase (s base : SequenceNumber10) : SequenceNumber10 :=
  { s with m_modulusBase := base.m_value }

/-- `operator++`. -/
def next (s : SequenceNumber10) : SequenceNumber10 := { s with m_value := (s.m_value + 1) % 1024 }

/-- `operator+`. -/
def add (s : SequenceNumber10) (delta : ℕ) : SequenceNumber10 :=
  { s with m_value := (s.m_value + delta) % 1024 }

/-- A remainder of a difference, as a number of 16 bits. -/
def remainder (a b : ℕ) : ℕ := (((a : ℤ) - b).tmod 1024 % 65536).toNat

/-- `operator-`. -/
def sub (s : SequenceNumber10) (delta : ℕ) : SequenceNumber10 :=
  { s with m_value := remainder s.m_value delta % 1024 }

/-- `operator>`. -/
def gt (s t : SequenceNumber10) : Option Bool :=
  if s.m_modulusBase = t.m_modulusBase then
    some (decide (remainder t.m_value t.m_modulusBase < remainder s.m_value s.m_modulusBase))
  else none

/-- `operator<=`. -/
def le (s t : SequenceNumber10) : Option Bool := (s.gt t).map (!·)

/-- `operator>=`. -/
def ge (s t : SequenceNumber10) : Option Bool :=
  (s.gt t).map (· || decide (s.m_value = t.m_value))

/-- `operator<`. -/
def lt (s t : SequenceNumber10) : Option Bool :=
  (s.gt t).map (!· && decide (s.m_value ≠ t.m_value))

/-- How far one value is above another. -/
def distance (v w : ℕ) : ℕ := (w + 1024 - v) % 1024

/-! ## What sequence numbers stand for -/

/-- A sequence number stands for `n`, and its base for `b`. -/
structure Denotes (b n : ℕ) (s : SequenceNumber10) : Prop where
  value : s.m_value = n % 1024
  base : s.m_modulusBase = b % 1024
  le : b ≤ n
  lt : n < b + 1024

variable {b n m delta : ℕ} {s t : SequenceNumber10}

theorem distance_eq (hle : n ≤ m) (hlt : m < n + 1024) : distance (n % 1024) (m % 1024) = m - n := by
  rw [distance]
  omega

theorem exists_mod_eq (b : ℕ) {v : ℕ} (hv : v < 1024) : ∃ n, b ≤ n ∧ n < b + 1024 ∧ v = n % 1024 :=
  ⟨b + (v + 1024 - b % 1024) % 1024, by omega, by omega, by omega⟩

theorem remainder_eq {v w : ℕ} (hv : v < 1024) (hw : w < 1024) :
    remainder v w = if w ≤ v then v - w else 65536 - (w - v) := by
  rw [remainder]
  split_ifs with h
  · rw [Int.tmod_eq_of_lt (by omega) (by omega)]
    omega
  · have hneg : ((v : ℤ) - w).tmod 1024 = (v : ℤ) - w := by
      rw [← neg_sub (w : ℤ) v, Int.neg_tmod, Int.tmod_eq_of_lt (by omega) (by omega)]
    rw [hneg]
    omega

/-- **The order of the differences is that of what the numbers stand for.** -/
theorem remainder_lt_iff (hs : Denotes b n s) (ht : Denotes b m t) :
    remainder s.m_value s.m_modulusBase < remainder t.m_value t.m_modulusBase ↔ n < m := by
  obtain ⟨hsv, hsb, hsle, hslt⟩ := hs
  obtain ⟨htv, htb, htle, htlt⟩ := ht
  rw [hsv, hsb, htv, htb, remainder_eq (Nat.mod_lt _ (by decide)) (Nat.mod_lt _ (by decide)),
    remainder_eq (Nat.mod_lt _ (by decide)) (Nat.mod_lt _ (by decide))]
  split_ifs <;> omega

theorem value_eq_iff (hs : Denotes b n s) (ht : Denotes b m t) : s.m_value = t.m_value ↔ n = m := by
  obtain ⟨hsv, -, hsle, hslt⟩ := hs
  obtain ⟨htv, -, htle, htlt⟩ := ht
  rw [hsv, htv]
  omega

theorem gt_eq (hs : Denotes b n s) (ht : Denotes b m t) : s.gt t = some (decide (m < n)) := by
  rw [gt, if_pos (hs.base.trans ht.base.symm)]
  exact congrArg some (decide_eq_decide.mpr (remainder_lt_iff ht hs))

theorem le_eq (hs : Denotes b n s) (ht : Denotes b m t) : s.le t = some (decide (n ≤ m)) := by
  rw [le, gt_eq hs ht, Option.map_some, ← decide_not]
  exact congrArg some (decide_eq_decide.mpr Nat.not_lt)

theorem ge_eq (hs : Denotes b n s) (ht : Denotes b m t) : s.ge t = some (decide (m ≤ n)) := by
  rw [ge, gt_eq hs ht, Option.map_some, ← Bool.decide_or]
  refine congrArg some (decide_eq_decide.mpr ?_)
  rw [value_eq_iff hs ht, le_iff_lt_or_eq, eq_comm (a := m)]

theorem lt_eq (hs : Denotes b n s) (ht : Denotes b m t) : s.lt t = some (decide (n < m)) := by
  rw [lt, gt_eq hs ht, Option.map_some, ← decide_not, ← Bool.decide_and]
  refine congrArg some (decide_eq_decide.mpr ?_)
  rw [Ne, value_eq_iff hs ht, Nat.not_lt, Nat.lt_iff_le_and_ne]

theorem Denotes.next (hs : Denotes b n s) (h : n + 1 < b + 1024) : Denotes b (n + 1) s.next where
  value := by rw [SequenceNumber10.next, hs.value, Nat.mod_add_mod]
  base := hs.base
  le := hs.le.trans (Nat.le_succ n)
  lt := h

theorem Denotes.add (hs : Denotes b n s) (h : n + delta < b + 1024) :
    Denotes b (n + delta) (s.add delta) where
  value := by rw [SequenceNumber10.add, hs.value, Nat.mod_add_mod]
  base := hs.base
  le := hs.le.trans (Nat.le_add_right n delta)
  lt := h

theorem value_sub (hs : s.m_value = n % 1024) (hdelta : delta < 1024) (hle : delta ≤ n) :
    (s.sub delta).m_value = (n - delta) % 1024 := by
  change remainder s.m_value delta % 1024 = _
  rw [hs, remainder_eq (Nat.mod_lt _ (by decide)) hdelta]
  split_ifs <;> omega

end SequenceNumber10

end Lte

end Ns3
