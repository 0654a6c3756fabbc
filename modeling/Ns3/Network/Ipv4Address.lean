import Mathlib.Data.BitVec

/-!
# Internet addresses and masks

An `Ipv4Address` and an `Ipv4Mask` are words of 32 bits. A mask need not be contiguous: what
`GetPrefixLength` counts are the bits from the highest one down to the lowest one that is set.
-/

namespace Ns3

/-- An `Ipv4Address`. -/
abbrev Ipv4Address := BitVec 32

/-- An `Ipv4Mask`. -/
abbrev Ipv4Mask := BitVec 32

namespace Ipv4Mask

/-- `IsMatch`. -/
def IsMatch (mask : Ipv4Mask) (a b : Ipv4Address) : Prop := a &&& mask = b &&& mask

instance (mask : Ipv4Mask) (a b : Ipv4Address) : Decidable (IsMatch mask a b) :=
  inferInstanceAs (Decidable (_ = _))

/-- The loop of `GetPrefixLength`; after 32 turns nothing is left of the mask. -/
def getPrefixLengthLoop : ℕ → Ipv4Mask → ℕ
  | 0, _ => 0
  | n + 1, mask => if mask = 0 then 0 else getPrefixLengthLoop n (mask <<< 1) + 1

/-- `GetPrefixLength`. -/
def getPrefixLength (mask : Ipv4Mask) : ℕ := getPrefixLengthLoop 32 mask

theorem getPrefixLengthLoop_le (n : ℕ) (mask : Ipv4Mask) : getPrefixLengthLoop n mask ≤ n := by
  induction n generalizing mask with
  | zero => exact le_rfl
  | succ n ih =>
    rw [getPrefixLengthLoop]
    split_ifs
    · exact Nat.zero_le _
    · exact Nat.succ_le_succ (ih _)

theorem getPrefixLength_le (mask : Ipv4Mask) : getPrefixLength mask ≤ 32 := getPrefixLengthLoop_le 32 mask

end Ipv4Mask

namespace Ipv4Address

/-- The order of `operator <`. -/
instance : LinearOrder Ipv4Address where
  le_refl := BitVec.le_refl
  le_trans _ _ _ := BitVec.le_trans
  lt_iff_le_not_ge _ _ := by simp only [BitVec.lt_def, BitVec.le_def]; omega
  le_antisymm _ _ := BitVec.le_antisymm
  le_total := BitVec.le_total
  toDecidableLE := inferInstance
  toDecidableEq := inferInstance
  toDecidableLT := inferInstance

instance : LawfulBEq Ipv4Address := inferInstance

-- This is decided along the list, and not for all the words of 32 bits.
instance (l : List Ipv4Address) (p : Ipv4Address → Prop) [DecidablePred p] : Decidable (∃ a ∈ l, p a) :=
  List.decidableBEx p l

/-- `CombineMask`. -/
def combineMask (a : Ipv4Address) (mask : Ipv4Mask) : Ipv4Address := a &&& mask

/-- `IsLocalhost`. -/
def IsLocalhost (a : Ipv4Address) : Prop := a = 0x7f000001

/-- `IsBroadcast`. -/
def IsBroadcast (a : Ipv4Address) : Prop := a = 0xffffffff

/-- `IsMulticast`. -/
def IsMulticast (a : Ipv4Address) : Prop := 0xe0000000 ≤ a ∧ a ≤ 0xefffffff

/-- `IsLocalMulticast`. -/
def IsLocalMulticast (a : Ipv4Address) : Prop := a &&& 0xffffff00 = 0xe0000000

instance (a : Ipv4Address) : Decidable (IsLocalhost a) := inferInstanceAs (Decidable (_ = _))
instance (a : Ipv4Address) : Decidable (IsBroadcast a) := inferInstanceAs (Decidable (_ = _))
instance (a : Ipv4Address) : Decidable (IsMulticast a) := inferInstanceAs (Decidable (_ ∧ _))
instance (a : Ipv4Address) : Decidable (IsLocalMulticast a) := inferInstanceAs (Decidable (_ = _))

end Ipv4Address

end Ns3
