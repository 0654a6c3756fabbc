import Ns3.Network.Buffer

/-!
# Reading from a buffer

The reading methods of `Buffer::Iterator`. An iterator is the list of the bytes from its place on. Each
method reads back what the method of the same name wrote.
-/

namespace Ns3

namespace Buffer

/-- Why reading does not succeed. -/
inductive Failure
  /-- The assertion that the iterator is in the buffer. -/
  | readBeyondEnd
  /-- `NS_ABORT_IF`. -/
  | aborted
  /-- A loop has not ended. -/
  | outOfFuel
  deriving DecidableEq, Repr

def readU8 : List UInt8 → Except Failure (UInt8 × List UInt8)
  | [] => .error .readBeyondEnd
  | b :: i => .ok (b, i)

def readNtohU16 (i : List UInt8) : Except Failure (UInt16 × List UInt8) := do
  let (b₀, i) ← readU8 i
  let (b₁, i) ← readU8 i
  return ((b₀.toUInt16 <<< 8) ||| b₁.toUInt16, i)

def readNtohU32 (i : List UInt8) : Except Failure (UInt32 × List UInt8) := do
  let (b₀, i) ← readU8 i
  let (b₁, i) ← readU8 i
  let (b₂, i) ← readU8 i
  let (b₃, i) ← readU8 i
  return ((((((b₀.toUInt32 <<< 8) ||| b₁.toUInt32) <<< 8) ||| b₂.toUInt32) <<< 8) ||| b₃.toUInt32, i)

/-- `Read (buffer, size)`. -/
def read (size : ℕ) (i : List UInt8) : Except Failure (List UInt8 × List UInt8) :=
  if size ≤ i.length then .ok (i.take size, i.drop size) else .error .readBeyondEnd

/-! ## What is read is what was written -/

section Reading

variable (i : List UInt8)

@[simp] theorem readU8_cons (b : UInt8) : readU8 (b :: i) = .ok (b, i) := rfl

theorem shiftLeft_or {a b m : ℕ} (ha : a * 256 < m) (hb : b < 2 ^ 8) :
    (a <<< 8 % m) ||| b = a * 256 + b := by
  have hshift : a <<< 8 = a * 256 := Nat.shiftLeft_eq a 8
  rw [Nat.mod_eq_of_lt (hshift.trans_lt ha), ← Nat.shiftLeft_add_eq_or_of_lt hb, hshift]

theorem toNat_shiftLeft_or16 {a : UInt16} (ha : a.toNat * 256 < 2 ^ 16) (b : UInt8) :
    ((a <<< 8) ||| b.toUInt16).toNat = a.toNat * 256 + b.toNat := by
  rw [UInt16.toNat_or, UInt16.toNat_shiftLeft, UInt8.toNat_toUInt16]
  exact shiftLeft_or ha b.toNat_lt

theorem toNat_shiftLeft_or32 {a : UInt32} (ha : a.toNat * 256 < 2 ^ 32) (b : UInt8) :
    ((a <<< 8) ||| b.toUInt32).toNat = a.toNat * 256 + b.toNat := by
  rw [UInt32.toNat_or, UInt32.toNat_shiftLeft, UInt8.toNat_toUInt32]
  exact shiftLeft_or ha b.toNat_lt

@[simp] theorem readNtohU16_append (data : UInt16) :
    readNtohU16 ((Writer.writeHtonU16 data).bytes ++ i) = .ok (data, i) := by
  have hlt := data.toNat_lt
  have hhigh : (data >>> 8).toUInt8.toNat = data.toNat / 256 := by
    rw [UInt16.toNat_toUInt8, UInt16.toNat_shiftRight, Nat.shiftRight_eq_div_pow]
    change data.toNat / 256 % 256 = _
    omega
  have hlow : data.toUInt8.toNat = data.toNat % 256 := UInt16.toNat_toUInt8 data
  change Except.ok ((((data >>> 8).toUInt8.toUInt16 <<< 8) ||| data.toUInt8.toUInt16), i) = _
  congr 2
  apply UInt16.toNat_inj.mp
  rw [toNat_shiftLeft_or16 (by rw [UInt8.toNat_toUInt16]; omega), UInt8.toNat_toUInt16, hhigh, hlow]
  omega

@[simp] theorem readNtohU32_append (data : UInt32) :
    readNtohU32 ((Writer.writeHtonU32 data).bytes ++ i) = .ok (data, i) := by
  have hlt := data.toNat_lt
  have hbyte : ∀ k : UInt32, k.toNat < 32 →
      (data >>> k).toUInt8.toNat = data.toNat / 2 ^ k.toNat % 256 := fun k hk ↦ by
    rw [UInt32.toNat_toUInt8, UInt32.toNat_shiftRight, Nat.shiftRight_eq_div_pow,
      Nat.mod_eq_of_lt hk]
  have h3 : (data >>> 24).toUInt8.toNat = data.toNat / 2 ^ 24 % 256 := hbyte 24 (by decide)
  have h2 : (data >>> 16).toUInt8.toNat = data.toNat / 2 ^ 16 % 256 := hbyte 16 (by decide)
  have h1 : (data >>> 8).toUInt8.toNat = data.toNat / 2 ^ 8 % 256 := hbyte 8 (by decide)
  have h0 : data.toUInt8.toNat = data.toNat % 256 := UInt32.toNat_toUInt8 data
  change Except.ok (((((((data >>> 24).toUInt8.toUInt32 <<< 8) ||| (data >>> 16).toUInt8.toUInt32)
    <<< 8) ||| (data >>> 8).toUInt8.toUInt32) <<< 8) ||| data.toUInt8.toUInt32, i) = _
  congr 2
  apply UInt32.toNat_inj.mp
  have hfirst := toNat_shiftLeft_or32 (a := (data >>> 24).toUInt8.toUInt32)
    (by rw [UInt8.toNat_toUInt32]; omega) (data >>> 16).toUInt8
  rw [UInt8.toNat_toUInt32] at hfirst
  have hsecond := toNat_shiftLeft_or32 (by rw [hfirst]; omega) (data >>> 8).toUInt8
  rw [toNat_shiftLeft_or32 (by rw [hsecond, hfirst]; omega), hsecond, hfirst]
  omega

end Reading

end Buffer

end Ns3
