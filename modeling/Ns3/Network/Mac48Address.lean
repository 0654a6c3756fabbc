import Mathlib

/-!
# MAC addresses

An address of six bytes. The lowest bit of its first byte tells a group from a single station.
-/

namespace Ns3

/-- `Mac48Address`. -/
abbrev Mac48Address := List.Vector UInt8 6

namespace Mac48Address

/-- `Mac48Address::GetBroadcast`. -/
def getBroadcast : Mac48Address := List.Vector.replicate 6 0xff

/-- `Mac48Address::IsBroadcast`. -/
def isBroadcast (a : Mac48Address) : Bool := decide (a = getBroadcast)

/-- `Mac48Address::IsGroup`. -/
def isGroup (a : Mac48Address) : Bool := decide (a.head &&& 0x01 = 0x01)

example : getBroadcast.isGroup = true := by decide

end Mac48Address

end Ns3
