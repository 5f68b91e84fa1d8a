/-! How many of the transactions that came were asked for. Both counts stop at
the greatest 32-bit number. -/

namespace LightPeer

/-- The transactions that came, and those among them that nobody asked for. -/
structure Tally where
  received : UInt32
  falsePositives : UInt32
deriving DecidableEq, Repr

namespace Tally

def empty : Tally := ⟨0, 0⟩

/-- The next number, or the same one at the end of the range. -/
def bump (n : UInt32) : UInt32 := if n = 0xffffffff then n else n + 1

def record (tally : Tally) (falsePositive : Bool) : Tally where
  received := bump tally.received
  falsePositives := if falsePositive then bump tally.falsePositives else tally.falsePositives

/-- The share of false positives, once anything came. -/
def rate? (tally : Tally) : Option Float32 :=
  if tally.received = 0 then none
  else some (tally.falsePositives.toFloat32 / tally.received.toFloat32)

end Tally

end LightPeer
