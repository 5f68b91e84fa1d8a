import LightPeer.Hex

/-! Numbers in a base of at most sixteen, as digits and as values. -/

namespace LightPeer.Numeral

/-- The value of a digit below a base of at most sixteen. -/
def digit? (base : Nat) (c : Char) : Option Nat :=
  ((Hex.digitValue? c).map UInt8.toNat).filter (· < base)

def ofDigits (base : Nat) (digits : List Nat) : Nat := digits.foldl (fun n d => base * n + d) 0

/-- The value of a text of one digit or more, leading zeros allowed. -/
def ofChars? (base : Nat) (text : List Char) : Option Nat :=
  if text.isEmpty then none else (text.mapM (digit? base)).map (ofDigits base)

/-- The digits of a value in lower case, without leading zeros. -/
def toChars (base value : Nat) : List Char := Nat.toDigits base value

end LightPeer.Numeral
