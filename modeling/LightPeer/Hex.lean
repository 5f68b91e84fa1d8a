import LightPeer.Bytes

/-! Hexadecimal text. Writing gives two lower-case digits a byte; reading pairs
the characters of a text and takes digits of either case. -/

namespace LightPeer.Hex

inductive Fault where
  /-- The length in bytes is odd, or is not the one asked for. -/
  | badLength (bytes : Nat)
  | badCharacter (c : Char)
  /-- The last character has no partner, and every pair before it is good. -/
  | unpaired
deriving DecidableEq, Repr

/-- The report of a fault; an unpaired character has none. -/
def Fault.message? : Fault → Option String
  | .badLength n => some s!"bad length {n} for hex string"
  | .badCharacter c => some ("bad character " ++ c.toString ++ " for hex string")
  | .unpaired => none

/-- The value of an ASCII hexadecimal digit of either case. -/
def digitValue? (c : Char) : Option UInt8 :=
  if '0' ≤ c ∧ c ≤ '9' then some (UInt8.ofNat (c.toNat - '0'.toNat))
  else if 'a' ≤ c ∧ c ≤ 'f' then some (UInt8.ofNat (c.toNat - 'a'.toNat + 10))
  else if 'A' ≤ c ∧ c ≤ 'F' then some (UInt8.ofNat (c.toNat - 'A'.toNat + 10))
  else none

/-- The bytes of a list of digits taken two by two. -/
def decodePairs : List Char → Except Fault Bytes
  | [] => .ok []
  | [_] => .error .unpaired
  | hi :: lo :: rest =>
    match digitValue? hi, digitValue? lo with
    | none, _ => .error (.badCharacter hi)
    | some _, none => .error (.badCharacter lo)
    | some h, some l => (decodePairs rest).map ((16 * h + l) :: ·)

/-- The bytes of a text. Its length is measured in bytes, while its pairs are
pairs of characters. -/
def decode (text : String) : Except Fault Bytes :=
  if text.utf8ByteSize % 2 = 0 then decodePairs text.toList
  else .error (.badLength text.utf8ByteSize)

def digit (value : UInt8) : Char := Nat.digitChar value.toNat

def encodeChars (bytes : Bytes) : List Char := bytes.flatMap fun b => [digit (b / 16), digit (b % 16)]

def encode (bytes : Bytes) : String := String.ofList (encodeChars bytes)

end LightPeer.Hex
