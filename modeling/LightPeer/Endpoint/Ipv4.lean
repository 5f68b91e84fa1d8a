import LightPeer.Endpoint.Parts
import LightPeer.Numeral

/-! Addresses of version 4 of the internet protocol, written as four decimal
numbers between dots. -/

namespace LightPeer

/-- Four bytes, the most significant first. -/
structure Ipv4 where
  a : UInt8
  b : UInt8
  c : UInt8
  d : UInt8
deriving DecidableEq, Repr

namespace Ipv4

/-- A byte in decimal. A leading zero would leave open whether the rest is octal. -/
def byte? (text : List Char) : Option UInt8 := do
  if 3 < text.length then none
  else if text.head? = some '0' ∧ 1 < text.length then none
  else
    let value ← Numeral.ofChars? 10 text
    if value < 256 then return UInt8.ofNat value else none

def ofChars? (text : List Char) : Option Ipv4 :=
  match Parts.split '.' text with
  | [a, b, c, d] => do return ⟨← byte? a, ← byte? b, ← byte? c, ← byte? d⟩
  | _ => none

def chars (address : Ipv4) : List Char :=
  Parts.join '.' ([address.a, address.b, address.c, address.d].map fun byte =>
    Numeral.toChars 10 byte.toNat)

def words (address : Ipv4) : List UInt16 :=
  [256 * address.a.toUInt16 + address.b.toUInt16, 256 * address.c.toUInt16 + address.d.toUInt16]

def ofWords (high low : UInt16) : Ipv4 :=
  ⟨(high / 256).toUInt8, (high % 256).toUInt8, (low / 256).toUInt8, (low % 256).toUInt8⟩

end Ipv4

end LightPeer
