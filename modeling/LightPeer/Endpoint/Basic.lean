import LightPeer.Endpoint.Ipv6

/-! Where a peer is reached: an address and a port. An address of version 6
stands in brackets, and may name the link on which it is valid. -/

namespace LightPeer

/-- The address and the port of a peer. -/
inductive Endpoint where
  | v4 (address : Ipv4) (port : UInt16)
  /-- The scope is the number of the link, or zero. -/
  | v6 (address : Ipv6) (scope : UInt32) (port : UInt16)
deriving DecidableEq, Repr

namespace Endpoint

/-- A port in decimal, behind a colon. -/
def port? : List Char → Option UInt16
  | ':' :: digits => do
    let value ← Numeral.ofChars? 10 digits
    if value < UInt16.size then return UInt16.ofNat value else none
  | _ => none

/-- A scope in decimal, behind a percent sign; without one it is zero. -/
def scope? : List Char → Option UInt32
  | [] => some 0
  | '%' :: digits => do
    let value ← Numeral.ofChars? 10 digits
    if value < UInt32.size then return UInt32.ofNat value else none
  | _ => none

def ofChars? : List Char → Option Endpoint
  | '[' :: text => do
    let inside := text.takeWhile (· != ']')
    let address ← Ipv6.ofChars? (inside.takeWhile (· != '%'))
    let scope ← scope? (inside.dropWhile (· != '%'))
    let port ← port? ((text.dropWhile (· != ']')).drop 1)
    return v6 address scope port
  | text => do
    let address ← Ipv4.ofChars? (text.takeWhile (· != ':'))
    let port ← port? (text.dropWhile (· != ':'))
    return v4 address port

def ofString? (text : String) : Option Endpoint := ofChars? text.toList

/-- The text of an endpoint. The scope is left out if it is zero. -/
def chars : Endpoint → List Char
  | v4 address port => address.chars ++ ':' :: Numeral.toChars 10 port.toNat
  | v6 address scope port =>
    let link := if scope = 0 then [] else '%' :: Numeral.toChars 10 scope.toNat
    '[' :: address.chars ++ link ++ ']' :: ':' :: Numeral.toChars 10 port.toNat

def text (endpoint : Endpoint) : String := String.ofList endpoint.chars

instance : ToString Endpoint := ⟨text⟩

end Endpoint

end LightPeer
