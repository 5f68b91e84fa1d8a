import LightPeer.Hash

/-! Block headers. The 80 bytes of a header name every field at a fixed place,
so a header is read back from its bytes and its hash covers all of it. -/

namespace LightPeer

structure Header where
  version : UInt32
  previous : Hash
  root : Hash
  time : UInt32
  /-- The compact form of the target that the hash must not exceed. -/
  bits : UInt32
  nonce : UInt32
deriving DecidableEq

namespace Header

/-- The 80 bytes of a header, integers with the least significant byte first. -/
def encode (header : Header) : Bytes :=
  Bytes.ofWordLE header.version ++ header.previous.bytes ++ header.root.bytes ++
    Bytes.ofWordLE header.time ++ Bytes.ofWordLE header.bits ++ Bytes.ofWordLE header.nonce

@[simp] theorem length_encode (header : Header) : header.encode.length = 80 := by
  simp [encode]

/-- The word in the four bytes from place `i` on. -/
def wordAt? (bytes : Bytes) (i : Nat) : Option UInt32 :=
  match bytes.drop i with
  | a :: b :: c :: d :: _ => some (Bytes.wordLE a b c d)
  | _ => none

/-- The header written in a string of 80 bytes. -/
def decode? (bytes : Bytes) : Option Header :=
  if bytes.length = 80 then do
    return {
      version := ← wordAt? bytes 0
      previous := ← Hash.ofBytes? ((bytes.drop 4).take 32)
      root := ← Hash.ofBytes? ((bytes.drop 36).take 32)
      time := ← wordAt? bytes 68
      bits := ← wordAt? bytes 72
      nonce := ← wordAt? bytes 76 }
  else none

def hash (header : Header) : Hash := Hash.ofData header.encode

end Header

end LightPeer
