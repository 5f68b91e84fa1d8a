/-! Byte strings, and the 32-bit words written in them in either byte order. -/

namespace LightPeer

abbrev Bytes := List UInt8

namespace Bytes

/-- The word of four bytes, most significant first. -/
def wordBE (a b c d : UInt8) : UInt32 :=
  (a.toUInt32 <<< 24) ||| (b.toUInt32 <<< 16) ||| (c.toUInt32 <<< 8) ||| d.toUInt32

def wordLE (a b c d : UInt8) : UInt32 := wordBE d c b a

def ofWordBE (w : UInt32) : Bytes :=
  [(w >>> 24).toUInt8, (w >>> 16).toUInt8, (w >>> 8).toUInt8, w.toUInt8]

def ofWordLE (w : UInt32) : Bytes :=
  [w.toUInt8, (w >>> 8).toUInt8, (w >>> 16).toUInt8, (w >>> 24).toUInt8]

@[simp] theorem length_ofWordBE (w : UInt32) : (ofWordBE w).length = 4 := rfl

@[simp] theorem length_ofWordLE (w : UInt32) : (ofWordLE w).length = 4 := rfl

/-- The eight bits of a byte, least significant first. -/
def bitsLE (b : UInt8) : List Bool := (List.range 8).map b.toNat.testBit

@[simp] theorem length_bitsLE (b : UInt8) : (bitsLE b).length = 8 := by simp [bitsLE]

@[simp] theorem length_flatMap_bitsLE (bytes : Bytes) :
    (bytes.flatMap bitsLE).length = 8 * bytes.length := by
  induction bytes with
  | nil => rfl
  | cons b bytes ih =>
      rw [List.flatMap_cons, List.length_append, ih, length_bitsLE, List.length_cons]
      omega

/-- The byte of at most eight bits, least significant first. -/
def byteOfBits (bits : List Bool) : UInt8 := bits.foldr (fun bit b => 2 * b + bit.toUInt8) 0

/-- The bytes that hold some bits; the last byte is filled up with zeros. -/
def packBits : List Bool → Bytes
  | a :: b :: c :: d :: e :: f :: g :: h :: rest =>
    byteOfBits [a, b, c, d, e, f, g, h] :: packBits rest
  | [] => []
  | few => [byteOfBits few]

end Bytes

end LightPeer
