import LightPeer.Hex
import LightPeer.Sha256

/-! Hashes of 32 bytes, made by applying SHA-256 twice. A hash has two texts:
its bytes in order, and its bytes reversed, which is how a hash is shown. -/

namespace LightPeer

/-- A string of 32 bytes that names a block, a transaction or a tree node. -/
structure Hash where
  /-- The bytes in the order in which they are hashed and sent. -/
  bytes : Bytes
  length_bytes : bytes.length = 32 := by rfl

namespace Hash

attribute [simp] length_bytes

@[ext] theorem ext {a b : Hash} (h : a.bytes = b.bytes) : a = b := by
  cases a; cases b; cases h; rfl

instance : DecidableEq Hash := fun a b =>
  decidable_of_iff ((a.bytes == b.bytes) = true)
    ⟨fun h => ext (eq_of_beq h), fun h => h ▸ BEq.rfl⟩

def zero : Hash := ⟨List.replicate 32 0, by rfl⟩

instance : Inhabited Hash := ⟨zero⟩

def ofData (data : Bytes) : Hash :=
  ⟨Sha256.digest (Sha256.digest data), Sha256.length_digest _⟩

def node (left right : Hash) : Hash := ofData (left.bytes ++ right.bytes)

def ofBytes? (bytes : Bytes) : Option Hash :=
  if h : bytes.length = 32 then some ⟨bytes, h⟩ else none

def reverse (hash : Hash) : Hash := ⟨hash.bytes.reverse, by simp⟩

def toHex (hash : Hash) : String := Hex.encode hash.bytes

/-- The text in which a hash is shown: the bytes last to first. -/
def display (hash : Hash) : String := hash.reverse.toHex

instance : ToString Hash := ⟨display⟩

/-- The text of a hash that is a part of something else: its bytes in order, one by one. -/
def debug (hash : Hash) : String := hash.bytes.foldl (fun text b => text ++ Hex.encode [b]) ""

/-- Reads the bytes in order. A text of another length is reported with its length in bytes. -/
def ofHex (text : String) : Except Hex.Fault Hash := do
  match ofBytes? (← Hex.decode text) with
  | some hash => .ok hash
  | none => .error (.badLength text.utf8ByteSize)

def ofDisplay (text : String) : Except Hex.Fault Hash := (ofHex text).map reverse

/-- The order of hashes is that of their bytes, the first byte weighing most. -/
instance : LT Hash := ⟨fun a b => a.bytes < b.bytes⟩

instance : LE Hash := ⟨fun a b => a.bytes ≤ b.bytes⟩

instance (a b : Hash) : Decidable (a < b) := inferInstanceAs (Decidable (a.bytes < b.bytes))

instance (a b : Hash) : Decidable (a ≤ b) := inferInstanceAs (Decidable (a.bytes ≤ b.bytes))

def sort (hashes : List Hash) : List Hash := hashes.mergeSort (fun a b => decide (a ≤ b))

@[simp] theorem reverse_reverse (hash : Hash) : hash.reverse.reverse = hash := by
  ext1; simp [reverse]

theorem ofBytes?_eq_some_iff {bytes : Bytes} {hash : Hash} :
    ofBytes? bytes = some hash ↔ hash.bytes = bytes := by
  unfold ofBytes?
  split
  · next h =>
    constructor
    · intro he; cases he; rfl
    · intro he; exact congrArg some (Hash.ext he.symm)
  · next h =>
    constructor
    · intro he; cases he
    · intro he; exact absurd (he ▸ hash.length_bytes) h

end Hash

end LightPeer
