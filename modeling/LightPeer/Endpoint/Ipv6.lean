import LightPeer.Endpoint.Ipv4

/-! Addresses of version 6 of the internet protocol, written as hexadecimal words
between colons. A double colon stands for the words that are missing, all zero.
Many texts write the same address, and one of them is its own: lower case, no
leading zeros, and the double colon for the first of the longest runs of zeros. -/

namespace LightPeer

/-- Eight words, the most significant first. -/
structure Ipv6 where
  words : List UInt16
  length_words : words.length = 8
deriving DecidableEq, Repr

namespace Ipv6

/-- The address of words, if they are eight. -/
def ofWords? (words : List UInt16) : Option Ipv6 :=
  if h : words.length = 8 then some ⟨words, h⟩ else none

/-! ### Reading -/

/-- A word of up to four hexadecimal digits. -/
def word? (text : List Char) : Option UInt16 :=
  if 4 < text.length then none else (Numeral.ofChars? 16 text).map UInt16.ofNat

/-- The words of the last parts of an address. The very last part may be an
address of version 4, which gives two words. -/
def lastWords? : List (List Char) → Option (List UInt16)
  | [] => some []
  | [part] => (Ipv4.ofChars? part).map Ipv4.words <|> (word? part).map ([·])
  | part :: parts => do return (← word? part) :: (← lastWords? parts)

/-- The parts between colons; an empty text has none. -/
def parts (text : List Char) : List (List Char) :=
  if text.isEmpty then [] else Parts.split ':' text

/-- What stands before and behind the first double colon. -/
def splitGap? : List Char → Option (List Char × List Char)
  | [] => none
  | ':' :: ':' :: rest => some ([], rest)
  | c :: rest => (splitGap? rest).map fun (before, behind) => (c :: before, behind)

/-- The address that a text writes. A double colon stands for one word at least. -/
def ofChars? (text : List Char) : Option Ipv6 := do
  match splitGap? text with
  | none => ofWords? (← lastWords? (parts text))
  | some (before, behind) =>
    let high ← (parts before).mapM word?
    let low ← lastWords? (parts behind)
    let missing := 8 - (high.length + low.length)
    if missing = 0 then none else ofWords? (high ++ List.replicate missing 0 ++ low)

/-! ### Writing -/

def leadingZeros (words : List UInt16) : Nat := (words.takeWhile (· == 0)).length

/-- Where the first of the longest runs of zeros begins. -/
def gapStart (words : List UInt16) : Nat :=
  (List.range words.length).foldl
    (fun best i => if leadingZeros (words.drop best) < leadingZeros (words.drop i) then i else best) 0

def wordChars (words : List UInt16) : List Char :=
  Parts.join ':' (words.map fun word => Numeral.toChars 16 word.toNat)

/-- The address of version 4 that this one stands for. -/
def mapped? (address : Ipv6) : Option Ipv4 :=
  match address.words with
  | [a, b, c, d, e, f, high, low] =>
    if [a, b, c, d, e] = [0, 0, 0, 0, 0] ∧ f = 0xffff then some (.ofWords high low) else none
  | _ => none

/-- The text of an address. A single zero is written out. -/
def chars (address : Ipv6) : List Char :=
  match address.mapped? with
  | some v4 => "::ffff:".toList ++ v4.chars
  | none =>
    let words := address.words
    let start := gapStart words
    let length := leadingZeros (words.drop start)
    if 1 < length then
      wordChars (words.take start) ++ [':', ':'] ++ wordChars (words.drop (start + length))
    else wordChars words

end Ipv6

end LightPeer
