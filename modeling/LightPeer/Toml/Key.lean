import LightPeer.Toml.Integer

/-! Keys as TOML writes them: a bare word, a literal between single quotes, or a
string with escapes between double quotes. -/

namespace LightPeer.Toml

open Numeral

/-- The characters that may stand in a quoted key as they are. -/
def isQuotable (c : Char) : Bool := c == '\t' || (' ' ≤ c && c != '\x7f')

/-- The literal that ends at the next single quote, and the text behind it. -/
def literal? : List Char → Option (List Char × List Char)
  | [] => none
  | '\'' :: rest => some ([], rest)
  | c :: rest =>
    if isQuotable c then (literal? rest).map fun (key, rest) => (c :: key, rest) else none

/-- The character that hexadecimal digits stand for; a surrogate is none. -/
def codePoint? (digits : List Char) : Option Char := do
  let value := ofDigits 16 (← digits.mapM (digit? 16))
  if value.isValidChar then return Char.ofNat value else none

/-- The string that ends at the next double quote, and the text behind it. -/
def quoted? : List Char → Option (List Char × List Char)
  | [] => none
  | '"' :: rest => some ([], rest)
  | '\\' :: '"' :: rest => andThen '"' (quoted? rest)
  | '\\' :: '\\' :: rest => andThen '\\' (quoted? rest)
  | '\\' :: 'b' :: rest => andThen '\x08' (quoted? rest)
  | '\\' :: 'f' :: rest => andThen '\x0c' (quoted? rest)
  | '\\' :: 'n' :: rest => andThen '\n' (quoted? rest)
  | '\\' :: 'r' :: rest => andThen '\r' (quoted? rest)
  | '\\' :: 't' :: rest => andThen '\t' (quoted? rest)
  | '\\' :: 'u' :: a :: b :: c :: d :: rest => do
    andThen (← codePoint? [a, b, c, d]) (quoted? rest)
  | '\\' :: 'U' :: a :: b :: c :: d :: e :: f :: g :: h :: rest => do
    andThen (← codePoint? [a, b, c, d, e, f, g, h]) (quoted? rest)
  | '\\' :: _ => none
  | c :: rest => if isQuotable c then andThen c (quoted? rest) else none
where
  /-- Puts a character before what was read. -/
  andThen (c : Char) (read : Option (List Char × List Char)) : Option (List Char × List Char) :=
    read.map fun (key, rest) => (c :: key, rest)

/-- The key at the start of a text, and the text behind it; no key is empty. -/
def key? (text : List Char) : Option (String × List Char) := do
  let (key, rest) ← match text with
    | '\'' :: rest => literal? rest
    | '"' :: rest => quoted? rest
    | _ => some (text.takeWhile isWordChar, text.dropWhile isWordChar)
  if key.isEmpty then none else return (String.ofList key, rest)

end LightPeer.Toml
