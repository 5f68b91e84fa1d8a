import LightPeer.Numeral

/-! Integers as TOML writes them: decimal with a sign and without leading zeros,
or hexadecimal, octal and binary behind a mark. A single underscore may stand
between two digits, and the value fits a signed 64-bit word. -/

namespace LightPeer.Toml

open Numeral

/-- The characters of bare words, which are keys and numbers. -/
def isWordChar (c : Char) : Bool := c.isAlphanum || c == '-' || c == '_'

def moreDigits? (base : Nat) : List Char → Option (List Nat)
  | [] => some []
  | '_' :: c :: rest => do return (← digit? base c) :: (← moreDigits? base rest)
  | c :: rest => do return (← digit? base c) :: (← moreDigits? base rest)

def digits? (base : Nat) : List Char → Option (List Nat)
  | [] => none
  | c :: rest => do return (← digit? base c) :: (← moreDigits? base rest)

/-- The value of digits in a base, leading zeros allowed. -/
def based? (base : Nat) (text : List Char) : Option Int := do
  return Int.ofNat (ofDigits base (← digits? base text))

/-- The value of decimal digits without a leading zero. -/
def decimal? (text : List Char) : Option Int := do
  match ← digits? 10 text with
  | 0 :: _ :: _ => none
  | digits => return Int.ofNat (ofDigits 10 digits)

/-- The value of a number without a plus sign, of any size. -/
def number? : List Char → Option Int
  | '0' :: 'x' :: rest => based? 16 rest
  | '0' :: 'o' :: rest => based? 8 rest
  | '0' :: 'b' :: rest => based? 2 rest
  | '-' :: rest => (decimal? rest).map (-·)
  | text => decimal? text

/-- The integer at the start of a text, and the text behind it. A plus sign may
stand before any number, also before a minus sign. -/
def integer? (text : List Char) : Option (Int × List Char) := do
  let text := match text with
    | '+' :: rest => rest
    | _ => text
  let value ← number? (text.takeWhile isWordChar)
  if Int64.minValue.toInt ≤ value ∧ value ≤ Int64.maxValue.toInt then return (value, text.dropWhile isWordChar) else none

end LightPeer.Toml
