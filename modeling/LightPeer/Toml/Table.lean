import LightPeer.Toml.Key

/-! The TOML documents that hold nothing but a flat table of integers. Each line
is blank or has one entry, and may end in a comment. -/

namespace LightPeer.Toml

/-- Spaces and tabs do not count between the parts of a line. -/
def isBlank (c : Char) : Bool := c == ' ' || c == '\t'

def skipBlanks (text : List Char) : List Char := text.dropWhile isBlank

/-- Nothing is left of a line but blanks and a comment. A comment holds no
control character other than a tab. -/
def endsLine (text : List Char) : Bool :=
  match skipBlanks text with
  | [] => true
  | '#' :: comment => comment.all fun c => c == '\t' || ' ' ≤ c
  | _ => false

/-- The lines of a text; a carriage return belongs to a line feed behind it. -/
def lines : List Char → List (List Char)
  | [] => [[]]
  | '\n' :: rest => [] :: lines rest
  | '\r' :: '\n' :: rest => [] :: lines rest
  | c :: rest =>
    match lines rest with
    | [] => [[c]]
    | line :: others => (c :: line) :: others

abbrev Entry := String × Int

/-- The entry of a line that has one. -/
def assignment? (line : List Char) : Option Entry := do
  let (key, rest) ← key? (skipBlanks line)
  match skipBlanks rest with
  | '=' :: rest =>
    let (value, rest) ← integer? (skipBlanks rest)
    if endsLine rest then return (key, value) else none
  | _ => none

/-- What a line holds: nothing or one entry. -/
def line? (line : List Char) : Option (List Entry) :=
  if endsLine line then some [] else (assignment? line).map ([·])

/-- The entries of a document in order. A byte order mark may stand first. -/
def entries? (text : String) : Option (List Entry) := do
  let chars := match text.toList with
    | '\uFEFF' :: rest => rest
    | chars => chars
  return (← (lines chars).mapM line?).flatten

end LightPeer.Toml
