/-! Texts of several parts with a separator between them. Joining undoes splitting. -/

namespace LightPeer.Parts

/-- The parts of a text, empty parts included. -/
def split (separator : Char) : List Char → List (List Char)
  | [] => [[]]
  | c :: rest =>
    if c = separator then [] :: split separator rest
    else
      match split separator rest with
      | [] => [[c]]
      | part :: others => (c :: part) :: others

def join (separator : Char) : List (List Char) → List Char
  | [] => []
  | [part] => part
  | part :: parts => part ++ separator :: join separator parts

theorem split_ne_nil (separator : Char) (text : List Char) : split separator text ≠ [] := by
  cases text with
  | nil => simp [split]
  | cons c rest =>
    simp only [split]
    split
    · simp
    · split <;> simp

@[simp] theorem join_split (separator : Char) (text : List Char) :
    join separator (split separator text) = text := by
  induction text with
  | nil => rfl
  | cons c rest ih =>
    cases h : split separator rest with
    | nil => exact absurd h (split_ne_nil separator rest)
    | cons part others =>
      rw [h] at ih
      by_cases hc : c = separator
      · simp [split, join, h, hc, ih]
      · cases others <;> simpa [split, join, h, hc] using ih

end LightPeer.Parts
