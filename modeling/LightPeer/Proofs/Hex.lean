import LightPeer.Hex
import Mathlib.Data.Bool.AllAny
import Mathlib.Data.List.Induction

/-! # Which texts are hexadecimal

A text of digits spells its bytes, two digits a byte, and nothing else does. Every
other text is refused: for its length in bytes if that is odd, otherwise for the
first character that is no digit, unless this character is left without a partner. -/

namespace LightPeer.Hex

/-! ## Digits -/

/-- The sixteen digits, each at the place of its value. -/
def digits : List Char := "0123456789abcdef".toList

/-- A digit of either case. -/
def IsDigit (c : Char) : Prop := c.toLower ∈ digits

instance (c : Char) : Decidable (IsDigit c) := inferInstanceAs (Decidable (c.toLower ∈ digits))

/-- The number that a digit stands for. -/
def value (c : Char) : Nat := digits.idxOf c.toLower

variable {c hi lo : Char}

theorem value_lt (h : IsDigit c) : value c < 16 := List.idxOf_lt_length_of_mem h

theorem digitValue?_of_ascii : ∀ n < 128, digitValue? (Char.ofNat n) =
    if IsDigit (Char.ofNat n) then some (UInt8.ofNat (value (Char.ofNat n))) else none := by
  decide

theorem ascii_of_mem_digits : ∀ c ∈ digits, c.toNat < 128 :=
  List.all_iff_forall_prop.mp (by decide)

/-- Lower case differs only for the capital letters of ASCII. -/
theorem toLower_of_not_ascii (h : ¬ c.toNat < 128) : c.toLower = c := by
  unfold Char.toLower
  refine dif_neg fun hcapital => h ?_
  have hle : c.toNat ≤ 'Z'.toNat := hcapital.2
  exact Nat.lt_of_le_of_lt hle (by decide)

theorem ascii_of_isDigit (h : IsDigit c) : c.toNat < 128 := by
  by_contra hwide
  unfold IsDigit at h
  rw [toLower_of_not_ascii hwide] at h
  exact hwide (ascii_of_mem_digits c h)

theorem digitValue?_of_not_ascii (h : ¬ c.toNat < 128) : digitValue? c = none := by
  have hgreater {d : Char} (hd : d.toNat < 128) : ¬ c ≤ d := by
    intro hle
    have hnat : c.toNat ≤ d.toNat := hle
    omega
  unfold digitValue?
  rw [if_neg, if_neg, if_neg]
  · exact fun hrange => hgreater (by decide) hrange.2
  · exact fun hrange => hgreater (by decide) hrange.2
  · exact fun hrange => hgreater (by decide) hrange.2

/-- A digit is read as its value, and no other character is read. -/
theorem digitValue?_eq (c : Char) :
    digitValue? c = if IsDigit c then some (UInt8.ofNat (value c)) else none := by
  by_cases hascii : c.toNat < 128
  · rw [← Char.ofNat_toNat c]
    exact digitValue?_of_ascii c.toNat hascii
  · rw [digitValue?_of_not_ascii hascii, if_neg (mt ascii_of_isDigit hascii)]

theorem digitValue?_of_isDigit (h : IsDigit c) :
    digitValue? c = some (UInt8.ofNat (value c)) := by
  rw [digitValue?_eq, if_pos h]

theorem digitValue?_of_not_isDigit (h : ¬ IsDigit c) : digitValue? c = none := by
  rw [digitValue?_eq, if_neg h]

theorem toNat_high (b : UInt8) : (b / 16).toNat = b.toNat / 16 := UInt8.toNat_div b 16

theorem toNat_low (b : UInt8) : (b % 16).toNat = b.toNat % 16 := UInt8.toNat_mod b 16

/-- The byte of two digits. -/
theorem toNat_pair (hhi : IsDigit hi) (hlo : IsDigit lo) :
    (16 * UInt8.ofNat (value hi) + UInt8.ofNat (value lo)).toNat = 16 * value hi + value lo := by
  have hhi' := value_lt hhi
  have hlo' := value_lt hlo
  have hsixteen : (16 : UInt8).toNat = 16 := rfl
  rw [UInt8.toNat_add, UInt8.toNat_mul, UInt8.toNat_ofNat', UInt8.toNat_ofNat', hsixteen]
  omega

theorem digitChar_eq : ∀ n, (h : n < digits.length) → Nat.digitChar n = digits[n] := by decide

/-- What is written for a value is the lower-case digit of that value. -/
theorem digitChar_value (h : IsDigit c) : Nat.digitChar (value c) = c.toLower := by
  rw [digitChar_eq (value c) (value_lt h)]
  exact List.getElem_idxOf (value_lt h)

theorem isDigit_digitChar : ∀ n < 16, IsDigit (Nat.digitChar n) := by decide

theorem value_digitChar : ∀ n < 16, value (Nat.digitChar n) = n := by decide

/-! ## Spelling -/

/-- Two digits a byte, the first one weighing sixteen times as much as the second one. -/
inductive Spells : List Char → Bytes → Prop
  | nil : Spells [] []
  | cons {hi lo : Char} {chars : List Char} {b : UInt8} {bytes : Bytes} (hhi : IsDigit hi)
      (hlo : IsDigit lo) (hb : b.toNat = 16 * value hi + value lo) (hrest : Spells chars bytes) :
      Spells (hi :: lo :: chars) (b :: bytes)

variable {chars front rest : List Char} {bytes : Bytes}

theorem Spells.isDigit (h : Spells chars bytes) : ∀ c ∈ chars, IsDigit c := by
  induction h with
  | nil => exact nofun
  | cons hhi hlo _ _ ih => exact List.forall_mem_cons.mpr ⟨hhi, List.forall_mem_cons.mpr ⟨hlo, ih⟩⟩

theorem Spells.length_eq (h : Spells chars bytes) : chars.length = 2 * bytes.length := by
  induction h with
  | nil => rfl
  | cons _ _ _ _ ih => simp only [List.length_cons, ih]; omega

theorem Spells.decodePairs (h : Spells chars bytes) : decodePairs chars = .ok bytes := by
  induction h with
  | nil => rfl
  | cons hhi hlo hb _ ih =>
      have hbyte := UInt8.toNat_inj.mp (hb.trans (toNat_pair hhi hlo).symm)
      simp only [Hex.decodePairs, digitValue?_of_isDigit hhi, digitValue?_of_isDigit hlo, ih, hbyte,
        Except.map]

/-- Bytes are written with the digits that spell them, in lower case. -/
theorem Spells.encodeChars (h : Spells chars bytes) :
    encodeChars bytes = chars.map Char.toLower := by
  induction h with
  | nil => rfl
  | @cons hi lo chars b bytes hhi hlo hb _ ih =>
      have hlo' := value_lt hlo
      have hhigh : (16 * value hi + value lo) / 16 = value hi := by omega
      have hlow : (16 * value hi + value lo) % 16 = value lo := by omega
      have hdigits : [digit (b / 16), digit (b % 16)] = [hi.toLower, lo.toLower] := by
        unfold digit
        rw [toNat_high, toNat_low, hb, hhigh, hlow, digitChar_value hhi, digitChar_value hlo]
      rw [Hex.encodeChars, List.flatMap_cons, hdigits]
      exact congrArg ([hi.toLower, lo.toLower] ++ ·) ih

theorem spells_encodeChars (bytes : Bytes) : Spells (encodeChars bytes) bytes := by
  induction bytes with
  | nil => exact .nil
  | cons b bytes ih =>
      have hhigh : (b / 16).toNat < 16 := by
        have hb := b.toNat_lt
        rw [toNat_high]
        omega
      have hlow : (b % 16).toNat < 16 := by
        rw [toNat_low]
        omega
      refine .cons (isDigit_digitChar _ hhigh) (isDigit_digitChar _ hlow) ?_ ih
      rw [digit, digit, value_digitChar _ hhigh, value_digitChar _ hlow, toNat_high, toNat_low]
      omega

/-- Digits in pairs spell something. -/
theorem exists_spells (hdigits : ∀ c ∈ chars, IsDigit c) (heven : chars.length % 2 = 0) :
    ∃ bytes, Spells chars bytes := by
  induction chars using List.twoStepInduction with
  | nil => exact ⟨[], .nil⟩
  | singleton c => exact nomatch heven
  | cons_cons hi lo chars ih =>
      obtain ⟨hhi, hdigits⟩ := List.forall_mem_cons.mp hdigits
      obtain ⟨hlo, hdigits⟩ := List.forall_mem_cons.mp hdigits
      rw [List.length_cons, List.length_cons] at heven
      obtain ⟨bytes, hbytes⟩ := ih hdigits (by omega)
      exact ⟨_, .cons hhi hlo (toNat_pair hhi hlo) hbytes⟩

/-! ## Reading -/

/-- The first character that is no digit is the one reported, whichever place it has in its
pair; only as the last one, where a pair begins, it is not looked at. -/
theorem decodePairs_stray (hfront : ∀ d ∈ front, IsDigit d) (hc : ¬ IsDigit c) :
    decodePairs (front ++ c :: rest) =
      .error (if front.length % 2 = 0 ∧ rest = [] then .unpaired else .badCharacter c) := by
  induction front using List.twoStepInduction with
  | nil =>
      cases rest with
      | nil => rfl
      | cons lo rest => simp [decodePairs, digitValue?_of_not_isDigit hc]
  | singleton hi =>
      have hhi : IsDigit hi := hfront hi List.mem_cons_self
      simp [decodePairs, digitValue?_of_isDigit hhi, digitValue?_of_not_isDigit hc]
  | cons_cons hi lo front ih =>
      obtain ⟨hhi, hfront⟩ := List.forall_mem_cons.mp hfront
      obtain ⟨hlo, hfront⟩ := List.forall_mem_cons.mp hfront
      have hparity : (hi :: lo :: front).length % 2 = front.length % 2 := Nat.add_mod_right _ 2
      simp only [List.cons_append, decodePairs, digitValue?_of_isDigit hhi,
        digitValue?_of_isDigit hlo, ih hfront, hparity, Except.map]

/-- A text that is not all digits has a first character that is none. -/
theorem exists_stray (h : ¬ ∀ c ∈ chars, IsDigit c) :
    ∃ front c rest, chars = front ++ c :: rest ∧ (∀ d ∈ front, IsDigit d) ∧ ¬ IsDigit c := by
  cases hfind : chars.find? (fun c => !decide (IsDigit c)) with
  | none =>
      rw [List.find?_eq_none] at hfind
      exact absurd (fun c hc => by simpa using hfind c hc) h
  | some c =>
      obtain ⟨hc, front, rest, rfl, hfront⟩ := List.find?_eq_some_iff_append.mp hfind
      exact ⟨front, c, rest, rfl, fun d hd => by simpa using hfront d hd, by simpa using hc⟩

/-- In ASCII text every character is one byte. -/
theorem utf8ByteSize_eq_length {text : String} (h : ∀ c ∈ text.toList, c.toNat < 128) :
    text.utf8ByteSize = text.length := by
  induction text using String.push_induction with
  | empty => rfl
  | push text c ih =>
      rw [String.toList_push, List.forall_mem_append] at h
      have hc : c.utf8Size = 1 := by
        have hlt : c.toNat < 128 := h.2 c List.mem_cons_self
        exact Char.utf8Size_eq_one_iff.mpr (UInt32.le_iff_toNat_le.mpr (Nat.le_of_lt_succ hlt))
      rw [String.utf8ByteSize_push, String.length_push, ih h.1, hc]

variable {text : String}

theorem utf8ByteSize_of_isDigit (h : ∀ c ∈ text.toList, IsDigit c) :
    text.utf8ByteSize = text.length :=
  utf8ByteSize_eq_length fun c hc => ascii_of_isDigit (h c hc)

theorem decode_of_odd (hodd : text.utf8ByteSize % 2 = 1) :
    decode text = .error (.badLength text.utf8ByteSize) := by
  refine if_neg ?_
  omega

theorem decode_of_stray (heven : text.utf8ByteSize % 2 = 0)
    (htext : text.toList = front ++ c :: rest) (hfront : ∀ d ∈ front, IsDigit d)
    (hc : ¬ IsDigit c) :
    decode text =
      .error (if front.length % 2 = 0 ∧ rest = [] then .unpaired else .badCharacter c) := by
  rw [decode, if_pos heven, htext, decodePairs_stray hfront hc]

theorem Spells.decode (h : Spells text.toList bytes) : decode text = .ok bytes := by
  have heven : text.utf8ByteSize % 2 = 0 := by
    rw [utf8ByteSize_of_isDigit h.isDigit, ← String.length_toList, h.length_eq]
    exact Nat.mul_mod_right 2 _
  rw [Hex.decode, if_pos heven, h.decodePairs]

theorem length_of_stray (htext : text.toList = front ++ c :: rest) :
    text.length = front.length + 1 + rest.length := by
  rw [← String.length_toList, htext, List.length_append, List.length_cons]
  omega

/-- A text has an odd length, or it spells some bytes, or it has a first character that is
no digit. -/
theorem decode_cases (text : String) :
    (text.utf8ByteSize % 2 = 1 ∧ decode text = .error (.badLength text.utf8ByteSize)) ∨
      (∃ bytes, Spells text.toList bytes ∧ decode text = .ok bytes) ∨
      ∃ front c rest, text.utf8ByteSize % 2 = 0 ∧ text.toList = front ++ c :: rest ∧
        decode text =
          .error (if front.length % 2 = 0 ∧ rest = [] then .unpaired else .badCharacter c) := by
  rcases Nat.mod_two_eq_zero_or_one text.utf8ByteSize with heven | hodd
  · by_cases hdigits : ∀ c ∈ text.toList, IsDigit c
    · have hlength := heven
      rw [utf8ByteSize_of_isDigit hdigits, ← String.length_toList] at hlength
      obtain ⟨bytes, hbytes⟩ := exists_spells hdigits hlength
      exact .inr (.inl ⟨bytes, hbytes, hbytes.decode⟩)
    · obtain ⟨front, c, rest, htext, hfront, hc⟩ := exists_stray hdigits
      exact .inr (.inr ⟨front, c, rest, heven, htext, decode_of_stray heven htext hfront hc⟩)
  · exact .inl ⟨hodd, decode_of_odd hodd⟩

/-- A text is read as the bytes that it spells, and not read if it spells none. -/
theorem decode_eq_ok_iff : decode text = .ok bytes ↔ Spells text.toList bytes := by
  refine ⟨fun h => ?_, Spells.decode⟩
  rcases decode_cases text with ⟨-, hodd⟩ | ⟨read, hread, hok⟩ | ⟨front, c, rest, -, -, hstray⟩
  · exact nomatch hodd.symm.trans h
  · obtain rfl : read = bytes := Except.ok.inj (hok.symm.trans h)
    exact hread
  · exact nomatch hstray.symm.trans h

/-- In ASCII text of an even length every character has a partner. -/
theorem decode_ne_unpaired (hascii : ∀ c ∈ text.toList, c.toNat < 128) :
    decode text ≠ .error .unpaired := by
  intro h
  rcases decode_cases text with ⟨-, hodd⟩ | ⟨read, -, hok⟩ | ⟨front, c, rest, heven, htext, hstray⟩
  · exact nomatch hodd.symm.trans h
  · exact nomatch hok.symm.trans h
  · have hpaired : ¬ (front.length % 2 = 0 ∧ rest = []) := by
      rw [utf8ByteSize_eq_length hascii, length_of_stray htext] at heven
      rw [← List.length_eq_zero_iff]
      omega
    rw [if_neg hpaired] at hstray
    exact nomatch hstray.symm.trans h

/-! ## Writing -/

/-- What is written is read back. -/
theorem decode_encode (bytes : Bytes) : decode (encode bytes) = .ok bytes := by
  refine Spells.decode ?_
  rw [encode, String.toList_ofList]
  exact spells_encodeChars bytes

theorem encode_injective : Function.Injective encode := fun a b h =>
  Except.ok.inj ((decode_encode a).symm.trans ((congrArg decode h).trans (decode_encode b)))

theorem toList_toLower (text : String) : text.toLower.toList = text.toList.map Char.toLower :=
  String.toList_map

theorem Spells.encode (h : Spells text.toList bytes) : encode bytes = text.toLower := by
  rw [Hex.encode, h.encodeChars, ← String.toList_inj, String.toList_ofList, toList_toLower]

/-- A text spells some bytes if it has only digits and differs from what is written for
them in nothing but case. -/
theorem spells_iff :
    Spells text.toList bytes ↔ (∀ c ∈ text.toList, IsDigit c) ∧ text.toLower = encode bytes := by
  refine ⟨fun h => ⟨h.isDigit, h.encode.symm⟩, fun ⟨hdigits, hlower⟩ => ?_⟩
  have hlength : text.toList.length = 2 * bytes.length := by
    have hchars := congrArg String.toList hlower
    rw [toList_toLower, Hex.encode, String.toList_ofList] at hchars
    rw [← (spells_encodeChars bytes).length_eq, ← hchars, List.length_map]
  obtain ⟨read, hread⟩ := exists_spells hdigits (hlength ▸ Nat.mul_mod_right 2 _)
  rwa [encode_injective (hread.encode.trans hlower)] at hread

/-! ## Every text -/

/-- What comes of reading a text. Its length is measured in bytes, while its pairs are
pairs of characters. -/
structure Verdict (text : String) : Prop where
  odd (hodd : text.utf8ByteSize % 2 = 1) : decode text = .error (.badLength text.utf8ByteSize)
  spelled (heven : text.utf8ByteSize % 2 = 0) (hdigits : ∀ c ∈ text.toList, IsDigit c) :
    ∃ bytes, decode text = .ok bytes ∧ bytes.length = text.utf8ByteSize / 2 ∧
      Spells text.toList bytes
  /-- The first character that is no digit, with so many digits in front of it, is reported,
  unless it comes last in an odd number of characters. -/
  stray (heven : text.utf8ByteSize % 2 = 0) (front : List Char) (c : Char) (rest : List Char)
    (htext : text.toList = front ++ c :: rest) (hfront : ∀ d ∈ front, IsDigit d)
    (hc : ¬ IsDigit c) :
    decode text = .error (if text.length % 2 = 1 ∧ front.length = text.length - 1
      then .unpaired else .badCharacter c)
  lower (bytes : Bytes) (h : decode text = .ok bytes) : encode bytes = text.toLower
  ascii (hascii : ∀ c ∈ text.toList, c.toNat < 128) : decode text ≠ .error .unpaired

/-- Every text is read as the bytes that it spells, or refused for its first fault, and
what is written is read back. -/
theorem decode_verdict : (∀ text, Verdict text) ∧ ∀ bytes, decode (encode bytes) = .ok bytes := by
  refine ⟨fun text => ⟨decode_of_odd, ?_, ?_, ?_, ?_⟩, decode_encode⟩
  · intro heven hdigits
    have hsize : text.utf8ByteSize = text.toList.length := by
      rw [utf8ByteSize_of_isDigit hdigits, String.length_toList]
    obtain ⟨bytes, hbytes⟩ := exists_spells hdigits (hsize ▸ heven)
    have hlength := hbytes.length_eq
    exact ⟨bytes, hbytes.decode, by omega, hbytes⟩
  · intro heven front c rest htext hfront hc
    have hplace : front.length % 2 = 0 ∧ rest = [] ↔
        text.length % 2 = 1 ∧ front.length = text.length - 1 := by
      rw [length_of_stray htext, ← List.length_eq_zero_iff]
      omega
    rw [decode_of_stray heven htext hfront hc]
    simp only [hplace]
  · intro bytes h
    exact (decode_eq_ok_iff.mp h).encode
  · exact decode_ne_unpaired

/-- Two bytes make one character that is no digit: it is reported if it has a partner, and
is left without one behind two digits. -/
theorem decode_verdict_wide :
    decode "0\u00e90" = .error (.badCharacter '\u00e9') ∧ decode "00\u00e9" = .error .unpaired := by
  have hpaired := (decode_verdict.1 "0\u00e90").stray (by decide) ['0'] '\u00e9' ['0'] (by decide)
    (List.all_iff_forall_prop.mp (by decide)) (by decide)
  have halone := (decode_verdict.1 "00\u00e9").stray (by decide) ['0', '0'] '\u00e9' [] (by decide)
    (List.all_iff_forall_prop.mp (by decide)) (by decide)
  exact ⟨hpaired, halone⟩

end LightPeer.Hex
