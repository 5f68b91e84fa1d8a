import LightPeer.Toml.Table
import Mathlib.Data.List.TakeWhile

/-! # Documents of integers

A document with one entry a line, each a bare key and a decimal number, is read as these
entries. Whatever the document, the numbers that are read fit a signed 64-bit word. -/

namespace LightPeer

namespace Toml

open Numeral

variable {c : Char} {chars : List Char} {key : String} {value : Nat}

/-! ## Decimal numbers -/

/-- The largest number that is read. -/
def maxValue : Nat := Int64.maxValue.toInt.toNat

/-- The value of a character as a decimal digit. -/
def digitOf (c : Char) : Nat := c.toNat - '0'.toNat

theorem digit?_of_isDigit (h : c.isDigit) : digit? 10 c = some (digitOf c) := by
  obtain ⟨hlow, hhigh⟩ : '0' ≤ c ∧ c ≤ '9' := by
    simpa [Char.isDigit, Char.le_def] using h
  have hlow' : 48 ≤ c.toNat := hlow
  have hhigh' : c.toNat ≤ 57 := hhigh
  have hzero : '0'.toNat = 48 := rfl
  unfold digit? Hex.digitValue? digitOf
  rw [if_pos ⟨hlow, hhigh⟩, Option.map_some, UInt8.toNat_ofNat', hzero]
  simp only [Option.filter_some]
  rw [if_pos (by simp; omega)]
  congr 1
  omega

theorem moreDigits?_of_isDigit (h : ∀ c ∈ chars, c.isDigit) :
    moreDigits? 10 chars = some (chars.map digitOf) := by
  induction chars with
  | nil => rfl
  | cons c rest ih =>
      obtain ⟨hc, hrest⟩ := List.forall_mem_cons.mp h
      have hunderscore : c ≠ '_' := by
        rintro rfl
        exact absurd hc (by decide)
      simp [moreDigits?, hunderscore, digit?_of_isDigit hc, ih hrest]

theorem digits?_of_isDigit (hne : chars ≠ []) (h : ∀ c ∈ chars, c.isDigit) :
    digits? 10 chars = some (chars.map digitOf) := by
  cases chars with
  | nil => exact absurd rfl hne
  | cons c rest =>
      obtain ⟨hc, hrest⟩ := List.forall_mem_cons.mp h
      simp [digits?, digit?_of_isDigit hc, moreDigits?_of_isDigit hrest]

theorem isDigit_of_mem_toChars (h : c ∈ toChars 10 value) : c.isDigit :=
  Nat.isDigit_of_mem_toDigits (by decide) (by decide) h

theorem ofDigits_toChars (value : Nat) : ofDigits 10 ((toChars 10 value).map digitOf) = value := by
  unfold ofDigits toChars
  rw [List.foldl_map]
  exact Nat.ofDigitChars_eq_foldl.symm.trans Nat.ofDigitChars_ten_toDigits

theorem digitOf_digitChar : ∀ n < 10, digitOf (Nat.digitChar n) = n := by decide

/-- The digits of a number start with zero only if the number is zero. -/
theorem eq_zero_of_toChars {rest : List Nat} (h : (toChars 10 value).map digitOf = 0 :: rest) :
    value = 0 := by
  induction value using Nat.strongRecOn generalizing rest with
  | ind value ih =>
      unfold toChars at h ih
      by_cases hlt : value < 10
      · rw [Nat.toDigits_of_lt_base hlt, List.map_singleton, digitOf_digitChar value hlt] at h
        exact (List.cons.inj h).1
      · rw [Nat.toDigits_of_base_le (by decide) (Nat.le_of_not_lt hlt)] at h
        obtain ⟨first, front, hfront⟩ :=
          List.exists_cons_of_ne_nil (Nat.toDigits_ne_nil (n := value / 10) (b := 10))
        rw [hfront] at h
        obtain ⟨hfirst, -⟩ := List.cons.inj h
        have hzero := ih (value / 10) (by omega) (by rw [hfront, List.map_cons, hfirst])
        omega

/-- No number is written with a zero in front of another digit. -/
theorem digits_toChars_ne (value : Nat) (digit : Nat) (rest : List Nat) :
    (toChars 10 value).map digitOf ≠ 0 :: digit :: rest := by
  intro h
  obtain rfl := eq_zero_of_toChars h
  exact absurd h (by simp [toChars])

theorem decimal?_toChars (value : Nat) : decimal? (toChars 10 value) = some (Int.ofNat value) := by
  have hdigits : digits? 10 (toChars 10 value) = some ((toChars 10 value).map digitOf) :=
    digits?_of_isDigit Nat.toDigits_ne_nil fun c => isDigit_of_mem_toChars
  unfold decimal?
  rw [hdigits]
  simp only [Option.bind_eq_bind, Option.bind_some]
  split
  case h_1 heq => exact absurd heq (digits_toChars_ne value _ _)
  case h_2 => rw [ofDigits_toChars]; rfl

/-- A decimal number is not taken for one in another base or for a negative one. -/
theorem number?_toChars (value : Nat) : number? (toChars 10 value) = some (Int.ofNat value) := by
  have hmark {c : Char} {rest : List Char} (h : toChars 10 value = '0' :: c :: rest) : False := by
    refine digits_toChars_ne value (digitOf c) (rest.map digitOf) ?_
    rw [h]
    rfl
  unfold number?
  split
  case h_1 heq => exact (hmark heq).elim
  case h_2 heq => exact (hmark heq).elim
  case h_3 heq => exact (hmark heq).elim
  case h_4 heq =>
      have hdigit : '-'.isDigit := isDigit_of_mem_toChars (by rw [heq]; exact List.mem_cons_self)
      exact absurd hdigit (by decide)
  case h_5 => exact decimal?_toChars value

/-! ## Words -/

theorem isWordChar_of_isDigit (h : c.isDigit) : isWordChar c := by
  simp [isWordChar, Char.isAlphanum, h]

theorem isWordChar_of_mem_toChars (h : c ∈ toChars 10 value) : isWordChar c :=
  isWordChar_of_isDigit (isDigit_of_mem_toChars h)

/-- The text starts with a character of words. -/
inductive StartsWord : List Char → Prop where
  | cons {c : Char} (hword : isWordChar c) (rest : List Char) : StartsWord (c :: rest)

theorem StartsWord.ne_cons (h : StartsWord chars) (hc : isWordChar c = false) (rest : List Char) :
    chars ≠ c :: rest := by
  rintro rfl
  obtain ⟨hword, -⟩ := h
  exact absurd hword (by simp [hc])

theorem StartsWord.append (h : StartsWord chars) (rest : List Char) :
    StartsWord (chars ++ rest) := by
  obtain ⟨hword, front⟩ := h
  exact .cons hword (front ++ rest)

theorem StartsWord.skipBlanks_eq (h : StartsWord chars) : skipBlanks chars = chars := by
  have hspace := h.ne_cons (c := ' ') (by decide)
  have htab := h.ne_cons (c := '\t') (by decide)
  obtain ⟨hword, rest⟩ := h
  refine List.dropWhile_cons_of_neg ?_
  simp_all [isBlank]

theorem StartsWord.endsLine_eq (h : StartsWord chars) : endsLine chars = false := by
  unfold endsLine
  rw [h.skipBlanks_eq]
  split
  case h_1 => cases h
  case h_2 comment => exact absurd rfl (h.ne_cons (by decide) comment)
  case h_3 => rfl

theorem startsWord_of_forall (hne : chars ≠ []) (h : ∀ c ∈ chars, isWordChar c) :
    StartsWord chars := by
  obtain ⟨first, rest, rfl⟩ := List.exists_cons_of_ne_nil hne
  exact .cons (h first List.mem_cons_self) rest

theorem startsWord_toChars (value : Nat) : StartsWord (toChars 10 value) :=
  startsWord_of_forall Nat.toDigits_ne_nil fun _ => isWordChar_of_mem_toChars

/-- The key needs no quotes. -/
structure IsBare (key : String) : Prop where
  ne_nil : key.toList ≠ []
  isWordChar : ∀ c ∈ key.toList, isWordChar c

theorem IsBare.startsWord (h : IsBare key) : StartsWord key.toList :=
  startsWord_of_forall h.ne_nil h.isWordChar

theorem integer?_toChars (h : value ≤ maxValue) :
    integer? (toChars 10 value) = some (Int.ofNat value, []) := by
  have hword : ∀ c ∈ toChars 10 value, isWordChar c := fun c => isWordChar_of_mem_toChars
  have hrange : Int64.minValue.toInt ≤ Int.ofNat value ∧
      Int.ofNat value ≤ Int64.maxValue.toInt := by
    have hmin : Int64.minValue.toInt ≤ 0 := by decide
    exact ⟨Int.le_trans hmin (Int.natCast_nonneg value), Int.ofNat_le.mpr h⟩
  unfold integer?
  split
  case h_1 rest heq => exact absurd heq ((startsWord_toChars value).ne_cons (by decide) rest)
  case h_2 =>
    dsimp only
    rw [List.takeWhile_eq_self_iff.mpr hword, List.dropWhile_eq_nil_iff.mpr hword,
      number?_toChars, Option.bind_eq_bind, Option.bind_some, if_pos hrange]
    rfl

theorem key?_append (h : IsBare key) (rest : List Char) :
    key? (key.toList ++ ' ' :: rest) = some (key, ' ' :: rest) := by
  have hstart := h.startsWord.append (' ' :: rest)
  have htake : (key.toList ++ ' ' :: rest).takeWhile isWordChar = key.toList := by
    rw [List.takeWhile_append_of_pos h.isWordChar, List.takeWhile_cons_of_neg (by decide),
      List.append_nil]
  have hdrop : (key.toList ++ ' ' :: rest).dropWhile isWordChar = ' ' :: rest := by
    rw [List.dropWhile_append_of_pos h.isWordChar, List.dropWhile_cons_of_neg (by decide)]
  unfold key?
  split
  case h_1 heq => exact absurd heq (hstart.ne_cons (by decide) _)
  case h_2 heq => exact absurd heq (hstart.ne_cons (by decide) _)
  case h_3 =>
    rw [htake, hdrop]
    simp [h.ne_nil]

/-! ## Lines -/

/-- An entry on a line of its own. -/
def written (key : String) (value : Nat) : List Char :=
  key.toList ++ ' ' :: '=' :: ' ' :: toChars 10 value

theorem assignment?_written (hbare : IsBare key) (hvalue : value ≤ maxValue) :
    assignment? (written key value) = some (key, Int.ofNat value) := by
  have hblank : skipBlanks (' ' :: toChars 10 value) = toChars 10 value :=
    (startsWord_toChars value).skipBlanks_eq
  have hend : endsLine [] = true := rfl
  unfold assignment? written
  rw [(hbare.startsWord.append _).skipBlanks_eq, key?_append hbare, Option.bind_eq_bind,
    Option.bind_some]
  change (integer? (skipBlanks (' ' :: toChars 10 value))).bind _ = _
  rw [hblank, integer?_toChars hvalue, Option.bind_some]
  rfl

theorem line?_written (hbare : IsBare key) (hvalue : value ≤ maxValue) :
    line? (written key value) = some [(key, Int.ofNat value)] := by
  have hend : endsLine (written key value) = false := (hbare.startsWord.append _).endsLine_eq
  unfold line?
  rw [hend, assignment?_written hbare hvalue]
  rfl

/-- A line ends at the first line feed. -/
theorem lines_append {line : List Char} (hfeed : '\n' ∉ line) (hreturn : '\r' ∉ line)
    (rest : List Char) : lines (line ++ '\n' :: rest) = line :: lines rest := by
  induction line with
  | nil => rfl
  | cons c line ih =>
      rw [List.mem_cons, not_or] at hfeed hreturn
      obtain ⟨hc, hline⟩ := hfeed
      obtain ⟨hc', hline'⟩ := hreturn
      rw [List.cons_append, lines.eq_4, ih hline hline']
      · exact fun heq => hc heq.symm
      · intro rest' heq
        exact absurd heq.symm hc'

theorem mem_written {d : Char} (hbare : IsBare key) (hd : d ∈ written key value) :
    isWordChar d ∨ d = ' ' ∨ d = '=' := by
  unfold written at hd
  rcases List.mem_append.mp hd with hkey | hrest
  · exact .inl (hbare.isWordChar d hkey)
  · simp only [List.mem_cons] at hrest
    rcases hrest with rfl | rfl | rfl | hvalue
    · exact .inr (.inl rfl)
    · exact .inr (.inr rfl)
    · exact .inr (.inl rfl)
    · exact .inl (isWordChar_of_mem_toChars hvalue)

/-! ## Documents -/

/-- One line for each entry. -/
def document (entries : List (String × Nat)) : String :=
  String.ofList (entries.flatMap fun (key, value) => written key value ++ ['\n'])

theorem lines_document {entries : List (String × Nat)}
    (hbare : ∀ entry ∈ entries, IsBare entry.1) :
    lines (document entries).toList =
      (entries.map fun (key, value) => written key value) ++ [[]] := by
  unfold document
  rw [String.toList_ofList]
  induction entries with
  | nil => rfl
  | cons entry entries ih =>
      obtain ⟨hentry, hentries⟩ := List.forall_mem_cons.mp hbare
      have hfeed : '\n' ∉ written entry.1 entry.2 := fun h =>
        absurd (mem_written hentry h) (by decide)
      have hreturn : '\r' ∉ written entry.1 entry.2 := fun h =>
        absurd (mem_written hentry h) (by decide)
      rw [List.flatMap_cons, List.append_assoc, List.singleton_append,
        lines_append hfeed hreturn, ih hentries]
      rfl

theorem mapM_line?_written {entries : List (String × Nat)}
    (hbare : ∀ entry ∈ entries, IsBare entry.1) (hvalue : ∀ entry ∈ entries, entry.2 ≤ maxValue) :
    (entries.map fun (key, value) => written key value).mapM line? =
      some (entries.map fun (key, value) => [(key, Int.ofNat value)]) := by
  induction entries with
  | nil => rfl
  | cons entry entries ih =>
      obtain ⟨hentry, hentries⟩ := List.forall_mem_cons.mp hbare
      obtain ⟨hle, hles⟩ := List.forall_mem_cons.mp hvalue
      rw [List.map_cons, List.mapM_cons, line?_written hentry hle, ih hentries hles]
      rfl

theorem IsBare.startsWord_written (h : IsBare key) : StartsWord (written key value) :=
  h.startsWord.append _

/-- A document is read as the entries that were written. -/
theorem entries?_document {entries : List (String × Nat)}
    (hbare : ∀ entry ∈ entries, IsBare entry.1) (hvalue : ∀ entry ∈ entries, entry.2 ≤ maxValue) :
    entries? (document entries) =
      some (entries.map fun (key, value) => (key, Int.ofNat value)) := by
  have hmark (rest : List Char) : (document entries).toList ≠ '\uFEFF' :: rest := by
    unfold document
    rw [String.toList_ofList]
    cases entries with
    | nil => simp
    | cons entry entries =>
        have hentry := (List.forall_mem_cons.mp hbare).1
        rw [List.flatMap_cons, List.append_assoc]
        exact (hentry.startsWord_written.append _).ne_cons (by decide) rest
  unfold entries?
  split
  case h_1 rest heq => exact absurd heq (hmark rest)
  case h_2 =>
    dsimp only
    rw [lines_document hbare, List.mapM_append, mapM_line?_written hbare hvalue]
    change some (entries.map (fun entry : String × Nat => [(entry.1, Int.ofNat entry.2)]) ++
      [[]]).flatten = _
    rw [List.flatten_concat, List.append_nil, ← List.flatMap_def, ← List.map_eq_flatMap]

/-! ## The size of numbers -/

theorem exists_of_mem_mapM {α β : Type} {f : α → Option β} {xs : List α} {ys : List β} {y : β}
    (h : xs.mapM f = some ys) (hy : y ∈ ys) : ∃ x ∈ xs, f x = some y := by
  induction xs generalizing ys with
  | nil =>
      obtain rfl := Option.some.inj h
      exact absurd hy List.not_mem_nil
  | cons x xs ih =>
      rw [List.mapM_cons] at h
      obtain ⟨first, hfirst, hrest⟩ := Option.bind_eq_some_iff.mp h
      obtain ⟨rest, hmap, hpure⟩ := Option.bind_eq_some_iff.mp hrest
      obtain rfl := Option.some.inj hpure
      rcases List.mem_cons.mp hy with rfl | hmem
      · exact ⟨x, List.mem_cons_self, hfirst⟩
      · obtain ⟨x', hx', hf⟩ := ih hmap hmem
        exact ⟨x', List.mem_cons_of_mem x hx', hf⟩

theorem le_maxValue_of_integer? {n : Int} {rest : List Char} (h : integer? chars = some (n, rest)) :
    n ≤ maxValue := by
  unfold integer? at h
  obtain ⟨m, -, hm⟩ := Option.bind_eq_some_iff.mp h
  split at hm
  case isTrue hrange =>
    obtain ⟨rfl, -⟩ := Prod.mk.inj (Option.some.inj hm)
    exact hrange.2
  case isFalse => exact nomatch hm

theorem le_maxValue_of_assignment? {entry : Entry} (h : assignment? chars = some entry) :
    entry.2 ≤ maxValue := by
  unfold assignment? at h
  obtain ⟨⟨key, rest⟩, -, h⟩ := Option.bind_eq_some_iff.mp h
  dsimp only at h
  split at h
  case h_1 =>
    obtain ⟨⟨value, rest⟩, hvalue, h⟩ := Option.bind_eq_some_iff.mp h
    dsimp only at h
    split at h
    case isTrue =>
      obtain rfl := Option.some.inj h
      exact le_maxValue_of_integer? hvalue
    case isFalse => exact nomatch h
  case h_2 => exact nomatch h

theorem le_maxValue_of_entries? {text : String} {entries : List Entry}
    (h : entries? text = some entries) : ∀ entry ∈ entries, entry.2 ≤ maxValue := by
  intro entry hentry
  unfold entries? at h
  obtain ⟨found, hfound, h⟩ := Option.bind_eq_some_iff.mp h
  obtain rfl := Option.some.inj h
  obtain ⟨line, hline, hmem⟩ := List.mem_flatten.mp hentry
  obtain ⟨chars, -, hchars⟩ := exists_of_mem_mapM hfound hline
  unfold line? at hchars
  split at hchars
  case isTrue =>
    obtain rfl := Option.some.inj hchars
    exact absurd hmem List.not_mem_nil
  case isFalse =>
    obtain ⟨single, hsingle, rfl⟩ := Option.map_eq_some_iff.mp hchars
    obtain rfl := List.mem_singleton.mp hmem
    exact le_maxValue_of_assignment? hsingle

end Toml
end LightPeer
