import LightPeer.Message
import Mathlib.Data.Nat.Digits.Lemmas

/-! # Headers and their 80 bytes

The fields of a header tile its 80 bytes, so each string of 80 bytes is the writing of
one header and of no other. What has the hash of a header but other fields therefore
shows two strings of the same hash. -/

namespace LightPeer

/-! ## Words -/

namespace Bytes

/-- The number that some bytes write, the least significant byte first. -/
def number (bytes : Bytes) : Nat := Nat.ofDigits 256 (bytes.map UInt8.toNat)

theorem number_four (a b c d : UInt8) :
    number [a, b, c, d] = a.toNat + 256 * (b.toNat + 256 * (c.toNat + 256 * d.toNat)) := by
  simp [number, Nat.ofDigits]

theorem forall_mem_map_toNat (bytes : Bytes) : ∀ n ∈ bytes.map UInt8.toNat, n < 256 := by
  intro n hn
  obtain ⟨b, -, rfl⟩ := List.mem_map.mp hn
  exact b.toNat_lt

theorem number_lt (bytes : Bytes) : number bytes < 256 ^ bytes.length := by
  have hlt := Nat.ofDigits_lt_base_pow_length (by decide : 1 < 256) (forall_mem_map_toNat bytes)
  rwa [List.length_map] at hlt

/-- Equally many bytes that write the same number are the same. -/
theorem number_inj {bytes others : Bytes} (hlength : bytes.length = others.length) :
    number bytes = number others ↔ bytes = others := by
  refine ⟨fun h => ?_, congrArg number⟩
  have hmap := Nat.ofDigits_inj_of_len_eq (by decide : 1 < 256)
    (by rwa [List.length_map, List.length_map])
    (forall_mem_map_toNat bytes) (forall_mem_map_toNat others) h
  exact (List.map_inj_right fun _ _ => UInt8.toNat_inj.mp).mp hmap

theorem toNat_toUInt8_shiftRight (w n : UInt32) (hn : n.toNat < 32) :
    (w >>> n).toUInt8.toNat = w.toNat / 2 ^ n.toNat % 256 := by
  rw [UInt32.toNat_toUInt8, UInt32.toNat_shiftRight, Nat.mod_eq_of_lt hn, Nat.shiftRight_eq_div_pow]

/-- A word is written as its number. -/
theorem number_ofWordLE (w : UInt32) : number (ofWordLE w) = w.toNat := by
  have hw := w.toNat_lt
  rw [ofWordLE, number_four, UInt32.toNat_toUInt8, toNat_toUInt8_shiftRight w 8 (by decide),
    toNat_toUInt8_shiftRight w 16 (by decide), toNat_toUInt8_shiftRight w 24 (by decide)]
  simp only [UInt32.reduceToNat, Nat.reducePow] at hw ⊢
  omega

/-- A byte that is moved up, with a word in the bits that it leaves free. -/
theorem toNat_shiftLeft_or (b : UInt8) {w : UInt32} (n : UInt32) (hn : n.toNat ≤ 24)
    (hw : w.toNat < 2 ^ n.toNat) :
    ((b.toUInt32 <<< n) ||| w).toNat = 2 ^ n.toNat * b.toNat + w.toNat := by
  have hmod : n.toNat % 32 = n.toNat := Nat.mod_eq_of_lt (by omega)
  have hfits : 2 ^ n.toNat * b.toNat < 2 ^ 32 :=
    calc 2 ^ n.toNat * b.toNat < 2 ^ n.toNat * 2 ^ 8 :=
          Nat.mul_lt_mul_of_pos_left b.toNat_lt (Nat.two_pow_pos _)
      _ = 2 ^ (n.toNat + 8) := (Nat.pow_add 2 _ _).symm
      _ ≤ 2 ^ 32 := Nat.pow_le_pow_right (by decide) (by omega)
  rw [UInt32.toNat_or, UInt32.toNat_shiftLeft, UInt8.toNat_toUInt32, hmod, Nat.shiftLeft_eq,
    Nat.mul_comm, Nat.mod_eq_of_lt hfits, Nat.two_pow_add_eq_or_of_lt hw]

/-- The word of four bytes is the number that they write. -/
theorem toNat_wordLE (a b c d : UInt8) : (wordLE a b c d).toNat = number [a, b, c, d] := by
  have ha := a.toNat_lt
  have hb := b.toNat_lt
  have hc := c.toNat_lt
  have hone : a.toUInt32.toNat < 2 ^ 8 := ha
  have htwo : (b.toUInt32 <<< 8 ||| a.toUInt32).toNat = 2 ^ 8 * b.toNat + a.toNat :=
    toNat_shiftLeft_or b 8 (by decide) hone
  have hthree : (c.toUInt32 <<< 16 ||| (b.toUInt32 <<< 8 ||| a.toUInt32)).toNat =
      2 ^ 16 * c.toNat + (2 ^ 8 * b.toNat + a.toNat) :=
    htwo ▸ toNat_shiftLeft_or c 16 (by decide) (htwo ▸ by change _ < 2 ^ 16; omega)
  have hfour :
      (d.toUInt32 <<< 24 ||| (c.toUInt32 <<< 16 ||| (b.toUInt32 <<< 8 ||| a.toUInt32))).toNat =
        2 ^ 24 * d.toNat + (2 ^ 16 * c.toNat + (2 ^ 8 * b.toNat + a.toNat)) :=
    hthree ▸ toNat_shiftLeft_or d 24 (by decide) (hthree ▸ by change _ < 2 ^ 24; omega)
  rw [number_four, wordLE, wordBE, UInt32.or_assoc, UInt32.or_assoc, hfour]
  omega

end Bytes

/-! ## Tiles -/

namespace Header

open Bytes

variable {header : Header} {bytes : Bytes}

/-- The places of the fields in the 80 bytes of a header. -/
structure Layout (header : Header) (bytes : Bytes) : Prop where
  length : bytes.length = 80
  version : header.version.toNat = number (bytes.extract 0 4)
  previous : header.previous.bytes = bytes.extract 4 36
  root : header.root.bytes = bytes.extract 36 68
  time : header.time.toNat = number (bytes.extract 68 72)
  bits : header.bits.toNat = number (bytes.extract 72 76)
  nonce : header.nonce.toNat = number (bytes.extract 76 80)

theorem length_extract {i j : Nat} (hij : i ≤ j) (hj : j ≤ bytes.length) :
    (bytes.extract i j).length = j - i := by
  rw [List.extract_eq_take_drop, List.length_take, List.length_drop]
  omega

theorem extract_append_extract (bytes : Bytes) {i j k : Nat} (hij : i ≤ j) (hjk : j ≤ k) :
    bytes.extract i j ++ bytes.extract j k = bytes.extract i k := by
  have hdrop : bytes.drop j = (bytes.drop i).drop (j - i) := by
    rw [List.drop_drop, Nat.add_sub_cancel' hij]
  have hlength : k - i = j - i + (k - j) := by omega
  rw [List.extract_eq_take_drop, List.extract_eq_take_drop, List.extract_eq_take_drop, hdrop,
    hlength, List.take_add]

/-- Six tiles make 80 bytes. -/
theorem tiles (h : bytes.length = 80) :
    bytes.extract 0 4 ++ bytes.extract 4 36 ++ bytes.extract 36 68 ++ bytes.extract 68 72 ++
      bytes.extract 72 76 ++ bytes.extract 76 80 = bytes := by
  have hjoin {i j k : Nat} := extract_append_extract bytes (i := i) (j := j) (k := k)
  rw [hjoin (by decide) (by decide), hjoin (by decide) (by decide), hjoin (by decide) (by decide),
    hjoin (by decide) (by decide), hjoin (by decide) (by decide), List.extract_eq_take_drop,
    List.drop_zero]
  exact List.take_of_length_le (Nat.le_of_eq h)

theorem wordAt?_eq_some_iff {w : UInt32} {i : Nat} (hi : i + 4 ≤ bytes.length) :
    wordAt? bytes i = some w ↔ w.toNat = number (bytes.extract i (i + 4)) := by
  have hlength : 4 ≤ (bytes.drop i).length := by
    rw [List.length_drop]
    omega
  unfold wordAt?
  rw [List.extract_eq_take_drop, Nat.add_sub_cancel_left]
  match bytes.drop i, hlength with
  | a :: b :: c :: d :: rest, _ =>
      rw [Option.some.injEq, ← UInt32.toNat_inj, toNat_wordLE, eq_comm]
      rfl

/-- A word is written in the four bytes whose number it is. -/
theorem ofWordLE_eq_extract_iff (hlength : bytes.length = 80) {w : UInt32} {i : Nat}
    (hi : i + 4 ≤ 80) :
    ofWordLE w = bytes.extract i (i + 4) ↔ w.toNat = number (bytes.extract i (i + 4)) := by
  rw [← number_ofWordLE, number_inj]
  rw [length_ofWordLE, length_extract (Nat.le_add_right i 4) (hlength ▸ hi),
    Nat.add_sub_cancel_left]

/-- A string is what is written of a header if each tile is what is written of its field. -/
theorem encode_eq_iff : header.encode = bytes ↔ Layout header bytes := by
  constructor
  · intro h
    have hlength : bytes.length = 80 := h ▸ header.length_encode
    rw [← tiles hlength, encode] at h
    obtain ⟨h, hnonce⟩ := List.append_inj' h (by simp [hlength])
    obtain ⟨h, hbits⟩ := List.append_inj' h (by simp [hlength])
    obtain ⟨h, htime⟩ := List.append_inj' h (by simp [hlength])
    obtain ⟨h, hroot⟩ := List.append_inj' h (by simp [hlength])
    obtain ⟨hversion, hprevious⟩ := List.append_inj' h (by simp [hlength])
    have hword {w : UInt32} {i : Nat} (hi : i + 4 ≤ 80) :=
      (ofWordLE_eq_extract_iff (w := w) hlength hi).mp
    exact ⟨hlength, hword (by decide) hversion, hprevious, hroot, hword (by decide) htime,
      hword (by decide) hbits, hword (by decide) hnonce⟩
  · intro h
    have hword {w : UInt32} {i : Nat} (hi : i + 4 ≤ 80) :=
      (ofWordLE_eq_extract_iff (w := w) h.length hi).mpr
    rw [← tiles h.length, encode, hword (by decide) h.version, h.previous, h.root,
      hword (by decide) h.time, hword (by decide) h.bits, hword (by decide) h.nonce]

/-- A header is read from its writing. -/
theorem decode?_eq_some_iff : decode? bytes = some header ↔ Layout header bytes := by
  unfold decode?
  by_cases hlength : bytes.length = 80
  · have hword {w : UInt32} {i : Nat} (hi : i + 4 ≤ 80) :=
      wordAt?_eq_some_iff (w := w) (hlength ▸ hi)
    simp only [hlength, if_true, bind, Option.bind_eq_some_iff, pure, Hash.ofBytes?_eq_some_iff]
    constructor
    · rintro ⟨version, hversion, previous, hprevious, root, hroot, time, htime, bits, hbits, nonce,
        hnonce, ⟨⟩⟩
      exact ⟨hlength, (hword (by decide)).mp hversion, hprevious, hroot,
        (hword (by decide)).mp htime, (hword (by decide)).mp hbits, (hword (by decide)).mp hnonce⟩
    · intro h
      exact ⟨_, (hword (by decide)).mpr h.version, _, h.previous, _, h.root, _,
        (hword (by decide)).mpr h.time, _, (hword (by decide)).mpr h.bits, _,
        (hword (by decide)).mpr h.nonce, rfl⟩
  · rw [if_neg hlength]
    exact ⟨nofun, fun h => absurd h.length hlength⟩

/-- Four bytes are the writing of a word. -/
theorem exists_word (hlength : bytes.length = 80) {i : Nat} (hi : i + 4 ≤ 80) :
    ∃ w : UInt32, w.toNat = number (bytes.extract i (i + 4)) := by
  have hlt := number_lt (bytes.extract i (i + 4))
  rw [length_extract (Nat.le_add_right i 4) (hlength ▸ hi), Nat.add_sub_cancel_left] at hlt
  exact ⟨.ofNat (number (bytes.extract i (i + 4))), UInt32.toNat_ofNat_of_lt' hlt⟩

/-- Every string of 80 bytes is the writing of a header. -/
theorem exists_layout (hlength : bytes.length = 80) : ∃ header, Layout header bytes := by
  obtain ⟨version, hversion⟩ := exists_word hlength (i := 0) (by decide)
  obtain ⟨time, htime⟩ := exists_word hlength (i := 68) (by decide)
  obtain ⟨bits, hbits⟩ := exists_word hlength (i := 72) (by decide)
  obtain ⟨nonce, hnonce⟩ := exists_word hlength (i := 76) (by decide)
  let previous : Hash := ⟨bytes.extract 4 36, by simp [hlength]⟩
  let root : Hash := ⟨bytes.extract 36 68, by simp [hlength]⟩
  exact ⟨⟨version, previous, root, time, bits, nonce⟩, hlength, hversion, rfl, rfl, htime, hbits,
    hnonce⟩

/-! ## Writing and hashing -/

theorem decode?_encode (header : Header) : decode? header.encode = some header :=
  decode?_eq_some_iff.mpr (encode_eq_iff.mp rfl)

theorem encode_injective : Function.Injective encode := fun a b h =>
  Option.some.inj ((decode?_encode a).symm.trans ((congrArg decode? h).trans (decode?_encode b)))

/-- Data have one hash just if they have one digest of their digests. -/
theorem ofData_eq_iff {data others : Bytes} :
    Hash.ofData data = Hash.ofData others ↔
      Sha256.digest (Sha256.digest data) = Sha256.digest (Sha256.digest others) :=
  ⟨congrArg Hash.bytes, fun h => Hash.ext h⟩

/-- What is written of a header, and what its hash says of it. -/
structure Written (header : Header) : Prop where
  layout : header.Layout header.encode
  decode : decode? header.encode = some header
  encode_inj (other : Header) : other.encode = header.encode ↔ other = header
  /-- Another header of the same hash shows two strings of 80 bytes with one digest of
  their digests. -/
  collision (other : Header) (hne : other ≠ header) (hhash : other.hash = header.hash) :
    other.encode.length = 80 ∧ header.encode.length = 80 ∧ other.encode ≠ header.encode ∧
      Sha256.digest (Sha256.digest other.encode) = Sha256.digest (Sha256.digest header.encode)
  txid (tx : Tx) : header.hash = tx.id ↔
    Sha256.digest (Sha256.digest header.encode) = Sha256.digest (Sha256.digest tx.raw)

/-- Headers and strings of 80 bytes are read from one another and written to one another. -/
theorem encode_bijective : (∀ header, Written header) ∧
    ∀ bytes : Bytes, bytes.length = 80 →
      ∃ header, decode? bytes = some header ∧ header.Layout bytes ∧ header.encode = bytes := by
  constructor
  · intro header
    refine ⟨encode_eq_iff.mp rfl, decode?_encode header, fun _ => encode_injective.eq_iff, ?_,
      fun tx => ofData_eq_iff⟩
    intro other hne hhash
    exact ⟨other.length_encode, header.length_encode, encode_injective.ne hne,
      ofData_eq_iff.mp hhash⟩
  · intro bytes hlength
    obtain ⟨header, hlayout⟩ := exists_layout hlength
    exact ⟨header, decode?_eq_some_iff.mpr hlayout, hlayout, encode_eq_iff.mpr hlayout⟩

/-- The bytes from 0 to 79 write a header whose integers have their lowest byte first. -/
theorem encode_bijective_count :
    let bytes : Bytes := (List.range 80).map UInt8.ofNat
    bytes.length = 80 ∧ ∃ header : Header, header.encode = bytes ∧
      header.version = 0x03020100 ∧ header.nonce = 0x4f4e4d4c := by
  intro bytes
  have hlength : bytes.length = 80 := by simp [bytes]
  obtain ⟨header, -, hlayout, hencode⟩ := encode_bijective.2 bytes hlength
  refine ⟨hlength, header, hencode, ?_, ?_⟩
  · exact UInt32.toNat_inj.mp (hlayout.version.trans (by decide))
  · exact UInt32.toNat_inj.mp (hlayout.nonce.trans (by decide))

end Header

end LightPeer
