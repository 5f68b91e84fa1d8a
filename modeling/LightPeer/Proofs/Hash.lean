import LightPeer.Hash
import LightPeer.Proofs.Hex

/-! # The two texts of a hash

A hash is written with its bytes in order, or last to first as it is shown. Each of
the two readers undoes one of the two writers, on 64 digits of either case, and they
refuse the same texts for the same reason. -/

namespace LightPeer.Hash

variable {hash : Hash} {text : String} {bytes : Bytes} {fault : Hex.Fault}

/-! ## Reading -/

theorem ofHex_of_error (h : Hex.decode text = .error fault) : ofHex text = .error fault := by
  simp only [ofHex, h, bind, Except.bind]

theorem ofHex_of_ok (h : Hex.decode text = .ok hash.bytes) : ofHex text = .ok hash := by
  simp only [ofHex, h, bind, Except.bind, ofBytes?_eq_some_iff.mpr rfl]

/-- Bytes that are not 32 are no hash, and the length of their text is to blame. -/
theorem ofHex_of_length_ne (h : Hex.decode text = .ok bytes) (hlength : bytes.length ≠ 32) :
    ofHex text = .error (.badLength text.utf8ByteSize) := by
  have hnone : ofBytes? bytes = none := dif_neg hlength
  simp only [ofHex, h, bind, Except.bind, hnone]

/-- A hash is read from a text that spells its bytes. -/
theorem ofHex_eq_ok_iff : ofHex text = .ok hash ↔ Hex.decode text = .ok hash.bytes := by
  refine ⟨fun h => ?_, ofHex_of_ok⟩
  cases hdecode : Hex.decode text with
  | error fault => exact nomatch (ofHex_of_error hdecode).symm.trans h
  | ok bytes =>
      by_cases hlength : bytes.length = 32
      · have hread : ofHex text = .ok ⟨bytes, hlength⟩ := ofHex_of_ok hdecode
        obtain rfl : ⟨bytes, hlength⟩ = hash := Except.ok.inj (hread.symm.trans h)
        rfl
      · exact nomatch (ofHex_of_length_ne hdecode hlength).symm.trans h

theorem reverse_involutive : Function.Involutive reverse := reverse_reverse

/-- The other reader reads the same text as the reversed hash. -/
theorem ofDisplay_eq_ok_iff : ofDisplay text = .ok hash ↔ ofHex text = .ok hash.reverse := by
  unfold ofDisplay
  cases ofHex text with
  | error fault => simp [Except.map]
  | ok read => simp [Except.map, reverse_involutive.eq_iff]

theorem ofDisplay_eq_error_iff : ofDisplay text = .error fault ↔ ofHex text = .error fault := by
  unfold ofDisplay
  cases ofHex text with
  | error fault => simp [Except.map]
  | ok read => simp [Except.map]

/-! ## Reading what is written -/

/-- A text of 64 digits. -/
def IsFull (text : String) : Prop := text.length = 64 ∧ ∀ c ∈ text.toList, Hex.IsDigit c

/-- A hash is read from its own text in either case, and from nothing else. -/
theorem ofHex_eq_ok_iff_toLower :
    ofHex text = .ok hash ↔ IsFull text ∧ text.toLower = hash.toHex := by
  rw [ofHex_eq_ok_iff, Hex.decode_eq_ok_iff]
  constructor
  · intro h
    have hlength := h.length_eq
    rw [String.length_toList, hash.length_bytes] at hlength
    exact ⟨⟨hlength, h.isDigit⟩, h.encode.symm⟩
  · rintro ⟨⟨-, hdigits⟩, hlower⟩
    exact Hex.spells_iff.mpr ⟨hdigits, hlower⟩

theorem ofDisplay_eq_ok_iff_toLower :
    ofDisplay text = .ok hash ↔ IsFull text ∧ text.toLower = hash.display := by
  rw [ofDisplay_eq_ok_iff, ofHex_eq_ok_iff_toLower, display]

theorem ofHex_toHex (hash : Hash) : ofHex hash.toHex = .ok hash :=
  ofHex_of_ok (Hex.decode_encode hash.bytes)

theorem ofDisplay_display (hash : Hash) : ofDisplay hash.display = .ok hash :=
  ofDisplay_eq_ok_iff.mpr (ofHex_toHex hash.reverse)

/-- Digits in another even number are refused for their length. -/
theorem ofHex_of_length (hdigits : ∀ c ∈ text.toList, Hex.IsDigit c) (heven : text.length % 2 = 0)
    (hlength : text.length ≠ 64) : ofHex text = .error (.badLength text.utf8ByteSize) := by
  rw [← String.length_toList] at heven hlength
  obtain ⟨bytes, hbytes⟩ := Hex.exists_spells hdigits heven
  rw [hbytes.length_eq] at hlength
  exact ofHex_of_length_ne hbytes.decode (by omega)

/-! ## Writing byte by byte -/

theorem foldl_encode (bytes : Bytes) (text : String) :
    bytes.foldl (fun text b => text ++ Hex.encode [b]) text = text ++ Hex.encode bytes := by
  induction bytes generalizing text with
  | nil => exact String.append_empty.symm
  | cons b bytes ih =>
      have hencode : Hex.encode (b :: bytes) = Hex.encode [b] ++ Hex.encode bytes :=
        String.ofList_append
      rw [List.foldl_cons, ih, hencode, String.append_assoc]

theorem debug_eq (hash : Hash) : hash.debug = hash.toHex := by
  rw [debug, foldl_encode, String.empty_append, toHex]

/-! ## Both texts -/

/-- What is read in the texts of a hash. -/
structure Written (hash : Hash) : Prop where
  ofHex_toHex : ofHex hash.toHex = .ok hash
  ofDisplay_display : ofDisplay hash.display = .ok hash
  debug : hash.debug = hash.toHex
  shown : toString hash = hash.display
  /-- No other hash has one of these texts. -/
  toHex_inj (other : Hash) : other.toHex = hash.toHex ↔ other = hash
  display_inj (other : Hash) : other.display = hash.display ↔ other = hash

/-- The hashes that are read in a text. -/
structure Reading (text : String) : Prop where
  ofHex (hash : Hash) : ofHex text = .ok hash ↔ IsFull text ∧ text.toLower = hash.toHex
  ofDisplay (hash : Hash) :
    ofDisplay text = .ok hash ↔ IsFull text ∧ text.toLower = hash.display
  reversed (plain shown : Hash) (hplain : Hash.ofHex text = .ok plain)
    (hshown : Hash.ofDisplay text = .ok shown) : shown.bytes = plain.bytes.reverse
  fault (fault : Hex.Fault) : Hash.ofDisplay text = .error fault ↔ Hash.ofHex text = .error fault
  /-- Digits in another even number are refused for the length of their text. -/
  length (hdigits : ∀ c ∈ text.toList, Hex.IsDigit c) (heven : text.length % 2 = 0)
    (hlength : text.length ≠ 64) : Hash.ofHex text = .error (.badLength text.utf8ByteSize)

theorem toHex_injective : Function.Injective toHex := fun a b h =>
  Except.ok.inj ((ofHex_toHex a).symm.trans ((congrArg ofHex h).trans (ofHex_toHex b)))

theorem display_injective : Function.Injective display :=
  toHex_injective.comp reverse_involutive.injective

/-- The readers undo the writers, each in its own order of bytes, and read nothing else. -/
theorem texts_invert (hash : Hash) (text : String) : Written hash ∧ Reading text := by
  refine ⟨⟨ofHex_toHex hash, ofDisplay_display hash, debug_eq hash, rfl,
    fun _ => toHex_injective.eq_iff, fun _ => display_injective.eq_iff⟩,
    ⟨fun _ => ofHex_eq_ok_iff_toLower, fun _ => ofDisplay_eq_ok_iff_toLower, ?_,
      fun _ => ofDisplay_eq_error_iff, ofHex_of_length⟩⟩
  intro plain shown hplain hshown
  have hreverse : plain = shown.reverse :=
    Except.ok.inj (hplain.symm.trans (ofDisplay_eq_ok_iff.mp hshown))
  rw [hreverse, reverse, List.reverse_reverse]

/-- The text of a hash in capitals, from its last byte to its first one, which has a zero digit. -/
theorem texts_invert_capitals :
    let hash : Hash := ⟨(List.range 32).map UInt8.ofNat, rfl⟩
    let text := "1F1E1D1C1B1A191817161514131211100F0E0D0C0B0A09080706050403020100"
    IsFull text ∧ text.toLower = hash.display ∧ ofDisplay text = .ok hash ∧
      ofHex text = .ok hash.reverse := by
  intro hash text
  have hfull : IsFull text := ⟨by decide, List.all_iff_forall_prop.mp (by decide)⟩
  have hlower : text.toLower = hash.display := by
    rw [← String.toList_inj, Hex.toList_toLower, display, toHex, Hex.encode, String.toList_ofList]
    decide
  exact ⟨hfull, hlower, ((texts_invert hash text).2.ofDisplay hash).mpr ⟨hfull, hlower⟩,
    ((texts_invert hash text).2.ofHex hash.reverse).mpr ⟨hfull, hlower⟩⟩

end LightPeer.Hash
