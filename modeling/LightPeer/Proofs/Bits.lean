import LightPeer.Bytes

/-! Bytes are read as bits from the least significant one on, and bits packed into
bytes are read back, with zeros behind them that fill up the last byte. -/

namespace LightPeer.Bytes

theorem getElem?_bitsLE (b : UInt8) {i : Nat} (h : i < 8) :
    (bitsLE b)[i]? = some (b.toNat.testBit i) := by
  simp [bitsLE, h]

/-- Bit `i` of some bytes is bit `i % 8` of byte `i / 8`. -/
theorem getElem?_flatMap_bitsLE (bytes : Bytes) (i : Nat) :
    (bytes.flatMap bitsLE)[i]? = bytes[i / 8]?.map (·.toNat.testBit (i % 8)) := by
  induction bytes generalizing i with
  | nil => rfl
  | cons b bytes ih =>
      rw [List.flatMap_cons]
      by_cases hfirst : i < 8
      · have hdiv : i / 8 = 0 := by omega
        have hmod : i % 8 = i := by omega
        rw [List.getElem?_append_left (by simpa using hfirst), getElem?_bitsLE b hfirst, hdiv, hmod]
        rfl
      · have hdiv : i / 8 = (i - 8) / 8 + 1 := by omega
        have hmod : i % 8 = (i - 8) % 8 := by omega
        rw [List.getElem?_append_right (by rw [length_bitsLE]; omega), length_bitsLE, ih, hdiv,
          hmod, List.getElem?_cons_succ]

/-- Some bytes begin with the given bits, and less than a byte of other bits is behind
these, if each of the bits stands in its place. -/
theorem flatMap_bitsLE_eq_append_iff {bytes : Bytes} {bits : List Bool} :
    (∃ padding : List Bool, padding.length < 8 ∧ bytes.flatMap bitsLE = bits ++ padding) ↔
      (∀ i bit, bits[i]? = some bit →
        ∃ b, bytes[i / 8]? = some b ∧ bit = b.toNat.testBit (i % 8)) ∧
      8 * bytes.length < bits.length + 8 := by
  constructor
  · rintro ⟨padding, hpadding, heq⟩
    constructor
    · intro i bit hbit
      have hread : (bytes.flatMap bitsLE)[i]? = some bit := by
        obtain ⟨hi, _⟩ := List.getElem?_eq_some_iff.mp hbit
        rw [heq, List.getElem?_append_left hi, hbit]
      rw [getElem?_flatMap_bitsLE, Option.map_eq_some_iff] at hread
      obtain ⟨b, hb, rfl⟩ := hread
      exact ⟨b, hb, rfl⟩
    · have hlength := congrArg List.length heq
      rw [length_flatMap_bitsLE, List.length_append] at hlength
      omega
  · rintro ⟨hbits, hshort⟩
    have hbegins : bits <+: bytes.flatMap bitsLE := by
      refine List.prefix_iff_getElem?.mpr ?_
      intro i hi
      obtain ⟨b, hb, hbit⟩ := hbits i bits[i] (List.getElem?_eq_getElem hi)
      rw [getElem?_flatMap_bitsLE, hb, hbit]
      rfl
    obtain ⟨padding, heq⟩ := hbegins
    refine ⟨padding, ?_, heq.symm⟩
    have hlength := congrArg List.length heq
    rw [length_flatMap_bitsLE, List.length_append] at hlength
    omega

theorem bitsLE_byteOfBits_eight :
    ∀ a b c d e f g h : Bool,
      bitsLE (byteOfBits [a, b, c, d, e, f, g, h]) = [a, b, c, d, e, f, g, h] := by
  decide

/-- Zeros above the highest bit do not change a byte. -/
theorem byteOfBits_append_replicate (bits : List Bool) (n : Nat) :
    byteOfBits (bits ++ List.replicate n false) = byteOfBits bits := by
  have hzeros : byteOfBits (List.replicate n false) = 0 := by
    induction n with
    | zero => rfl
    | succ n ih =>
        change 2 * byteOfBits (List.replicate n false) + 0 = 0
        rw [ih]
        rfl
  unfold byteOfBits at hzeros ⊢
  rw [List.foldr_append, hzeros]

/-- A byte holds up to eight bits, lowest first, and zeros above them. -/
theorem bitsLE_byteOfBits {bits : List Bool} (h : bits.length ≤ 8) :
    bitsLE (byteOfBits bits) = bits ++ List.replicate (8 - bits.length) false := by
  rw [← byteOfBits_append_replicate bits (8 - bits.length)]
  have hlength : (bits ++ List.replicate (8 - bits.length) false).length = 8 := by
    rw [List.length_append, List.length_replicate]
    omega
  generalize bits ++ List.replicate (8 - bits.length) false = padded at hlength ⊢
  match padded, hlength with
  | [a, b, c, d, e, f, g, h], _ => exact bitsLE_byteOfBits_eight a b c d e f g h

theorem flatMap_bitsLE_packBits (bits : List Bool) :
    ∃ n < 8, (packBits bits).flatMap bitsLE = bits ++ List.replicate n false := by
  fun_induction packBits bits with
  | case1 a b c d e f g h rest ih =>
      obtain ⟨n, hn, hrest⟩ := ih
      refine ⟨n, hn, ?_⟩
      rw [List.flatMap_cons, hrest, bitsLE_byteOfBits_eight]
      rfl
  | case2 => exact ⟨0, by omega, rfl⟩
  | case3 few hmany hnil =>
      have hpos : 0 < few.length := List.length_pos_iff.mpr hnil
      have hfew : few.length < 8 := by
        match few, hmany with
        | [], _ | [_], _ | [_, _], _ | [_, _, _], _ | [_, _, _, _], _ | [_, _, _, _, _], _
        | [_, _, _, _, _, _], _ | [_, _, _, _, _, _, _], _ => simp
        | a :: b :: c :: d :: e :: f :: g :: h :: rest, hmany =>
            exact (hmany a b c d e f g h rest rfl).elim
      refine ⟨8 - few.length, by omega, ?_⟩
      rw [List.flatMap_cons, List.flatMap_nil, List.append_nil, bitsLE_byteOfBits (by omega)]

end LightPeer.Bytes
