import Listing.Text.Utf8

namespace Listing

namespace Text

theorem toNat_ofNat_byte {n : Nat} (h : n < 256) : (UInt8.ofNat n).toNat = n := by
  simp [Nat.mod_eq_of_lt h]

theorem leadByte_ascii {b : Nat} (h : b < 0x80) :
    leadByte b = ([some (Char.ofNat b)], none) := by
  simp [leadByte, h]

theorem leadByte_of_two {b : Nat} (h : 0xC2 ≤ b) (h' : b < 0xE0) :
    leadByte b = ([], some ⟨1, 0x80, 0xBF, b - 0xC0⟩) := by
  simp [leadByte, show ¬b < 0x80 by omega, show ¬b < 0xC2 by omega, h']

theorem leadByte_of_three {b : Nat} (h : 0xE0 ≤ b) (h' : b < 0xF0) :
    leadByte b = ([], some ⟨2, if b = 0xE0 then 0xA0 else 0x80, if b = 0xED then 0x9F else 0xBF,
      b - 0xE0⟩) := by
  simp [leadByte, show ¬b < 0x80 by omega, show ¬b < 0xC2 by omega, show ¬b < 0xE0 by omega, h']

theorem leadByte_of_four {b : Nat} (h : 0xF0 ≤ b) (h' : b < 0xF5) :
    leadByte b = ([], some ⟨3, if b = 0xF0 then 0x90 else 0x80, if b = 0xF4 then 0x8F else 0xBF,
      b - 0xF0⟩) := by
  simp [leadByte, show ¬b < 0x80 by omega, show ¬b < 0xC2 by omega, show ¬b < 0xE0 by omega,
    show ¬b < 0xF0 by omega, h']

/-- A byte that goes on with a character and is not its last. -/
theorem nextByte_more {missing low high value b : Nat} (hb : low ≤ b ∧ b ≤ high)
    (hm : 1 < missing) :
    nextByte (some ⟨missing, low, high, value⟩) b =
      ([], some ⟨missing - 1, 0x80, 0xBF, value * 64 + (b - 0x80)⟩) := by
  simp [nextByte, hb, Nat.not_le.mpr hm]

theorem nextByte_last {low high value b : Nat} (hb : low ≤ b ∧ b ≤ high) :
    nextByte (some ⟨1, low, high, value⟩) b =
      ([some (Char.ofNat (value * 64 + (b - 0x80)))], none) := by
  simp [nextByte, hb]

/-- The bytes of a character are read as that character, whatever follows them. -/
theorem decodeFrom_encodeChar (c : Char) (rest : List UInt8) :
    decodeFrom none (String.utf8EncodeChar c ++ rest) = some c :: decodeFrom none rest := by
  have hvalid : c.toNat < 0xD800 ∨ 0xDFFF < c.toNat ∧ c.toNat < 0x110000 := c.valid
  have hc : Char.ofNat c.toNat = c := Char.ofNat_toNat c
  have hv : c.val.toNat = c.toNat := rfl
  simp only [String.utf8EncodeChar, hv]
  generalize c.toNat = v at hvalid hc
  split
  next h1 =>
    simp only [List.cons_append, List.nil_append, decodeFrom, nextByte,
      toNat_ofNat_byte (by omega : v < 256), leadByte_ascii (by omega : v < 0x80), hc]
  next h1 =>
    split
    next h2 =>
      have hvalue : (v / 64 % 32 + 0xC0 - 0xC0) * 64 + (v % 64 + 0x80 - 0x80) = v := by omega
      simp only [List.cons_append, List.nil_append, decodeFrom]
      rw [toNat_ofNat_byte (by omega), toNat_ofNat_byte (by omega), nextByte,
        leadByte_of_two (by omega) (by omega)]
      simp only [List.nil_append]
      rw [nextByte_last (by omega), hvalue, hc]
      rfl
    next h2 =>
      split
      next h3 =>
        have hvalue : ((v / 4096 % 16 + 0xE0 - 0xE0) * 64 + (v / 64 % 64 + 0x80 - 0x80)) * 64 +
            (v % 64 + 0x80 - 0x80) = v := by omega
        simp only [List.cons_append, List.nil_append, decodeFrom]
        rw [toNat_ofNat_byte (by omega), toNat_ofNat_byte (by omega), toNat_ofNat_byte (by omega),
          nextByte, leadByte_of_three (by omega) (by omega)]
        simp only [List.nil_append]
        rw [nextByte_more (by split <;> split <;> omega) (by omega), nextByte_last (by omega), hvalue, hc]
        rfl
      next h3 =>
        have hvalue : (((v / 262144 % 8 + 0xF0 - 0xF0) * 64 + (v / 4096 % 64 + 0x80 - 0x80)) * 64 +
            (v / 64 % 64 + 0x80 - 0x80)) * 64 + (v % 64 + 0x80 - 0x80) = v := by omega
        simp only [List.cons_append, List.nil_append, decodeFrom]
        rw [toNat_ofNat_byte (by omega), toNat_ofNat_byte (by omega), toNat_ofNat_byte (by omega),
          toNat_ofNat_byte (by omega), nextByte, leadByte_of_four (by omega) (by omega)]
        simp only [List.nil_append]
        rw [nextByte_more (by split <;> split <;> omega) (by omega),
          nextByte_more (by omega) (by omega), nextByte_last (by omega), hvalue, hc]
        rfl

theorem decodeFrom_encodeUtf8 (cs : List Char) : decodeFrom none (encodeUtf8 cs) = cs.map some := by
  induction cs with
  | nil => rfl
  | cons c cs ih =>
    change decodeFrom none (String.utf8EncodeChar c ++ encodeUtf8 cs) = _
    rw [decodeFrom_encodeChar, ih]
    rfl

/-- A text is read back from its bytes. -/
theorem decodeUtf8Lossy_encodeUtf8 (cs : List Char) : decodeUtf8Lossy (encodeUtf8 cs) = cs := by
  rw [decodeUtf8Lossy, decodeFrom_encodeUtf8, List.map_map]
  exact List.map_id cs

end Text

end Listing
