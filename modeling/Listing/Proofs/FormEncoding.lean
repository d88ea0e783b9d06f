import Listing.FormEncoding
import Listing.Proofs.Split
import Listing.Proofs.Utf8

namespace Listing

namespace FormEncoding

/-- Encoded text is ASCII and holds neither divider of a query. -/
theorem encodeByte_chars (b : UInt8) :
    ∀ c ∈ encodeByte b, c.toNat < 0x80 ∧ c ≠ '&' ∧ c ≠ '=' ∧ c ≠ '?' := by
  have hall : ((List.range 256).all fun n => (encodeByte (UInt8.ofNat n)).all fun c =>
      c.toNat < 0x80 && c ≠ '&' && c ≠ '=' && c ≠ '?') = true := by decide +kernel
  intro c hc
  have hbyte := List.all_eq_true.mp hall b.toNat (List.mem_range.mpr b.toNat_lt)
  rw [UInt8.ofNat_toNat] at hbyte
  simpa [and_assoc] using List.all_eq_true.mp hbyte c hc

theorem encodeUtf8_ascii {cs : List Char} (h : ∀ c ∈ cs, c.toNat < 0x80) :
    Text.encodeUtf8 cs = cs.map fun c => UInt8.ofNat c.toNat := by
  induction cs with
  | nil => rfl
  | cons c cs ih =>
    have hc : c.toNat ≤ 0x7F := Nat.le_of_lt_succ (h c (by simp))
    change String.utf8EncodeChar c ++ Text.encodeUtf8 cs = _
    rw [ih fun d hd => h d (List.mem_cons_of_mem _ hd), String.utf8EncodeChar]
    simp [hc]

theorem hexValue?_digitChar {n : Nat} (h : n < 16) :
    hexValue? (UInt8.ofNat (Nat.digitChar n).toUpper.toNat) = some n := by
  have hall : ∀ n < 16, hexValue? (UInt8.ofNat (Nat.digitChar n).toUpper.toNat) = some n := by
    decide
  exact hall n h

theorem decodeBytes_plain {b : UInt8} (h : b ≠ 0x2B) (h' : b ≠ 0x25) (rest : List UInt8) :
    decodeBytes (b :: rest) = b :: decodeBytes rest := by
  rw [decodeBytes.eq_def]
  simp [h, h']

theorem decodeBytes_escaped {high low : UInt8} {h l : Nat} (hh : hexValue? high = some h)
    (hl : hexValue? low = some l) (rest : List UInt8) :
    decodeBytes (0x25 :: high :: low :: rest) = UInt8.ofNat (h * 16 + l) :: decodeBytes rest := by
  rw [decodeBytes.eq_def]
  simp [hh, hl]

/-- The characters of a byte are read as that byte, whatever follows them. -/
theorem decodeBytes_encodeByte (b : UInt8) (rest : List UInt8) :
    decodeBytes ((encodeByte b).map (fun c => UInt8.ofNat c.toNat) ++ rest) =
      b :: decodeBytes rest := by
  have hb := b.toNat_lt
  unfold encodeByte
  split
  next hp =>
    have hlt : b.toNat < 0x80 := by
      simp only [isPlain, Bool.and_eq_true, decide_eq_true_eq] at hp
      exact hp.1
    have hc : UInt8.ofNat (Char.ofNat b.toNat).toNat = b := by
      have hall : ∀ n < 0x80, (Char.ofNat n).toNat = n := by decide
      rw [hall b.toNat hlt, UInt8.ofNat_toNat]
    have hplus : b ≠ 0x2B := fun e => by subst e; exact absurd hp (by decide)
    have hpercent : b ≠ 0x25 := fun e => by subst e; exact absurd hp (by decide)
    simp only [List.map_cons, List.map_nil, List.cons_append, List.nil_append, hc]
    exact decodeBytes_plain hplus hpercent rest
  next hp =>
    split
    next hs =>
      subst hs
      change decodeBytes (0x2B :: rest) = _
      rw [decodeBytes.eq_def]
      simp
    next hs =>
      change decodeBytes (0x25 :: UInt8.ofNat (Nat.digitChar (b.toNat / 16)).toUpper.toNat ::
        UInt8.ofNat (Nat.digitChar (b.toNat % 16)).toUpper.toNat :: rest) = _
      rw [decodeBytes_escaped (hexValue?_digitChar (by omega)) (hexValue?_digitChar (by omega)),
        Nat.div_add_mod', UInt8.ofNat_toNat]

theorem decodeBytes_encode (bytes : List UInt8) :
    decodeBytes ((bytes.flatMap encodeByte).map fun c => UInt8.ofNat c.toNat) = bytes := by
  induction bytes with
  | nil => rfl
  | cons b bytes ih =>
    rw [List.flatMap_cons, List.map_append, decodeBytes_encodeByte, ih]

theorem encodeText_chars (s : String) :
    ∀ c ∈ encodeText s, c.toNat < 0x80 ∧ c ≠ '&' ∧ c ≠ '=' ∧ c ≠ '?' := by
  intro c hc
  obtain ⟨b, -, hb⟩ := List.mem_flatMap.mp hc
  exact encodeByte_chars b c hb

/-- A text is read back from its encoding. -/
theorem decodeText_encodeText (s : String) : decodeText (encodeText s) = s := by
  rw [decodeText, encodeUtf8_ascii fun c hc => (encodeText_chars s c hc).1, encodeText,
    decodeBytes_encode, Text.decodeUtf8Lossy_encodeUtf8, String.ofList_toList]

/-- A pair as a part of a query. -/
def pairText (pair : String × String) : List Char :=
  encodeText pair.1 ++ '=' :: encodeText pair.2

theorem encode_eq_joined (pairs : List (String × String)) :
    (encode pairs).toList = Text.joined '&' (pairs.map pairText) := by
  rw [encode, String.toList_ofList]
  rfl

theorem amp_not_mem_pairText (pair : String × String) : '&' ∉ pairText pair := by
  intro h
  rcases List.mem_append.mp h with h | h
  · exact (encodeText_chars pair.1 _ h).2.1 rfl
  · rcases List.mem_cons.mp h with h | h
    · exact absurd h (by decide)
    · exact (encodeText_chars pair.2 _ h).2.1 rfl

theorem decodePair (pair : String × String) :
    (let (k, v) := (Text.cutFirst '=' (pairText pair)).getD (pairText pair, [])
    (decodeText k, decodeText v)) = pair := by
  rw [pairText, Text.cutFirst_append_sep fun h => (encodeText_chars pair.1 _ h).2.2.1 rfl]
  simp only [Option.getD_some, decodeText_encodeText]

/-- Pairs are read back from the query that they make. -/
theorem decode_encode (pairs : List (String × String)) : decode (encode pairs) = pairs := by
  have hpieces : (Text.pieces '&' (encode pairs).toList).filter (fun piece => !piece.isEmpty) =
      pairs.map pairText := by
    rw [encode_eq_joined]
    cases pairs with
    | nil => rfl
    | cons pair rest =>
      rw [Text.pieces_joined (by simp)]
      · rw [List.filter_eq_self]
        intro part hp
        obtain ⟨pair, -, rfl⟩ := List.mem_map.mp hp
        simp [pairText]
      · intro part hp
        obtain ⟨pair, -, rfl⟩ := List.mem_map.mp hp
        exact amp_not_mem_pairText pair
  rw [decode, hpieces, List.map_map]
  exact (List.map_congr_left fun pair _ => decodePair pair).trans (List.map_id pairs)

/-- A query never begins with a question mark. -/
theorem head_encode_ne (pairs : List (String × String)) (rest : List Char) :
    (encode pairs).toList ≠ '?' :: rest := by
  intro h
  have hmem : '?' ∈ Text.joined '&' (pairs.map pairText) := by
    rw [← encode_eq_joined, h]
    exact List.mem_cons_self
  rcases Text.mem_joined hmem with hq | ⟨part, hp, hq⟩
  · exact absurd hq (by decide)
  · obtain ⟨pair, -, rfl⟩ := List.mem_map.mp hp
    rcases List.mem_append.mp hq with hq | hq
    · exact (encodeText_chars pair.1 _ hq).2.2.2 rfl
    · rcases List.mem_cons.mp hq with hq | hq
      · exact absurd hq (by decide)
      · exact (encodeText_chars pair.2 _ hq).2.2.2 rfl

end FormEncoding

end Listing
