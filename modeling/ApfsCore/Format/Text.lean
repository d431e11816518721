import ApfsCore.Format.Reader

/-!
# Text that is valid UTF-8

`String::from_utf8_lossy` replaces what is not UTF-8 and keeps what is: decoding the encoding
of a text gives the text back (`fromUtf8Lossy_utf8Bytes`). The four lengths of an encoded
character are four short runs of the decoder, each of which takes up the payload bits of the
bytes it reads.

`str::from_utf8` refuses what is not UTF-8. It accepts exactly the encodings of texts
(`fromUtf8_eq_some_iff`).
-/

namespace ApfsCore

/-- The UTF-8 bytes of a text. -/
def utf8Bytes (text : Str) : Bytes :=
  text.flatMap String.utf8EncodeChar

namespace Utf8State

theorem decode_cons (st : Utf8State) (b : UInt8) (rest : Bytes) :
    st.decode (b :: rest) = (st.step b.toNat).1 ++ (st.step b.toNat).2.decode rest := by
  cases st <;> rfl

theorem toNat_ofNat_of_lt {n : ℕ} (h : n < 256) : (UInt8.ofNat n).toNat = n := by
  rw [UInt8.toNat_ofNat', Nat.mod_eq_of_lt h]

/-- A continuation byte in range adds its six bits. -/
theorem decode_continue {acc need lo hi n : ℕ} (hneed : need ≠ 1) (hlo : lo ≤ n + 0x80)
    (hhi : n + 0x80 ≤ hi) (hn : n < 64) (rest : Bytes) :
    (inside acc need lo hi).decode (UInt8.ofNat (n + 0x80) :: rest) =
      (inside (acc * 64 + n) (need - 1) 0x80 0xBF).decode rest := by
  rw [decode_cons, toNat_ofNat_of_lt (by omega), step, if_pos ⟨hlo, hhi⟩, if_neg hneed,
    List.nil_append, Nat.add_sub_cancel]

/-- The last continuation byte completes the character. -/
theorem decode_complete {acc lo hi n : ℕ} (hlo : lo ≤ n + 0x80) (hhi : n + 0x80 ≤ hi)
    (hn : n < 64) (rest : Bytes) :
    (inside acc 1 lo hi).decode (UInt8.ofNat (n + 0x80) :: rest) =
      Char.ofNat (acc * 64 + n) :: boundary.decode rest := by
  rw [decode_cons, toNat_ofNat_of_lt (by omega), step, if_pos ⟨hlo, hhi⟩, if_pos rfl,
    Nat.add_sub_cancel, List.singleton_append]

/-- The lead byte of two. -/
theorem decode_lead_two {n : ℕ} (hlo : 2 ≤ n) (hhi : n < 32) (rest : Bytes) :
    boundary.decode (UInt8.ofNat (n + 0xC0) :: rest) = (inside n 1 0x80 0xBF).decode rest := by
  rw [decode_cons, toNat_ofNat_of_lt (by omega), step, openByte, if_neg (by omega),
    if_pos (by omega), List.nil_append, Nat.add_sub_cancel]

/-- The lead byte of three. -/
theorem decode_lead_three {n : ℕ} (hn : n < 16) (rest : Bytes) :
    boundary.decode (UInt8.ofNat (n + 0xE0) :: rest) =
      (inside n 2 (if n = 0 then 0xA0 else 0x80) (if n = 13 then 0x9F else 0xBF)).decode rest := by
  have hzero : n + 0xE0 = 0xE0 ↔ n = 0 := by omega
  have hlast : n + 0xE0 = 0xED ↔ n = 13 := by omega
  rw [decode_cons, toNat_ofNat_of_lt (by omega), step, openByte, if_neg (by omega),
    if_neg (by omega), if_pos (by omega)]
  simp only [List.nil_append, Nat.add_sub_cancel, hzero, hlast]

/-- The lead byte of four. -/
theorem decode_lead_four {n : ℕ} (hn : n < 5) (rest : Bytes) :
    boundary.decode (UInt8.ofNat (n + 0xF0) :: rest) =
      (inside n 3 (if n = 0 then 0x90 else 0x80) (if n = 4 then 0x8F else 0xBF)).decode rest := by
  have hzero : n + 0xF0 = 0xF0 ↔ n = 0 := by omega
  have hlast : n + 0xF0 = 0xF4 ↔ n = 4 := by omega
  rw [decode_cons, toNat_ofNat_of_lt (by omega), step, openByte, if_neg (by omega),
    if_neg (by omega), if_neg (by omega), if_pos (by omega)]
  simp only [List.nil_append, Nat.add_sub_cancel, hzero, hlast]

/-- One encoded character is decoded to itself, and leaves the decoder at a boundary. -/
theorem decode_encodeChar (c : Char) (rest : Bytes) :
    boundary.decode (String.utf8EncodeChar c ++ rest) = c :: boundary.decode rest := by
  have hvalid : c.toNat < 0xD800 ∨ 0xDFFF < c.toNat ∧ c.toNat < 0x110000 := c.valid
  have hchar : Char.ofNat c.toNat = c := Char.ofNat_toNat c
  have hval : c.val.toNat = c.toNat := rfl
  rw [String.utf8EncodeChar, hval]
  generalize c.toNat = v at hvalid hchar
  split_ifs with h₁ h₂ h₃
  · rw [List.singleton_append, decode_cons, toNat_ofNat_of_lt (by omega), step, openByte,
      if_pos (by omega), hchar, List.singleton_append]
  · have hbits : v / 64 % 32 * 64 + v % 64 = v := by omega
    simp only [List.cons_append, List.nil_append]
    rw [decode_lead_two (by omega) (by omega),
      decode_complete (by omega) (by omega) (by omega), hbits, hchar]
  · have hbits : (v / 4096 % 16 * 64 + v / 64 % 64) * 64 + v % 64 = v := by omega
    simp only [List.cons_append, List.nil_append]
    -- the second byte rules out overlong forms and surrogates
    rw [decode_lead_three (by omega),
      decode_continue (by norm_num) (by split_ifs <;> omega) (by split_ifs <;> omega) (by omega),
      decode_complete (by omega) (by omega) (by omega), hbits, hchar]
  · have hbits : ((v / 262144 % 8 * 64 + v / 4096 % 64) * 64 + v / 64 % 64) * 64 + v % 64 = v := by
      omega
    simp only [List.cons_append, List.nil_append]
    -- the second byte rules out overlong forms and numbers past the last character
    rw [decode_lead_four (by omega),
      decode_continue (by norm_num) (by split_ifs <;> omega) (by split_ifs <;> omega) (by omega),
      decode_continue (by norm_num) (by omega) (by omega) (by omega),
      decode_complete (by omega) (by omega) (by omega), hbits, hchar]

end Utf8State

/-- **Valid UTF-8 is kept.** -/
theorem fromUtf8Lossy_utf8Bytes (text : Str) : fromUtf8Lossy (utf8Bytes text) = text := by
  rw [fromUtf8Lossy]
  induction text with
  | nil => rfl
  | cons c text ih =>
    have hcons : utf8Bytes (c :: text) = String.utf8EncodeChar c ++ utf8Bytes text := rfl
    rw [hcons, Utf8State.decode_encodeChar, ih]

/-! ### Strict decoding -/

/-- `str::from_utf8`: the text, if the bytes are valid UTF-8. -/
def fromUtf8 (data : Bytes) : Option Str :=
  data.toByteArray.utf8Decode?.map Array.toList

/-- **What is accepted is what an encoding gives.** -/
theorem fromUtf8_eq_some_iff {data : Bytes} {text : Str} :
    fromUtf8 data = some text ↔ utf8Bytes text = data := by
  have hencode : ∀ text : Str, text.utf8Encode = (utf8Bytes text).toByteArray := fun _ => rfl
  constructor
  · intro h
    obtain ⟨chars, hchars, rfl⟩ := Option.map_eq_some_iff.mp h
    have hsome : data.toByteArray.utf8Decode?.isSome := by rw [hchars, Option.isSome_some]
    have hback := ByteArray.utf8Encode_get_utf8Decode? (h := hsome)
    simp only [hchars, Option.get_some, hencode] at hback
    exact List.toByteArray_inj.mp hback
  · rintro rfl
    rw [fromUtf8, ← hencode, List.utf8Decode?_utf8Encode, Option.map_some]

end ApfsCore
