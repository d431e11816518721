import ApfsCore.Format.Text
import ApfsCore.Volume.FsRecord

/-!
# The two forms of directory keys

A directory record's key holds the name behind a 32-bit word of hash and length, or behind a
16-bit length alone, and does not say which. `decode_drec_name` takes the first form if its
length fits the key (`HashedFormFits`). That test never errs: the low ten bits of the word are
the length in both forms, and in the second form a name of that length would end two bytes past
the key.
-/

namespace ApfsCore

/-- The key of a directory record on a volume with hashed names. -/
def hashedDrecKey (parentOid hash : ℕ) (name : Bytes) : Bytes :=
  encodeJkey 9 parentOid ++ (leBytes 4 (hash * 1024 + (name.length + 1)) ++ (name ++ [0]))

/-- The key of a directory record on a volume with plain names. -/
def unhashedDrecKey (parentOid : ℕ) (name : Bytes) : Bytes :=
  encodeJkey 9 parentOid ++ (leBytes 2 (name.length + 1) ++ (name ++ [0]))

/-- The length a key has if it is of the hashed form. -/
def hashedLen (key : Bytes) : ℕ :=
  leU32 key 8 &&& 0x3ff

/-- The test that tells the forms apart: a name of the length of the hashed form fits. -/
def HashedFormFits (key : Bytes) : Prop :=
  0 < hashedLen key ∧ 12 + hashedLen key ≤ key.length

theorem hashedLen_eq_mod (key : Bytes) : hashedLen key = leU32 key 8 % 1024 :=
  Nat.and_two_pow_sub_one_eq_mod _ 10

theorem length_encodeJkey (code oid : ℕ) : (encodeJkey code oid).length = 8 :=
  length_leBytes _ _

/-! ### The decoder, by form -/

theorem decodeDrecName_of_fits {key name : Bytes} (h : HashedFormFits key)
    (hname : slice key 12 (12 + hashedLen key) = some name) :
    decodeDrecName key = some (decodeCstr name) := by
  have hhashed : (if hashedLen key > 0 then slice key 12 (12 + hashedLen key) else none) =
      some name := by
    rw [if_pos h.1, hname]
  unfold decodeDrecName
  unfold hashedLen at hhashed
  simp only [hhashed]

theorem decodeDrecName_of_not_fits {key name : Bytes} (h : ¬HashedFormFits key)
    (hlen : 0 < leU16 key 8) (hname : slice key 10 (10 + leU16 key 8) = some name) :
    decodeDrecName key = some (decodeCstr name) := by
  have hhashed : (if hashedLen key > 0 then slice key 12 (12 + hashedLen key) else none) =
      none := by
    split_ifs with hpos
    · rw [slice_eq_none_iff]
      exact fun hfit => h ⟨hpos, hfit.2⟩
    · rfl
  unfold decodeDrecName
  unfold hashedLen at hhashed
  simp only [hhashed, if_pos hlen, hname]

/-- A name without NUL is what is before the NUL that ends it. -/
theorem decodeCstr_append_nul {name : Bytes} (hnul : (0 : UInt8) ∉ name) :
    decodeCstr (name ++ [0]) = fromUtf8Lossy name := by
  have htake : (name ++ [0]).takeWhile (· != 0) = name := by
    rw [List.takeWhile_append_of_pos fun b hb => by
      rw [bne_iff_ne]
      rintro rfl
      exact hnul hb]
    simp
  rw [decodeCstr, htake]

/-- In a field of fixed length a name is followed by zeros, if it does not fill it. -/
theorem decodeCstr_append_zeros {name : Bytes} (hnul : (0 : UInt8) ∉ name) (k : ℕ) :
    decodeCstr (name ++ List.replicate k 0) = fromUtf8Lossy name := by
  have htake : (name ++ List.replicate k 0).takeWhile (· != 0) = name := by
    rw [List.takeWhile_append_of_pos fun b hb => by
      rw [bne_iff_ne]
      rintro rfl
      exact hnul hb]
    cases k with
    | zero => exact List.append_nil name
    | succ k => simp [List.replicate_succ]
  rw [decodeCstr, htake]

/-! ### Keys of each form -/

section Keys

variable (parentOid : ℕ) {hash : ℕ} {name : Bytes}

theorem hashedLen_hashedDrecKey (hhash : hash < 2 ^ 22) (hlen : name.length ≤ 1022) :
    hashedLen (hashedDrecKey parentOid hash name) = name.length + 1 := by
  have hword : leU32 (hashedDrecKey parentOid hash name) 8 =
      hash * 1024 + (name.length + 1) := by
    have hlt : hash * 1024 + (name.length + 1) < 256 ^ 4 := by omega
    have hread := readLE_append_leBytes (a := encodeJkey 9 parentOid) (b := name ++ [0]) hlt
    rwa [length_encodeJkey] at hread
  rw [hashedLen_eq_mod, hword]
  omega

theorem hashedFormFits_hashedDrecKey (hhash : hash < 2 ^ 22) (hlen : name.length ≤ 1022) :
    HashedFormFits (hashedDrecKey parentOid hash name) := by
  rw [HashedFormFits, hashedLen_hashedDrecKey parentOid hhash hlen, hashedDrecKey]
  simp only [List.length_append, length_encodeJkey, length_leBytes, List.length_singleton]
  omega

/-- The word in front of the name has the length in its low bits in the unhashed form too,
unless the key is too short for the word. -/
theorem hashedLen_unhashedDrecKey (hlen : name.length ≤ 1022) :
    hashedLen (unhashedDrecKey parentOid name) = 0 ∨
      hashedLen (unhashedDrecKey parentOid name) = name.length + 1 := by
  have hread := readLE_append_right (w := 4) (i := 0) (a := encodeJkey 9 parentOid)
    (b := leBytes 2 (name.length + 1) ++ (name ++ [0]))
  rw [length_encodeJkey] at hread
  rw [hashedLen_eq_mod, leU32, unhashedDrecKey, hread, readLE]
  cases hslice : slice (leBytes 2 (name.length + 1) ++ (name ++ [0])) 0 (0 + 4) with
  | none => exact .inl rfl
  | some word =>
    refine .inr ?_
    obtain ⟨-, -, rfl⟩ := slice_eq_some_iff.mp hslice
    have htake : (leBytes 2 (name.length + 1) ++ (name ++ [0])).take 4 =
        leBytes 2 (name.length + 1) ++ (name ++ [0]).take 2 := by
      rw [List.take_append, length_leBytes, List.take_of_length_le (by rw [length_leBytes]; omega)]
    have hlow : leNat (leBytes 2 (name.length + 1)) = name.length + 1 :=
      leNat_leBytes_of_lt (by norm_num; omega)
    dsimp only
    rw [List.drop_zero, htake, leNat_append, hlow, length_leBytes]
    omega

theorem not_hashedFormFits_unhashedDrecKey (hlen : name.length ≤ 1022) :
    ¬HashedFormFits (unhashedDrecKey parentOid name) := by
  rintro ⟨hpos, hfit⟩
  have hword := hashedLen_unhashedDrecKey parentOid hlen
  have hkey : (unhashedDrecKey parentOid name).length = 8 + (2 + (name.length + 1)) := by
    simp only [unhashedDrecKey, List.length_append, length_encodeJkey, length_leBytes,
      List.length_singleton]
  omega

theorem decodeDrecName_hashedDrecKey (hhash : hash < 2 ^ 22) (hlen : name.length ≤ 1022)
    (hnul : (0 : UInt8) ∉ name) :
    decodeDrecName (hashedDrecKey parentOid hash name) = some (fromUtf8Lossy name) := by
  have hslice : slice (hashedDrecKey parentOid hash name) 12 (12 + (name.length + 1)) =
      some (name ++ [0]) := by
    have h := slice_middle (c := [])
      (a := encodeJkey 9 parentOid ++ leBytes 4 (hash * 1024 + (name.length + 1)))
      (b := name ++ [0])
    simpa only [hashedDrecKey, List.append_nil, List.append_assoc, List.length_append,
      length_encodeJkey, length_leBytes, List.length_singleton] using h
  rw [← decodeCstr_append_nul hnul]
  refine decodeDrecName_of_fits (hashedFormFits_hashedDrecKey parentOid hhash hlen) ?_
  rw [hashedLen_hashedDrecKey parentOid hhash hlen, hslice]

theorem decodeDrecName_unhashedDrecKey (hlen : name.length ≤ 1022) (hnul : (0 : UInt8) ∉ name) :
    decodeDrecName (unhashedDrecKey parentOid name) = some (fromUtf8Lossy name) := by
  have hword : leU16 (unhashedDrecKey parentOid name) 8 = name.length + 1 := by
    have hlt : name.length + 1 < 256 ^ 2 := by omega
    have hread := readLE_append_leBytes (a := encodeJkey 9 parentOid) (b := name ++ [0]) hlt
    rwa [length_encodeJkey] at hread
  have hslice : slice (unhashedDrecKey parentOid name) 10 (10 + (name.length + 1)) =
      some (name ++ [0]) := by
    have h := slice_middle (c := [])
      (a := encodeJkey 9 parentOid ++ leBytes 2 (name.length + 1)) (b := name ++ [0])
    simpa only [unhashedDrecKey, List.append_nil, List.append_assoc, List.length_append,
      length_encodeJkey, length_leBytes, List.length_singleton] using h
  rw [← decodeCstr_append_nul hnul]
  refine decodeDrecName_of_not_fits (not_hashedFormFits_unhashedDrecKey parentOid hlen) ?_ ?_
  · omega
  · rw [hword, hslice]

end Keys

/-- **Both key forms decode to the name.** Neither form is taken for the other, whatever the
parent, the hash and the bytes of the name, and a name that is valid UTF-8 comes back as it
is. -/
theorem drec_keys_decode (parentOid hash : ℕ) (name : Bytes) (hhash : hash < 2 ^ 22)
    (hlen : name.length ≤ 1022) (hnul : (0 : UInt8) ∉ name) :
    HashedFormFits (hashedDrecKey parentOid hash name) ∧
    ¬HashedFormFits (unhashedDrecKey parentOid name) ∧
    decodeDrecName (hashedDrecKey parentOid hash name) = some (fromUtf8Lossy name) ∧
    decodeDrecName (unhashedDrecKey parentOid name) = some (fromUtf8Lossy name) ∧
    ∀ text, name = utf8Bytes text → fromUtf8Lossy name = text := by
  refine ⟨hashedFormFits_hashedDrecKey parentOid hhash hlen,
    not_hashedFormFits_unhashedDrecKey parentOid hlen,
    decodeDrecName_hashedDrecKey parentOid hhash hlen hnul,
    decodeDrecName_unhashedDrecKey parentOid hlen hnul, ?_⟩
  rintro text rfl
  exact fromUtf8Lossy_utf8Bytes text

/-- A name of two characters, one of them of two bytes, in both forms. -/
theorem drec_keys_decode_accented :
    decodeDrecName (hashedDrecKey 2 (2 ^ 22 - 1) [0xC3, 0xA9, 0x61]) = some ['é', 'a'] ∧
      decodeDrecName (unhashedDrecKey 2 [0xC3, 0xA9, 0x61]) = some ['é', 'a'] := by
  have htext : ([0xC3, 0xA9, 0x61] : Bytes) = utf8Bytes ['é', 'a'] := by decide
  obtain ⟨-, -, hhashed, hunhashed, hkept⟩ := drec_keys_decode 2 (2 ^ 22 - 1) [0xC3, 0xA9, 0x61]
    (by norm_num) (by norm_num) (by decide)
  rw [hhashed, hunhashed, hkept _ htext]
  exact ⟨rfl, rfl⟩

end ApfsCore
