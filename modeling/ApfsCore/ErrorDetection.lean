import ApfsCore.Format.Checksum
import ApfsCore.NonInterference

/-!
# Errors the checksum always detects

Two blocks that differ in one pair of adjacent words after the checksum field have different
checksums, unless each of the two words is equal in both or is zero in one and all ones in the
other, which are the same residue (`checksum_ne_of_garbled`). Since the pair lies behind the
stored checksum, every reader that checks it rejects the damaged block. A change of one byte is
of this kind (`garbled_of_oneByteChanged`).
-/

namespace ApfsCore

/-! ### Damage -/

/-- Blocks of one length that agree outside words `i` and `i + 1`. -/
structure AgreeOutside (a b : Bytes) (i : ℕ) : Prop where
  length_eq : a.length = b.length
  bytes_eq : ∀ j, j < 4 * i ∨ 4 * i + 8 ≤ j → a[j]? = b[j]?

/-- Word number `i` differs, and not by an exchange of all zeros and all ones. -/
structure WordGarbled (a b : Bytes) (i : ℕ) : Prop where
  ne : wordAt a i ≠ wordAt b i
  not_zeros_ones : ¬(wordAt a i = 0 ∧ wordAt b i = 0xffffffff)
  not_ones_zeros : ¬(wordAt a i = 0xffffffff ∧ wordAt b i = 0)

/-- Damage confined to two adjacent words at offset 8 or later, one of which is garbled. -/
def Garbled (a b : Bytes) : Prop :=
  ∃ i, 8 ≤ 4 * i ∧ AgreeOutside a b i ∧ (WordGarbled a b i ∨ WordGarbled a b (i + 1))

/-- Damage of a single byte at offset 8 or later, in a block of whole words. -/
def OneByteChanged (a b : Bytes) : Prop :=
  4 ∣ a.length ∧ a.length = b.length ∧
    ∃ j, 8 ≤ j ∧ a[j]? ≠ b[j]? ∧ ∀ k, k ≠ j → a[k]? = b[k]?

/-! ### Different checksums -/

section TwoBlocks

variable {a b : Bytes} {i : ℕ}

theorem wordAt_congr (hlen : a.length = b.length)
    (h : ∀ j, 4 * i ≤ j → j < 4 * i + 4 → a[j]? = b[j]?) : wordAt a i = wordAt b i := by
  rw [wordAt, wordAt, leU32, readLE, readLE, slice_congr hlen h]

theorem wordAt_lt (block : Bytes) (i : ℕ) : wordAt block i < 2 ^ 32 :=
  readLE_lt 4 block (4 * i)

/-- A word past the end reads as zero. -/
theorem wordAt_of_le (h : wordCount a ≤ i) : wordAt a i = 0 := by
  have hnone : slice a (4 * i) (4 * i + 4) = none := by
    rw [wordCount] at h
    rw [slice_eq_none_iff]
    omega
  rw [wordAt, leU32, readLE, hnone]

/-- Words that are congruent are equal, or are all zeros and all ones. -/
theorem WordGarbled.not_modEq (h : WordGarbled a b i) :
    ¬wordAt a i ≡ wordAt b i [MOD fletcherMod] := by
  intro hmod
  have ha := wordAt_lt a i
  have hb := wordAt_lt b i
  have hne := h.ne
  have hzo := h.not_zeros_ones
  have hoz := h.not_ones_zeros
  rw [Nat.ModEq, fletcherMod] at hmod
  omega

/-- Blocks with equal checksums have equal sums over any longer run of words, since the words
past the end are zero. -/
private theorem fletcherFold_range'_eq (hlen : a.length = b.length)
    (h : fletcher64Checksum a = fletcher64Checksum b) {k : ℕ} (hk : wordCount a - 2 ≤ k) :
    fletcherFold fletcherMod (0, 0) ((List.range' 2 k).map (wordAt a)) =
      fletcherFold fletcherMod (0, 0) ((List.range' 2 k).map (wordAt b)) := by
  have hcount : wordCount b = wordCount a := by
    rw [wordCount, wordCount, hlen]
  obtain ⟨r, rfl⟩ := Nat.exists_eq_add_of_le hk
  have hpast : (List.range' (2 + (wordCount a - 2)) r).map (wordAt a) =
      (List.range' (2 + (wordCount a - 2)) r).map (wordAt b) := by
    refine List.map_congr_left fun j hj => ?_
    have hle : wordCount a ≤ j := by
      have := List.left_le_of_mem_range' hj
      omega
    rw [wordAt_of_le hle, wordAt_of_le (hcount ▸ hle)]
  have hsums := (checksum_eq_iff a b).mp h
  rw [words_drop_two, words_drop_two, hcount] at hsums
  rw [← List.range'_append_1, List.map_append, List.map_append, fletcherFold_append,
    fletcherFold_append, hsums, hpast]

/-- A run of words, split at words `2 + p` and `2 + p + 1`. -/
private theorem map_range'_split (block : Bytes) (p r : ℕ) :
    (List.range' 2 (p + 2 + r)).map (wordAt block) =
      (List.range' 2 p).map (wordAt block) ++ [wordAt block (2 + p), wordAt block (2 + p + 1)] ++
        (List.range' (2 + (p + 2)) r).map (wordAt block) := by
  have hpair : [wordAt block (2 + p), wordAt block (2 + p + 1)] =
      (List.range' (2 + p) 2).map (wordAt block) := rfl
  rw [hpair, ← List.map_append, ← List.map_append, List.range'_append_1, List.range'_append_1]

/-- **Garbled words change the checksum.** -/
theorem checksum_ne_of_garbled (h : Garbled a b) :
    fletcher64Checksum a ≠ fletcher64Checksum b := by
  obtain ⟨i, hi, hagree, hword⟩ := h
  intro hsum
  obtain ⟨p, rfl⟩ : ∃ p, i = 2 + p := Nat.exists_eq_add_of_le (by omega)
  have houtside : ∀ j, j < 2 + p ∨ 2 + (p + 2) ≤ j → wordAt a j = wordAt b j := by
    intro j hj
    refine wordAt_congr hagree.length_eq fun l hl hl' => hagree.bytes_eq l ?_
    omega
  have hfold := fletcherFold_range'_eq hagree.length_eq hsum (k := p + 2 + wordCount a) (by omega)
  have hpre : (List.range' 2 p).map (wordAt a) = (List.range' 2 p).map (wordAt b) := by
    refine List.map_congr_left fun j hj => houtside j (.inl ?_)
    rw [List.mem_range'_1] at hj
    omega
  have hpost : (List.range' (2 + (p + 2)) (wordCount a)).map (wordAt a) =
      (List.range' (2 + (p + 2)) (wordCount a)).map (wordAt b) := by
    refine List.map_congr_left fun j hj => houtside j (.inr ?_)
    rw [List.mem_range'_1] at hj
    omega
  rw [map_range'_split, map_range'_split, hpre, hpost] at hfold
  obtain ⟨hfst, hsnd⟩ := modEq_of_fletcherFold_eq fletcherMod_pos hfold
  rcases hword with hword | hword
  · exact hword.not_modEq hfst
  · exact hword.not_modEq hsnd

/-- The stored checksum lies before the damage. -/
theorem Garbled.stored_eq (h : Garbled a b) : fletcher64Stored a = fletcher64Stored b := by
  obtain ⟨i, hi, hagree, -⟩ := h
  have hslice : slice a 0 (0 + 8) = slice b 0 (0 + 8) :=
    slice_congr hagree.length_eq fun k _ hk => hagree.bytes_eq k (.inl (by omega))
  rw [fletcher64Stored, fletcher64Stored, leU64, readLE, readLE, hslice]

theorem Garbled.length_pos (h : Garbled a b) : 0 < b.length := by
  obtain ⟨i, -, hagree, hword⟩ := h
  by_contra hempty
  have hzero : ∀ j, wordAt a j = wordAt b j := by
    intro j
    rw [wordAt_of_le (by have := hagree.length_eq; rw [wordCount]; omega),
      wordAt_of_le (by rw [wordCount]; omega)]
  rcases hword with hword | hword
  · exact hword.ne (hzero _)
  · exact hword.ne (hzero _)

/-- Garbling a valid block makes it an invalid one. -/
theorem Garbled.not_checksumValid (h : Garbled a b) (ha : ChecksumValid a) :
    ¬ChecksumValid b := by
  intro hb
  rw [ChecksumValid, h.stored_eq] at ha
  exact checksum_ne_of_garbled h (ha.symm.trans hb)

/-- A reader that accepts valid blocks only rejects what garbling makes of a block it accepts. -/
theorem Garbled.rejected (h : Garbled a b) {γ : Type} {f : Bytes → Result γ}
    (hf : ∀ b, ¬ChecksumValid b → ∀ c, f b ≠ .ok c) {c : γ} (hok : f a = .ok c) (c' : γ) :
    f b ≠ .ok c' := by
  have ha : ChecksumValid a := by
    by_contra hbad
    exact hf a hbad c hok
  exact hf b (h.not_checksumValid ha) c'

/-! ### One byte -/

/-- The word of four bytes of a block. -/
private theorem wordAt_eq_leNat (hi : 4 * i + 4 ≤ a.length) :
    wordAt a i = leNat ((a.drop (4 * i)).take 4) := by
  rw [wordAt, leU32, readLE, slice_of_le (by omega) hi, Nat.add_sub_cancel_left]

/-- Blocks with the same word have the same bytes there. -/
private theorem getElem?_of_wordAt_eq (ha : 4 * i + 4 ≤ a.length) (hb : 4 * i + 4 ≤ b.length)
    (h : wordAt a i = wordAt b i) {k : ℕ} (hk : k < 4) : a[4 * i + k]? = b[4 * i + k]? := by
  have hlen : ((a.drop (4 * i)).take 4).length = ((b.drop (4 * i)).take 4).length := by
    rw [List.length_take, List.length_take, List.length_drop, List.length_drop]
    omega
  rw [wordAt_eq_leNat ha, wordAt_eq_leNat hb] at h
  have hbytes := congrArg (·[k]?) (leNat_inj hlen h)
  simpa only [List.getElem?_take_of_lt hk, List.getElem?_drop] using hbytes

/-- The bytes of a word that is all zeros or all ones. -/
private theorem getElem?_of_wordAt_eq_replicate {v : UInt8} (ha : 4 * i + 4 ≤ a.length)
    (h : wordAt a i = leNat (List.replicate 4 v)) {k : ℕ} (hk : k < 4) :
    a[4 * i + k]? = some v := by
  have hlen : ((a.drop (4 * i)).take 4).length = (List.replicate 4 v).length := by
    rw [List.length_take, List.length_drop, List.length_replicate]
    omega
  rw [wordAt_eq_leNat ha] at h
  have hbytes := congrArg (·[k]?) (leNat_inj hlen h)
  simpa only [List.getElem?_take_of_lt hk, List.getElem?_drop, List.getElem?_replicate_of_lt hk]
    using hbytes

/-- A change of one byte garbles its word: the other three bytes rule out the exchange. -/
theorem garbled_of_oneByteChanged (h : OneByteChanged a b) : Garbled a b := by
  obtain ⟨⟨n, hn⟩, hlen, j, hj, hdiff, hsame⟩ := h
  have hin : j < a.length := by
    by_contra hout
    refine hdiff ?_
    rw [List.getElem?_eq_none (by omega), List.getElem?_eq_none (by omega)]
  have ha : 4 * (j / 4) + 4 ≤ a.length := by omega
  have hb : 4 * (j / 4) + 4 ≤ b.length := hlen ▸ ha
  have hpos : 4 * (j / 4) + j % 4 = j := Nat.div_add_mod j 4
  -- a byte of the word that did not change
  have hother := hsame (4 * (j / 4) + (j + 1) % 4) (by omega)
  have hones : (0xffffffff : ℕ) = leNat (List.replicate 4 255) := by decide
  have hzeros : (0 : ℕ) = leNat (List.replicate 4 0) := by decide
  refine ⟨j / 4, by omega, ⟨hlen, fun k hk => hsame k (by omega)⟩, .inl ⟨?_, ?_, ?_⟩⟩
  · intro hword
    have hbyte := getElem?_of_wordAt_eq ha hb hword (k := j % 4) (Nat.mod_lt _ (by norm_num))
    rw [hpos] at hbyte
    exact hdiff hbyte
  · rintro ⟨hza, hob⟩
    rw [getElem?_of_wordAt_eq_replicate ha (hza.trans hzeros) (Nat.mod_lt _ (by norm_num)),
      getElem?_of_wordAt_eq_replicate hb (hob.trans hones) (Nat.mod_lt _ (by norm_num))] at hother
    exact absurd hother (by decide)
  · rintro ⟨hoa, hzb⟩
    rw [getElem?_of_wordAt_eq_replicate ha (hoa.trans hones) (Nat.mod_lt _ (by norm_num)),
      getElem?_of_wordAt_eq_replicate hb (hzb.trans hzeros) (Nat.mod_lt _ (by norm_num))] at hother
    exact absurd hother (by decide)

end TwoBlocks

/-! ### Readers -/

theorem NxSuperblock.parse_ne_ok {b : Bytes} (h : ¬ChecksumValid b) (nx : NxSuperblock) :
    NxSuperblock.parse b ≠ .ok nx := by
  intro hok
  exact h (NxSuperblock.parse_eq_ok_iff.mp hok).2.2.1

/-- What becomes of a block that a reader accepts when it is damaged: its checksum changes, and
the reader rejects it. -/
structure DamageRejected (block damaged : Bytes) : Prop where
  checksum_ne : fletcher64Checksum block ≠ fletcher64Checksum damaged
  nxSuperblock : ∀ nx, NxSuperblock.parse block = .ok nx →
    ∀ nx', NxSuperblock.parse damaged ≠ .ok nx'
  objectMap : ∀ om, ObjectMap.parse block = .ok om → ∀ om', ObjectMap.parse damaged ≠ .ok om'
  apfsVolume : ∀ v, ApfsVolume.parse block = .ok v → ∀ v', ApfsVolume.parse damaged ≠ .ok v'
  node : ∀ img img' paddr blockSize, readVerifiedNode img paddr blockSize = .ok (some block) →
    img'.block blockSize paddr = some damaged →
      ∀ read, readVerifiedNode img' paddr blockSize ≠ .ok read

/-- A node that was read is the verified block at its address. -/
private theorem verified_of_readVerifiedNode {img : Image} {paddr blockSize : ℕ} {block : Bytes}
    (h : readVerifiedNode img paddr blockSize = .ok (some block)) :
    paddr * blockSize < 2 ^ 64 ∧ verified paddr block = .ok block := by
  rw [readVerifiedNode, checkedMul] at h
  split_ifs at h with hoff
  · refine ⟨hoff, ?_⟩
    dsimp only at h
    obtain ⟨buf, -, hmap⟩ := bind_eq_ok.mp h
    obtain ⟨buf', hverified, hsome⟩ := map_eq_ok.mp hmap
    cases hsome
    rw [verified] at hverified ⊢
    split_ifs at hverified with hvalid
    · cases hverified
      exact if_pos hvalid
    · exact absurd hverified (fail_ne_ok _ _)
  · cases h

/-- A node whose block does not verify is not read. -/
private theorem readVerifiedNode_ne_ok {img : Image} {paddr blockSize : ℕ} {block : Bytes}
    (hoff : paddr * blockSize < 2 ^ 64) (hblock : img.block blockSize paddr = some block)
    (hbad : ∀ buf, verified paddr block ≠ .ok buf) (hne : blockSize ≠ 0) (read : Option Bytes) :
    readVerifiedNode img paddr blockSize ≠ .ok read := by
  intro h
  have hread : img.readExact (paddr * blockSize) blockSize = .ok block :=
    (Image.readExact_eq_ok hne).mpr hblock
  rw [readVerifiedNode, checkedMul, if_pos hoff] at h
  dsimp only at h
  rw [hread, ok_bind] at h
  obtain ⟨buf, hverified, -⟩ := map_eq_ok.mp h
  exact hbad buf hverified

/-- **Guaranteed error detection.** Damage in a pair of adjacent words after the checksum field,
other than the exchange of all zeros and all ones, and any change of one byte there, changes the
checksum, and every reader that accepted the block rejects what the damage makes of it. -/
theorem damage_rejected (block damaged : Bytes)
    (h : Garbled block damaged ∨ OneByteChanged block damaged) :
    DamageRejected block damaged := by
  have hgarbled : Garbled block damaged := h.elim id garbled_of_oneByteChanged
  refine ⟨checksum_ne_of_garbled hgarbled, fun nx hok => ?_, fun om hok => ?_, fun v hok => ?_,
    fun img img' paddr blockSize hread hblock => ?_⟩
  · exact hgarbled.rejected (fun _ hb nx => NxSuperblock.parse_ne_ok hb nx) hok
  · exact hgarbled.rejected (fun _ hb om => ObjectMap.parse_ne_ok hb om) hok
  · exact hgarbled.rejected (fun _ hb v => ApfsVolume.parse_ne_ok hb v) hok
  · obtain ⟨hoff, hok⟩ := verified_of_readVerifiedNode hread
    refine readVerifiedNode_ne_ok hoff hblock ?_ ?_
    · exact hgarbled.rejected (fun _ hb buf => verified_ne_ok hb buf) hok
    · -- an empty block has no word to garble
      rintro rfl
      have hempty := hgarbled.length_pos
      rw [Image.length_of_block hblock] at hempty
      exact lt_irrefl 0 hempty

/-- The header of an object map whose tree is at block 1. -/
private def sealedHeader : Bytes :=
  encodeObjectMap 1 64

/-- Pointing the header at another tree without sealing it again makes it rejected. -/
theorem redirected_omap_rejected :
    ObjectMap.parse sealedHeader = .ok ⟨0, 0, 1, 0⟩ ∧
      ¬∃ om, ObjectMap.parse (sealedHeader.set 48 2) = .ok om := by
  have hparse : ObjectMap.parse sealedHeader = .ok ⟨0, 0, 1, 0⟩ := by decide +kernel
  have hchanged : OneByteChanged sealedHeader (sealedHeader.set 48 2) := by
    refine ⟨by decide +kernel, by rw [List.length_set], 48, by norm_num, by decide +kernel, ?_⟩
    intro k hk
    rw [List.getElem?_set_ne hk.symm]
  refine ⟨hparse, ?_⟩
  rintro ⟨om, hom⟩
  exact (damage_rejected _ _ (.inr hchanged)).objectMap _ hparse om hom

end ApfsCore
