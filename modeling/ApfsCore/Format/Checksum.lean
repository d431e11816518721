import ApfsCore.General.Overlay
import ApfsCore.Stepwise.Format

/-!
# The checksum as a code

`fletcher64_checksum` in closed form. Numbered from the start of the block, word `i` after the
checksum field enters the first sum once and the second sum `n - i` times, where `n` is the
number of whole words. The two check words are what brings both sums to zero, and because the
field itself is left out, writing the checksum into it makes the block a valid one.
-/

namespace ApfsCore

/-! ### The words of a block -/

/-- The number of whole words of a block. -/
def wordCount (block : Bytes) : ℕ :=
  block.length / 4

/-- The little-endian 32-bit word number `i` of a block. -/
def wordAt (block : Bytes) (i : ℕ) : ℕ :=
  leU32 block (4 * i)

theorem wordAt_append {k : ℕ} {a : Bytes} (b : Bytes) (h : a.length = 4 * k) (i : ℕ) :
    wordAt (a ++ b) (k + i) = wordAt b i := by
  have hslice := slice_append_right (a := a) (b := b) (i := 4 * i) (j := 4 * i + 4)
  rw [h, ← Nat.add_assoc, ← Nat.mul_add] at hslice
  rw [wordAt, wordAt, leU32, readLE, readLE, hslice]

/-- The words a checksum reads are the whole words by number. -/
theorem words_eq_map_wordAt (block : Bytes) :
    words block = (List.range (wordCount block)).map (wordAt block) := by
  induction block using words.induct with
  | case1 a b c d rest ih =>
    have hcount : wordCount (a :: b :: c :: d :: rest) = wordCount rest + 1 := by
      simp only [wordCount, List.length_cons]
      omega
    have hrest : ∀ i, wordAt (a :: b :: c :: d :: rest) (i + 1) = wordAt rest i := by
      intro i
      rw [Nat.add_comm]
      exact wordAt_append (k := 1) (a := [a, b, c, d]) rest rfl i
    have hfirst : wordAt (a :: b :: c :: d :: rest) 0 = leNat [a, b, c, d] := by
      have hslice : slice (a :: b :: c :: d :: rest) 0 4 = some [a, b, c, d] :=
        slice_append_left (a := [a, b, c, d]) (b := rest) le_rfl
      rw [wordAt, leU32, readLE, Nat.mul_zero, Nat.zero_add, hslice]
    rw [words, ih, hcount, List.range_succ_eq_map, List.map_cons, List.map_map, hfirst]
    congr 1
    exact List.map_congr_left fun i _ => (hrest i).symm
  | case2 block hshort =>
    have hcount : wordCount block = 0 := by
      have hlen : block.length < 4 := by
        rcases block with _ | ⟨a, _ | ⟨b, _ | ⟨c, _ | ⟨d, rest⟩⟩⟩⟩
        case cons.cons.cons.cons => exact (hshort a b c d rest rfl).elim
        all_goals simp
      exact Nat.div_eq_of_lt hlen
    rw [hcount, words]
    · rfl
    · exact hshort

/-- The words after the checksum field. -/
theorem words_drop_two (block : Bytes) :
    (words block).drop 2 = (List.range' 2 (wordCount block - 2)).map (wordAt block) := by
  rw [words_eq_map_wordAt, ← List.map_drop, List.range_eq_range', List.drop_range']

/-- The first sum: every word after the checksum field once. -/
def wordSum (block : Bytes) : ℕ :=
  ∑ i ∈ Finset.Ico 2 (wordCount block), wordAt block i

/-- The second sum: every word after the checksum field as often as there are words from it
on. -/
def weightedWordSum (block : Bytes) : ℕ :=
  ∑ i ∈ Finset.Ico 2 (wordCount block), (wordCount block - i) * wordAt block i

/-- The first check word. -/
def checkLo (block : Bytes) : ℕ :=
  fletcherMod - (wordSum block + weightedWordSum block) % fletcherMod

/-- The second check word. -/
def checkHi (block : Bytes) : ℕ :=
  fletcherMod - (wordSum block + checkLo block) % fletcherMod

/-- From word 2 on, the words by number are those below the count. -/
private theorem Ico_two_add (n : ℕ) : Finset.Ico 2 (2 + (n - 2)) = Finset.Ico 2 n := by
  rcases Nat.lt_or_ge n 2 with hn | hn
  · rw [Finset.Ico_eq_empty (by omega), Finset.Ico_eq_empty (by omega)]
  · rw [Nat.add_sub_cancel' hn]

/-- The two sums the loop ends with. -/
theorem fletcherFold_words (block : Bytes) :
    fletcherFold fletcherMod (0, 0) ((words block).drop 2) =
      (wordSum block % fletcherMod, weightedWordSum block % fletcherMod) := by
  have hweights : ∀ i ∈ Finset.Ico 2 (wordCount block),
      (2 + (wordCount block - 2) - i) * wordAt block i =
        (wordCount block - i) * wordAt block i := by
    intro i hi
    rw [Finset.mem_Ico] at hi
    rw [Nat.add_sub_cancel' (by omega)]
  rw [fletcherFold_eq fletcherMod_pos fletcherMod_pos, words_drop_two, sum_map_range',
    weightedSum_map_range', Ico_two_add, Finset.sum_congr rfl hweights, Nat.mul_zero, Nat.add_zero,
    Nat.zero_add, Nat.zero_add]
  rfl

theorem fletcherCheck_words (block : Bytes) :
    fletcherCheck fletcherMod (fletcherFold fletcherMod (0, 0) ((words block).drop 2)) =
      (checkLo block, checkHi block) := by
  have hlo : (wordSum block % fletcherMod + weightedWordSum block % fletcherMod) % fletcherMod =
      (wordSum block + weightedWordSum block) % fletcherMod :=
    (Nat.add_mod _ _ _).symm
  rw [fletcherFold_words, fletcherCheck, checkHi, checkLo, hlo, Nat.mod_add_mod]

/-! ### Sealing -/

/-- A block with its checksum written over its first eight bytes. -/
def sealBlock (block : Bytes) : Bytes :=
  overwrite block 0 (leBytes 8 (fletcher64Checksum block))

/-- Sealing a block is stamping the bytes after its checksum field. -/
theorem sealBlock_eq_stamp {block : Bytes} (h : 8 ≤ block.length) :
    sealBlock block = stamp (block.drop 8) := by
  have htake : (block.take 8).length = 4 * 2 := by
    rw [List.length_take]
    omega
  have hwords : (words block).drop 2 = words (block.drop 8) := by
    conv_lhs => rw [← List.take_append_drop 8 block]
    rw [words_append _ htake, List.drop_left' (length_words htake)]
  have hzero : (words (List.replicate 8 0 ++ block.drop 8)).drop 2 = words (block.drop 8) := by
    rw [words_append (k := 2) _ (by simp), List.drop_left' (length_words (by simp))]
  -- neither checksum sees what is in its own field
  have hsum : fletcher64Checksum block =
      fletcher64Checksum (List.replicate 8 0 ++ block.drop 8) := by
    rw [checksum_eq_iff, hwords, hzero]
  rw [sealBlock, overwrite, List.take_zero, List.nil_append, Nat.zero_add, length_leBytes, hsum,
    stamp]

/-- What makes `fletcher64_checksum` the Fletcher-64 code of a block. -/
structure IsFletcher64 (block : Bytes) : Prop where
  closed_form : fletcher64Checksum block = checkHi block * 2 ^ 32 + checkLo block
  checkLo_mem : 1 ≤ checkLo block ∧ checkLo block ≤ fletcherMod
  checkHi_mem : 1 ≤ checkHi block ∧ checkHi block ≤ fletcherMod
  no_overflow : Stepwise.fletcher64Checksum block = .ok (fletcher64Checksum block)
  zero_syndrome :
    fletcherFold fletcherMod (0, 0)
      ((List.range' 2 (wordCount block - 2)).map (wordAt block) ++
        [checkLo block, checkHi block]) = (0, 0)
  sealed : 8 ≤ block.length →
    fletcher64Stored (sealBlock block) = fletcher64Checksum (sealBlock block) ∧
      sealBlock (sealBlock block) = sealBlock block

/-- **The checksum is Fletcher-64.** Of every byte string the computed checksum is the pair of
check words of the closed form, the words followed by the check words sum to zero, and sealing
a block makes it valid. -/
theorem checksum_is_fletcher64 (block : Bytes) : IsFletcher64 block where
  closed_form := by
    rw [fletcher64Checksum_eq, fletcherCheck_words]
  checkLo_mem := by
    have h := fletcherCheck_mem fletcherMod_pos
      (fletcherFold fletcherMod (0, 0) ((words block).drop 2))
    rw [fletcherCheck_words] at h
    exact h.1
  checkHi_mem := by
    have h := fletcherCheck_mem fletcherMod_pos
      (fletcherFold fletcherMod (0, 0) ((words block).drop 2))
    rw [fletcherCheck_words] at h
    exact h.2
  no_overflow := Stepwise.fletcher64Checksum_eq block
  zero_syndrome := by
    obtain ⟨h₁, h₂⟩ := fletcherFold_lt fletcherMod_pos ((words block).drop 2)
    have h := fletcherFold_check h₁ h₂
    rw [fletcherCheck_words] at h
    rw [← words_drop_two, fletcherFold_append]
    exact h
  sealed hlen := by
    have hstamp := sealBlock_eq_stamp hlen
    have hlen' : 8 ≤ (stamp (block.drop 8)).length := by
      rw [length_stamp]
      omega
    have hdrop : (stamp (block.drop 8)).drop 8 = block.drop 8 := by
      rw [stamp]
      exact List.drop_left' (length_leBytes _ _)
    rw [hstamp]
    refine ⟨checksumValid_stamp _, ?_⟩
    rw [sealBlock_eq_stamp hlen', hdrop]

end ApfsCore
