import ApfsCore.Container.Spaceman
import ApfsCore.General.Positions
import Mathlib.Tactic.IntervalCases

/-!
# Allocation accounting

On a well-formed space manager every block of the device has its allocation bit: the chunk of
the block, the slot of the chunk, and the bit in the chunk's bitmap are found by three divisions,
and different blocks have different bits. The blocks reported allocated are therefore as many as
the set bits that stand for blocks of the device, chunk by chunk.

The bitmap of a chunk is defined here from the chunk's number, without reference to any block
(`chunkBitmapAddr`, `chunkAllocated`).
-/

namespace ApfsCore

/-! ### The bits on disk -/

/-- The bitmap address in the slot of a chunk. -/
def chunkBitmapAddr (img : Image) (blockSize : ℕ) (sm : Bytes) (chunk : ℕ) : ℕ :=
  let s := Spaceman.ofBlock sm
  match img.block blockSize (leU64 sm (s.cibSlot (chunk / s.chunksPerCib))) with
  | none => 0
  | some cib => ciBitmapAddr cib (chunk % s.chunksPerCib)

/-- A bit of a chunk is set: the chunk has a bitmap, and bit `bit % 8` of its byte `bit / 8` is
one. -/
def chunkAllocated (img : Image) (blockSize : ℕ) (sm : Bytes) (chunk bit : ℕ) : Bool :=
  chunkBitmapAddr img blockSize sm chunk != 0 &&
    (img.block blockSize (chunkBitmapAddr img blockSize sm chunk)).any fun bitmap =>
      bitmap[bit / 8]?.any fun byte => byte.toNat.testBit (bit % 8)

/-- A well-formed space manager: verified, with chunks of one bitmap block each, without the CAB
tier, with chunks and CIBs enough for the device, and with its tables inside their blocks. -/
structure SpacemanWellFormed (img : Image) (blockSize spacemanPaddr : ℕ) (sm : Bytes) :
    Prop where
  verified : BlockVerified img blockSize spacemanPaddr sm
  blocksPerChunk_eq : (Spaceman.ofBlock sm).blocksPerChunk = 8 * blockSize
  chunksPerCib_pos : 0 < (Spaceman.ofBlock sm).chunksPerCib
  noCab : (Spaceman.ofBlock sm).cabCount = 0
  chunks_enough : (Spaceman.ofBlock sm).blockCount ≤
    (Spaceman.ofBlock sm).chunkCount * (Spaceman.ofBlock sm).blocksPerChunk
  cibs_enough : (Spaceman.ofBlock sm).blockCount ≤
    (Spaceman.ofBlock sm).cibCount * (Spaceman.ofBlock sm).chunksPerCib *
      (Spaceman.ofBlock sm).blocksPerChunk
  cibSlots_le : (Spaceman.ofBlock sm).cibSlot (Spaceman.ofBlock sm).cibCount ≤ blockSize
  infoSlots : ∀ chunk,
    chunk * (Spaceman.ofBlock sm).blocksPerChunk < (Spaceman.ofBlock sm).blockCount →
    ∃ cib, BlockVerified img blockSize (leU64 sm ((Spaceman.ofBlock sm).cibSlot
        (chunk / (Spaceman.ofBlock sm).chunksPerCib))) cib ∧
      chunk % (Spaceman.ofBlock sm).chunksPerCib < leU32 cib 36 ∧
      infoSlot (chunk % (Spaceman.ofBlock sm).chunksPerCib) + 32 ≤ blockSize
  bitmaps : ∀ chunk,
    chunk * (Spaceman.ofBlock sm).blocksPerChunk < (Spaceman.ofBlock sm).blockCount →
    chunkBitmapAddr img blockSize sm chunk ≠ 0 →
    ∃ bitmap, img.block blockSize (chunkBitmapAddr img blockSize sm chunk) = some bitmap

section Accounting

variable {img : Image} {blockSize spacemanPaddr block : ℕ} {sm : Bytes}

theorem SpacemanWellFormed.blockSize_ne_zero
    (h : SpacemanWellFormed img blockSize spacemanPaddr sm) : blockSize ≠ 0 := by
  rintro rfl
  have hlen := Image.length_of_block h.verified.1
  obtain rfl := List.eq_nil_of_length_eq_zero hlen
  exact absurd h.chunksPerCib_pos (by decide)

theorem SpacemanWellFormed.blocksPerChunk_pos
    (h : SpacemanWellFormed img blockSize spacemanPaddr sm) :
    0 < (Spaceman.ofBlock sm).blocksPerChunk := by
  have hbs := h.blockSize_ne_zero
  rw [h.blocksPerChunk_eq]
  omega

/-- Every block of the device is admitted. -/
theorem SpacemanWellFormed.admits (h : SpacemanWellFormed img blockSize spacemanPaddr sm)
    (hblock : block < (Spaceman.ofBlock sm).blockCount) :
    (Spaceman.ofBlock sm).Admits block where
  blocksPerChunk_pos := h.blocksPerChunk_pos
  chunksPerCib_pos := h.chunksPerCib_pos
  inDevice := hblock
  noCab := h.noCab
  chunkIndex_lt := div_lt_of_lt_mul hblock h.chunks_enough
  cibIndex_lt := div_lt_of_lt_mul (div_lt_of_lt_mul hblock h.cibs_enough) le_rfl

/-- The chunk of a block of the device starts on the device. -/
private theorem chunk_start_lt (hblock : block < (Spaceman.ofBlock sm).blockCount) :
    (Spaceman.ofBlock sm).chunkIndex block * (Spaceman.ofBlock sm).blocksPerChunk <
      (Spaceman.ofBlock sm).blockCount :=
  lt_of_le_of_lt (Nat.div_mul_le_self block _) hblock

/-- The lookup of a block of the device reads the block's bit. -/
theorem SpacemanWellFormed.isBlockFree_eq
    (h : SpacemanWellFormed img blockSize spacemanPaddr sm)
    (hblock : block < (Spaceman.ofBlock sm).blockCount) :
    isBlockFree img spacemanPaddr block blockSize =
      .ok (!chunkAllocated img blockSize sm ((Spaceman.ofBlock sm).chunkIndex block)
        ((Spaceman.ofBlock sm).bit block)) := by
  have hstart := chunk_start_lt hblock
  obtain ⟨cib, hcib, hcount, -⟩ := h.infoSlots _ hstart
  have haddr : chunkBitmapAddr img blockSize sm ((Spaceman.ofBlock sm).chunkIndex block) =
      ciBitmapAddr cib ((Spaceman.ofBlock sm).withinCib block) := by
    simp only [chunkBitmapAddr, hcib.1]
    rfl
  rw [isBlockFree_of_holds h.blockSize_ne_zero h.verified (h.admits hblock) ⟨hcib, hcount⟩,
    chunkAllocated, haddr]
  split_ifs with hzero
  · rw [hzero, bne_self_eq_false, Bool.false_and, Bool.not_false]
  · obtain ⟨bitmap, hbitmap⟩ := h.bitmaps _ hstart (haddr ▸ hzero)
    rw [haddr] at hbitmap
    simp only [hbitmap, allocated_eq, bne_iff_ne.mpr hzero, Bool.true_and, Option.any_some]

/-- The bit of a block of the device, in the words of the format: no bitmap, or a clear bit. -/
theorem SpacemanWellFormed.chunkAllocated_eq_false_iff
    (h : SpacemanWellFormed img blockSize spacemanPaddr sm)
    (hblock : block < (Spaceman.ofBlock sm).blockCount) :
    chunkAllocated img blockSize sm ((Spaceman.ofBlock sm).chunkIndex block)
        ((Spaceman.ofBlock sm).bit block) = false ↔
      chunkBitmapAddr img blockSize sm ((Spaceman.ofBlock sm).chunkIndex block) = 0 ∨
      ∃ bitmap, img.block blockSize
          (chunkBitmapAddr img blockSize sm ((Spaceman.ofBlock sm).chunkIndex block)) =
            some bitmap ∧ BitClear bitmap ((Spaceman.ofBlock sm).bit block) := by
  rw [chunkAllocated]
  by_cases hzero : chunkBitmapAddr img blockSize sm ((Spaceman.ofBlock sm).chunkIndex block) = 0
  · exact iff_of_true (by rw [hzero, bne_self_eq_false, Bool.false_and]) (.inl hzero)
  · obtain ⟨bitmap, hbitmap⟩ := h.bitmaps _ (chunk_start_lt hblock) hzero
    have hlen := Image.length_of_block hbitmap
    -- a bitmap block has a bit for every block of its chunk
    have hbit : (Spaceman.ofBlock sm).bit block < 8 * bitmap.length := by
      rw [hlen, ← h.blocksPerChunk_eq]
      exact Nat.mod_lt block h.blocksPerChunk_pos
    simp only [hbitmap, bne_iff_ne.mpr hzero, hzero, Bool.true_and, Option.any_some, false_or,
      Option.some.injEq, exists_eq_left', ← allocated_eq, allocated_eq_false_iff,
      Nat.not_le.mpr hbit]

/-- A block past the end of the device is refused. -/
theorem SpacemanWellFormed.isBlockFree_of_le
    (h : SpacemanWellFormed img blockSize spacemanPaddr sm)
    (hblock : (Spaceman.ofBlock sm).blockCount ≤ block) :
    isBlockFree img spacemanPaddr block blockSize =
      fail (spacemanRange "block" block (Spaceman.ofBlock sm).blockCount) := by
  have hpos : ¬((Spaceman.ofBlock sm).blocksPerChunk = 0 ∨
      (Spaceman.ofBlock sm).chunksPerCib = 0) :=
    not_or.mpr ⟨Nat.ne_of_gt h.blocksPerChunk_pos, Nat.ne_of_gt h.chunksPerCib_pos⟩
  rw [isBlockFree, (readObjBlock_eq_ok_iff h.blockSize_ne_zero).mpr h.verified, ok_bind]
  simp only [Spaceman.check, if_neg hpos, ge_iff_le, if_pos hblock, fail_bind]

/-- The position of a block: its CIB, the slot in the CIB, and the bit in the bitmap. -/
def Spaceman.position (s : Spaceman) (block : ℕ) : ℕ × ℕ × ℕ :=
  (s.cibIndex block, s.withinCib block, s.bit block)

/-- A position on the device is that of one block. -/
theorem Spaceman.exists_unique_position {s : Spaceman} {chunk bit : ℕ}
    (hbit : bit < s.blocksPerChunk) (hdevice : chunk * s.blocksPerChunk + bit < s.blockCount) :
    ∃! block, block < s.blockCount ∧
      s.position block = (chunk / s.chunksPerCib, chunk % s.chunksPerCib, bit) := by
  refine ⟨chunk * s.blocksPerChunk + bit, ⟨hdevice, ?_⟩, ?_⟩
  · simp only [Spaceman.position, Spaceman.cibIndex, Spaceman.withinCib, Spaceman.chunkIndex,
      Spaceman.bit, mul_add_div_of_lt hbit, mul_add_mod_of_lt hbit]
  · rintro block ⟨-, hpos⟩
    obtain ⟨hcib, hpos⟩ := Prod.mk.inj hpos
    obtain ⟨hwithin, hplace⟩ := Prod.mk.inj hpos
    -- the chunk is determined by its CIB and its slot, and the block by its chunk and its bit
    have hchunk : s.chunkIndex block = chunk := by
      rw [eq_of_divMod hcib hwithin, ← eq_of_divMod rfl rfl]
    exact eq_of_divMod hchunk hplace

/-- The blocks reported allocated are counted by the bits that are set, chunk by chunk. -/
theorem SpacemanWellFormed.card_allocated
    (h : SpacemanWellFormed img blockSize spacemanPaddr sm) :
    ((Finset.range (Spaceman.ofBlock sm).blockCount).filter fun block =>
        isBlockFree img spacemanPaddr block blockSize = .ok false).card =
      ∑ chunk ∈ Finset.range (Spaceman.ofBlock sm).chunkCount,
        ((Finset.range (Spaceman.ofBlock sm).blocksPerChunk).filter fun bit =>
          chunk * (Spaceman.ofBlock sm).blocksPerChunk + bit < (Spaceman.ofBlock sm).blockCount ∧
            chunkAllocated img blockSize sm chunk bit).card := by
  rw [← card_filter_divMod h.blocksPerChunk_pos h.chunks_enough]
  refine congrArg Finset.card (Finset.filter_congr fun block hblock => ?_)
  rw [h.isBlockFree_eq (Finset.mem_range.mp hblock), Except.ok.injEq, Bool.not_eq_false']
  rfl

end Accounting

/-- **Allocation accounting.** On a well-formed space manager the answer for a block of the
device is that of its chunk's bitmap; each position on the device is that of one block; so the
blocks reported allocated are as many as the set bits of the bitmaps that stand for blocks of
the device. Every other block is refused. -/
theorem allocation_accounting (img : Image) (blockSize spacemanPaddr : ℕ) (sm : Bytes)
    (h : SpacemanWellFormed img blockSize spacemanPaddr sm) :
    (∀ block < (Spaceman.ofBlock sm).blockCount,
      (∃ free, isBlockFree img spacemanPaddr block blockSize = .ok free) ∧
      (isBlockFree img spacemanPaddr block blockSize = .ok true ↔
        chunkBitmapAddr img blockSize sm (block / (Spaceman.ofBlock sm).blocksPerChunk) = 0 ∨
        ∃ bitmap, img.block blockSize (chunkBitmapAddr img blockSize sm
            (block / (Spaceman.ofBlock sm).blocksPerChunk)) = some bitmap ∧
          BitClear bitmap (block % (Spaceman.ofBlock sm).blocksPerChunk))) ∧
    (∀ chunk bit, bit < (Spaceman.ofBlock sm).blocksPerChunk →
      chunk * (Spaceman.ofBlock sm).blocksPerChunk + bit < (Spaceman.ofBlock sm).blockCount →
      ∃! block, block < (Spaceman.ofBlock sm).blockCount ∧
        (Spaceman.ofBlock sm).position block = (chunk / (Spaceman.ofBlock sm).chunksPerCib,
          chunk % (Spaceman.ofBlock sm).chunksPerCib, bit)) ∧
    ((Finset.range (Spaceman.ofBlock sm).blockCount).filter fun block =>
        isBlockFree img spacemanPaddr block blockSize = .ok false).card =
      ∑ chunk ∈ Finset.range (Spaceman.ofBlock sm).chunkCount,
        ((Finset.range (Spaceman.ofBlock sm).blocksPerChunk).filter fun bit =>
          chunk * (Spaceman.ofBlock sm).blocksPerChunk + bit < (Spaceman.ofBlock sm).blockCount ∧
            chunkAllocated img blockSize sm chunk bit).card ∧
    ∀ block, (Spaceman.ofBlock sm).blockCount ≤ block →
      ∃ e, isBlockFree img spacemanPaddr block blockSize = fail e := by
  refine ⟨fun block hblock => ?_, fun chunk bit => Spaceman.exists_unique_position,
    h.card_allocated, fun block hblock => ⟨_, h.isBlockFree_of_le hblock⟩⟩
  rw [h.isBlockFree_eq hblock, Except.ok.injEq, Bool.not_eq_true']
  exact ⟨⟨_, rfl⟩, h.chunkAllocated_eq_false_iff hblock⟩

/-! A device of 1669 blocks in blocks of 104 bytes: two full chunks of 832 blocks and a partial
one of 5, whose slot is in a second CIB. -/

/-- The space manager, with the addresses of its CIBs at byte 84. -/
private def threeChunkSpaceman : Bytes :=
  stamp (List.replicate 28 0 ++ leBytes 4 832 ++ leBytes 4 2 ++ leBytes 4 0 ++ leBytes 8 1669 ++
    leBytes 8 3 ++ leBytes 4 2 ++ leBytes 4 0 ++ leBytes 8 0 ++ leBytes 4 84 ++ leBytes 8 1 ++
    leBytes 8 2 ++ leBytes 4 0)

/-- A CIB with the given bitmap addresses, of two slots at most. -/
private def chunkInfoBlock (bitmaps : List ℕ) : Bytes :=
  stamp (List.replicate 28 0 ++ leBytes 4 bitmaps.length ++
    bitmaps.flatMap (fun addr => List.replicate 24 0 ++ leBytes 8 addr) ++
    List.replicate (64 - 32 * bitmaps.length) 0)

/-- The device: the first chunk has no bitmap, the second one has two bits set, and the third
one all of them. -/
def threeChunkImage : Image where
  bytes := threeChunkSpaceman ++ chunkInfoBlock [0, 3] ++ chunkInfoBlock [4] ++
    ([0x81] ++ List.replicate 103 0) ++ List.replicate 104 255
  length_lt := by decide +kernel

private theorem threeChunk_fields :
    Spaceman.ofBlock threeChunkSpaceman = ⟨832, 2, 1669, 3, 2, 0, 84⟩ := by
  decide +kernel

/-- The first three blocks are the space manager and the CIBs. -/
private theorem threeChunk_verified :
    BlockVerified threeChunkImage 104 0 threeChunkSpaceman ∧
      BlockVerified threeChunkImage 104 1 (chunkInfoBlock [0, 3]) ∧
      BlockVerified threeChunkImage 104 2 (chunkInfoBlock [4]) := by
  simp only [BlockVerified]
  decide +kernel

private theorem threeChunk_wellFormed :
    SpacemanWellFormed threeChunkImage 104 0 threeChunkSpaceman := by
  obtain ⟨hsm, hfirst, hsecond⟩ := threeChunk_verified
  have haddr : leU64 threeChunkSpaceman 84 = 1 ∧ leU64 threeChunkSpaceman 92 = 2 := by
    decide +kernel
  -- the addresses of the chunks' bitmaps, and the bitmaps
  have hbitmaps : ∀ chunk < 3, chunkBitmapAddr threeChunkImage 104 threeChunkSpaceman chunk ≠ 0 →
      (threeChunkImage.block 104
        (chunkBitmapAddr threeChunkImage 104 threeChunkSpaceman chunk)).isSome := by
    decide +kernel
  refine ⟨hsm, ?_, ?_, ?_, ?_, ?_, ?_, ?_, ?_⟩ <;> rw [threeChunk_fields]
  · decide
  · decide
  · decide
  · decide
  · intro chunk (hchunk : chunk * 832 < 1669)
    have hlt : chunk < 3 := by omega
    interval_cases chunk
    · exact ⟨_, haddr.1 ▸ hfirst, by decide +kernel, by decide⟩
    · exact ⟨_, haddr.1 ▸ hfirst, by decide +kernel, by decide⟩
    · exact ⟨_, haddr.2 ▸ hsecond, by decide +kernel, by decide⟩
  · intro chunk (hchunk : chunk * 832 < 1669) haddr
    exact Option.isSome_iff_exists.mp (hbitmaps chunk (by omega) haddr)

/-- Two bits of the second chunk and five of the third stand for allocated blocks. -/
theorem three_chunks_accounted :
    ((Finset.range 1669).filter fun block =>
        isBlockFree threeChunkImage 0 block 104 = .ok false).card = 7 := by
  have h := (allocation_accounting threeChunkImage 104 0 threeChunkSpaceman
    threeChunk_wellFormed).2.2.1
  rw [threeChunk_fields] at h
  rw [h]
  decide +kernel

end ApfsCore
