import ApfsCore.Format.Object

/-!
# The container superblock

`container.rs` and the Fusion test of `fusion.rs`. `NxSuperblock.parse` gates a block on its
magic and its checksum, in this order, before it reads any geometry field; `parse_eq_ok_iff`
says exactly which blocks pass and what is read from them.
-/

namespace ApfsCore

/-- `NX_MAGIC`, "NXSB" on disk. -/
def nxMagic : ℕ := 0x4253584E

/-- `NX_INCOMPAT_FUSION`. -/
def nxIncompatFusion : ℕ := 0x100

/-- `NX_MINIMUM_BLOCK_SIZE`. -/
def nxMinimumBlockSize : ℕ := 4096

/-- `NX_MAXIMUM_BLOCK_SIZE`. -/
def nxMaximumBlockSize : ℕ := 65536

/-- `NX_MAX_FILE_SYSTEMS`. -/
def nxMaxFileSystems : ℕ := 100

/-- `XP_BLOCKS_TREE_FLAG`: the bit of a checkpoint area's length that marks it as a B-tree. -/
def xpBlocksTreeFlag : ℕ := 0x80000000

/-- The rest of a checkpoint area's length. -/
def xpBlocksMask : ℕ := 0x7fffffff

/-- A parsed container superblock. -/
structure NxSuperblock where
  xid : ℕ
  uuid : Bytes
  blockSize : ℕ
  blockCount : ℕ
  incompatibleFeatures : ℕ
  xpDescBase : ℕ
  xpDescBlocks : ℕ
  xpDataBase : ℕ
  xpDataBlocks : ℕ
  omapOid : ℕ
  spacemanOid : ℕ
  reaperOid : ℕ
  fsOids : List ℕ
  descIsTree : Bool
  dataIsTree : Bool

/-- `NxSuperblock::xp_desc_is_tree`. -/
def NxSuperblock.xpDescIsTree (nx : NxSuperblock) : Bool :=
  nx.descIsTree

/-- `fusion::is_fusion`. -/
def isFusion (nx : NxSuperblock) : Bool :=
  nx.incompatibleFeatures &&& nxIncompatFusion != 0

/-- The fields of a superblock, read once its gates have passed. -/
def NxSuperblock.ofBlock (block : Bytes) : NxSuperblock where
  xid := leU64 block 16
  uuid := arr 16 block 72
  blockSize := leU32 block 36
  blockCount := leU64 block 40
  incompatibleFeatures := leU64 block 64
  xpDescBase := leU64 block 112
  xpDescBlocks := leU32 block 104 &&& xpBlocksMask
  xpDataBase := leU64 block 120
  xpDataBlocks := leU32 block 108 &&& xpBlocksMask
  omapOid := leU64 block 160
  spacemanOid := leU64 block 152
  reaperOid := leU64 block 168
  fsOids := ((List.range (min (leU32 block 180) nxMaxFileSystems)).map
    fun i => leU64 block (184 + i * 8)).filter (· ≠ 0)
  descIsTree := leU32 block 104 &&& xpBlocksTreeFlag != 0
  dataIsTree := leU32 block 108 &&& xpBlocksTreeFlag != 0

/-- `NxSuperblock::parse`. -/
def NxSuperblock.parse (block : Bytes) : Result NxSuperblock :=
  if block.length < 36 then fail (.noValidSuperblock 1 0)
  else if leU32 block 32 ≠ nxMagic then fail (.noValidSuperblock 1 (leU32 block 32))
  else if ¬ChecksumValid block then
    fail (.checksumMismatch (leU64 block 8) (fletcher64Stored block) (fletcher64Checksum block))
  else .ok (NxSuperblock.ofBlock block)

/-- A block parses exactly when it is long enough for the magic, carries it, and its checksum
is valid. -/
theorem NxSuperblock.parse_eq_ok_iff {block : Bytes} {nx : NxSuperblock} :
    NxSuperblock.parse block = .ok nx ↔
      36 ≤ block.length ∧ leU32 block 32 = nxMagic ∧ ChecksumValid block ∧
        nx = NxSuperblock.ofBlock block := by
  rw [NxSuperblock.parse]
  split_ifs with hlen hmagic hsum
  · exact iff_of_false (fail_ne_ok _ _) fun h => absurd h.1 (by omega)
  · exact iff_of_false (fail_ne_ok _ _) fun h => hmagic h.2.1
  · constructor
    · intro h
      cases h
      exact ⟨Nat.le_of_not_lt hlen, not_not.mp hmagic, hsum, rfl⟩
    · rintro ⟨-, -, -, rfl⟩
      rfl
  · exact iff_of_false (fail_ne_ok _ _) fun h => hsum h.2.2.1

/-- The address and the length of the descriptor area of a parsed superblock. -/
theorem NxSuperblock.area_lt {block : Bytes} {nx : NxSuperblock}
    (h : NxSuperblock.parse block = .ok nx) :
    nx.xpDescBase < 2 ^ 64 ∧ nx.xpDescBlocks < 2 ^ 64 := by
  obtain ⟨-, -, -, rfl⟩ := NxSuperblock.parse_eq_ok_iff.mp h
  have hmask : leU32 block 104 &&& xpBlocksMask ≤ xpBlocksMask := Nat.and_le_right
  exact ⟨leU64_lt _ _, hmask.trans_lt (by decide)⟩

/-- The geometry of a superblock lies in its first 4096 bytes: truncating a block there does
not change what is read. -/
theorem NxSuperblock.ofBlock_take {block : Bytes} {n : ℕ} (hn : 1000 ≤ n) :
    NxSuperblock.ofBlock (block.take n) = NxSuperblock.ofBlock block := by
  have hread : ∀ w offset, offset + w ≤ 1000 →
      readLE w (block.take n) offset = readLE w block offset :=
    fun w offset h => readLE_take (h.trans hn)
  have hoids : ∀ i ∈ List.range (min (leU32 block 180) nxMaxFileSystems),
      leU64 (block.take n) (184 + i * 8) = leU64 block (184 + i * 8) := by
    intro i hi
    rw [List.mem_range, nxMaxFileSystems] at hi
    exact hread 8 _ (by omega)
  have huuid : arr 16 (block.take n) 72 = arr 16 block 72 := by
    unfold arr
    rw [slice_take (by omega)]
  unfold NxSuperblock.ofBlock
  rw [huuid]
  simp only [leU32, leU64] at hoids ⊢
  simp only [hread _ _ (show 16 + 8 ≤ 1000 by omega), hread _ _ (show 36 + 4 ≤ 1000 by omega),
    hread _ _ (show 40 + 8 ≤ 1000 by omega), hread _ _ (show 64 + 8 ≤ 1000 by omega),
    hread _ _ (show 112 + 8 ≤ 1000 by omega), hread _ _ (show 104 + 4 ≤ 1000 by omega),
    hread _ _ (show 120 + 8 ≤ 1000 by omega), hread _ _ (show 108 + 4 ≤ 1000 by omega),
    hread _ _ (show 160 + 8 ≤ 1000 by omega), hread _ _ (show 152 + 8 ≤ 1000 by omega),
    hread _ _ (show 168 + 8 ≤ 1000 by omega), hread _ _ (show 180 + 4 ≤ 1000 by omega),
    List.map_congr_left hoids]

end ApfsCore
