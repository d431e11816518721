import ApfsCore.Stepwise.Checkpoint

/-!
# The address arithmetic of the bootstrap

The descriptor area is a base address and a length, both read from a superblock that only a
checksum protects. `bootstrap_in_range_iff` says for which superblocks `resolve_live_checkpoint`
computes no address out of range and examines the blocks of the area only, in a build with overflow
checks and in one without.
-/

namespace ApfsCore

/-- The bootstrap stays in range: no sum or product it evaluates leaves its type, and every block
address it examines, in either build, is one of the descriptor area. -/
structure BootstrapInRange (img : Image) (nx : NxSuperblock) : Prop where
  noPanic : NoPanic (Stepwise.resolveLiveCheckpoint .checked img nx).outcome
  inArea : ∀ build, Traced.Logs
    (fun p => nx.xpDescBase ≤ p ∧ p < nx.xpDescBase + nx.xpDescBlocks)
    (Stepwise.resolveLiveCheckpoint build img nx)

section Bootstrap

variable {img : Image} {nx : NxSuperblock} {block : Bytes}

/-- A superblock that is refused before the loops examines nothing. -/
private theorem BootstrapInRange.of_refused (h : nx.xpDescIsTree = true ∨
    ¬(nxMinimumBlockSize ≤ nx.blockSize ∧ nx.blockSize ≤ nxMaximumBlockSize)) :
    BootstrapInRange img nx := by
  have hrefused : ∀ build, ∃ e, Stepwise.resolveLiveCheckpoint build img nx =
      Traced.lift (asRun (fail e)) := by
    intro build
    rw [Stepwise.resolveLiveCheckpoint]
    split_ifs with htree hadm
    · exact ⟨_, rfl⟩
    · exact absurd hadm (h.resolve_left htree)
    · exact ⟨_, rfl⟩
  constructor
  · obtain ⟨e, he⟩ := hrefused .checked
    rw [he]
    exact noPanic_asRun (named_fail e)
  · intro build
    obtain ⟨e, he⟩ := hrefused build
    rw [he]
    exact Traced.Logs.lift _

/-- A descriptor area that fits the address space is scanned in range. -/
private theorem BootstrapInRange.of_fits (hblocks : nx.xpDescBlocks < 2 ^ 64)
    (hfit : nx.xpDescBase + nx.xpDescBlocks ≤ 2 ^ 64) (htree : nx.xpDescIsTree = false)
    (hadm : nxMinimumBlockSize ≤ nx.blockSize ∧ nx.blockSize ≤ nxMaximumBlockSize) :
    BootstrapInRange img nx where
  noPanic := by
    rw [(Stepwise.resolveLiveCheckpoint_of_fits .checked hblocks hfit).1]
    refine noPanic_asRun ?_
    rcases Resolvable.resolve_cases ⟨htree, hadm, hfit⟩ img with
      ⟨live, hlive, -⟩ | ⟨-, checked, lastMagic, hfail⟩
    · rw [hlive]
      exact .ok live
    · rw [hfail]
      exact named_fail _
  inArea build := (Stepwise.resolveLiveCheckpoint_of_fits build hblocks hfit).2

/-- Otherwise a build with overflow checks panics. -/
private theorem not_bootstrapInRange (hbase : nx.xpDescBase < 2 ^ 64)
    (hblocks : nx.xpDescBlocks < 2 ^ 64) (htree : nx.xpDescIsTree = false)
    (hadm : nxMinimumBlockSize ≤ nx.blockSize ∧ nx.blockSize ≤ nxMaximumBlockSize)
    (hfit : 2 ^ 64 < nx.xpDescBase + nx.xpDescBlocks) : ¬BootstrapInRange img nx := fun h =>
  h.noPanic .overflow
    (Stepwise.resolveLiveCheckpoint_of_not_fits htree hadm hbase hblocks hfit).1

/-- **The bootstrap stays in range exactly when the descriptor area fits the address space**, or
the superblock is refused before the area is scanned. -/
theorem bootstrap_in_range_iff (h : NxSuperblock.parse block = .ok nx) :
    BootstrapInRange img nx ↔
      nx.xpDescIsTree = true ∨
      ¬(nxMinimumBlockSize ≤ nx.blockSize ∧ nx.blockSize ≤ nxMaximumBlockSize) ∨
      nx.xpDescBase + nx.xpDescBlocks ≤ 2 ^ 64 := by
  obtain ⟨hbase, hblocks⟩ := NxSuperblock.area_lt h
  by_cases hrefused : nx.xpDescIsTree = true ∨
      ¬(nxMinimumBlockSize ≤ nx.blockSize ∧ nx.blockSize ≤ nxMaximumBlockSize)
  · exact iff_of_true (.of_refused hrefused) (or_assoc.mp (.inl hrefused))
  · rw [not_or, not_not] at hrefused
    obtain ⟨htree, hadm⟩ := hrefused
    rw [or_iff_right htree, or_iff_right (not_not.mpr hadm)]
    rw [Bool.not_eq_true] at htree
    constructor
    · intro hrange
      by_contra hfit
      exact not_bootstrapInRange hbase hblocks htree hadm (Nat.lt_of_not_le hfit) hrange
    · exact fun hfit => .of_fits hblocks hfit htree hadm

end Bootstrap

/-! Images of one block, a superblock whose descriptor area has two blocks. -/

/-- A superblock whose descriptor area starts at the given block. -/
private def areaSuperblock (base : ℕ) : Bytes :=
  stamp (leBytes 8 1 ++ leBytes 8 7 ++ leBytes 4 0x80000001 ++ leBytes 4 0 ++ leBytes 4 nxMagic ++
    leBytes 4 4096 ++ leBytes 8 2 ++ List.replicate 56 0 ++ leBytes 4 2 ++ leBytes 4 0 ++
    leBytes 8 base ++ List.replicate 3976 0)

private theorem length_areaSuperblock (base : ℕ) : (areaSuperblock base).length = 4096 := by
  rw [areaSuperblock, length_stamp]
  simp only [List.length_append, length_leBytes, List.length_replicate]

/-- The image of that superblock. -/
def areaImage (base : ℕ) : Image :=
  ⟨areaSuperblock base, by rw [length_areaSuperblock]; norm_num⟩

/-- What `open` parses block zero of the image to. -/
def areaBootstrap (base : ℕ) : NxSuperblock :=
  NxSuperblock.ofBlock (areaImage base).bytes

/-- The area at block 1 and the area at the last block address. -/
private theorem area_fields : ∀ base ∈ [1, 2 ^ 64 - 1],
    leU32 (areaSuperblock base) 32 = nxMagic ∧ (areaBootstrap base).xpDescIsTree = false ∧
      (areaBootstrap base).blockSize = 4096 ∧ (areaBootstrap base).xpDescBase = base ∧
      (areaBootstrap base).xpDescBlocks = 2 := by
  decide +kernel

private theorem area_parses {base : ℕ} (hbase : base ∈ [1, 2 ^ 64 - 1]) :
    NxSuperblock.parse (areaImage base).bytes = .ok (areaBootstrap base) := by
  refine NxSuperblock.parse_eq_ok_iff.mpr
    ⟨?_, (area_fields base hbase).1, checksumValid_stamp _, rfl⟩
  rw [areaImage, length_areaSuperblock]
  decide

/-- An area at block 1 stays in range. -/
theorem low_area_in_range : BootstrapInRange (areaImage 1) (areaBootstrap 1) := by
  have hmem : 1 ∈ [1, 2 ^ 64 - 1] := List.mem_cons_self
  obtain ⟨-, -, -, hbase, hblocks⟩ := area_fields 1 hmem
  refine (bootstrap_in_range_iff (area_parses hmem)).mpr (.inr (.inr ?_))
  rw [hbase, hblocks]
  norm_num

/-- An area at the last block address is accepted, but does not stay in range: a build with
overflow checks panics, and one without them examines block 0. -/
theorem high_area_out_of_range :
    NxSuperblock.parse (areaImage (2 ^ 64 - 1)).bytes = .ok (areaBootstrap (2 ^ 64 - 1)) ∧
      ¬BootstrapInRange (areaImage (2 ^ 64 - 1)) (areaBootstrap (2 ^ 64 - 1)) ∧
      0 ∈ (Stepwise.resolveLiveCheckpoint .wrapping (areaImage (2 ^ 64 - 1))
        (areaBootstrap (2 ^ 64 - 1))).log := by
  have hmem : 2 ^ 64 - 1 ∈ [1, 2 ^ 64 - 1] := List.mem_cons_of_mem _ List.mem_cons_self
  obtain ⟨-, htree, hsize, hbase, hblocks⟩ := area_fields _ hmem
  have hparse := area_parses hmem
  obtain ⟨hlt, hlt'⟩ := NxSuperblock.area_lt hparse
  have hadm : nxMinimumBlockSize ≤ (areaBootstrap (2 ^ 64 - 1)).blockSize ∧
      (areaBootstrap (2 ^ 64 - 1)).blockSize ≤ nxMaximumBlockSize := by
    rw [hsize]
    decide
  have hfit : 2 ^ 64 < (areaBootstrap (2 ^ 64 - 1)).xpDescBase +
      (areaBootstrap (2 ^ 64 - 1)).xpDescBlocks := by
    rw [hbase, hblocks]
    norm_num
  exact ⟨hparse, not_bootstrapInRange hlt hlt' htree hadm hfit,
    (Stepwise.resolveLiveCheckpoint_of_not_fits htree hadm hlt hlt' hfit).2⟩

end ApfsCore
