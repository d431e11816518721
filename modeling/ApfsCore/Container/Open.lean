import ApfsCore.Container.Checkpoint
import ApfsCore.Tree.Omap
import Mathlib.Order.Bounds.Basic

/-!
# Opening a container

`lib.rs`. `ApfsContainer.open` reads block zero before the block size is known, so it reads
the smallest block, 4096 bytes, and parses that much; it then resolves the live superblock
from the checkpoint ring and parses it again, now at the container's own block size.

Two results. The two gates together, the ring scan and the final parse, select the live
superblock. And as to the first step: block zero is sealed over its whole block, but its
checksum is verified over the first 4096 bytes, so a container with larger blocks opens exactly
when the rest of block zero does not contribute to the checksum (`NeutralTail`).
-/

namespace ApfsCore

/-- An open container. -/
structure ApfsContainer where
  superblock : NxSuperblock
  liveSuperblockPaddr : ℕ
  checkpointMappings : List CheckpointMapping

/-- `ApfsContainer::open`, in a build with overflow checks. -/
def ApfsContainer.open (img : Image) : Result ApfsContainer :=
  match img.readExact 0 nxMinimumBlockSize with
  | .error _ => fail (.noValidSuperblock 0 0)
  | .ok block0 => do
    let bootstrap ← NxSuperblock.parse block0
    if isFusion bootstrap then fail .unsupportedFusion
    else do
      let live ← resolveLiveCheckpoint img bootstrap
      let buf ← img.readExact (saturatingMul live.superblockPaddr bootstrap.blockSize)
        bootstrap.blockSize
      let superblock ← NxSuperblock.parse buf
      .ok
        { superblock
          liveSuperblockPaddr := live.superblockPaddr
          checkpointMappings := live.mappings }

/-- `ApfsContainer::resolve_ephemeral`. -/
def ApfsContainer.resolveEphemeral (c : ApfsContainer) (oid : ℕ) : Option ℕ :=
  (c.checkpointMappings.find? fun m => m.oid == oid).map CheckpointMapping.paddr

/-- `ApfsContainer::spaceman_paddr`. -/
def ApfsContainer.spacemanPaddr (c : ApfsContainer) : Option ℕ :=
  c.resolveEphemeral c.superblock.spacemanOid

/-- `ApfsContainer::reaper_paddr`. -/
def ApfsContainer.reaperPaddr (c : ApfsContainer) : Option ℕ :=
  c.resolveEphemeral c.superblock.reaperOid

/-- `ApfsContainer::volume_superblock_addrs`. -/
def ApfsContainer.volumeSuperblockAddrs (c : ApfsContainer) (img : Image) : Result (List ℕ) :=
  let blockSize := c.superblock.blockSize
  if ¬(nxMinimumBlockSize ≤ blockSize ∧ blockSize ≤ nxMaximumBlockSize) then
    fail (.fieldOutOfRange "nx_superblock" "nx_block_size" blockSize nxMaximumBlockSize)
  else do
    let omap ← readObjectMap img c.superblock.omapOid blockSize
    c.superblock.fsOids.mapM fun fsOid => do
      let entry ← omap.resolve img fsOid c.superblock.xid blockSize
      .ok entry.paddr

/-! ### The bootstrap step -/

/-- Once block zero is parsed and is not a Fusion superblock, opening succeeds whenever the
resolution does: the block chosen in the ring passes the parser's gates as well. -/
theorem ApfsContainer.open_of_resolve {img : Image} {block0 : Bytes} {nx : NxSuperblock}
    {live : LiveCheckpoint} (hread : img.readExact 0 nxMinimumBlockSize = .ok block0)
    (hparse : NxSuperblock.parse block0 = .ok nx) (hfusion : isFusion nx = false)
    (hbs : 36 ≤ nx.blockSize) (hlive : resolveLiveCheckpoint img nx = .ok live)
    (hvalid : SuperblockAt img nx.blockSize live.superblockPaddr live.xid) :
    ∃ c, ApfsContainer.open img = .ok c ∧ c.superblock.xid = live.xid ∧
      c.liveSuperblockPaddr = live.superblockPaddr := by
  -- the ring scan has tested all that the parser tests
  obtain ⟨buf, hbuf, -, hmagic, hsum, hxid⟩ := hvalid
  have hlen := Image.length_of_block hbuf
  have hreread : img.readExact (saturatingMul live.superblockPaddr nx.blockSize) nx.blockSize =
      .ok buf := by
    rw [Image.readExact_saturatingMul img (by omega), hbuf]
  have hreparse : NxSuperblock.parse buf = .ok (NxSuperblock.ofBlock buf) :=
    NxSuperblock.parse_eq_ok_iff.mpr ⟨by omega, hmagic, hsum, rfl⟩
  refine ⟨⟨NxSuperblock.ofBlock buf, live.superblockPaddr, live.mappings⟩, ?_, hxid, rfl⟩
  simp only [ApfsContainer.open, hread, hparse, ok_bind, hfusion, hlive, hreread, hreparse,
    Bool.false_eq_true, if_false]

/-- A resolution that succeeds ran over a ring that fits the address space. -/
theorem Resolvable.of_resolve_eq_ok {img : Image} {nx : NxSuperblock} {live : LiveCheckpoint}
    (h : resolveLiveCheckpoint img nx = .ok live) : Resolvable nx := by
  rw [resolveLiveCheckpoint] at h
  split_ifs at h with htree hadm
  · cases h
  · obtain ⟨st, hscan, hst⟩ := bind_eq_ok.mp h
    refine ⟨by simpa using htree, hadm, ?_⟩
    cases hn : nx.xpDescBlocks with
    | zero =>
      -- an empty ring has no best slot
      rw [hn] at hscan
      cases hscan
      cases hst
    | succ n =>
      -- the address of the last slot was computed without overflow
      rw [hn, scanRing, List.range_succ, List.foldlM_append] at hscan
      obtain ⟨st', -, hlast⟩ := bind_eq_ok.mp hscan
      rw [List.foldlM_cons] at hlast
      obtain ⟨st'', hlast, -⟩ := bind_eq_ok.mp hlast
      obtain ⟨paddr, hadd, -⟩ := bind_eq_ok.mp hlast
      rw [addU64] at hadd
      split_ifs at hadd with hfit
      omega
  · cases h

/-- A successful resolution returns the live superblock of the ring. -/
theorem Resolvable.isLive {img : Image} {nx : NxSuperblock} (h : Resolvable nx)
    {live : LiveCheckpoint} (hok : resolveLiveCheckpoint img nx = .ok live) :
    IsLive img nx.blockSize nx.xpDescBase nx.xpDescBlocks live.xid live.superblockPaddr := by
  rcases h.resolve_cases img with ⟨live', hok', hl⟩ | ⟨-, checked, magic, hfail⟩
  · rw [hok, Except.ok.injEq] at hok'
    rwa [hok']
  · rw [hok] at hfail
    cases hfail

/-! ### Sealed containers -/

/-- A container with blocks of an admitted size, sealed block by block: block zero `b0` is a
superblock that names the block size, with a contiguous descriptor area inside the image, and
that area holds a valid superblock. -/
structure SealedContainer (blockSize : ℕ) (img : Image) (b0 : Bytes) : Prop where
  admitted : nxMinimumBlockSize ≤ blockSize ∧ blockSize ≤ nxMaximumBlockSize
  aligned : 4 ∣ blockSize
  whole : blockSize ∣ img.bytes.length
  blockZero : img.block blockSize 0 = some b0
  magic : leU32 b0 32 = nxMagic
  size : (NxSuperblock.ofBlock b0).blockSize = blockSize
  noFusion : isFusion (NxSuperblock.ofBlock b0) = false
  contiguous : (NxSuperblock.ofBlock b0).xpDescIsTree = false
  inside : ((NxSuperblock.ofBlock b0).xpDescBase + (NxSuperblock.ofBlock b0).xpDescBlocks) *
    blockSize ≤ img.bytes.length
  checksum : ChecksumValid b0
  ring : ∃ p x, (NxSuperblock.ofBlock b0).xpDescBase ≤ p ∧
    p < (NxSuperblock.ofBlock b0).xpDescBase + (NxSuperblock.ofBlock b0).xpDescBlocks ∧
    SuperblockAt img blockSize p x

section Sealed

variable {blockSize : ℕ} {img : Image} {b0 : Bytes}

/-- The parsed block zero can be resolved. -/
private theorem SealedContainer.resolvable (h : SealedContainer blockSize img b0) :
    Resolvable (NxSuperblock.ofBlock b0) := by
  have hadm := h.admitted
  have hinside := h.inside
  have hlen := img.length_lt
  refine ⟨h.contiguous, h.size.symm ▸ hadm, ?_⟩
  have hpos : 1 ≤ blockSize := le_trans (by decide) hadm.1
  have := Nat.le_mul_of_pos_right
    ((NxSuperblock.ofBlock b0).xpDescBase + (NxSuperblock.ofBlock b0).xpDescBlocks) hpos
  omega

/-! A container with one superblock, stored both as block zero and as the only slot of the
ring, at any admitted block size. -/

/-- The fields of the superblock after its checksum: transaction 7, a ring of one slot at
block 1, and no other feature. -/
private def soleFields (blockSize : ℕ) : Bytes :=
  leBytes 8 1 ++ leBytes 8 7 ++ leBytes 4 0x80000001 ++ leBytes 4 0 ++ leBytes 4 nxMagic ++
    leBytes 4 blockSize ++ leBytes 8 2 ++ List.replicate 56 0 ++ leBytes 4 1 ++ leBytes 4 0 ++
    leBytes 8 1

/-- The superblock, zero after its fields. -/
def soleSuperblock (blockSize : ℕ) : Bytes :=
  stamp (soleFields blockSize ++ List.replicate (blockSize - 120) 0)

private theorem length_soleFields (blockSize : ℕ) : (soleFields blockSize).length = 112 := by
  simp [soleFields]

private theorem length_soleSuperblock (hbs : 120 ≤ blockSize) :
    (soleSuperblock blockSize).length = blockSize := by
  rw [soleSuperblock, length_stamp, List.length_append, length_soleFields, List.length_replicate]
  omega

/-- The two-block image. -/
def soleContainer (blockSize : ℕ) (hbs : 120 ≤ blockSize ∧ blockSize ≤ nxMaximumBlockSize) :
    Image where
  bytes := soleSuperblock blockSize ++ soleSuperblock blockSize
  length_lt := by
    have h := hbs.2
    rw [List.length_append, length_soleSuperblock hbs.1]
    rw [nxMaximumBlockSize] at h
    omega

private theorem readLE_soleSuperblock {w offset : ℕ} (h : offset + w ≤ 112) :
    readLE w (soleSuperblock blockSize) (8 + offset) = readLE w (soleFields blockSize) offset := by
  rw [soleSuperblock, readLE_stamp, readLE_append_left (by rwa [length_soleFields])]

/-- Both blocks of the container are the superblock. -/
private theorem block_soleContainer (hbs : 120 ≤ blockSize ∧ blockSize ≤ nxMaximumBlockSize)
    {p : ℕ} (hp : p < 2) :
    (soleContainer blockSize hbs).block blockSize p = some (soleSuperblock blockSize) := by
  have hlen := length_soleSuperblock hbs.1
  obtain rfl | rfl : p = 0 ∨ p = 1 := by omega
  · refine Image.block_of_append (List.nil_append _).symm ?_ hlen
    rw [List.length_nil, Nat.zero_mul]
  · have hbytes : (soleContainer blockSize hbs).bytes =
        soleSuperblock blockSize ++ (soleSuperblock blockSize ++ []) := by
      rw [List.append_nil]
      rfl
    refine Image.block_of_append hbytes ?_ hlen
    rw [hlen, Nat.one_mul]

/-- The container is sealed at every admitted block size whose fields read back. -/
private theorem soleContainer_sealed (hbs : 120 ≤ blockSize ∧ blockSize ≤ nxMaximumBlockSize)
    (hadm : nxMinimumBlockSize ≤ blockSize) (haligned : 4 ∣ blockSize)
    (hsize : leU32 (soleFields blockSize) 28 = blockSize)
    (hrest : leU64 (soleFields blockSize) 8 = 7 ∧
      leU32 (soleFields blockSize) 16 &&& 0xffff = objectTypeNxSuperblock ∧
      leU32 (soleFields blockSize) 24 = nxMagic ∧ leU64 (soleFields blockSize) 56 = 0 ∧
      leU32 (soleFields blockSize) 96 = 1 ∧ leU64 (soleFields blockSize) 104 = 1) :
    SealedContainer blockSize (soleContainer blockSize hbs) (soleSuperblock blockSize) := by
  have hread : ∀ w offset, offset + w ≤ 112 → readLE w (soleSuperblock blockSize) (8 + offset) =
      readLE w (soleFields blockSize) offset := fun w offset h => readLE_soleSuperblock h
  obtain ⟨hxid, htype, hmagic, hfeat, hdesc, hbase⟩ := hrest
  have hblocks : (NxSuperblock.ofBlock (soleSuperblock blockSize)).xpDescBlocks = 1 := by
    have h : leU32 (soleSuperblock blockSize) 104 = 1 := (hread 4 96 (by omega)).trans hdesc
    rw [NxSuperblock.ofBlock, h]
    rfl
  have hfirst : (NxSuperblock.ofBlock (soleSuperblock blockSize)).xpDescBase = 1 := by
    have h : leU64 (soleSuperblock blockSize) 112 = 1 := (hread 8 104 (by omega)).trans hbase
    rw [NxSuperblock.ofBlock, h]
  have hsize' : (NxSuperblock.ofBlock (soleSuperblock blockSize)).blockSize = blockSize := by
    have h : leU32 (soleSuperblock blockSize) 36 = blockSize := (hread 4 28 (by omega)).trans hsize
    rw [NxSuperblock.ofBlock, h]
  have hmagic' : leU32 (soleSuperblock blockSize) 32 = nxMagic :=
    (hread 4 24 (by omega)).trans hmagic
  have hlen := length_soleSuperblock hbs.1
  have himg : (soleContainer blockSize hbs).bytes.length = blockSize * 2 := by
    rw [soleContainer, List.length_append, hlen]
    omega
  refine
    { admitted := ⟨hadm, hbs.2⟩
      aligned := haligned
      whole := ⟨2, himg⟩
      blockZero := block_soleContainer hbs (by omega)
      magic := hmagic'
      size := hsize'
      noFusion := ?_
      contiguous := ?_
      inside := ?_
      checksum := checksumValid_stamp _
      ring := ⟨1, 7, ?_, ?_, soleSuperblock blockSize, block_soleContainer hbs (by omega), ?_,
        hmagic', checksumValid_stamp _, (hread 8 8 (by omega)).trans hxid⟩ }
  · have h : leU64 (soleSuperblock blockSize) 64 = 0 := (hread 8 56 (by omega)).trans hfeat
    have hnone : (NxSuperblock.ofBlock (soleSuperblock blockSize)).incompatibleFeatures = 0 := by
      rw [NxSuperblock.ofBlock, h]
    rw [isFusion, hnone]
    decide
  · have h : leU32 (soleSuperblock blockSize) 104 = 1 := (hread 4 96 (by omega)).trans hdesc
    rw [NxSuperblock.xpDescIsTree, NxSuperblock.ofBlock, h]
    rfl
  · rw [hfirst, hblocks, himg]
    omega
  · rw [hfirst]
  · rw [hfirst, hblocks]
    omega
  · rw [show leU32 (soleSuperblock blockSize) 24 = _ from hread 4 16 (by omega)]
    exact htype

end Sealed

/-! ### Which superblock is live -/

/-- **Live-superblock selection.** The resolution succeeds exactly when the ring holds a valid
superblock; it then returns the lowest-addressed one among those of largest transaction id,
and otherwise reports that there is none. Inside `open`, a successful resolution is followed
by a successful parse of the chosen block, with the selected transaction id. -/
theorem live_superblock_selection (img : Image) (nx : NxSuperblock) (h : Resolvable nx) :
    ((∃ live, resolveLiveCheckpoint img nx = .ok live) ↔
      ∃ p x, nx.xpDescBase ≤ p ∧ p < nx.xpDescBase + nx.xpDescBlocks ∧
        SuperblockAt img nx.blockSize p x) ∧
    (∀ live, resolveLiveCheckpoint img nx = .ok live →
      IsLive img nx.blockSize nx.xpDescBase nx.xpDescBlocks live.xid live.superblockPaddr) ∧
    ((¬∃ p x, nx.xpDescBase ≤ p ∧ p < nx.xpDescBase + nx.xpDescBlocks ∧
        SuperblockAt img nx.blockSize p x) →
      ∃ checked lastMagic,
        resolveLiveCheckpoint img nx = fail (.noValidSuperblock checked lastMagic)) ∧
    ∀ block0 bootstrap live, img.readExact 0 nxMinimumBlockSize = .ok block0 →
      NxSuperblock.parse block0 = .ok bootstrap → isFusion bootstrap = false →
      resolveLiveCheckpoint img bootstrap = .ok live →
      ∃ c, ApfsContainer.open img = .ok c ∧ c.superblock.xid = live.xid ∧
        c.liveSuperblockPaddr = live.superblockPaddr := by
  refine ⟨⟨?_, ?_⟩, fun live hok => h.isLive hok, ?_, ?_⟩
  · rintro ⟨live, hok⟩
    have hl := h.isLive hok
    exact ⟨live.superblockPaddr, live.xid, hl.inRing.1, hl.inRing.2, hl.valid⟩
  · rintro ⟨p, x, hb, hp, hv⟩
    rcases h.resolve_cases img with ⟨live, hok, -⟩ | ⟨hno, -⟩
    · exact ⟨live, hok⟩
    · exact absurd hv (hno p x hb hp)
  · intro hno
    rcases h.resolve_cases img with ⟨live, -, hl⟩ | ⟨-, hfail⟩
    · exact absurd ⟨_, _, hl.inRing.1, hl.inRing.2, hl.valid⟩ hno
    · exact hfail
  · intro block0 bootstrap live hread hparse hfusion hok
    have hres := Resolvable.of_resolve_eq_ok hok
    have hbs : 36 ≤ bootstrap.blockSize := le_trans (by decide) hres.admitted.1
    exact ApfsContainer.open_of_resolve hread hparse hfusion hbs hok (hres.isLive hok).valid

/-! A ring of four slots behind block zero: a superblock of an earlier transaction, the live one, a
copy of it, and a later one that was torn. -/

/-- A superblock at the given transaction, behind its checksum field. -/
def slotBody (xid : ℕ) : Bytes :=
  leBytes 8 1 ++ leBytes 8 xid ++ leBytes 4 0x80000001 ++ leBytes 4 0 ++ leBytes 4 nxMagic ++
    leBytes 4 4096 ++ leBytes 8 5 ++ List.replicate 56 0 ++ leBytes 4 4 ++ leBytes 4 0 ++
    leBytes 8 1 ++ List.replicate 3976 0

/-- A torn slot: its checksum is not that of its bytes. -/
def tornSlot (xid : ℕ) : Bytes :=
  leBytes 8 ((fletcher64Checksum (List.replicate 8 0 ++ slotBody xid) + 1) % 2 ^ 64) ++ slotBody xid

theorem not_checksumValid_tornSlot (xid : ℕ) : ¬ChecksumValid (tornSlot xid) := by
  rw [tornSlot, checksumValid_append_iff (Nat.mod_lt _ (by positivity))]
  have hlt := fletcher64Checksum_lt (List.replicate 8 0 ++ slotBody xid)
  omega

theorem length_slots (xid : ℕ) :
    (stamp (slotBody xid)).length = 4096 ∧ (tornSlot xid).length = 4096 := by
  simp only [tornSlot, slotBody, length_stamp, List.length_append, length_leBytes,
    List.length_replicate, and_self]

theorem slot_fields : ∀ xid ∈ [5, 7],
    leU32 (stamp (slotBody xid)) 24 &&& 0xffff = objectTypeNxSuperblock ∧
      leU32 (stamp (slotBody xid)) 32 = nxMagic ∧ leU64 (stamp (slotBody xid)) 16 = xid := by
  decide +kernel

/-- A slot with the superblock of transaction 5 or 7 is a candidate of the ring. -/
theorem superblockAt_of_slot {img : Image} {p xid : ℕ} (hxid : xid ∈ [5, 7])
    (h : img.block 4096 p = some (stamp (slotBody xid))) : SuperblockAt img 4096 p xid := by
  obtain ⟨htype, hmagic, hread⟩ := slot_fields xid hxid
  exact ⟨_, h, htype, hmagic, checksumValid_stamp _, hread⟩

/-- A torn slot is none. -/
theorem not_superblockAt_of_tornSlot {img : Image} {p n : ℕ}
    (h : img.block 4096 p = some (tornSlot n)) (xid : ℕ) : ¬SuperblockAt img 4096 p xid := by
  rintro ⟨buf, hbuf, -, -, hsum, -⟩
  rw [h, Option.some.injEq] at hbuf
  exact not_checksumValid_tornSlot n (hbuf ▸ hsum)

/-- The superblocks name the ring. -/
theorem slot_geometry :
    (NxSuperblock.ofBlock (stamp (slotBody 5))).xpDescIsTree = false ∧
      (NxSuperblock.ofBlock (stamp (slotBody 5))).blockSize = 4096 ∧
      (NxSuperblock.ofBlock (stamp (slotBody 5))).xpDescBase = 1 ∧
      (NxSuperblock.ofBlock (stamp (slotBody 5))).xpDescBlocks = 4 := by
  decide +kernel

theorem slot_resolvable : Resolvable (NxSuperblock.ofBlock (stamp (slotBody 5))) := by
  obtain ⟨htree, hsize, hbase, hblocks⟩ := slot_geometry
  refine ⟨htree, ?_, ?_⟩
  · rw [hsize]
    decide
  · rw [hbase, hblocks]
    norm_num

private def tornBlocks : List Bytes :=
  [stamp (slotBody 5), stamp (slotBody 5), stamp (slotBody 7), stamp (slotBody 7), tornSlot 9]

private theorem length_tornBlocks : ∀ b ∈ tornBlocks, b.length = 4096 := by
  simp only [tornBlocks, List.forall_mem_cons, length_slots, List.not_mem_nil, false_imp_iff,
    implies_true, and_self]

private theorem length_flatten_tornBlocks : tornBlocks.flatten.length = 20480 :=
  length_flatten_blocks length_tornBlocks

/-- The image. -/
def tornRing : Image where
  bytes := tornBlocks.flatten
  length_lt := by
    rw [length_flatten_tornBlocks]
    norm_num

private theorem tornRing_block {p : ℕ} {block : Bytes} (h : tornBlocks[p]? = some block) :
    tornRing.block 4096 p = some block :=
  Image.block_of_flatten rfl length_tornBlocks h

/-- The live superblock is the second slot: neither the earlier one nor the torn one, nor the copy
behind it. -/
theorem torn_ring_live :
    ∃ live, resolveLiveCheckpoint tornRing (NxSuperblock.ofBlock (stamp (slotBody 5))) = .ok live ∧
      live.xid = 7 ∧ live.superblockPaddr = 2 := by
  obtain ⟨-, hsize, hbase, hblocks⟩ := slot_geometry
  obtain ⟨hiff, hlive, -, -⟩ := live_superblock_selection tornRing
    (NxSuperblock.ofBlock (stamp (slotBody 5))) slot_resolvable
  rw [hsize, hbase, hblocks] at hiff hlive
  have hold : SuperblockAt tornRing 4096 1 5 :=
    superblockAt_of_slot (by decide) (tornRing_block rfl)
  have hnew : SuperblockAt tornRing 4096 2 7 :=
    superblockAt_of_slot (by decide) (tornRing_block rfl)
  have hcopy : SuperblockAt tornRing 4096 3 7 :=
    superblockAt_of_slot (by decide) (tornRing_block rfl)
  obtain ⟨live, hok⟩ := hiff.mpr ⟨2, 7, by decide, by decide, hnew⟩
  obtain ⟨⟨hlow, hhigh⟩, hvalid, hnewest, hlowest⟩ := hlive live hok
  have hge := hnewest 2 7 (by decide) (by decide) hnew
  have hslots : live.superblockPaddr = 1 ∨ live.superblockPaddr = 2 ∨ live.superblockPaddr = 3 ∨
      live.superblockPaddr = 4 := by
    omega
  refine ⟨live, hok, ?_⟩
  rcases hslots with hp | hp | hp | hp <;> rw [hp] at hvalid hlowest
  · -- the earlier transaction
    have hxid := hvalid.unique hold
    omega
  · exact ⟨hvalid.unique hnew, hp⟩
  · -- the copy is not the lowest
    have hxid := hvalid.unique hcopy
    rw [hxid] at hlowest
    exact absurd (hlowest 2 (by decide) (by decide) hnew) (by decide)
  · exact absurd hvalid (not_superblockAt_of_tornSlot (tornRing_block rfl) _)

/-! ### Which containers open -/

/-- The container opens, and its superblock has the largest transaction id among the valid
superblocks of the descriptor area that `b0` names. -/
def OpensLive (blockSize : ℕ) (img : Image) (b0 : Bytes) : Prop :=
  ∃ c, ApfsContainer.open img = .ok c ∧
    IsGreatest {x | ∃ p, (NxSuperblock.ofBlock b0).xpDescBase ≤ p ∧
      p < (NxSuperblock.ofBlock b0).xpDescBase + (NxSuperblock.ofBlock b0).xpDescBlocks ∧
      SuperblockAt img blockSize p x} c.superblock.xid

section Sealed

variable {blockSize : ℕ} {img : Image} {b0 : Bytes}

theorem SealedContainer.length_blockZero (h : SealedContainer blockSize img b0) :
    nxMinimumBlockSize ≤ b0.length := by
  rw [Image.length_of_block h.blockZero]
  exact h.admitted.1

/-- What `open` reads of block zero is its first 4096 bytes. -/
private theorem SealedContainer.read_blockZero (h : SealedContainer blockSize img b0) :
    img.readExact 0 nxMinimumBlockSize = .ok (b0.take nxMinimumBlockSize) := by
  have hadm := h.admitted
  obtain ⟨-, hle, hb0⟩ := slice_eq_some_iff.mp h.blockZero
  rw [Image.readExact_eq_ok (by decide), slice_eq_some_iff]
  refine ⟨Nat.zero_le _, by omega, ?_⟩
  rw [← hb0, List.take_take, Nat.zero_mul, Nat.zero_add, Nat.zero_add, Nat.sub_zero, Nat.sub_zero,
    Nat.min_eq_left hadm.1]

/-- Block zero parses exactly when its first 4096 bytes have the checksum of the whole. -/
private theorem SealedContainer.parse_blockZero (h : SealedContainer blockSize img b0) :
    ChecksumValid (b0.take nxMinimumBlockSize) ↔ NeutralTail b0 1024 := by
  have hlen := h.length_blockZero
  -- the stored checksum lies in the part that is read, and seals the whole block
  have hstored : fletcher64Stored (b0.take nxMinimumBlockSize) = fletcher64Checksum b0 := by
    rw [← h.checksum]
    exact readLE_take (by decide)
  have hwords : nxMinimumBlockSize = 4 * 1024 := rfl
  rw [ChecksumValid, hstored, eq_comm, hwords]
  exact checksum_take_eq_iff (by omega) (hwords ▸ hlen)

/-- **A sealed container opens exactly when the bytes of block zero past 4096 are neutral.**
In particular it always does when its blocks have 4096 bytes, and it does not when, say, the
rest of block zero is zero and the words before it do not sum to zero. -/
theorem opens_iff_neutralTail (h : SealedContainer blockSize img b0) :
    OpensLive blockSize img b0 ↔ NeutralTail b0 1024 := by
  have hlen := h.length_blockZero
  have hread := h.read_blockZero
  have hmagic : leU32 (b0.take nxMinimumBlockSize) 32 = nxMagic := by
    rw [← h.magic]
    exact readLE_take (by decide)
  have htake : (b0.take nxMinimumBlockSize).length = nxMinimumBlockSize := by
    rw [List.length_take]
    omega
  have hgeom : NxSuperblock.ofBlock (b0.take nxMinimumBlockSize) = NxSuperblock.ofBlock b0 :=
    NxSuperblock.ofBlock_take (by decide)
  rw [← h.parse_blockZero]
  constructor
  · rintro ⟨c, hopen, -⟩
    rw [ApfsContainer.open, hread] at hopen
    obtain ⟨nx, hparse, -⟩ := bind_eq_ok.mp hopen
    exact (NxSuperblock.parse_eq_ok_iff.mp hparse).2.2.1
  · intro hsum
    have hparse : NxSuperblock.parse (b0.take nxMinimumBlockSize) =
        .ok (NxSuperblock.ofBlock b0) := by
      rw [← hgeom]
      exact NxSuperblock.parse_eq_ok_iff.mpr ⟨by rw [htake]; decide, hmagic, hsum, rfl⟩
    -- the ring holds a valid superblock, so the resolution finds the live one
    rcases h.resolvable.resolve_cases img with ⟨live, hok, hl⟩ | ⟨hno, -⟩
    · rw [h.size] at hl
      obtain ⟨c, hopen, hxid, -⟩ := ApfsContainer.open_of_resolve hread hparse h.noFusion
        (h.size.symm ▸ le_trans (by decide) h.admitted.1) hok (h.size.symm ▸ hl.valid)
      refine ⟨c, hopen, ?_⟩
      rw [hxid]
      refine ⟨⟨live.superblockPaddr, hl.inRing.1, hl.inRing.2, hl.valid⟩, ?_⟩
      rintro x ⟨p, hb, hp, hv⟩
      exact hl.newest p x hb hp hv
    · obtain ⟨p, x, hb, hp, hv⟩ := h.ring
      rw [h.size] at hno
      exact absurd hv (hno p x hb hp)

/-- With 4096-byte blocks the container opens. -/
theorem sole_container_opens :
    SealedContainer 4096 (soleContainer 4096 (by decide)) (soleSuperblock 4096) ∧
      OpensLive 4096 (soleContainer 4096 (by decide)) (soleSuperblock 4096) := by
  have h : SealedContainer 4096 (soleContainer 4096 (by decide)) (soleSuperblock 4096) :=
    soleContainer_sealed _ (by decide) (by decide) (by decide) (by decide)
  refine ⟨h, (opens_iff_neutralTail h).mpr ?_⟩
  have hdrop : (soleSuperblock 4096).drop (4 * 1024) = [] :=
    List.drop_eq_nil_of_le (length_soleSuperblock (by omega)).le
  rw [NeutralTail, hdrop]
  simp [words, weightedSum]

/-- Past byte 4096 the superblock is zero, and such a tail of `m` words is neutral exactly when
`m` times the sum of the fields vanishes. -/
private theorem neutralTail_soleSuperblock_iff {m : ℕ} (hbs : blockSize = 120 + 4 * (994 + m)) :
    NeutralTail (soleSuperblock blockSize) 1024 ↔
      fletcherMod ∣ m * (words (soleFields blockSize)).sum := by
  obtain ⟨front, hfront, hwords, hblock⟩ : ∃ front : Bytes, front.length = 4 * 30 ∧
      (words front).drop 2 = words (soleFields blockSize) ∧
      soleSuperblock blockSize = front ++ List.replicate (4 * (994 + m)) 0 := by
    have hpad : blockSize - 120 = 4 * (994 + m) := by omega
    refine ⟨leBytes 8 (fletcher64Checksum (List.replicate 8 0 ++
      (soleFields blockSize ++ List.replicate (4 * (994 + m)) 0))) ++ soleFields blockSize, ?_,
      ?_, ?_⟩
    · rw [List.length_append, length_leBytes, length_soleFields]
    · rw [words_append (k := 2) _ (length_leBytes _ _)]
      exact List.drop_left' (length_words (k := 2) (length_leBytes _ _))
    · rw [soleSuperblock, hpad, stamp, List.append_assoc]
  have htake : (soleSuperblock blockSize).take (4 * 1024) =
      front ++ List.replicate (4 * 994) 0 := by
    have hpad : min (4 * 1024 - 4 * 30) (4 * (994 + m)) = 4 * 994 := by omega
    rw [hblock, List.take_append, hfront, List.take_replicate, hpad,
      List.take_of_length_le (by omega)]
  have hdrop : (soleSuperblock blockSize).drop (4 * 1024) = List.replicate (4 * m) 0 := by
    have hpad : 4 * (994 + m) - (4 * 1024 - 4 * 30) = 4 * m := by omega
    rw [hblock, List.drop_append, hfront, List.drop_replicate, hpad,
      List.drop_eq_nil_of_le (by omega), List.nil_append]
  have hhead : (words ((soleSuperblock blockSize).take (4 * 1024))).drop 2 =
      words (soleFields blockSize) ++ List.replicate 994 0 := by
    rw [htake, words_append _ hfront, words_replicate_zero, List.drop_append_of_le_length, hwords]
    rw [length_words hfront]
    omega
  have hzero : ∀ k : ℕ, (List.replicate k 0).sum = 0 := fun k => by simp
  rw [NeutralTail]
  simp only [hhead, hdrop, words_replicate_zero, weightedSum_replicate_zero, List.length_replicate,
    List.sum_append, hzero, dvd_zero, true_and, Nat.add_zero]

/-- With 8192-byte blocks the same container is refused. -/
theorem wide_container_refused :
    SealedContainer 8192 (soleContainer 8192 (by decide)) (soleSuperblock 8192) ∧
      ¬OpensLive 8192 (soleContainer 8192 (by decide)) (soleSuperblock 8192) := by
  have h : SealedContainer 8192 (soleContainer 8192 (by decide)) (soleSuperblock 8192) :=
    soleContainer_sealed _ (by decide) (by decide) (by decide) (by decide)
  refine ⟨h, ?_⟩
  rintro ⟨c, hopen, -⟩
  rw [ApfsContainer.open, h.read_blockZero] at hopen
  obtain ⟨nx, hparse, -⟩ := bind_eq_ok.mp hopen
  have hsum := (NxSuperblock.parse_eq_ok_iff.mp hparse).2.2.1
  have hdvd := (neutralTail_soleSuperblock_iff (m := 1024) rfl).mp (h.parse_blockZero.mp hsum)
  revert hdvd
  decide

end Sealed

end ApfsCore
