import ApfsCore.Stepwise.Checkpoint

/-!
# The gates of `open` and the superblock it returns

`open` tests block zero, the copy of the superblock it starts from: it is not a Fusion
superblock, and its block size is an admitted one. Everything after that is addressed through
the live superblock, which is chosen from the checkpoint ring and passes the parser's gates only.

Opening never returns a superblock that the gates would have refused exactly when the live
superblock, whenever there is one, has no Fusion bit and names the block size that the ring was
read with (`open_gates_iff`). The live superblock is the one among the blocks that the slots are
looked up at, so this is said of a build with overflow checks and of one without them, which goes
on at block 0 where the ring runs past the last address.
-/

namespace ApfsCore

/-- The bootstrap superblock that `open` starts from: block zero parses to it, it is not a
Fusion superblock, and it can be resolved. -/
structure Bootstraps (img : Image) (nx : NxSuperblock) : Prop where
  parses : ∃ block0, img.readExact 0 nxMinimumBlockSize = .ok block0 ∧
    NxSuperblock.parse block0 = .ok nx
  noFusion : isFusion nx = false
  resolvable : Resolvable nx

section Open

variable {img : Image} {nx nx' : NxSuperblock} {c : ApfsContainer}

/-- There is one block zero to start from. -/
private theorem front_unique
    (h : ∃ block0, img.readExact 0 nxMinimumBlockSize = .ok block0 ∧
      NxSuperblock.parse block0 = .ok nx)
    (h' : ∃ block0, img.readExact 0 nxMinimumBlockSize = .ok block0 ∧
      NxSuperblock.parse block0 = .ok nx') : nx = nx' := by
  obtain ⟨block0, hread, hparse⟩ := h
  obtain ⟨block0', hread', hparse'⟩ := h'
  rw [hread, Except.ok.injEq] at hread'
  rw [← hread', hparse, Except.ok.injEq] at hparse'
  exact hparse'

theorem Bootstraps.unique (h : Bootstraps img nx) (h' : Bootstraps img nx') : nx = nx' :=
  front_unique h.parses h'.parses

/-- On a ring that fits the address space both builds are the plain model. -/
theorem Bootstraps.open_eq_asRun (h : Bootstraps img nx) (build : Stepwise.Build) :
    Stepwise.ApfsContainer.open build img = asRun (ApfsContainer.open img) := by
  refine Stepwise.ApfsContainer.open_eq_of_resolve fun block0 nx' hread hparse => ?_
  obtain rfl := front_unique h.parses ⟨block0, hread, hparse⟩
  exact (Stepwise.resolveLiveCheckpoint_of_fits build (NxSuperblock.area_lt hparse).2
    h.resolvable.fits).1

/-- A ring has one live superblock. -/
theorem IsLive.unique {blockSize base n xid xid' paddr paddr' : ℕ}
    (h : IsLive img blockSize base n xid paddr) (h' : IsLive img blockSize base n xid' paddr') :
    xid = xid' ∧ paddr = paddr' := by
  obtain ⟨hlo, hhi⟩ := h.inRing
  obtain ⟨hlo', hhi'⟩ := h'.inRing
  have hxid : xid = xid' :=
    (h'.newest paddr xid hlo hhi h.valid).antisymm (h.newest paddr' xid' hlo' hhi' h'.valid)
  subst hxid
  exact ⟨rfl, (h.lowest paddr' hlo' hhi' h'.valid).antisymm (h'.lowest paddr hlo hhi h.valid)⟩

/-- The live superblock is read again where the ring has it. -/
private theorem block_of_reread {paddr : ℕ} {buf : Bytes}
    (hadm : nxMinimumBlockSize ≤ nx.blockSize ∧ nx.blockSize ≤ nxMaximumBlockSize)
    (h : img.readExact (saturatingMul paddr nx.blockSize) nx.blockSize = .ok buf) :
    img.block nx.blockSize paddr = some buf := by
  have hbs : nx.blockSize ≠ 0 := Nat.ne_of_gt (lt_of_lt_of_le (by decide) hadm.1)
  rw [Image.readExact_saturatingMul img hbs] at h
  cases hblock : img.block nx.blockSize paddr with
  | none =>
    rw [hblock] at h
    exact absurd h (fail_ne_ok _ _)
  | some buf' =>
    rw [hblock] at h
    cases h
    rfl

/-- What `open` returns is read off the live superblock of the ring that block zero names. -/
theorem ApfsContainer.open_eq_ok (h : ApfsContainer.open img = .ok c) :
    ∃ nx xid paddr buf, Bootstraps img nx ∧
      IsLive img nx.blockSize nx.xpDescBase nx.xpDescBlocks xid paddr ∧
      img.block nx.blockSize paddr = some buf ∧ c.superblock = NxSuperblock.ofBlock buf := by
  have hstep : Stepwise.ApfsContainer.open .checked img = .ok c := by
    rw [Stepwise.ApfsContainer.open_checked, h, asRun_ok]
  obtain ⟨block0, nx, live, buf, hread, hparse, hfusion, hlive, hreread, hsuper⟩ :=
    Stepwise.ApfsContainer.open_eq_ok hstep
  obtain ⟨hbase, hblocks⟩ := NxSuperblock.area_lt hparse
  rw [Stepwise.resolveLiveCheckpoint_eq hbase hblocks, asRun_eq_ok] at hlive
  have hres := Resolvable.of_resolve_eq_ok hlive
  exact ⟨nx, live.xid, live.superblockPaddr, buf, ⟨⟨block0, hread, hparse⟩, hfusion, hres⟩,
    hres.isLive hlive, block_of_reread hres.admitted hreread,
    (NxSuperblock.parse_eq_ok_iff.mp hsuper).2.2.2⟩

/-- Whenever the ring that block zero names has a live superblock, `open` returns it. -/
theorem Bootstraps.exists_open (h : Bootstraps img nx) {xid paddr : ℕ} {buf : Bytes}
    (hl : IsLive img nx.blockSize nx.xpDescBase nx.xpDescBlocks xid paddr)
    (hblock : img.block nx.blockSize paddr = some buf) :
    ∃ c, ApfsContainer.open img = .ok c ∧ c.superblock = NxSuperblock.ofBlock buf := by
  obtain ⟨block0, hread, hparse⟩ := h.parses
  rcases h.resolvable.resolve_cases img with ⟨live, hlive, hl'⟩ | ⟨hno, -⟩
  · have hbs : 36 ≤ nx.blockSize := le_trans (by decide) h.resolvable.admitted.1
    obtain ⟨c, hopen, -, -⟩ :=
      ApfsContainer.open_of_resolve hread hparse h.noFusion hbs hlive hl'.valid
    refine ⟨c, hopen, ?_⟩
    -- what has been opened is the same superblock of the same ring
    obtain ⟨nx', xid', paddr', buf', hb', hl'', hblock', hc⟩ := ApfsContainer.open_eq_ok hopen
    obtain rfl := h.unique hb'
    obtain ⟨-, rfl⟩ := hl.unique hl''
    rw [hblock, Option.some.injEq] at hblock'
    rw [hc, hblock']
  · exact absurd hl.valid (hno paddr xid hl.inRing.1 hl.inRing.2)

end Open

/-! ### Either build -/

/-- Block zero passes the gates: it parses to `nx`, which is not a Fusion superblock and names a
contiguous ring and an admitted block size. -/
structure FrontPasses (img : Image) (nx : NxSuperblock) : Prop where
  parses : ∃ block0, img.readExact 0 nxMinimumBlockSize = .ok block0 ∧
    NxSuperblock.parse block0 = .ok nx
  noFusion : isFusion nx = false
  contiguous : nx.xpDescIsTree = false
  admitted : nxMinimumBlockSize ≤ nx.blockSize ∧ nx.blockSize ≤ nxMaximumBlockSize

/-- The superblock `buf` is the live one, at transaction `xid`, of the ring that `nx` names: the
first of largest transaction among the blocks that the slots are looked up at. -/
def LiveSuperblock (img : Image) (nx : NxSuperblock) (xid : ℕ) (buf : Bytes) : Prop :=
  ∃ paddr, LiveAmong img nx.blockSize (Stepwise.ringAddrs nx.xpDescBase nx.xpDescBlocks) xid
    paddr ∧ img.block nx.blockSize paddr = some buf

/-- A superblock passes the gates of `open`, on a ring read with the given block size. -/
structure PassesGates (ringBlockSize : ℕ) (nx : NxSuperblock) : Prop where
  noFusion : isFusion nx = false
  admitted : nxMinimumBlockSize ≤ nx.blockSize ∧ nx.blockSize ≤ nxMaximumBlockSize
  blockSize : nx.blockSize = ringBlockSize

/-- The gates of `open` hold of the superblock it returns, in either build. -/
structure OpenGatesHold (img : Image) : Prop where
  /-- Every container that opens has a superblock that passes the gates. -/
  passes : ∀ build c, Stepwise.ApfsContainer.open build img = .ok c →
    ∃ nx, FrontPasses img nx ∧ PassesGates nx.blockSize c.superblock
  /-- An image with another live superblock is refused. -/
  refused : ∀ build nx xid buf, FrontPasses img nx → LiveSuperblock img nx xid buf →
    ¬PassesGates nx.blockSize (NxSuperblock.ofBlock buf) →
    ∃ e, Stepwise.ApfsContainer.open build img = asRun (fail e)

/-- The live superblock of the ring that block zero names has a clear Fusion bit, and its
`nx_block_size` is that of block zero. -/
def LiveAgrees (img : Image) : Prop :=
  ∀ nx xid buf, FrontPasses img nx → LiveSuperblock img nx xid buf →
    leU64 buf 64 &&& nxIncompatFusion = 0 ∧ leU32 buf 36 = nx.blockSize

section Builds

variable {img : Image} {nx : NxSuperblock} {c : ApfsContainer}

/-- What either build returns is read off the live superblock. -/
private theorem live_of_open {build : Stepwise.Build}
    (h : Stepwise.ApfsContainer.open build img = .ok c) :
    ∃ nx xid buf, FrontPasses img nx ∧ LiveSuperblock img nx xid buf ∧
      c.superblock = NxSuperblock.ofBlock buf := by
  obtain ⟨block0, nx, live, buf, hread, hparse, hfusion, hlive, hreread, hsuper⟩ :=
    Stepwise.ApfsContainer.open_eq_ok h
  obtain ⟨htree, hadm, hring⟩ :=
    Stepwise.resolveLiveCheckpoint_eq_ok (NxSuperblock.area_lt hparse).2 hlive
  exact ⟨nx, live.xid, buf, ⟨⟨block0, hread, hparse⟩, hfusion, htree, hadm⟩,
    ⟨live.superblockPaddr, hring, block_of_reread hadm hreread⟩,
    (NxSuperblock.parse_eq_ok_iff.mp hsuper).2.2.2⟩

/-- A build without overflow checks opens whenever there is a live superblock. -/
private theorem exists_open_wrapping {xid : ℕ} {buf : Bytes} (h : FrontPasses img nx)
    (hl : LiveSuperblock img nx xid buf) :
    ∃ c, Stepwise.ApfsContainer.open .wrapping img = .ok c ∧
      c.superblock = NxSuperblock.ofBlock buf := by
  obtain ⟨block0, hread, hparse⟩ := h.parses
  obtain ⟨paddr, hring, hblock⟩ := hl
  obtain ⟨mappings, hresolve⟩ := Stepwise.exists_resolve_wrapping
    (NxSuperblock.area_lt hparse).2 h.contiguous h.admitted hring
  have hbs : 36 ≤ nx.blockSize := le_trans (by decide) h.admitted.1
  have hreread : img.readExact (saturatingMul paddr nx.blockSize) nx.blockSize = .ok buf := by
    rw [Image.readExact_saturatingMul img (by omega), hblock]
  -- the ring scan has tested all that the parser tests
  have hsuper : NxSuperblock.parse buf = .ok (NxSuperblock.ofBlock buf) := by
    obtain ⟨buf', hbuf', -, hmagic, hsum, -⟩ := hring.valid
    rw [hblock, Option.some.injEq] at hbuf'
    subst hbuf'
    have hlen := Image.length_of_block hblock
    exact NxSuperblock.parse_eq_ok_iff.mpr ⟨by omega, hmagic, hsum, rfl⟩
  refine ⟨⟨NxSuperblock.ofBlock buf, paddr, mappings⟩, ?_, rfl⟩
  simp only [Stepwise.ApfsContainer.open, hread, hparse, asRun_ok, ok_bind, h.noFusion, hresolve,
    hreread, hsuper, Bool.false_eq_true, if_false]

end Builds

/-- **The gates of `open` hold of the superblock it returns exactly when the live superblock of
the ring agrees with block zero.** -/
theorem open_gates_iff (img : Image) : OpenGatesHold img ↔ LiveAgrees img := by
  constructor
  · intro h nx xid buf hfront hlive
    obtain ⟨c, hopen, hc⟩ := exists_open_wrapping hfront hlive
    obtain ⟨nx', hfront', hgates⟩ := h.passes .wrapping c hopen
    obtain rfl := front_unique hfront.parses hfront'.parses
    rw [hc] at hgates
    have hfusion := hgates.noFusion
    rw [isFusion, bne_eq_false_iff_eq] at hfusion
    exact ⟨hfusion, hgates.blockSize⟩
  · intro h
    have hpasses : ∀ nx xid buf, FrontPasses img nx → LiveSuperblock img nx xid buf →
        PassesGates nx.blockSize (NxSuperblock.ofBlock buf) := by
      intro nx xid buf hfront hlive
      obtain ⟨hfusion, hsize⟩ := h nx xid buf hfront hlive
      have hadm := hfront.admitted
      rw [← hsize] at hadm
      exact ⟨bne_eq_false_iff_eq.mpr hfusion, hadm, hsize⟩
    refine ⟨fun build c hopen => ?_, fun build nx xid buf hfront hlive hno => ?_⟩
    · obtain ⟨nx, xid, buf, hfront, hlive, hc⟩ := live_of_open hopen
      exact ⟨nx, hfront, hc ▸ hpasses nx xid buf hfront hlive⟩
    · exact absurd (hpasses nx xid buf hfront hlive) hno

/-! A container whose only ring slot holds another superblock than block zero: with the Fusion
bit, and naming blocks of 8192 bytes. -/

/-- A superblock of 4096 bytes with a ring of one slot at block 1. -/
private def gateSuperblock (blockSize features : ℕ) : Bytes :=
  stamp (leBytes 8 1 ++ leBytes 8 7 ++ leBytes 4 0x80000001 ++ leBytes 4 0 ++ leBytes 4 nxMagic ++
    leBytes 4 blockSize ++ leBytes 8 2 ++ List.replicate 16 0 ++ leBytes 8 features ++
    List.replicate 32 0 ++ leBytes 4 1 ++ leBytes 4 0 ++ leBytes 8 1 ++ List.replicate 3976 0)

private theorem length_gateSuperblock (blockSize features : ℕ) :
    (gateSuperblock blockSize features).length = 4096 := by
  rw [gateSuperblock, length_stamp]
  simp only [List.length_append, length_leBytes, List.length_replicate]

/-- Block zero, and the live superblock. -/
def fusionRingImage : Image :=
  ⟨gateSuperblock 4096 0 ++ gateSuperblock 8192 nxIncompatFusion, by
    rw [List.length_append, length_gateSuperblock, length_gateSuperblock]
    norm_num⟩

private theorem fusionRing_blocks :
    fusionRingImage.block 4096 0 = some (gateSuperblock 4096 0) ∧
      fusionRingImage.block 4096 1 = some (gateSuperblock 8192 nxIncompatFusion) := by
  constructor
  · exact Image.block_of_append (List.nil_append _).symm (Nat.zero_mul _).symm
      (length_gateSuperblock _ _)
  · have hbytes : fusionRingImage.bytes =
        gateSuperblock 4096 0 ++ (gateSuperblock 8192 nxIncompatFusion ++ []) := by
      rw [List.append_nil]
      rfl
    exact Image.block_of_append hbytes
      ((length_gateSuperblock _ _).trans (Nat.one_mul _).symm) (length_gateSuperblock _ _)

/-- Block zero names blocks of 4096 bytes and a ring of one slot. -/
private theorem gate_bootstrap :
    leU32 (gateSuperblock 4096 0) 32 = nxMagic ∧
      isFusion (NxSuperblock.ofBlock (gateSuperblock 4096 0)) = false ∧
      (NxSuperblock.ofBlock (gateSuperblock 4096 0)).xpDescIsTree = false ∧
      (NxSuperblock.ofBlock (gateSuperblock 4096 0)).blockSize = 4096 ∧
      (NxSuperblock.ofBlock (gateSuperblock 4096 0)).xpDescBase = 1 ∧
      (NxSuperblock.ofBlock (gateSuperblock 4096 0)).xpDescBlocks = 1 := by
  decide +kernel

/-- The slot is a superblock of transaction 7. -/
private theorem gate_live :
    leU32 (gateSuperblock 8192 nxIncompatFusion) 24 &&& 0xffff = objectTypeNxSuperblock ∧
      leU32 (gateSuperblock 8192 nxIncompatFusion) 32 = nxMagic ∧
      leU64 (gateSuperblock 8192 nxIncompatFusion) 16 = 7 ∧
      isFusion (NxSuperblock.ofBlock (gateSuperblock 8192 nxIncompatFusion)) = true ∧
      (NxSuperblock.ofBlock (gateSuperblock 8192 nxIncompatFusion)).blockSize = 8192 := by
  decide +kernel

private theorem fusionRing_bootstraps :
    Bootstraps fusionRingImage (NxSuperblock.ofBlock (gateSuperblock 4096 0)) := by
  obtain ⟨hmagic, hfusion, htree, hsize, hbase, hblocks⟩ := gate_bootstrap
  have hlen := length_gateSuperblock 4096 0
  refine ⟨⟨gateSuperblock 4096 0, ?_, ?_⟩, hfusion, htree, ?_, ?_⟩
  · refine (Image.readExact_eq_ok (by decide)).mpr ?_
    have hblock := fusionRing_blocks.1
    rwa [Image.block, Nat.zero_mul] at hblock
  · refine NxSuperblock.parse_eq_ok_iff.mpr ⟨?_, hmagic, checksumValid_stamp _, rfl⟩
    rw [hlen]
    decide
  · rw [hsize]
    decide
  · rw [hbase, hblocks]
    decide

/-- The ring has but one slot. -/
private theorem fusionRing_live :
    IsLive fusionRingImage (NxSuperblock.ofBlock (gateSuperblock 4096 0)).blockSize
      (NxSuperblock.ofBlock (gateSuperblock 4096 0)).xpDescBase
      (NxSuperblock.ofBlock (gateSuperblock 4096 0)).xpDescBlocks 7 1 := by
  obtain ⟨-, -, -, hsize, hbase, hblocks⟩ := gate_bootstrap
  obtain ⟨htype, hmagic, hxid, -⟩ := gate_live
  rw [hsize, hbase, hblocks]
  have hvalid : SuperblockAt fusionRingImage 4096 1 7 :=
    ⟨_, fusionRing_blocks.2, htype, hmagic, checksumValid_stamp _, hxid⟩
  refine ⟨⟨le_rfl, by omega⟩, hvalid, fun p x hlo hhi h => ?_, fun p hlo _ _ => hlo⟩
  obtain rfl : p = 1 := by omega
  exact (h.unique hvalid).le

/-- The container opens in either build, and its superblock passes none of the gates. -/
theorem fusion_ring_opens :
    ∃ c, (∀ build, Stepwise.ApfsContainer.open build fusionRingImage = .ok c) ∧
      isFusion c.superblock = true ∧ c.superblock.blockSize = 8192 ∧
      ¬OpenGatesHold fusionRingImage := by
  obtain ⟨-, -, -, hsize, -⟩ := gate_bootstrap
  obtain ⟨-, -, -, hfusion, hlarge⟩ := gate_live
  have hboot := fusionRing_bootstraps
  obtain ⟨c, hopen, hc⟩ := hboot.exists_open fusionRing_live
    ((congrArg (fusionRingImage.block · 1) hsize).trans fusionRing_blocks.2)
  have hbuilds : ∀ build, Stepwise.ApfsContainer.open build fusionRingImage = .ok c := by
    intro build
    rw [hboot.open_eq_asRun, hopen, asRun_ok]
  rw [← hc] at hfusion hlarge
  refine ⟨c, hbuilds, hfusion, hlarge, fun h => ?_⟩
  obtain ⟨nx, -, hgates⟩ := h.passes .checked c (hbuilds .checked)
  have hgate := hgates.noFusion
  rw [hfusion] at hgate
  exact absurd hgate (by decide)

end ApfsCore
