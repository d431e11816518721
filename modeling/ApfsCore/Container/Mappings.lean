import ApfsCore.Stepwise.Checkpoint
import Mathlib.Algebra.Order.BigOperators.Group.List

/-!
# The checkpoint mappings on disk

The second scan of `resolve_live_checkpoint` reads as many mappings from a checkpoint-map block
as the block's count says, up to a fixed cap that is larger than any block can hold; entries past
the end of the block read as zeros. Here the mappings that are on disk are defined from the
entries that lie in their blocks (`diskMappings`), and compared with the ones collected.

The two agree, in a build with overflow checks and in one without them, exactly when no map block
of the live checkpoint claims more entries than it holds. A block that is met at an address that
has wrapped around is none of the ring, and holds none (`slotCapacity`).
-/

namespace ApfsCore

/-! ### The mappings on disk -/

/-- The number of entries that fit a checkpoint-map block. -/
def cpmCapacity (blockSize : ℕ) : ℕ :=
  (blockSize - 40) / 40

/-- The mapping stored in a 40-byte `checkpoint_mapping_t`. -/
def storedMapping (entry : Bytes) : CheckpointMapping where
  objType := leU32 entry 0
  subtype := leU32 entry 4
  oid := leU64 entry 24
  paddr := leU64 entry 32

/-- The mappings of a checkpoint-map block that lie wholly inside it. -/
def storedMappings (blockSize : ℕ) (buf : Bytes) : List CheckpointMapping :=
  (List.range (min (leU32 buf 36) (cpmCapacity blockSize))).filterMap fun m =>
    (slice buf (40 + m * 40) (40 + m * 40 + 40)).map storedMapping

/-- A block is a checkpoint map of transaction `xid`: its type and checksum are right. -/
structure CheckpointMapOf (xid : ℕ) (buf : Bytes) : Prop where
  type : leU32 buf 24 &&& 0xffff = objectTypeCheckpointMap
  xid : leU64 buf 16 = xid
  checksum : ChecksumValid buf

instance (xid : ℕ) (buf : Bytes) : Decidable (CheckpointMapOf xid buf) :=
  decidable_of_iff
    (leU32 buf 24 &&& 0xffff = objectTypeCheckpointMap ∧ leU64 buf 16 = xid ∧ ChecksumValid buf)
    ⟨fun h => ⟨h.1, h.2.1, h.2.2⟩, fun h => ⟨h.type, h.xid, h.checksum⟩⟩

/-- The mappings on disk of the checkpoint `xid`: those of its map blocks, in ring order. -/
def diskMappings (img : Image) (blockSize base n xid : ℕ) : List CheckpointMapping :=
  (List.range n).flatMap fun i =>
    match img.block blockSize (base + i) with
    | none => []
    | some buf => if CheckpointMapOf xid buf then storedMappings blockSize buf else []

/-! ### What is collected from one block -/

/-- The fields of an entry that lies in the block are those stored there. -/
private theorem cpmMapping_eq {buf entry : Bytes} {m : ℕ}
    (h : slice buf (40 + m * 40) (40 + m * 40 + 40) = some entry) :
    storedMapping entry =
      { objType := leU32 buf (40 + m * 40)
        subtype := leU32 buf (40 + m * 40 + 4)
        oid := leU64 buf (40 + m * 40 + 24)
        paddr := leU64 buf (40 + m * 40 + 32) } := by
  have hread : ∀ w offset, offset + w ≤ 40 →
      readLE w entry offset = readLE w buf (40 + m * 40 + offset) := by
    intro w offset hfit
    rw [readLE, readLE, slice_slice h (by omega), Nat.add_assoc _ offset w]
  rw [storedMapping, CheckpointMapping.mk.injEq]
  exact ⟨hread 8 24 (by omega), hread 8 32 (by omega), hread 4 0 (by omega), hread 4 4 (by omega)⟩

/-- No block of an admitted size holds more entries than the cap. -/
private theorem cpmCapacity_lt {blockSize : ℕ} (hmax : blockSize ≤ nxMaximumBlockSize) :
    cpmCapacity blockSize < maxCpmCount := by
  rw [nxMaximumBlockSize] at hmax
  rw [cpmCapacity, maxCpmCount]
  omega

/-- The mappings stored in a block are the first ones that are collected from it. -/
private theorem storedMappings_eq_take {blockSize : ℕ} {buf : Bytes}
    (hbuf : buf.length = blockSize) (hmax : blockSize ≤ nxMaximumBlockSize) :
    storedMappings blockSize buf = (cpmMappings buf).take (cpmCapacity blockSize) := by
  have hcap := cpmCapacity_lt hmax
  have hmin : min (leU32 buf 36) (cpmCapacity blockSize) =
      min (cpmCapacity blockSize) (min (leU32 buf 36) maxCpmCount) := by omega
  rw [storedMappings, cpmMappings, ← List.map_take, List.take_range, hmin]
  rw [← List.filterMap_eq_map]
  refine List.filterMap_congr fun m hm => ?_
  rw [List.mem_range] at hm
  -- an entry below the capacity ends before the block does
  have hfit : 40 + m * 40 + 40 ≤ buf.length := by
    have hlt : m < cpmCapacity blockSize := lt_of_lt_of_le hm (Nat.min_le_left _ _)
    rw [cpmCapacity] at hlt
    omega
  have hslice := slice_of_le (Nat.le_add_right (40 + m * 40) 40) hfit
  rw [hslice, Option.map_some, cpmMapping_eq hslice]
  rfl

section Ring

variable {img : Image} {blockSize base n xid : ℕ}

/-- From a block of the ring the scan collects mappings exactly when it is a checkpoint map of
the transaction. -/
private theorem slotMappings_eq {buf : Bytes} (hlen : objPhysLen ≤ buf.length) :
    slotMappings xid buf = if CheckpointMapOf xid buf then cpmMappings buf else [] := by
  obtain ⟨hdr, hhdr, htype, hxid⟩ : ∃ hdr, ObjPhys.parse buf = some hdr ∧
      hdr.objType = leU32 buf 24 &&& 0xffff ∧ hdr.xid = leU64 buf 16 :=
    ⟨_, if_neg (Nat.not_lt.mpr hlen), rfl, rfl⟩
  rw [slotMappings, hhdr]
  by_cases hmap : CheckpointMapOf xid buf
  · have hkeep : ¬(hdr.objType ≠ objectTypeCheckpointMap ∨ hdr.xid ≠ xid) :=
      not_or.mpr ⟨not_not.mpr (htype.trans hmap.type), not_not.mpr (hxid.trans hmap.xid)⟩
    simp only [if_neg hkeep, if_neg (not_not.mpr hmap.checksum), if_pos hmap]
  · simp only [if_neg hmap]
    split_ifs with hskip hsum
    · rfl
    · -- the type and the transaction are right, so the checksum is not
      rw [not_or, not_not, not_not] at hskip
      exact absurd ⟨htype ▸ hskip.1, hxid ▸ hskip.2, hsum⟩ hmap
    · rfl

/-- If two ways of listing the elements of a list agree on the whole, and the second never lists
more than the first, they list equally many for each element. -/
private theorem length_eq_of_flatMap_eq {α β : Type} {f g : α → List β} {l : List α}
    (hle : ∀ a ∈ l, (g a).length ≤ (f a).length)
    (h : (l.flatMap f).length = (l.flatMap g).length) :
    ∀ a ∈ l, (f a).length = (g a).length := by
  induction l with
  | nil => exact fun a ha => absurd ha List.not_mem_nil
  | cons a l ih =>
    rw [List.forall_mem_cons] at hle ⊢
    have htail : (l.flatMap g).length ≤ (l.flatMap f).length := by
      rw [List.length_flatMap, List.length_flatMap]
      exact List.sum_le_sum hle.2
    simp only [List.flatMap_cons, List.length_append] at h
    have hhead := hle.1
    exact ⟨by omega, ih hle.2 (by omega)⟩

end Ring

/-! ### When the collected mappings are those on disk -/

/-- The number of mappings that the block met at slot `i` can hold for the ring: none, if the slot
is past the last address. -/
def slotCapacity (blockSize base i : ℕ) : ℕ :=
  if base + i < 2 ^ 64 then cpmCapacity blockSize else 0

/-- Every checkpoint-map block of the transaction that the slots are looked up at claims no more
entries than it can hold. -/
def MapsFit (img : Image) (blockSize base n xid : ℕ) : Prop :=
  ∀ i < n, ∀ buf, img.block blockSize ((base + i) % 2 ^ 64) = some buf →
    CheckpointMapOf xid buf → leU32 buf 36 ≤ slotCapacity blockSize base i

/-- The mappings of a resolved checkpoint are those on disk, and an ephemeral object id resolves
to a block only if a mapping on disk says so. -/
structure MappingsExact (img : Image) (nx : NxSuperblock) (live : LiveCheckpoint) : Prop where
  exact : live.mappings =
    diskMappings img nx.blockSize nx.xpDescBase nx.xpDescBlocks live.xid
  resolves : ∀ c : ApfsContainer, c.checkpointMappings = live.mappings →
    ∀ oid p, c.resolveEphemeral oid = some p →
      ∃ m ∈ diskMappings img nx.blockSize nx.xpDescBase nx.xpDescBlocks live.xid,
        m.oid = oid ∧ m.paddr = p

section Exact

variable {build : Stepwise.Build} {img : Image} {nx : NxSuperblock} {live : LiveCheckpoint}

/-- What slot `i` adds to the collected mappings. -/
private def slotAdds (img : Image) (blockSize base xid i : ℕ) : List CheckpointMapping :=
  match img.block blockSize ((base + i) % 2 ^ 64) with
  | none => []
  | some buf => slotMappings xid buf

/-- What slot `i` holds on disk. -/
private def slotHolds (img : Image) (blockSize base xid i : ℕ) : List CheckpointMapping :=
  match img.block blockSize (base + i) with
  | none => []
  | some buf => if CheckpointMapOf xid buf then storedMappings blockSize buf else []

/-- What a resolution collects, and the block size it ran with. -/
private theorem mappings_eq_of_resolve
    (hlive : (Stepwise.resolveLiveCheckpoint build img nx).outcome = .ok live) :
    (nxMinimumBlockSize ≤ nx.blockSize ∧ nx.blockSize ≤ nxMaximumBlockSize) ∧
      live.mappings = (List.range nx.xpDescBlocks).flatMap
        (slotAdds img nx.blockSize nx.xpDescBase live.xid) := by
  rw [Stepwise.resolveLiveCheckpoint] at hlive
  split_ifs at hlive with htree hadm
  · cases hlive
  · refine ⟨hadm, ?_⟩
    have hbs : nx.blockSize ≠ 0 := Nat.ne_of_gt (lt_of_lt_of_le (by decide) hadm.1)
    rw [Traced.outcome_bind] at hlive
    obtain ⟨st, -, hst⟩ := bind_eq_ok.mp hlive
    cases hbest : st.best with
    | none =>
      rw [hbest] at hst
      cases hst
    | some best =>
      rw [hbest, Traced.outcome_bind] at hst
      obtain ⟨mappings, hmap, hlive⟩ := bind_eq_ok.mp hst
      cases hlive
      have hcollected := Stepwise.collectMappings_eq_ok hbs hmap
      rw [Stepwise.ringAddrs, List.flatMap_map] at hcollected
      exact hcollected
  · cases hlive

private theorem length_cpmMappings (buf : Bytes) :
    (cpmMappings buf).length = min (leU32 buf 36) maxCpmCount := by
  rw [cpmMappings, List.length_map, List.length_range]

section Slot

variable {blockSize base xid i : ℕ}
  (hadm : nxMinimumBlockSize ≤ blockSize ∧ blockSize ≤ nxMaximumBlockSize)

include hadm

/-- A slot whose block is a map of the transaction adds the first entries it claims, and holds
those of them that it has room for. -/
private theorem slot_of_map {buf : Bytes}
    (hbuf : img.block blockSize ((base + i) % 2 ^ 64) = some buf) (hmap : CheckpointMapOf xid buf) :
    slotAdds img blockSize base xid i = cpmMappings buf ∧
      slotHolds img blockSize base xid i =
        (cpmMappings buf).take (slotCapacity blockSize base i) := by
  have hlen : objPhysLen ≤ buf.length := by
    rw [Image.length_of_block hbuf]
    exact le_trans (by decide) hadm.1
  constructor
  · simp only [slotAdds, hbuf, slotMappings_eq hlen, if_pos hmap]
  · rw [slotHolds, slotCapacity]
    split_ifs with hlt
    · rw [Nat.mod_eq_of_lt hlt] at hbuf
      simp only [hbuf, if_pos hmap, storedMappings_eq_take (Image.length_of_block hbuf) hadm.2]
    · have hpos : 0 < blockSize := lt_of_lt_of_le (by decide) hadm.1
      have hnone : img.block blockSize (base + i) = none :=
        Image.block_eq_none_of_le ((Nat.le_of_not_lt hlt).trans (Nat.le_mul_of_pos_right _ hpos))
      rw [hnone, List.take_zero]

/-- Any other slot adds nothing, and holds nothing. -/
private theorem slot_of_other
    (hno : ∀ buf, img.block blockSize ((base + i) % 2 ^ 64) = some buf → ¬CheckpointMapOf xid buf) :
    slotAdds img blockSize base xid i = [] ∧ slotHolds img blockSize base xid i = [] := by
  constructor
  · rw [slotAdds]
    cases hbuf : img.block blockSize ((base + i) % 2 ^ 64) with
    | none => rfl
    | some buf =>
      have hlen : objPhysLen ≤ buf.length := by
        rw [Image.length_of_block hbuf]
        exact le_trans (by decide) hadm.1
      simp only [slotMappings_eq hlen, if_neg (hno buf hbuf)]
  · rw [slotHolds]
    cases hbuf : img.block blockSize (base + i) with
    | none => rfl
    | some buf =>
      -- a block of the image has an address that is a `u64`
      have hlt : base + i < 2 ^ 64 := by
        by_contra hge
        have hpos : 0 < blockSize := lt_of_lt_of_le (by decide) hadm.1
        rw [Image.block_eq_none_of_le
          ((Nat.le_of_not_lt hge).trans (Nat.le_mul_of_pos_right _ hpos))] at hbuf
        cases hbuf
      rw [← Nat.mod_eq_of_lt hlt] at hbuf
      simp only [if_neg (hno buf hbuf)]

/-- A slot holds no more than it adds. -/
private theorem length_slotHolds_le :
    (slotHolds img blockSize base xid i).length ≤ (slotAdds img blockSize base xid i).length := by
  by_cases hmap : ∃ buf, img.block blockSize ((base + i) % 2 ^ 64) = some buf ∧
      CheckpointMapOf xid buf
  · obtain ⟨buf, hbuf, hmap⟩ := hmap
    obtain ⟨hadds, hholds⟩ := slot_of_map hadm hbuf hmap
    rw [hadds, hholds]
    exact List.length_take_le' _ _
  · rw [(slot_of_other hadm fun buf hbuf hmap' => hmap ⟨buf, hbuf, hmap'⟩).2]
    exact Nat.zero_le _

end Slot

/-- Where the two lists agree, every map block adds as many entries as it holds. -/
private theorem mapsFit_of_exact
    (hlive : (Stepwise.resolveLiveCheckpoint build img nx).outcome = .ok live)
    (h : live.mappings = diskMappings img nx.blockSize nx.xpDescBase nx.xpDescBlocks live.xid) :
    MapsFit img nx.blockSize nx.xpDescBase nx.xpDescBlocks live.xid := by
  intro i hi buf hbuf hmap
  obtain ⟨hadm, hmappings⟩ := mappings_eq_of_resolve hlive
  obtain ⟨hadds, hholds⟩ := slot_of_map hadm hbuf hmap
  rw [hmappings] at h
  have hlengths := length_eq_of_flatMap_eq
    (g := slotHolds img nx.blockSize nx.xpDescBase live.xid)
    (fun i _ => length_slotHolds_le hadm) (congrArg List.length h) i (List.mem_range.mpr hi)
  rw [hadds, hholds, List.length_take, length_cpmMappings] at hlengths
  have hcap := cpmCapacity_lt hadm.2
  have hslot : slotCapacity nx.blockSize nx.xpDescBase i ≤ cpmCapacity nx.blockSize := by
    rw [slotCapacity]
    split_ifs <;> omega
  omega

/-- Where every map block holds what it claims, the two lists agree. -/
private theorem exact_of_mapsFit
    (hlive : (Stepwise.resolveLiveCheckpoint build img nx).outcome = .ok live)
    (h : MapsFit img nx.blockSize nx.xpDescBase nx.xpDescBlocks live.xid) :
    live.mappings = diskMappings img nx.blockSize nx.xpDescBase nx.xpDescBlocks live.xid := by
  obtain ⟨hadm, hmappings⟩ := mappings_eq_of_resolve hlive
  rw [hmappings]
  refine List.flatMap_congr fun i hi => ?_
  by_cases hmap : ∃ buf, img.block nx.blockSize ((nx.xpDescBase + i) % 2 ^ 64) = some buf ∧
      CheckpointMapOf live.xid buf
  · obtain ⟨buf, hbuf, hmap⟩ := hmap
    obtain ⟨hadds, hholds⟩ := slot_of_map hadm hbuf hmap
    have hfit := h i (List.mem_range.mp hi) buf hbuf hmap
    rw [hadds]
    refine Eq.trans ?_ hholds.symm
    rw [List.take_of_length_le]
    rw [length_cpmMappings]
    omega
  · obtain ⟨hadds, hholds⟩ := slot_of_other hadm fun buf hbuf hmap' => hmap ⟨buf, hbuf, hmap'⟩
    exact hadds.trans hholds.symm

/-- **The collected mappings are those on disk exactly when no map block claims more than it
holds**, in either build. -/
theorem mappings_exact_iff
    (hlive : (Stepwise.resolveLiveCheckpoint build img nx).outcome = .ok live) :
    MappingsExact img nx live ↔
      MapsFit img nx.blockSize nx.xpDescBase nx.xpDescBlocks live.xid := by
  refine ⟨fun h => mapsFit_of_exact hlive h.exact, fun h => ?_⟩
  have heq := exact_of_mapsFit hlive h
  refine ⟨heq, fun c hc oid p hp => ?_⟩
  rw [ApfsContainer.resolveEphemeral, hc, heq] at hp
  obtain ⟨m, hfind, rfl⟩ := Option.map_eq_some_iff.mp hp
  have hoid : m.oid = oid := by
    simpa only [beq_iff_eq] using List.find?_some hfind
  exact ⟨m, List.mem_of_find?_eq_some hfind, hoid, rfl⟩

end Exact

/-! A ring of two slots: the superblock of transaction 7, which is block zero as well, and a
checkpoint map that claims the given number of mappings and is filled with ones. -/

/-- The superblock. -/
private def ringSuperblock : Bytes :=
  stamp (leBytes 8 1 ++ leBytes 8 7 ++ leBytes 4 0x80000001 ++ leBytes 4 0 ++ leBytes 4 nxMagic ++
    leBytes 4 4096 ++ leBytes 8 2 ++ List.replicate 56 0 ++ leBytes 4 2 ++ leBytes 4 0 ++
    leBytes 8 0 ++ List.replicate 3976 0)

/-- The checkpoint map, of 101 entries at most. -/
private def ringMap (count : ℕ) : Bytes :=
  stamp (leBytes 8 1 ++ leBytes 8 7 ++ leBytes 4 objectTypeCheckpointMap ++ leBytes 4 0 ++
    leBytes 4 0 ++ leBytes 4 count ++ List.replicate 4056 1)

private theorem length_ringSuperblock : ringSuperblock.length = 4096 := by
  rw [ringSuperblock, length_stamp]
  simp only [List.length_append, length_leBytes, List.length_replicate]

private theorem length_ringMap (count : ℕ) : (ringMap count).length = 4096 := by
  rw [ringMap, length_stamp]
  simp only [List.length_append, length_leBytes, List.length_replicate]

private theorem length_ring (count : ℕ) : (ringSuperblock ++ ringMap count).length < 2 ^ 64 := by
  rw [List.length_append, length_ringSuperblock, length_ringMap]
  norm_num

/-- A map of one mapping. -/
def fittingRing : Image :=
  ⟨ringSuperblock ++ ringMap 1, length_ring 1⟩

/-- A map that claims 102 mappings. -/
def overfullRing : Image :=
  ⟨ringSuperblock ++ ringMap 102, length_ring 102⟩

/-- The bootstrap superblock of both. -/
def ringBootstrap : NxSuperblock :=
  NxSuperblock.ofBlock ringSuperblock

private theorem ringBootstrap_fields : ringBootstrap.blockSize = 4096 ∧
    ringBootstrap.xpDescBase = 0 ∧ ringBootstrap.xpDescBlocks = 2 ∧
    ringBootstrap.xpDescIsTree = false := by
  decide +kernel

private theorem ringSuperblock_fields :
    leU32 ringSuperblock 24 &&& 0xffff = objectTypeNxSuperblock ∧
      leU32 ringSuperblock 32 = nxMagic ∧ leU64 ringSuperblock 16 = 7 := by
  decide +kernel

private theorem ringMap_fields : ∀ count ∈ [1, 102],
    leU32 (ringMap count) 24 &&& 0xffff = objectTypeCheckpointMap ∧
      leU64 (ringMap count) 16 = 7 ∧ leU32 (ringMap count) 36 = count := by
  decide +kernel

section RingWitness

variable {img : Image} {count : ℕ}

private theorem ring_blocks (himg : img.bytes = ringSuperblock ++ ringMap count) :
    img.block 4096 0 = some ringSuperblock ∧ img.block 4096 1 = some (ringMap count) := by
  constructor
  · exact Image.block_of_append (himg.trans (List.nil_append _).symm) (Nat.zero_mul _).symm
      length_ringSuperblock
  · have hbytes : img.bytes = ringSuperblock ++ (ringMap count ++ []) := by
      rw [himg, List.append_nil]
    exact Image.block_of_append hbytes (length_ringSuperblock.trans (Nat.one_mul _).symm)
      (length_ringMap count)

/-- The slots are looked up at their own addresses, and each has room for 101 entries. -/
private theorem ring_slot {i : ℕ} (hi : i < 2) :
    (0 + i) % 2 ^ 64 = i ∧ slotCapacity 4096 0 i = 101 := by
  refine ⟨by omega, ?_⟩
  rw [slotCapacity, if_pos (by omega)]
  rfl

/-- In either build the live superblock is that of slot 0, and the mappings are those of the map
block. -/
private theorem ring_resolves (himg : img.bytes = ringSuperblock ++ ringMap count)
    (hmap : CheckpointMapOf 7 (ringMap count)) :
    ∃ live, (∀ build, (Stepwise.resolveLiveCheckpoint build img ringBootstrap).outcome = .ok live) ∧
      live.xid = 7 ∧ live.mappings = cpmMappings (ringMap count) := by
  obtain ⟨hsize, hbase, hblocks, htree⟩ := ringBootstrap_fields
  obtain ⟨htype, hmagic, hxid⟩ := ringSuperblock_fields
  obtain ⟨h0, h1⟩ := ring_blocks himg
  have hvalid : SuperblockAt img 4096 0 7 :=
    ⟨ringSuperblock, h0, htype, hmagic, checksumValid_stamp _, hxid⟩
  have hresolvable : Resolvable ringBootstrap := by
    refine ⟨htree, ?_, ?_⟩
    · rw [hsize]
      decide
    · rw [hbase, hblocks]
      norm_num
  have hcases := hresolvable.resolve_cases img
  rw [hsize, hbase, hblocks] at hcases
  obtain ⟨live, hplain, hring⟩ | ⟨hnone, -⟩ := hcases
  · have hlive : ∀ build,
        (Stepwise.resolveLiveCheckpoint build img ringBootstrap).outcome = .ok live := by
      intro build
      rw [(Stepwise.resolveLiveCheckpoint_of_fits build (by rw [hblocks]; norm_num)
        hresolvable.fits).1, hplain, asRun_ok]
    have hlivexid : live.xid = 7 := by
      obtain hp | hp : live.superblockPaddr = 0 ∨ live.superblockPaddr = 1 := by
        have hlast := hring.inRing.2
        omega
      · exact SuperblockAt.unique (hp ▸ hring.valid) hvalid
      · -- slot 1 holds the map
        obtain ⟨buf, hbuf, hbuftype, -⟩ := hring.valid
        rw [hp, h1, Option.some.injEq] at hbuf
        rw [← hbuf, hmap.type] at hbuftype
        exact absurd hbuftype (by decide)
    refine ⟨live, hlive, hlivexid, ?_⟩
    have hnotmap : ¬CheckpointMapOf 7 ringSuperblock := fun h =>
      absurd (htype.symm.trans h.type) (by decide)
    have hadds : slotAdds img 4096 0 7 0 = [] ∧
        slotAdds img 4096 0 7 1 = cpmMappings (ringMap count) := by
      have h32 : objPhysLen ≤ 4096 := by decide
      constructor
      · simp only [slotAdds, (ring_slot (show 0 < 2 by decide)).1, h0,
          slotMappings_eq (length_ringSuperblock.symm ▸ h32), if_neg hnotmap]
      · simp only [slotAdds, (ring_slot (show 1 < 2 by decide)).1, h1,
          slotMappings_eq ((length_ringMap count).symm ▸ h32), if_pos hmap]
    rw [(mappings_eq_of_resolve (hlive .checked)).2, hsize, hbase, hblocks, hlivexid]
    simp only [List.range_succ, List.range_zero, List.nil_append, List.flatMap_append,
      List.flatMap_singleton, hadds.1, hadds.2]
  · exact absurd hvalid (hnone 0 7 le_rfl (by omega))

/-- The map block fits exactly when it claims no more than its 101 entries. -/
private theorem ring_fits_iff (himg : img.bytes = ringSuperblock ++ ringMap count)
    (hmap : CheckpointMapOf 7 (ringMap count)) :
    MapsFit img ringBootstrap.blockSize ringBootstrap.xpDescBase ringBootstrap.xpDescBlocks 7 ↔
      leU32 (ringMap count) 36 ≤ 101 := by
  obtain ⟨hsize, hbase, hblocks, -⟩ := ringBootstrap_fields
  obtain ⟨h0, h1⟩ := ring_blocks himg
  rw [hsize, hbase, hblocks]
  constructor
  · intro h
    obtain ⟨haddr, hcap⟩ := ring_slot (show 1 < 2 by decide)
    have hfit := h 1 (by decide) (ringMap count) (haddr.symm ▸ h1) hmap
    rwa [hcap] at hfit
  · intro h i hi buf hbuf hmap'
    obtain ⟨haddr, hcap⟩ := ring_slot hi
    rw [haddr] at hbuf
    rw [hcap]
    obtain rfl | rfl : i = 0 ∨ i = 1 := by omega
    · -- slot 0 holds the superblock
      rw [h0, Option.some.injEq] at hbuf
      rw [← hbuf] at hmap'
      exact absurd (ringSuperblock_fields.1.symm.trans hmap'.type) (by decide)
    · rw [h1, Option.some.injEq] at hbuf
      rwa [← hbuf]

end RingWitness

/-- The one mapping of the first ring is exact. -/
theorem fitting_ring_exact :
    ∃ live, (∀ build,
        (Stepwise.resolveLiveCheckpoint build fittingRing ringBootstrap).outcome = .ok live) ∧
      live.mappings.length = 1 ∧ MappingsExact fittingRing ringBootstrap live := by
  obtain ⟨htype, hxid, hcount⟩ := ringMap_fields 1 (by decide)
  have hmap : CheckpointMapOf 7 (ringMap 1) := ⟨htype, hxid, checksumValid_stamp _⟩
  have himg : fittingRing.bytes = ringSuperblock ++ ringMap 1 := rfl
  obtain ⟨live, hlive, hlivexid, hmappings⟩ := ring_resolves himg hmap
  refine ⟨live, hlive, ?_, (mappings_exact_iff (hlive .wrapping)).mpr ?_⟩
  · rw [hmappings, length_cpmMappings, hcount]
    rfl
  · rw [hlivexid, ring_fits_iff himg hmap, hcount]
    decide

/-- The second ring yields a mapping of object 0 to block 0 that is nowhere on disk: its entry
starts 16 bytes before the end of the block. -/
theorem overfull_ring_fabricates :
    ∃ live, (∀ build,
        (Stepwise.resolveLiveCheckpoint build overfullRing ringBootstrap).outcome = .ok live) ∧
      live.mappings[101]? = some ⟨0, 0, 0x01010101, 0x01010101⟩ ∧
      ¬MappingsExact overfullRing ringBootstrap live := by
  obtain ⟨htype, hxid, hcount⟩ := ringMap_fields 102 (by decide)
  have hmap : CheckpointMapOf 7 (ringMap 102) := ⟨htype, hxid, checksumValid_stamp _⟩
  have himg : overfullRing.bytes = ringSuperblock ++ ringMap 102 := rfl
  obtain ⟨live, hlive, hlivexid, hmappings⟩ := ring_resolves himg hmap
  refine ⟨live, hlive, ?_, fun h => ?_⟩
  · rw [hmappings]
    decide +kernel
  · have hfits := mapsFit_of_exact (hlive .checked) h.exact
    rw [hlivexid, ring_fits_iff himg hmap, hcount] at hfits
    exact absurd hfits (by decide)

end ApfsCore
