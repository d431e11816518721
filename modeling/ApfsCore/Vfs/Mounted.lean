import ApfsCore.Container.Written
import ApfsCore.Vfs.Written
import ApfsCore.Volume.SuperblockCodec
import ApfsCore.Volume.Timeline

/-!
# From an image to a mounted volume

`ApfsFs.open` goes from the bytes of an image to a mounted volume: the live superblock of the
container, its object map, the superblock of the first volume. On an image that a container with a
volume was written to, it mounts that volume, and the interface serves the volume's contents
(`written_container_is_mounted`).

If the volume's snapshots were written too, the image has a history: the snapshots are listed by
transaction, a name resolves to its transaction, the live transaction mounts the live volume, each
retained transaction mounts the superblock that was frozen at it, with the contents that its
file-system tree had, and every other transaction is refused (`written_snapshots_are_mounted`).
-/

namespace ApfsCore

/-! ### Mounting the live volume -/

/-- A volume superblock lies at a block. -/
def VolumeAt (img : Image) (blockSize paddr : ℕ) (v : ApfsVolume) : Prop :=
  ∃ buf, img.block blockSize paddr = some buf ∧ ApfsVolume.parse buf = .ok v

/-- The first volume of a container: the newest mapping of its id leads to its superblock. -/
structure FirstVolumeOn (img : Image) (nx : NxSuperblock) (mappings : Shape ℕ Entry)
    (v : ApfsVolume) : Prop where
  first : ∃ oid, nx.fsOids.head? = some oid ∧ ∃ e,
    IsNewest oid nx.xid (mappings.entries.map OmapEntry.ofEntry) e ∧
      VolumeAt img nx.blockSize e.paddr v

section Mounted

variable {img : Image} {boot nx : NxSuperblock} {live : ℕ} {mappings : Shape ℕ Entry}
  {v : ApfsVolume}

/-- A superblock is read from its block. -/
theorem VolumeAt.read {blockSize paddr : ℕ} (h : VolumeAt img blockSize paddr v) :
    (img.readExact (saturatingMul paddr blockSize) blockSize >>= ApfsVolume.parse) = .ok v := by
  obtain ⟨buf, hbuf, hparse⟩ := h
  have hbs : blockSize ≠ 0 := by
    rintro rfl
    have hlen := (ApfsVolume.xid_of_parse hparse).1.length
    rw [Image.length_of_block hbuf] at hlen
    exact absurd hlen (by decide)
  rw [Image.readExact_saturatingMul img hbs, hbuf, ok_bind, hparse]

/-- The bootstrap finds the first volume and the block size. -/
theorem ContainerOn.openFirstVolume_eq (h : ContainerOn img boot nx live mappings)
    (hv : FirstVolumeOn img nx mappings v) : openFirstVolume img = .ok (v, nx.blockSize) := by
  obtain ⟨ephemeral, hopen⟩ := h.open_eq
  obtain ⟨addrs, haddrs, hpairs⟩ := h.volumeSuperblockAddrs_eq ephemeral
  obtain ⟨oid, hfirst, e, he, hvolume⟩ := hv.first
  obtain ⟨om, -, htree⟩ := h.omap.omapTree h.blockSize_ne
  -- the first address is that of the first volume
  have hhead : addrs.head? = some e.paddr := by
    obtain ⟨rest, hoids⟩ := List.head?_eq_some_iff.mp hfirst
    rw [hoids] at hpairs
    cases hpairs with
    | cons hpair _ =>
      obtain ⟨e', he', rfl⟩ := hpair
      rw [htree.isNewest_unique he he', List.head?_cons]
  have hread := hvolume.read
  obtain ⟨buf, hbuf, hparse⟩ := bind_eq_ok.mp hread
  simp only [openFirstVolume, hopen, ok_bind, haddrs, hhead, hbuf, hparse]

end Mounted

/-- **A written container is mounted.** From the image alone, opening it mounts the first volume
at its own transaction, and the interface serves the contents of that volume. -/
theorem written_container_is_mounted (host : Host) (img : Image) (boot nx : NxSuperblock)
    (live : ℕ) (mappings : Shape ℕ Entry) (v : ApfsVolume) (vmappings tree : Shape ℕ Entry)
    (c : Contents) (hbits : host.usizeBits = 64) (h : ContainerOn img boot nx live mappings)
    (hfirst : FirstVolumeOn img nx mappings v)
    (hv : VolumeOn img v nx.blockSize vmappings tree c) :
    ApfsFs.open img = .ok ⟨v, nx.blockSize, v.xid⟩ ∧
      ServesContents ⟨v, nx.blockSize, v.xid⟩ host img c := by
  refine ⟨?_, VolumeOn.serves hv hbits⟩
  rw [ApfsFs.open, h.openFirstVolume_eq hfirst, ok_bind]

/-! ### Mounting a snapshot -/

/-- The history of the volume `v` is what `open_snapshot` and its companions make of it. -/
structure ServesHistory (img : Image) (v : ApfsVolume) (blockSize : ℕ) (t : Timeline) : Prop where
  /-- The snapshots are listed by transaction. -/
  snapshots : ApfsFs.snapshots img = .ok t.inOrder
  /-- A name resolves to the transaction of its snapshot, or to none. -/
  resolve_snapshot_xid : ∀ name,
    resolveSnapshotXid img v name blockSize = .ok ((t.named name).map Snapshot.xid)
  /-- The live transaction is the live volume. -/
  live : ApfsFs.openSnapshot img v.xid = ApfsFs.open img
  /-- A transaction that is neither live nor retained is refused. -/
  refused : ∀ xid, xid ≠ v.xid → t.atXid xid = none →
    ApfsFs.openSnapshot img xid = fail (.snapshotNotFound xid)
  /-- A retained transaction mounts the superblock frozen at it, over the live object map. -/
  retained : ∀ s ∈ t.snapshots, s.xid ≠ v.xid → ∀ frozen,
    VolumeAt img blockSize s.sblockOid frozen →
    ApfsFs.openSnapshot img s.xid = .ok ⟨frozen.withOmapOid v.omapOid, blockSize, s.xid⟩
  /-- What its file-system tree held is served. -/
  contents : ∀ s ∈ t.snapshots, ∀ frozen, VolumeAt img blockSize s.sblockOid frozen →
    ∀ mappings tree c, VolumeOn img (frozen.withOmapOid v.omapOid) blockSize mappings tree c →
    ∀ host : Host, host.usizeBits = 64 →
    ServesContents ⟨frozen.withOmapOid v.omapOid, blockSize, s.xid⟩ host img c

section History

variable {img : Image} {v : ApfsVolume} {blockSize : ℕ} {mappings : Shape ℕ Entry}
  {tree : Shape SnapNode Entry} {t : Timeline}

/-- Which snapshot is picked. -/
theorem find?_inOrder (t : Timeline) (xid : ℕ) :
    (t.inOrder.find? fun s => s.xid == xid) = t.atXid xid :=
  find?_sortSnapshots xid t.snapshots

theorem Timeline.atXid_of_mem {s : Snapshot} (hs : s ∈ t.snapshots) : t.atXid s.xid = some s := by
  rw [Timeline.atXid]
  cases hfind : t.snapshots.find? fun s' => s'.xid == s.xid with
  | none => exact absurd (beq_self_eq_true s.xid) (List.find?_eq_none.mp hfind s hs)
  | some s' =>
    have hxid : s'.xid = s.xid := by simpa using List.find?_some hfind
    rw [Timeline.eq_of_xid (List.mem_of_find?_eq_some hfind) hs hxid]

/-- The mount path of a transaction other than the live one. -/
theorem openSnapshot_of_ne (h : SnapshotsOn img v blockSize mappings tree t)
    (hopen : openFirstVolume img = .ok (v, blockSize)) {xid : ℕ} (hne : xid ≠ v.xid) :
    ApfsFs.openSnapshot img xid =
      match t.atXid xid with
      | none => fail (.snapshotNotFound xid)
      | some s => (fun volume => ⟨volume, blockSize, xid⟩) <$> mountSnapshot img v s blockSize := by
  simp only [ApfsFs.openSnapshot, hopen, ok_bind, if_neg hne, mountAt, h.listSnapshots_eq,
    find?_inOrder]
  cases t.atXid xid with
  | none => rfl
  | some s => cases mountSnapshot img v s blockSize <;> rfl

/-- A snapshot is mounted with the superblock that its record points at. -/
theorem mountSnapshot_eq {s : Snapshot} {frozen : ApfsVolume}
    (h : VolumeAt img blockSize s.sblockOid frozen) :
    mountSnapshot img v s blockSize = .ok (frozen.withOmapOid v.omapOid) := by
  obtain ⟨buf, hbuf, hparse⟩ := bind_eq_ok.mp h.read
  rw [mountSnapshot, hbuf, ok_bind, hparse, ok_bind]

theorem openSnapshot_of_mem (h : SnapshotsOn img v blockSize mappings tree t)
    (hopen : openFirstVolume img = .ok (v, blockSize)) {s : Snapshot} (hs : s ∈ t.snapshots)
    (hne : s.xid ≠ v.xid) {frozen : ApfsVolume}
    (hfrozen : VolumeAt img blockSize s.sblockOid frozen) :
    ApfsFs.openSnapshot img s.xid = .ok ⟨frozen.withOmapOid v.omapOid, blockSize, s.xid⟩ := by
  rw [openSnapshot_of_ne h hopen hne, Timeline.atXid_of_mem hs]
  dsimp only
  rw [mountSnapshot_eq hfrozen, map_ok]

end History

/-- **A written history is mounted.** From the image alone, the snapshots that were written are
listed and named, and each of them is mounted as the volume that was frozen. -/
theorem written_snapshots_are_mounted (img : Image) (boot nx : NxSuperblock) (live : ℕ)
    (mappings : Shape ℕ Entry) (v : ApfsVolume) (vmappings : Shape ℕ Entry)
    (tree : Shape SnapNode Entry) (t : Timeline) (h : ContainerOn img boot nx live mappings)
    (hfirst : FirstVolumeOn img nx mappings v)
    (hsnaps : SnapshotsOn img v nx.blockSize vmappings tree t) :
    ServesHistory img v nx.blockSize t := by
  have hopen := h.openFirstVolume_eq hfirst
  exact
    { snapshots := by
        rw [ApfsFs.snapshots, hopen, ok_bind]
        exact hsnaps.listSnapshots_eq
      resolve_snapshot_xid := hsnaps.resolveSnapshotXid_eq
      live := by
        simp only [ApfsFs.openSnapshot, ApfsFs.open, hopen, ok_bind, if_true]
      refused := fun xid hne hnone => by
        rw [openSnapshot_of_ne hsnaps hopen hne, hnone]
      retained := fun s hs hne frozen hfrozen => openSnapshot_of_mem hsnaps hopen hs hne hfrozen
      contents := fun s _ frozen _ mappings tree c hc host hbits =>
        VolumeOn.serves hc hbits }

/-! A container with one volume at transaction 5, which has one file, and snapshots of it at
transactions 3 and 4, from before the file. The snapshot-metadata tree has a root and two leaves. -/

/-- The container superblock. -/
def keptContainer : NxSuperblock :=
  ⟨5, List.replicate 16 0, 4096, 12, 0, 1, 1, 0, 0, 2, 0, 0, [1026], false, false⟩

private def keptUnread : NxUnread :=
  ⟨1, 0x8000, 0, 0, 0, 0, 0, [1026], List.replicate 3904 0⟩

private theorem keptContainer_fits : keptContainer.Fits keptUnread := by
  constructor <;> decide

/-- The volume at the given transaction. Only the live superblock has an object map. -/
def keptVolume (xid omapOid : ℕ) : ApfsVolume :=
  ⟨1026, xid, 0, 0, 0, 0, 2, omapOid, 10, 0, 13, List.replicate 16 0, 0, ['v']⟩

private def keptVolumeUnread : VolumeUnread :=
  ⟨0, 0, 0, 0, 0, 0, List.replicate 3136 0⟩

private theorem keptNow_fits : (keptVolume 5 5).Fits := by
  constructor <;> decide

private theorem keptThen_fits : ∀ xid ∈ [3, 4], (keptVolume xid 0).Fits := by
  simp only [List.forall_mem_cons, List.not_mem_nil, false_imp_iff, implies_true, and_true]
  constructor <;> constructor <;> decide

/-- The extent of the file. -/
def keptExtent : FileExtent :=
  ⟨0, 4096, 9⟩

private theorem keptExtent_fits : ExtentFits 16 keptExtent 0 0 := by
  constructor <;> decide

/-- The contents at transactions 3 and 4. -/
private def contentsThen : Contents where
  records := [.inode sampleDir sampleUnread sampleDir_fits]
  sorted := by decide

/-- The contents at transaction 5. -/
def contentsNow : Contents where
  records :=
    [.inode sampleDir sampleUnread sampleDir_fits,
      .dirRec 2 (some 5) sampleEntry [] sampleEntry_fits,
      .inode sampleFile sampleUnread sampleFile_fits, .fileExtent 16 keptExtent 0 0 keptExtent_fits]
  sorted := by decide

/-- The snapshots. -/
private def keptFirst : Snapshot :=
  ⟨3, ['s'], 0, 0, 12, 0, 0, 0⟩

private def keptSecond : Snapshot :=
  ⟨4, ['t'], 0, 0, 14, 0, 0, 0⟩

private theorem keptFirst_fits : keptFirst.Fits := by
  constructor <;> decide

private theorem keptSecond_fits : keptSecond.Fits := by
  constructor <;> decide

private theorem keptFirst_named : SnapNameFits 0 ['s'] 3 := by
  constructor <;> decide

private theorem keptSecond_named : SnapNameFits 0 ['t'] 4 := by
  constructor <;> decide

/-- The records of the two leaves. -/
private def keptMetadata : List SnapRecord :=
  [.metadata keptSecond 2 keptSecond_fits, .metadata keptFirst 2 keptFirst_fits]

private def keptNames : List SnapRecord :=
  [.named 0 ['t'] 4 keptSecond_named, .named 0 ['s'] 3 keptFirst_named]

/-- The separators of the root, with the virtual ids of the leaves. -/
private def keptSeparators : List Entry :=
  [⟨encodeJkey 1 3, leBytes 8 1030⟩, ⟨snapNameKey 0 (utf8Bytes ['t']), leBytes 8 1031⟩]

/-- The snapshot-metadata tree. -/
private def keptTree : Shape SnapNode Entry :=
  .index ⟨true, 13⟩ keptSeparators
    [.leaf ⟨false, 1030⟩ (keptMetadata.map SnapRecord.encode),
      .leaf ⟨false, 1031⟩ (keptNames.map SnapRecord.encode)]

/-- The history. -/
private def keptTimeline : Timeline where
  snapshots := [keptSecond, keptFirst]
  xids := by decide
  names := by decide

/-- The mappings of the container, and of the volume. -/
def keptVolumeMapped : List Entry :=
  [encodeOmapEntry 1026 5 4]

def keptNodesMapped : List Entry :=
  [encodeOmapEntry 10 3 7, encodeOmapEntry 10 5 8, encodeOmapEntry 1030 4 10,
    encodeOmapEntry 1031 4 11]

/-- The blocks of the image. -/
private def keptBlocks : List Bytes :=
  [encodeSuperblock keptContainer keptUnread, encodeSuperblock keptContainer keptUnread,
    encodeObjectMap 3 4096, encodeNode 7 0 keptVolumeMapped 4096,
    encodeVolume (keptVolume 5 5) keptVolumeUnread, encodeObjectMap 6 4096,
    encodeNode 7 0 keptNodesMapped 4096,
    encodeNode 2 0 (contentsThen.records.map FsRecord.encode) 4096,
    encodeNode 2 0 (contentsNow.records.map FsRecord.encode) 4096,
    [65, 66, 67] ++ List.replicate 4093 0,
    encodeNode 2 0 (keptMetadata.map SnapRecord.encode) 4096,
    encodeNode 2 0 (keptNames.map SnapRecord.encode) 4096,
    encodeVolume (keptVolume 3 0) keptVolumeUnread, encodeNode 1 1 keptSeparators 4096,
    encodeVolume (keptVolume 4 0) keptVolumeUnread]

private theorem length_keptBlocks : ∀ b ∈ keptBlocks, b.length = 4096 := by
  have hsuper : (encodeSuperblock keptContainer keptUnread).length = 4096 := by
    rw [length_encodeSuperblock keptContainer_fits,
      show keptUnread.rest = List.replicate 3904 0 from rfl, List.length_replicate]
    rfl
  have hvolume : ∀ {v : ApfsVolume}, v.Fits →
      (encodeVolume v keptVolumeUnread).length = 4096 := by
    intro v h
    rw [length_encodeVolume h, show keptVolumeUnread.rest = List.replicate 3136 0 from rfl,
      List.length_replicate]
    rfl
  have hdata : ([65, 66, 67] ++ List.replicate 4093 0 : Bytes).length = 4096 := by
    rw [List.length_append, List.length_replicate]
    rfl
  simp only [keptBlocks, List.forall_mem_cons]
  refine ⟨hsuper, hsuper, length_encodeObjectMap (by decide), ?_, hvolume keptNow_fits,
    length_encodeObjectMap (by decide), ?_, ?_, ?_, hdata, ?_, ?_,
    hvolume (keptThen_fits 3 (by decide)), ?_, hvolume (keptThen_fits 4 (by decide)),
    fun b hb => absurd hb List.not_mem_nil⟩
  all_goals exact length_encodeNode_of_packed _ (by decide +kernel)

private theorem length_flatten_keptBlocks : keptBlocks.flatten.length = 61440 :=
  length_flatten_blocks length_keptBlocks

/-- The image. -/
def keptImage : Image where
  bytes := keptBlocks.flatten
  length_lt := by
    rw [length_flatten_keptBlocks]
    decide

theorem length_keptImage : keptImage.bytes.length = 61440 :=
  length_flatten_keptBlocks

private theorem kept_block {p : ℕ} {block : Bytes} (h : keptBlocks[p]? = some block) :
    keptImage.block 4096 p = some block :=
  Image.block_of_flatten rfl length_keptBlocks h

private theorem kept_node {subtype : BTreeSubtype} {p : ℕ} {es : List Entry} (flags level : ℕ)
    (h : keptBlocks[p]? = some (encodeNode flags level es 4096))
    (hpack : Packable subtype flags level es 4096) :
    NodeOn keptImage 4096 subtype p
      (if (flags &&& 0x2 != 0) || level == 0 then .leaf es else .index es) :=
  .of_packed flags level (kept_block h) hpack

private theorem kept_superblock {p : ℕ}
    (h : keptBlocks[p]? = some (encodeSuperblock keptContainer keptUnread)) :
    SuperblockAt keptImage 4096 p 5 :=
  SuperblockAt.of_encode (kept_block h) keptContainer_fits

private theorem kept_volumeOmap :
    ObjectMapOn keptImage 4096 5 (.leaf 6 keptNodesMapped) :=
  .of_leaf (by decide) (by decide) (kept_block rfl)
    (kept_node 7 0 rfl (by decide)) (by decide)

theorem kept_containerOn :
    ContainerOn keptImage keptContainer keptContainer 1 (.leaf 3 keptVolumeMapped) where
  bootstraps := by
    have hblock : keptImage.block 4096 0 = some _ := kept_block rfl
    have hread := Image.readExact_saturatingMul keptImage (show 4096 ≠ 0 by decide) 0
    rw [hblock] at hread
    exact ⟨⟨_, hread, NxSuperblock.parse_encodeSuperblock keptContainer_fits⟩, by decide,
      rfl, by decide, by decide⟩
  blockSize_eq := rfl
  newest :=
    { inRing := by decide
      valid := kept_superblock rfl
      newest := fun p x hlow hhigh h => by
        obtain rfl : p = 1 := by
          rw [show keptContainer.xpDescBase = 1 from rfl] at hlow
          rw [show keptContainer.xpDescBase + keptContainer.xpDescBlocks = 2 from rfl] at hhigh
          omega
        exact (h.unique (kept_superblock rfl)).le
      lowest := fun p hlow _ _ => hlow }
  superblock := ⟨_, kept_block rfl, NxSuperblock.parse_encodeSuperblock keptContainer_fits⟩
  omap := .of_leaf (by decide) (by decide) (kept_block rfl)
    (kept_node 7 0 rfl (by decide)) (by decide)
  volumes := by
    intro oid hoid
    obtain rfl : oid = 1026 := List.mem_singleton.mp hoid
    exact ⟨⟨1026, 5, 4, 0, 0⟩, by decide, by decide, by decide⟩

theorem kept_firstVolume :
    FirstVolumeOn keptImage keptContainer (.leaf 3 keptVolumeMapped) (keptVolume 5 5) where
  first := ⟨1026, rfl, ⟨1026, 5, 4, 0, 0⟩, ⟨by decide, by decide, by decide⟩, _,
    kept_block rfl, ApfsVolume.parse_encodeVolume keptNow_fits keptVolumeUnread⟩

theorem kept_now :
    VolumeOn keptImage (keptVolume 5 5) 4096 (.leaf 6 keptNodesMapped)
      (.leaf 10 (contentsNow.records.map FsRecord.encode)) contentsNow :=
  .of_leaf (by decide) kept_volumeOmap rfl (e := ⟨10, 5, 8, 0, 0⟩)
    ⟨by decide, by decide, by decide⟩ (kept_node 2 0 rfl (by decide +kernel))

private theorem kept_then {xid : ℕ} (hxid : xid ∈ [3, 4]) :
    VolumeOn keptImage ((keptVolume xid 0).withOmapOid 5) 4096 (.leaf 6 keptNodesMapped)
      (.leaf 10 (contentsThen.records.map FsRecord.encode)) contentsThen := by
  have hnewest : ∀ xid ∈ [3, 4], OmapEntry.Candidate 10 xid ⟨10, 3, 7, 0, 0⟩ ∧
      ∀ e ∈ keptNodesMapped.map OmapEntry.ofEntry, e.Candidate 10 xid → e.xid ≤ 3 := by
    decide
  exact .of_leaf (by decide) kept_volumeOmap rfl (e := ⟨10, 3, 7, 0, 0⟩)
    ⟨by decide, hnewest xid hxid⟩ (kept_node 2 0 rfl (by decide))

private theorem kept_snapshotsOn :
    SnapshotsOn keptImage (keptVolume 5 5) 4096 (.leaf 6 keptNodesMapped) keptTree
      keptTimeline where
  blockSize_ne := by decide
  omap := kept_volumeOmap
  nodes := by
    intro s hs
    simp only [keptTree, Shape.isSubtree_index, List.mem_cons, List.not_mem_nil, or_false,
      exists_eq_or_imp, exists_eq_left, Shape.isSubtree_leaf] at hs
    rcases hs with rfl | rfl | rfl
    · exact ⟨13, rfl, kept_node 1 1 rfl (by decide)⟩
    · exact ⟨10, ⟨⟨1030, 4, 10, 0, 0⟩, ⟨by decide, by decide, by decide⟩, rfl⟩,
        kept_node 2 0 rfl (by decide)⟩
    · exact ⟨11, ⟨⟨1031, 4, 11, 0, 0⟩, ⟨by decide, by decide, by decide⟩, rfl⟩,
        kept_node 2 0 rfl (by decide)⟩
  linked := by
    intro s hs
    simp only [keptTree, Shape.isSubtree_index, List.mem_cons, List.not_mem_nil, or_false,
      exists_eq_or_imp, exists_eq_left, Shape.isSubtree_leaf] at hs
    rcases hs with rfl | rfl | rfl
    · rintro _ ⟨⟩
      decide
    · rintro _ ⟨⟩
    · rintro _ ⟨⟩
  root := rfl
  height := by decide
  nodup := by decide
  records := ⟨keptMetadata ++ keptNames, by decide, by decide, by decide⟩

theorem kept_fileOn : FileOn sampleHost keptImage 4096 contentsNow sampleFile [65, 66, 67] := by
  have hexts : contentsNow.records.filterMap (FsRecord.extentOf sampleFile.privateId) =
      [keptExtent] := by
    decide
  have hdata : keptImage.block 4096 9 = some ([65, 66, 67] ++ List.replicate 4093 0) :=
    kept_block rfl
  refine ⟨by decide, .plain (by decide) (by decide) (by decide) ⟨?_, ?_⟩⟩
  · rw [hexts, List.forall_mem_singleton]
    refine ⟨by decide, fun k hk hlt => ?_⟩
    have hlt : k < 3 := by simpa [keptExtent] using hlt
    rw [if_neg (by decide), show keptExtent.logicalOffset + k = k from Nat.zero_add k,
      show keptExtent.physBlockNum = 9 from rfl, ← getElem?_of_slice hdata (by omega),
      List.getElem?_append_left hlt]
  · rw [hexts]
    intro i hi
    have hi : i < 3 := hi
    exact ⟨keptExtent, List.mem_singleton_self _, Nat.zero_le i,
      hi.trans (by decide : 3 < keptExtent.logicalOffset + keptExtent.len)⟩

/-- The live volume as it is mounted. -/
def keptFs : ApfsFs :=
  ⟨keptVolume 5 5, 4096, 5⟩

/-- The container is mounted, and its file is found and read. -/
theorem sample_container_mounted :
    ApfsFs.open keptImage = .ok keptFs ∧
      keptFs.walkNames keptImage (some keptFs.root) [[97]] = .ok (some (.apfsOid 16 5)) ∧
      readWindows (keptFs.readBytes sampleHost keptImage (.apfsOid 16 5)) 0 [2, 5] =
        .ok [65, 66, 67] := by
  obtain ⟨hopen, hserves⟩ := written_container_is_mounted sampleHost keptImage keptContainer
    keptContainer 1 (.leaf 3 keptVolumeMapped) (keptVolume 5 5) (.leaf 6 keptNodesMapped)
    (.leaf 10 (contentsNow.records.map FsRecord.encode)) contentsNow rfl kept_containerOn
    kept_firstVolume kept_now
  have hwalk : ((pathComponents ['a']).foldlM contentsNow.step rootDirInoNum).toOption =
      some 16 := by
    decide
  refine ⟨hopen, ?_, (hserves.reads sampleFile [65, 66, 67] 5 kept_fileOn).sequence 0 [2, 5]⟩
  have h := hserves.walk ['a']
  rwa [hwalk] at h

/-- The snapshots are listed by transaction and found by their names, and each is mounted as the
volume was before the file. -/
theorem sample_history_mounted :
    ApfsFs.snapshots keptImage = .ok [keptFirst, keptSecond] ∧
      resolveSnapshotXid keptImage (keptVolume 5 5) ['t'] 4096 = .ok (some 4) ∧
      ApfsFs.openSnapshot keptImage 2 = fail (.snapshotNotFound 2) ∧
      ∀ s ∈ [keptFirst, keptSecond], ∃ fs, ApfsFs.openSnapshot keptImage s.xid = .ok fs ∧
        fs.root = .apfsOid 2 s.xid ∧
        fs.walkNames keptImage (some fs.root) [[97]] = .ok none := by
  have h := written_snapshots_are_mounted keptImage keptContainer keptContainer 1
    (.leaf 3 keptVolumeMapped) (keptVolume 5 5) (.leaf 6 keptNodesMapped) keptTree keptTimeline
    kept_containerOn kept_firstVolume kept_snapshotsOn
  refine ⟨h.snapshots.trans (by decide), (h.resolve_snapshot_xid ['t']).trans (by decide),
    h.refused 2 (by decide) (by decide), fun s hs => ?_⟩
  have hmem : s ∈ keptTimeline.snapshots ∧ s.xid ∈ [3, 4] ∧ s.xid ≠ 5 := by
    revert s
    decide
  have hfrozen : VolumeAt keptImage 4096 s.sblockOid (keptVolume s.xid 0) := by
    refine ⟨_, kept_block ?_, ApfsVolume.parse_encodeVolume (keptThen_fits s.xid hmem.2.1)
      keptVolumeUnread⟩
    simp only [List.mem_cons, List.not_mem_nil, or_false] at hs
    rcases hs with rfl | rfl <;> rfl
  refine ⟨_, h.retained s hmem.1 hmem.2.2 _ hfrozen, rfl, ?_⟩
  have hserves := h.contents s hmem.1 _ hfrozen (.leaf 6 keptNodesMapped)
    (.leaf 10 (contentsThen.records.map FsRecord.encode)) contentsThen (kept_then hmem.2.1)
    sampleHost rfl
  have hwalk : ((pathComponents ['a']).foldlM contentsThen.step rootDirInoNum).toOption =
      none := by
    decide
  have hstep := hserves.walk ['a']
  rwa [hwalk] at hstep

end ApfsCore
