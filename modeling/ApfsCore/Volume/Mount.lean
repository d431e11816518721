import ApfsCore.Container.Open
import ApfsCore.Volume.Snapshot

/-!
# Mounting a volume and its snapshots

The bootstrap of `vfs.rs`: `ApfsFs.open` mounts the first volume of a container, and
`ApfsFs.openSnapshot` the same volume at an earlier transaction. A snapshot is found by the
transaction id in the key of its metadata record; the volume it is mounted as is parsed from
the block that the record points at, and every later lookup uses the transaction id of that
block.

Nothing compares the two transaction ids. What follows is that the mounted volume is read at the
transaction asked for exactly when the block the record points at, if it is a volume superblock
at all, was frozen at that transaction.
-/

namespace ApfsCore

/-! ### The model -/

/-- A mounted volume. The image is passed separately. -/
structure ApfsFs where
  volume : ApfsVolume
  blockSize : ℕ
  rootXid : ℕ

/-- `ApfsFs::open_first_volume`: the live volume and the container's block size. -/
def openFirstVolume (img : Image) : Result (ApfsVolume × ℕ) := do
  let container ← ApfsContainer.open img
  let blockSize := container.superblock.blockSize
  let addrs ← container.volumeSuperblockAddrs img
  match addrs.head? with
  | none => fail (.noValidSuperblock 0 0)
  | some vaddr => do
    let buf ← img.readExact (saturatingMul vaddr blockSize) blockSize
    let volume ← ApfsVolume.parse buf
    .ok (volume, blockSize)

/-- `ApfsFs::open`. -/
def ApfsFs.open (img : Image) : Result ApfsFs := do
  let (volume, blockSize) ← openFirstVolume img
  .ok { volume, blockSize, rootXid := volume.xid }

/-- The snapshot mount path of `open_snapshot`: list the snapshots, pick the first one of the
transaction asked for, and mount it. -/
def mountAt (img : Image) (live : ApfsVolume) (blockSize xid : ℕ) : Result ApfsVolume := do
  let snaps ← listSnapshots img live blockSize
  match snaps.find? fun s => s.xid == xid with
  | none => fail (.snapshotNotFound xid)
  | some snapshot => mountSnapshot img live snapshot blockSize

/-- `ApfsFs::open_snapshot`. -/
def ApfsFs.openSnapshot (img : Image) (xid : ℕ) : Result ApfsFs := do
  let (live, blockSize) ← openFirstVolume img
  if xid = live.xid then .ok { volume := live, blockSize, rootXid := xid }
  else do
    let volume ← mountAt img live blockSize xid
    .ok { volume, blockSize, rootXid := xid }

/-- `ApfsFs::snapshots`. -/
def ApfsFs.snapshots (img : Image) : Result (List Snapshot) := do
  let (volume, blockSize) ← openFirstVolume img
  listSnapshots img volume blockSize

/-! ### Which record is picked -/

/-- Sorting does not change which snapshot of a transaction comes first. -/
theorem find?_sortSnapshots (xid : ℕ) (snaps : List Snapshot) :
    ((sortSnapshots snaps).find? fun s => s.xid == xid) =
      snaps.find? fun s => s.xid == xid := by
  -- a snapshot is inserted behind those of smaller transaction ids only
  have hinsert : ∀ (s : Snapshot) (l : List Snapshot),
      ((l.orderedInsert (fun a b => a.xid ≤ b.xid) s).find? fun s => s.xid == xid) =
        (s :: l).find? fun s => s.xid == xid := by
    intro s l
    induction l with
    | nil => rfl
    | cons b l ih =>
      rw [List.orderedInsert_cons]
      split_ifs with hle
      · rfl
      · rw [List.find?_cons, ih, List.find?_cons, List.find?_cons, List.find?_cons]
        by_cases hs : s.xid = xid
        · have hb : (b.xid == xid) = false := beq_false_of_ne (by omega)
          rw [hb]
        · have hs' : (s.xid == xid) = false := beq_false_of_ne hs
          rw [hs']
  induction snaps with
  | nil => rfl
  | cons s snaps ih =>
    rw [sortSnapshots, List.insertionSort_cons, hinsert, List.find?_cons, List.find?_cons,
      ← sortSnapshots, ih]

section Mount

variable {img : Image} {live : ApfsVolume} {blockSize xid : ℕ}

/-- A mounted snapshot comes from the first metadata record of its transaction, and is read at
the transaction of the block that the record points at. -/
theorem mountAt_eq_ok {v : ApfsVolume} (h : mountAt img live blockSize xid = .ok v) :
    ∃ rs s buf, forEachSnapRecord img live blockSize = .ok rs ∧
      ((rs.filterMap snapshotOf).find? fun s => s.xid == xid) = some s ∧
      img.block blockSize s.sblockOid = some buf ∧ VolumeGates buf ∧
      v.xid = leU64 buf 16 := by
  obtain ⟨snaps, hsnaps, h⟩ := bind_eq_ok.mp h
  obtain ⟨rs, hrs, hsorted⟩ := bind_eq_ok.mp hsnaps
  cases hsorted
  rw [find?_sortSnapshots] at h
  cases hfind : (rs.filterMap snapshotOf).find? fun s => s.xid == xid with
  | none =>
    rw [hfind] at h
    exact absurd h (fail_ne_ok _ _)
  | some s =>
    rw [hfind] at h
    obtain ⟨buf, hread, h⟩ := bind_eq_ok.mp h
    obtain ⟨parsed, hparse, hv⟩ := bind_eq_ok.mp h
    cases hv
    obtain ⟨hgates, hxid⟩ := ApfsVolume.xid_of_parse hparse
    refine ⟨rs, s, buf, hrs, hfind, ?_, hgates, hxid⟩
    have hbs : blockSize ≠ 0 := by
      rintro rfl
      rw [Image.readExact, if_pos rfl] at hread
      cases hread
      exact absurd hgates.length (by decide)
    rw [Image.readExact_saturatingMul img hbs] at hread
    cases hblock : img.block blockSize s.sblockOid with
    | none =>
      rw [hblock] at hread
      exact absurd hread (fail_ne_ok _ _)
    | some buf' =>
      rw [hblock] at hread
      cases hread
      rfl

/-- Whatever volume superblock the first metadata record of a transaction points at is
mounted. -/
theorem mountAt_of_gates {rs : List Entry} {s : Snapshot} {buf : Bytes}
    (hrs : forEachSnapRecord img live blockSize = .ok rs)
    (hfind : ((rs.filterMap snapshotOf).find? fun s => s.xid == xid) = some s)
    (hblock : img.block blockSize s.sblockOid = some buf) (hgates : VolumeGates buf) :
    ∃ v, mountAt img live blockSize xid = .ok v ∧ v.xid = leU64 buf 16 := by
  obtain ⟨parsed, hparse⟩ : ∃ v, ApfsVolume.parse buf = .ok v := ⟨_, hgates.parse_eq⟩
  have hbs : blockSize ≠ 0 := by
    rintro rfl
    have hlen := Image.length_of_block hblock
    have hmin := hgates.length
    rw [hlen] at hmin
    exact absurd hmin (by decide)
  refine ⟨parsed.withOmapOid live.omapOid, ?_, (ApfsVolume.xid_of_parse hparse).2⟩
  rw [mountAt, listSnapshots, hrs, ok_bind, ok_bind, find?_sortSnapshots, hfind]
  simp only [mountSnapshot, Image.readExact_saturatingMul img hbs, hblock, ok_bind, hparse]

/-- What is asked of the mount path: a volume that it mounts is read at the transaction asked
for. -/
def MountsAt (img : Image) (live : ApfsVolume) (blockSize xid : ℕ) : Prop :=
  ∀ v, mountAt img live blockSize xid = .ok v → v.xid = xid

/-- The block that the first metadata record of a transaction points at, when it is a volume
superblock, was frozen at that transaction. -/
def RecordFrozenAt (img : Image) (live : ApfsVolume) (blockSize xid : ℕ) : Prop :=
  ∀ rs s buf, forEachSnapRecord img live blockSize = .ok rs →
    ((rs.filterMap snapshotOf).find? fun s => s.xid == xid) = some s →
    img.block blockSize s.sblockOid = some buf → VolumeGates buf → leU64 buf 16 = xid

/-- **A mounted snapshot is the transaction asked for exactly when the block its record points
at was frozen then.** -/
theorem mountsAt_iff (img : Image) (live : ApfsVolume) (blockSize xid : ℕ) :
    MountsAt img live blockSize xid ↔ RecordFrozenAt img live blockSize xid := by
  constructor
  · intro h rs s buf hrs hfind hblock hgates
    obtain ⟨v, hv, hxid⟩ := mountAt_of_gates hrs hfind hblock hgates
    rw [← hxid]
    exact h v hv
  · intro h v hv
    obtain ⟨rs, s, buf, hrs, hfind, hblock, hgates, hxid⟩ := mountAt_eq_ok hv
    rw [hxid]
    exact h rs s buf hrs hfind hblock hgates

end Mount

/-! A volume at transaction 7 whose metadata record of the snapshot 3 points at the volume's own
live superblock. -/

deriving instance DecidableEq for ApfsVolume

/-- The live volume: object map at block 0, snapshot-metadata tree at block 1. -/
def staleVolume : ApfsVolume :=
  ⟨9, 7, 0, 0, 0, 0, 0, 0, 10, 0, 1, List.replicate 16 0, 0, []⟩

/-- Its superblock. -/
private def staleSuperblock : Bytes :=
  stamp (leBytes 8 9 ++ leBytes 8 7 ++ leBytes 4 objectTypeFs ++ leBytes 4 0 ++
    leBytes 4 apfsMagic ++ List.replicate 92 0 ++ leBytes 8 0 ++ leBytes 8 10 ++ leBytes 8 0 ++
    leBytes 8 1 ++ List.replicate 3936 0)

/-- The metadata record of the snapshot 3, which points at block 2. -/
private def staleRecord : Entry :=
  ⟨encodeJkey 1 3, leBytes 8 0 ++ leBytes 8 2 ++ List.replicate 32 0 ++ leBytes 2 2 ++ [115, 0]⟩

/-- The object map, the snapshot-metadata tree and the superblock. -/
def staleImage : Image :=
  ⟨encodeObjectMap 1 4096 ++ encodeNode 3 0 [staleRecord] 4096 ++ staleSuperblock,
    by decide +kernel⟩

private theorem stale_blocks {p : ℕ} {block : Bytes}
    (hp : [encodeObjectMap 1 4096, encodeNode 3 0 [staleRecord] 4096, staleSuperblock][p]? =
      some block) : staleImage.block 4096 p = some block := by
  refine Image.block_of_flatten ?_ ?_ hp
  · rw [List.flatten_cons, List.flatten_cons, List.flatten_singleton, ← List.append_assoc]
    rfl
  · simp only [List.forall_mem_cons]
    refine ⟨length_encodeObjectMap (by decide), length_encodeNode (by decide), ?_,
      fun b hb => absurd hb List.not_mem_nil⟩
    simp only [staleSuperblock, length_stamp, List.length_append, length_leBytes,
      List.length_replicate]

private theorem stale_gates : VolumeGates staleSuperblock :=
  ⟨by decide +kernel, by decide +kernel, by decide +kernel, checksumValid_stamp _⟩

/-- The walk of its snapshot-metadata tree. -/
private theorem stale_records :
    forEachSnapRecord staleImage staleVolume 4096 = .ok [staleRecord] := by
  have hom : readObjectMap staleImage 0 4096 = .ok ⟨0, 0, 1, 0⟩ := by
    rw [readObjectMap_of_block (by decide) (stale_blocks rfl)]
    exact ObjectMap.parse_eq_ok_iff.mpr
      ⟨by decide +kernel, by decide +kernel, checksumValid_stamp _, by decide +kernel⟩
  have hnode : nodeOf (encodeNode 3 0 [staleRecord] 4096) .fsTree = .leaf [staleRecord] := by
    decide +kernel
  have hroot : fetchSnap staleImage ⟨0, 0, 1, 0⟩ 7 4096 ⟨true, 1⟩ = .ok (.leaf [staleRecord]) := by
    have hread : readVerifiedBlock staleImage 1 4096 =
        .ok (encodeNode 3 0 [staleRecord] 4096) :=
      (readVerifiedBlock_eq_ok_iff (by decide)).mpr ⟨stale_blocks rfl, checksumValid_stamp _⟩
    rw [fetchSnap, snapPaddr, if_pos rfl, ok_bind, hread, ok_bind, hnode]
  rw [forEachSnapRecord, show staleVolume.omapOid = 0 from rfl, hom, ok_bind, descendSnap,
    walk_snd_eq_ok_iff]
  exact ⟨_, explore_succ_eq_ok.mpr (.inl ⟨hroot, rfl⟩), List.nodup_singleton _⟩

/-- The snapshot 3 is mounted, but as the live volume. -/
theorem stale_not_mounted_at_three :
    (staleImage.block 4096 2).map ApfsVolume.parse = some (.ok staleVolume) ∧
      ¬MountsAt staleImage staleVolume 4096 3 := by
  have hblock : staleImage.block 4096 2 = some staleSuperblock := stale_blocks rfl
  constructor
  · rw [hblock, Option.map_some, stale_gates.parse_eq]
    decide +kernel
  · intro h
    have hfind : (([staleRecord].filterMap snapshotOf).find? fun s => s.xid == 3) =
        some (parseSnapMetadata 3 staleRecord.value) := by decide +kernel
    obtain ⟨v, hv, hxid⟩ := mountAt_of_gates stale_records hfind hblock stale_gates
    have hseven : leU64 staleSuperblock 16 = 7 := by decide +kernel
    exact absurd ((h v hv).symm.trans (hxid.trans hseven)) (by decide)

end ApfsCore
