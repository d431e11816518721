import ApfsCore.Format.Object

/-!
# The volume superblock

`volume.rs`. A volume is named by its superblock: the object map its virtual ids resolve
through, the root of its file-system tree, and the transaction it is read at. A snapshot is
the same structure with the live volume's object map put in.
-/

namespace ApfsCore

/-- `APFS_MAGIC`, "APSB" on disk. -/
def apfsMagic : ℕ := 0x42535041

/-- `OBJECT_TYPE_FS`. -/
def objectTypeFs : ℕ := 0xd

/-- `APSB_MIN_LEN`: the header through the volume name. -/
def apsbMinLen : ℕ := 960

/-- A parsed volume superblock. -/
structure ApfsVolume where
  oid : ℕ
  xid : ℕ
  fsIndex : ℕ
  features : ℕ
  readonlyCompatibleFeatures : ℕ
  incompatibleFeatures : ℕ
  rootTreeType : ℕ
  omapOid : ℕ
  rootTreeOid : ℕ
  extentrefTreeOid : ℕ
  snapMetaTreeOid : ℕ
  uuid : Bytes
  fsFlags : ℕ
  name : Str

/-- `decode_volname`. -/
def decodeVolname (block : Bytes) (offset len : ℕ) : Str :=
  match slice block offset (offset + len) with
  | none => []
  | some field => decodeCstr field

/-- The fields of a volume superblock, read once its gates have passed. -/
def ApfsVolume.ofBlock (hdr : ObjPhys) (block : Bytes) : ApfsVolume where
  oid := hdr.oid
  xid := hdr.xid
  fsIndex := leU32 block 36
  features := leU64 block 40
  readonlyCompatibleFeatures := leU64 block 48
  incompatibleFeatures := leU64 block 56
  rootTreeType := leU32 block 116
  omapOid := leU64 block 128
  rootTreeOid := leU64 block 136
  extentrefTreeOid := leU64 block 144
  snapMetaTreeOid := leU64 block 152
  uuid := arr 16 block 240
  fsFlags := leU64 block 256
  name := decodeVolname block 704 256

/-- `ApfsVolume::parse`. -/
def ApfsVolume.parse (block : Bytes) : Result ApfsVolume :=
  if block.length < apsbMinLen then fail (.unexpectedObjectType "apfs_superblock" apfsMagic 0)
  else
    match ObjPhys.parse block with
    | none => fail (.unexpectedObjectType "apfs_superblock" apfsMagic 0)
    | some hdr =>
      if hdr.objType ≠ objectTypeFs then
        fail (.unexpectedObjectType "apfs_superblock" objectTypeFs hdr.objTypeRaw)
      else if leU32 block 32 ≠ apfsMagic then
        fail (.unexpectedObjectType "apfs_superblock" apfsMagic (leU32 block 32))
      else if ¬ChecksumValid block then
        fail (.checksumMismatch hdr.oid (fletcher64Stored block) (fletcher64Checksum block))
      else .ok (ApfsVolume.ofBlock hdr block)

/-- `ApfsVolume::with_omap_oid`. -/
def ApfsVolume.withOmapOid (v : ApfsVolume) (omapOid : ℕ) : ApfsVolume :=
  { v with omapOid := omapOid }

/-! ### What parses -/

/-- The gates of a volume superblock: its length, type, magic and checksum. -/
structure VolumeGates (block : Bytes) : Prop where
  length : apsbMinLen ≤ block.length
  type : leU32 block 24 &&& 0xffff = objectTypeFs
  magic : leU32 block 32 = apfsMagic
  checksum : ChecksumValid block

/-- The header of a block that is long enough for a volume superblock. -/
private theorem parse_of_apsbMinLen {block : Bytes} (hlen : ¬block.length < apsbMinLen) :
    ObjPhys.parse block =
      some ⟨leU64 block 0, leU64 block 8, leU64 block 16, leU32 block 24, leU32 block 28⟩ := by
  refine if_neg ?_
  rw [apsbMinLen] at hlen
  rw [objPhysLen]
  omega

/-- What parses has passed the gates, and is read at the transaction of its header. -/
theorem ApfsVolume.xid_of_parse {block : Bytes} {v : ApfsVolume}
    (h : ApfsVolume.parse block = .ok v) : VolumeGates block ∧ v.xid = leU64 block 16 := by
  rw [ApfsVolume.parse] at h
  by_cases hlen : block.length < apsbMinLen
  · rw [if_pos hlen] at h
    exact absurd h (fail_ne_ok _ _)
  · rw [if_neg hlen, parse_of_apsbMinLen hlen] at h
    simp only [ObjPhys.objType] at h
    split_ifs at h with htype hmagic hsum
    · exact absurd h (fail_ne_ok _ _)
    · exact absurd h (fail_ne_ok _ _)
    · cases h
      exact ⟨⟨Nat.le_of_not_lt hlen, not_not.mp htype, not_not.mp hmagic, hsum⟩, rfl⟩
    · exact absurd h (fail_ne_ok _ _)

/-- What is read from a block that passes the gates. -/
theorem VolumeGates.parse_eq {block : Bytes} (h : VolumeGates block) :
    ApfsVolume.parse block = .ok (ApfsVolume.ofBlock
      ⟨leU64 block 0, leU64 block 8, leU64 block 16, leU32 block 24, leU32 block 28⟩ block) := by
  have hlen := Nat.not_lt.mpr h.length
  rw [ApfsVolume.parse, if_neg hlen, parse_of_apsbMinLen hlen]
  simp only [ObjPhys.objType]
  rw [if_neg (not_not.mpr h.type), if_neg (not_not.mpr h.magic), if_neg (not_not.mpr h.checksum)]

end ApfsCore
