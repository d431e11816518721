import ApfsCore.Content.ReadData
import ApfsCore.Cursor.Reader

/-!
# Navigation and content through a cursor

The operations of `dir.rs`, `xattr.rs` and `extent.rs` as programs that seek and read. Each comes to
what the plain one does, from any position: a stream of many extents is a sequence of reads each of
which seeks first, and what happens between them (attributes looked up, compressed data decoded)
does not touch the source.
-/

namespace ApfsCore

namespace Cursor

/-! ### Directories, attributes and extents -/

/-- `list_dir`. -/
def listDir (v : ApfsVolume) (parentOid blockSize : ℕ) : Action (List DirEntry) :=
  dirEntries parentOid <$> forEachFsRecordForOid v blockSize parentOid

/-- `lookup_child`. -/
def lookupChild (v : ApfsVolume) (parentOid : ℕ) (name : Str) (blockSize : ℕ) :
    Action (Option ℕ) :=
  childNamed parentOid name <$> forEachFsRecordForOid v blockSize parentOid

/-- `load_inode`. -/
def loadInode (v : ApfsVolume) (oid blockSize : ℕ) : Action Inode := do
  let rs ← forEachFsRecordForOid v blockSize oid
  Program.lift (inodeOf oid v.xid rs)

/-- `get_xattr`, over `list_xattrs`. -/
def getXattr (v : ApfsVolume) (inodeOid : ℕ) (name : Str) (blockSize : ℕ) :
    Action (Option XattrValue) :=
  xattrNamed name <$> (xattrs inodeOid <$> forEachFsRecordForOid v blockSize inodeOid)

/-- `list_extents`. -/
def listExtents (v : ApfsVolume) (streamOid blockSize : ℕ) : Action (List FileExtent) := do
  let rs ← forEachFsRecordForOid v blockSize streamOid
  Program.lift (.ok (sortExtents (fileExtents streamOid rs)))

section Navigation

variable {img : Image} {v : ApfsVolume} {blockSize : ℕ}

theorem answers_listDir (parentOid : ℕ) :
    Answers img (listDir v parentOid blockSize)
      (ApfsCore.listDir img v parentOid blockSize) :=
  (answers_walkFsTree v blockSize _).map _

theorem answers_lookupChild (parentOid : ℕ) (name : Str) :
    Answers img (lookupChild v parentOid name blockSize)
      (ApfsCore.lookupChild img v parentOid name blockSize) :=
  (answers_walkFsTree v blockSize _).map _

theorem answers_loadInode (oid : ℕ) :
    Answers img (loadInode v oid blockSize) (ApfsCore.loadInode img v oid blockSize) :=
  (answers_walkFsTree v blockSize _).bind fun _ _ => .done _

theorem answers_getXattr (inodeOid : ℕ) (name : Str) :
    Answers img (getXattr v inodeOid name blockSize)
      (ApfsCore.getXattr img v inodeOid name blockSize) :=
  ((answers_walkFsTree v blockSize _).map _).map _

theorem answers_listExtents (streamOid : ℕ) :
    Answers img (listExtents v streamOid blockSize)
      (ApfsCore.listExtents img v streamOid blockSize) :=
  (answers_walkFsTree v blockSize _).bind fun _ _ => .done _

end Navigation

/-! ### Content -/

section Model

variable (host : Host)

/-- One extent of `read_stream`. -/
def fillExtent (blockSize size : ℕ) (out : Bytes) (ext : FileExtent) : Action Bytes :=
  let start := host.asUsize ext.logicalOffset
  if start ≥ size ∨ ext.physBlockNum = 0 then Program.lift (.ok out)
  else
    let copyLen := min (host.asUsize ext.len) (size - start)
    match checkedMul ext.physBlockNum blockSize with
    | none =>
      Program.lift <| fail (.fieldOutOfRange "j_file_extent" "phys_block_num" ext.physBlockNum
        ((2 ^ 64 - 1) / blockSize))
    | some byteOff => do
      let data ← readAt byteOff copyLen
      Program.lift (.ok (overwrite out start data))

/-- `read_stream`. -/
def readStream (v : ApfsVolume) (streamOid logicalSize blockSize : ℕ) : Action Bytes :=
  if logicalSize > maxFileBytes then
    Program.lift (fail (.fieldOutOfRange "j_dstream" "size" logicalSize maxFileBytes))
  else do
    let extents ← listExtents v streamOid blockSize
    let size := host.asUsize logicalSize
    extents.foldlM (fillExtent host blockSize size) (List.replicate size 0)

/-- `decmpfs_header`. -/
def decmpfsHeader (v : ApfsVolume) (inodeOid blockSize : ℕ) : Action (Option Bytes) := do
  match ← getXattr v inodeOid xattrNameDecmpfs blockSize with
  | some (.embedded bytes) => Program.lift (.ok (some bytes))
  | some (.stream dstreamOid size) =>
    if size > maxDecmpfsXattrBytes then
      Program.lift <| fail (.fieldOutOfRange "com.apple.decmpfs j_xattr_dstream" "size" size
        maxDecmpfsXattrBytes)
    else some <$> readStream host v dstreamOid size blockSize
  | none => Program.lift (.ok none)

/-- `resource_fork`. -/
def resourceFork (v : ApfsVolume) (inodeOid blockSize : ℕ) : Action (Option Bytes) := do
  match ← getXattr v inodeOid xattrNameResourceFork blockSize with
  | some (.embedded bytes) => Program.lift (.ok (some bytes))
  | some (.stream dstreamOid size) => some <$> readStream host v dstreamOid size blockSize
  | none => Program.lift (.ok none)

/-- `read_compressed`. -/
def readCompressed (v : ApfsVolume) (inode : Inode) (header : Bytes) (blockSize : ℕ) :
    Action Bytes := do
  let compressionType ← Program.lift (decmpfsLeU32 host header 4)
  let needsFork := (classify compressionType).any fun c => c.storage = .resourceFork
  let fork ← (if needsFork then resourceFork host v inode.oid blockSize
    else Program.lift (.ok none))
  Program.lift (decompressDecmpfs host header fork)

/-- `read_data`. -/
def readData (v : ApfsVolume) (inode : Inode) (blockSize : ℕ) : Action Bytes := do
  match ← decmpfsHeader host v inode.oid blockSize with
  | some header => readCompressed host v inode header blockSize
  | none => readStream host v inode.privateId (inode.size.getD 0) blockSize

/-- `data_size`. -/
def dataSize (v : ApfsVolume) (inode : Inode) (blockSize : ℕ) : Action ℕ := do
  match ← decmpfsHeader host v inode.oid blockSize with
  | some header => Program.lift (uncompressedSizeOf host header)
  | none => Program.lift (.ok (inode.size.getD 0))

end Model

section Content

variable {host : Host} {img : Image} {v : ApfsVolume} {blockSize : ℕ}

theorem answers_fillExtent (size : ℕ) (out : Bytes) (ext : FileExtent) :
    Answers img (fillExtent host blockSize size out ext)
      (ApfsCore.fillExtent host img blockSize size out ext) := by
  refine .ite (.done _) ?_
  cases checkedMul ext.physBlockNum blockSize with
  | none => exact .done _
  | some byteOff => exact (answers_readAt img _ _).bind fun _ _ => .done _

theorem answers_readStream (streamOid logicalSize : ℕ) :
    Answers img (readStream host v streamOid logicalSize blockSize)
      (ApfsCore.readStream host img v streamOid logicalSize blockSize) :=
  .ite (.done _) ((answers_listExtents streamOid).bind fun _ _ =>
    .foldlM (fun out ext => answers_fillExtent _ out ext) _ _)

theorem answers_decmpfsHeader (inodeOid : ℕ) :
    Answers img (decmpfsHeader host v inodeOid blockSize)
      (ApfsCore.decmpfsHeader host img v inodeOid blockSize) := by
  refine (answers_getXattr inodeOid _).bind fun value _ => ?_
  cases value with
  | none => exact .done _
  | some value =>
    cases value with
    | embedded bytes => exact .done _
    | stream dstreamOid size => exact .ite (.done _) ((answers_readStream _ _).map _)

theorem answers_resourceFork (inodeOid : ℕ) :
    Answers img (resourceFork host v inodeOid blockSize)
      (ApfsCore.resourceFork host img v inodeOid blockSize) := by
  refine (answers_getXattr inodeOid _).bind fun value _ => ?_
  cases value with
  | none => exact .done _
  | some value =>
    cases value with
    | embedded bytes => exact .done _
    | stream dstreamOid size => exact (answers_readStream _ _).map _

theorem answers_readData (inode : Inode) :
    Answers img (readData host v inode blockSize)
      (ApfsCore.readData host img v inode blockSize) := by
  refine (answers_decmpfsHeader inode.oid).bind fun header _ => ?_
  cases header with
  | none => exact answers_readStream _ _
  | some header =>
    refine (Program.Answers.done _).bind fun compressionType _ => ?_
    refine Program.Answers.bind ?_ fun fork _ => .done _
    exact .ite (answers_resourceFork inode.oid) (.done _)

theorem answers_dataSize (inode : Inode) :
    Answers img (dataSize host v inode blockSize)
      (ApfsCore.dataSize host img v inode blockSize) := by
  refine (answers_decmpfsHeader inode.oid).bind fun header _ => ?_
  cases header <;> exact .done _

end Content

end Cursor

end ApfsCore
