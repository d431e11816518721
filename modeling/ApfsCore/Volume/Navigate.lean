import ApfsCore.Format.Host
import ApfsCore.General.Overlay
import ApfsCore.Volume.FsTree
import Mathlib.Data.List.Sort

/-!
# Directories, inodes, attributes and extents

The navigation of `dir.rs`, `xattr.rs` and `extent.rs`. Each operation runs the keyed walk for
one object id and filters what it delivers; the filter is a definition of its own
(`dirEntries`, `childNamed`, `inodeValue`, `xattrs`, `fileExtents`), a function of the records
visited.
-/

namespace ApfsCore

/-! ### Directories -/

/-- `ROOT_DIR_INO_NUM`. -/
def rootDirInoNum : ℕ := 2

/-- The directory entry of a record, if it is one of the directory `parentOid` and its name
decodes. -/
def dirEntryOf (parentOid : ℕ) (e : Entry) : Option DirEntry :=
  if e.recordType ≠ some .dirRec ∨ e.oid ≠ parentOid then none else parseDirEntry e.key e.value

/-- The entries of a directory among the records visited. -/
def dirEntries (parentOid : ℕ) (rs : List Entry) : List DirEntry :=
  rs.filterMap (dirEntryOf parentOid)

/-- The first child of that name among the records visited. -/
def childNamed (parentOid : ℕ) (name : Str) (rs : List Entry) : Option ℕ :=
  rs.findSome? fun e =>
    match dirEntryOf parentOid e with
    | none => none
    | some entry => if entry.name = name then some entry.fileId else none

/-- `list_dir`. -/
def listDir (img : Image) (v : ApfsVolume) (parentOid blockSize : ℕ) : Result (List DirEntry) :=
  dirEntries parentOid <$> forEachFsRecordForOid img v blockSize parentOid

/-- `lookup_child`. -/
def lookupChild (img : Image) (v : ApfsVolume) (parentOid : ℕ) (name : Str) (blockSize : ℕ) :
    Result (Option ℕ) :=
  childNamed parentOid name <$> forEachFsRecordForOid img v blockSize parentOid

/-- The value of the first inode record among the records visited. -/
def inodeValue (oid : ℕ) (rs : List Entry) : Option Bytes :=
  rs.findSome? fun e =>
    if e.recordType = some .inode ∧ e.oid = oid then some e.value else none

/-- The inode `load_inode` makes of the records visited. -/
def inodeOf (oid xid : ℕ) (rs : List Entry) : Result Inode :=
  match inodeValue oid rs with
  | none => fail (.omapUnresolved oid xid)
  | some value => Inode.parse oid value

/-- `load_inode`. -/
def loadInode (img : Image) (v : ApfsVolume) (oid blockSize : ℕ) : Result Inode := do
  let rs ← forEachFsRecordForOid img v blockSize oid
  inodeOf oid v.xid rs

/-- One component of `open_path`. -/
def openComponent (img : Image) (v : ApfsVolume) (blockSize current : ℕ) (component : Str) :
    Result ℕ := do
  match ← lookupChild img v current component blockSize with
  | some child => .ok child
  | none => fail (.omapUnresolved current v.xid)

/-- `open_path`. -/
def openPath (img : Image) (v : ApfsVolume) (path : Str) (blockSize : ℕ) : Result Inode := do
  let components := (path.splitOn '/').filter (· ≠ [])
  let current ← components.foldlM (openComponent img v blockSize) rootDirInoNum
  loadInode img v current blockSize

/-! ### Extended attributes -/

/-- The attributes of an inode among the records visited. -/
def xattrs (inodeOid : ℕ) (rs : List Entry) : List Xattr :=
  rs.filterMap fun e =>
    if e.recordType ≠ some .xattr ∨ e.oid ≠ inodeOid then none else parseXattr e.key e.value

/-- `list_xattrs`. -/
def listXattrs (img : Image) (v : ApfsVolume) (inodeOid blockSize : ℕ) : Result (List Xattr) :=
  xattrs inodeOid <$> forEachFsRecordForOid img v blockSize inodeOid

/-- The value of the first attribute of that name. -/
def xattrNamed (name : Str) (xs : List Xattr) : Option XattrValue :=
  (xs.find? fun x => x.name == name).map Xattr.value

/-- `get_xattr`. -/
def getXattr (img : Image) (v : ApfsVolume) (inodeOid : ℕ) (name : Str) (blockSize : ℕ) :
    Result (Option XattrValue) :=
  xattrNamed name <$> listXattrs img v inodeOid blockSize

/-- `XATTR_NAME_SYMLINK`. -/
def xattrNameSymlink : Str := "com.apple.fs.symlink".toList

/-- `symlink_target`. -/
def symlinkTarget (img : Image) (v : ApfsVolume) (inodeOid blockSize : ℕ) :
    Result (Option Str) := do
  match ← getXattr img v inodeOid xattrNameSymlink blockSize with
  | some (.embedded bytes) => .ok (some (decodeCstr bytes))
  | some (.stream _ _) => .ok none
  | none => .ok none

/-! ### Extents -/

/-- The extents of a data stream among the records visited. -/
def fileExtents (streamOid : ℕ) (rs : List Entry) : List FileExtent :=
  rs.filterMap fun e =>
    if e.recordType ≠ some .fileExtent ∨ e.oid ≠ streamOid then none
    else some (FileExtent.ofEntry e)

/-- The stable `sort_by_key` of a list of extents. -/
def sortExtents (exts : List FileExtent) : List FileExtent :=
  exts.insertionSort fun a b => a.logicalOffset ≤ b.logicalOffset

/-- `list_extents`. -/
def listExtents (img : Image) (v : ApfsVolume) (streamOid blockSize : ℕ) :
    Result (List FileExtent) := do
  let rs ← forEachFsRecordForOid img v blockSize streamOid
  .ok (sortExtents (fileExtents streamOid rs))

/-- `MAX_FILE_BYTES`. -/
def maxFileBytes : ℕ := 2 ^ 34

/-- One extent of `read_stream`: the part of it below the stream's size is read over the
buffer. Holes and extents past the end leave it as it is. -/
def fillExtent (host : Host) (img : Image) (blockSize size : ℕ) (out : Bytes) (ext : FileExtent) :
    Result Bytes :=
  let start := host.asUsize ext.logicalOffset
  if start ≥ size ∨ ext.physBlockNum = 0 then .ok out
  else
    let copyLen := min (host.asUsize ext.len) (size - start)
    match checkedMul ext.physBlockNum blockSize with
    | none =>
      fail (.fieldOutOfRange "j_file_extent" "phys_block_num" ext.physBlockNum
        ((2 ^ 64 - 1) / blockSize))
    | some byteOff => do
      let data ← img.readExact byteOff copyLen
      .ok (overwrite out start data)

/-- `read_stream`. -/
def readStream (host : Host) (img : Image) (v : ApfsVolume)
    (streamOid logicalSize blockSize : ℕ) : Result Bytes :=
  if logicalSize > maxFileBytes then
    fail (.fieldOutOfRange "j_dstream" "size" logicalSize maxFileBytes)
  else do
    let extents ← listExtents img v streamOid blockSize
    let size := host.asUsize logicalSize
    extents.foldlM (fillExtent host img blockSize size) (List.replicate size 0)

/-! ### Failures -/

section Failures

variable (img : Image) (v : ApfsVolume) (blockSize : ℕ)

theorem named_loadInode (oid : ℕ) : Named (loadInode img v oid blockSize) := by
  refine (named_walkFsTree img v blockSize (some oid)).bind fun rs _ => ?_
  rw [inodeOf]
  cases inodeValue oid rs with
  | none => exact named_fail _
  | some value => exact .ok _

theorem named_listExtents (streamOid : ℕ) : Named (listExtents img v streamOid blockSize) :=
  (named_walkFsTree img v blockSize (some streamOid)).bind fun _ _ => .ok _

theorem named_fillExtent (host : Host) (size : ℕ) (out : Bytes) (ext : FileExtent) :
    Named (fillExtent host img blockSize size out ext) := by
  rw [fillExtent]
  refine .ite (.ok out) ?_
  cases checkedMul ext.physBlockNum blockSize with
  | none => exact named_fail _
  | some byteOff => exact (img.named_readExact _ _).bind fun _ _ => .ok _

theorem named_readStream (host : Host) (streamOid logicalSize : ℕ) :
    Named (readStream host img v streamOid logicalSize blockSize) :=
  .ite (named_fail _) <| (named_listExtents img v blockSize streamOid).bind fun _ _ =>
    ErrorsIn.foldlM (fun out ext _ => named_fillExtent img blockSize host _ out ext) _

end Failures

end ApfsCore
