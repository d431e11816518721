import ApfsCore.Tree.Btree

/-!
# File-system records

The record decoders: the key word (`fsrecord.rs`), extended fields, and the values of the
record types the crate reads (`inode.rs`, `dir.rs`, `xattr.rs`, `extent.rs`). A record is an
entry of the file-system tree; its key starts with a word that packs an object id and a
record type.
-/

namespace ApfsCore

/-! ### Keys -/

/-- `RecordType`. -/
inductive RecordType where
  | snapMetadata
  | extent
  | inode
  | xattr
  | siblingLink
  | dstreamId
  | cryptoState
  | fileExtent
  | dirRec
  | dirStats
  | snapName
  | siblingMap
  | fileInfo
  deriving DecidableEq, Repr

/-- `RecordType::from_u4`. -/
def RecordType.fromU4 : ℕ → Option RecordType
  | 1 => some .snapMetadata
  | 2 => some .extent
  | 3 => some .inode
  | 4 => some .xattr
  | 5 => some .siblingLink
  | 6 => some .dstreamId
  | 7 => some .cryptoState
  | 8 => some .fileExtent
  | 9 => some .dirRec
  | 10 => some .dirStats
  | 11 => some .snapName
  | 12 => some .siblingMap
  | 13 => some .fileInfo
  | _ => none

/-- `OBJ_ID_MASK`. -/
def objIdMask : ℕ := 0x0fffffffffffffff

/-- `decode_jkey`. -/
def decodeJkey (objIdAndType : ℕ) : ℕ × Option RecordType :=
  (objIdAndType &&& objIdMask, RecordType.fromU4 ((objIdAndType >>> 60) &&& 0xf))

/-- The key word of a record of the given type code and object id. -/
def encodeJkey (code oid : ℕ) : Bytes :=
  leBytes 8 (code * 2 ^ 60 + oid)

/-- The object id of a record. -/
def Entry.oid (e : Entry) : ℕ :=
  (decodeJkey (leU64 e.key 0)).1

/-- The type of a record, if it is a defined one. -/
def Entry.recordType (e : Entry) : Option RecordType :=
  (decodeJkey (leU64 e.key 0)).2

/-! ### Extended fields -/

/-- `MAX_XF_NUM_EXTS`. -/
def maxXfNumExts : ℕ := 4096

/-- The descriptor loop of `parse_xfields`: `n` descriptors from number `i` on, with the value
data at `valueOff`. A value that leaves the blob ends the walk. -/
def xfieldsFrom (data : Bytes) : ℕ → ℕ → ℕ → List (UInt8 × Bytes)
  | 0, _, _ => []
  | n + 1, i, valueOff =>
    let d := 4 + i * 4
    let xSize := leU16 data (d + 2)
    match slice data valueOff (valueOff + xSize) with
    | none => []
    | some value =>
      (data.getD d 0, value) :: xfieldsFrom data n (i + 1) (valueOff + (xSize + 7) / 8 * 8)

/-- `parse_xfields`. -/
def parseXfields (data : Bytes) : List (UInt8 × Bytes) :=
  if data.length < 4 then []
  else
    let num := min (leU16 data 0) maxXfNumExts
    let descEnd := num * 4 + 4
    if descEnd > data.length then [] else xfieldsFrom data num 0 descEnd

/-! ### Inodes -/

/-- A parsed inode. -/
structure Inode where
  oid : ℕ
  parentId : ℕ
  privateId : ℕ
  createTime : ℕ
  modTime : ℕ
  changeTime : ℕ
  accessTime : ℕ
  internalFlags : ℕ
  nlinkOrNchildren : ℤ
  bsdFlags : ℕ
  uid : ℕ
  gid : ℕ
  mode : ℕ
  name : Option Str
  size : Option ℕ
  deriving DecidableEq

/-- The extended fields of an inode value. -/
def inodeXfields (value : Bytes) : List (UInt8 × Bytes) :=
  if value.length > 92 then parseXfields (value.drop 92) else []

/-- `Inode::parse`. Of several name or data-stream fields the last one counts. -/
def Inode.parse (oid : ℕ) (value : Bytes) : Result Inode :=
  .ok
    { oid
      parentId := leU64 value 0
      privateId := leU64 value 8
      createTime := leU64 value 16
      modTime := leU64 value 24
      changeTime := leU64 value 32
      accessTime := leU64 value 40
      internalFlags := leU64 value 48
      nlinkOrNchildren := (BitVec.ofNat 32 (leU32 value 56)).toInt
      bsdFlags := leU32 value 68
      uid := leU32 value 72
      gid := leU32 value 76
      mode := leU16 value 80
      name := (inodeXfields value).foldl
        (fun name f => if f.1 = 4 then some (decodeCstr f.2) else name) none
      size := (inodeXfields value).foldl
        (fun size f => if f.1 = 8 then some (leU64 f.2 0) else size) none }

/-! ### Directory entries -/

/-- A directory entry. -/
structure DirEntry where
  name : Str
  fileId : ℕ
  dateAdded : ℕ
  flags : ℕ
  deriving DecidableEq

/-- `decode_drec_name`: the hashed key form if its length fits the key, otherwise the unhashed
one. -/
def decodeDrecName (key : Bytes) : Option Str :=
  let hashedLen := leU32 key 8 &&& 0x3ff
  match if hashedLen > 0 then slice key 12 (12 + hashedLen) else none with
  | some name => some (decodeCstr name)
  | none =>
    let unhashedLen := leU16 key 8
    match if unhashedLen > 0 then slice key 10 (10 + unhashedLen) else none with
    | some name => some (decodeCstr name)
    | none => none

/-- `parse_dir_entry`. -/
def parseDirEntry (key value : Bytes) : Option DirEntry :=
  match decodeDrecName key with
  | none => none
  | some name => some
    { name, fileId := leU64 value 0, dateAdded := leU64 value 8, flags := leU16 value 16 }

/-- The directory record of a one-byte name, with an unhashed key. -/
def encodeDirEntry (parentOid : ℕ) (name : UInt8) (fileId : ℕ) : Entry where
  key := encodeJkey 9 parentOid ++ leBytes 2 2 ++ [name, 0]
  value := leBytes 8 fileId

/-! ### Extended attributes -/

/-- `XATTR_DATA_STREAM`. -/
def xattrDataStream : ℕ := 0x0001

/-- Where an attribute's value lives. -/
inductive XattrValue where
  | embedded (bytes : Bytes)
  | stream (dstreamOid size : ℕ)
  deriving DecidableEq

/-- A parsed extended attribute. -/
structure Xattr where
  name : Str
  flags : ℕ
  value : XattrValue
  deriving DecidableEq

/-- The value part of `parse_xattr`. -/
def parseXattrValue (value : Bytes) : XattrValue :=
  let xdata := (slice value 4 (4 + leU16 value 2)).getD []
  if leU16 value 0 &&& xattrDataStream ≠ 0 then .stream (leU64 xdata 0) (leU64 xdata 8)
  else .embedded xdata

/-- `parse_xattr`. -/
def parseXattr (key value : Bytes) : Option Xattr :=
  let nameLen := leU16 key 8
  if nameLen = 0 then none
  else
    match slice key 10 (10 + nameLen) with
    | none => none
    | some nameBytes => some
      { name := decodeCstr nameBytes
        flags := leU16 value 0
        value := parseXattrValue value }

/-! ### File extents -/

/-- `J_FILE_EXTENT_LEN_MASK`. -/
def jFileExtentLenMask : ℕ := 0x00ffffffffffffff

/-- A file extent. -/
structure FileExtent where
  logicalOffset : ℕ
  len : ℕ
  physBlockNum : ℕ
  deriving DecidableEq, Repr

/-- The extent of a `FILE_EXTENT` record. -/
def FileExtent.ofEntry (e : Entry) : FileExtent where
  logicalOffset := leU64 e.key 8
  len := leU64 e.value 0 &&& jFileExtentLenMask
  physBlockNum := leU64 e.value 8

end ApfsCore
