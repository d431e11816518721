import ApfsCore.Content.ReadData
import ApfsCore.Format.Text
import ApfsCore.General.Panics
import ApfsCore.Volume.Mount

/-!
# A mounted volume as a file system

`impl FileSystem for ApfsFs` of `vfs.rs`: the mounted volume seen through the interface of
`forensic_vfs`. Nodes are named by `FileId`s, names are bytes, content is read window by window,
and an error of the crate becomes an error of the interface. No parsing is added: each operation
is one or two operations of the crate, run under the lock that guards the reader. The lock is not
part of these definitions; what happens while several threads contend for it is a matter of
`Vfs.Workers`.

The types of the interface belong to another crate. Of each only what this one builds or inspects
is modelled.
-/

namespace ApfsCore

/-! ### The interface -/

/-- `FileId`. Identifiers of other file systems are known by their debug text. -/
inductive FileId where
  | apfsOid (oid xid : ℕ)
  | foreign (debug : Str)
  deriving DecidableEq

/-- `StreamId`. Named streams are known by their debug text. -/
inductive StreamId where
  | default
  | named (debug : Str)
  deriving DecidableEq

/-- `VfsError`. -/
inductive VfsError where
  | unsupported (layer : String) (scheme : Str)
  | io (op : String)
  | decode (layer : String) (offset : ℕ) (detail : Str) (bytes : Bytes)
  | bootstrap (stage detail : String)
  deriving DecidableEq

/-- `VfsResult`. A panic is kept apart from the errors that are returned. -/
abbrev VfsResult (α : Type) := Except (Stop VfsError) α

/-- `NodeKind`. -/
inductive NodeKind where
  | dir
  | file
  | symlink
  | other
  deriving DecidableEq

/-- `DirEntry` of the interface. -/
structure VfsEntry where
  name : Bytes
  id : FileId
  kind : NodeKind
  deriving DecidableEq

/-- `RunInfo`. Every run is allocated, and `sparse` is the only flag that is set. -/
structure RunInfo where
  imageOffset : ℕ
  len : ℕ
  sparse : Bool
  deriving DecidableEq

/-- `TimeStamp`: nanoseconds since 1970, taken from the inode table. -/
structure TimeStamp where
  unixNanos : ℤ
  deriving DecidableEq

/-- `MacbTimes`. -/
structure MacbTimes where
  born : Option TimeStamp
  modified : Option TimeStamp
  changed : Option TimeStamp
  accessed : Option TimeStamp
  deriving DecidableEq

/-- `FsMeta`. The node is always allocated and not resident. -/
structure FsMeta where
  ino : ℕ
  kind : NodeKind
  size : ℕ
  nlink : ℕ
  uid : Option ℕ
  gid : Option ℕ
  mode : Option ℕ
  times : MacbTimes
  streams : List StreamId
  linkTarget : Option Bytes
  deriving DecidableEq

/-! ### Errors -/

/-- `{n}`. -/
def decText (n : ℕ) : Str :=
  Nat.toDigits 10 n

/-- `{n:#x}`, padded with zeros to `width` digits. -/
def hexText (width n : ℕ) : Str :=
  "0x".toList ++ (Nat.toDigits 16 n).leftpad width '0'

/-- The `Display` text of an error. -/
def ApfsError.text : ApfsError → Str
  | .io => "i/o error: failed to fill whole buffer".toList
  | .noValidSuperblock checked lastMagic =>
    "no valid NXSB superblock found (checked ".toList ++ decText checked ++
      " checkpoint slots; last magic seen: ".toList ++ hexText 8 lastMagic ++ ")".toList
  | .checksumMismatch block stored computed =>
    "object checksum mismatch at block ".toList ++ decText block ++ ": stored ".toList ++
      hexText 16 stored ++ ", computed ".toList ++ hexText 16 computed
  | .omapUnresolved oid xid =>
    "omap could not resolve virtual oid ".toList ++ hexText 0 oid ++ " at xid ".toList ++
      decText xid
  | .unexpectedObjectType record expected found =>
    "unexpected object type in ".toList ++ record.toList ++ ": expected ".toList ++
      hexText 4 expected ++ ", found ".toList ++ hexText 8 found
  | .unsupportedFusion =>
    ("unsupported Fusion container (tier-2 device present); " ++
      "Fusion addressing not yet implemented").toList
  | .unsupportedSpacemanCab count =>
    "unsupported space-manager CAB tier (sm_cab_count = ".toList ++ decText count ++
      "); only inline CIB layout is implemented".toList
  | .fieldOutOfRange record field value cap =>
    "structural field out of range in ".toList ++ record.toList ++ ": ".toList ++ field.toList ++
      " = ".toList ++ decText value ++ " (cap ".toList ++ decText cap ++ ")".toList
  | .cycleGuard cap =>
    "tree walk exceeded depth cap ".toList ++ decText cap ++
      " (possible cyclic object graph)".toList
  | .checkpointTreeUnsupported area =>
    "checkpoint ".toList ++ area.toList ++
      " area is tree-backed; B-tree resolution not yet implemented".toList
  | .snapshotNotFound xid =>
    "no snapshot with transaction id ".toList ++ decText xid ++
      " (and it is not the live volume's xid)".toList
  | .decmpfs reason => "decmpfs decode failure: ".toList ++ reason.toList

/-- `map_err`, on a single failure. -/
def Fault.toVfs : Fault → Stop VfsError
  | .apfs .io => .error (.io "apfs read")
  | .apfs e => .error (.decode "apfs" 0 e.text [])
  | .overflow => .panic .overflow

/-- `.map_err(map_err)`. -/
def mapErr {α : Type} (x : Result α) : VfsResult α :=
  x.mapError Fault.toVfs

@[simp] theorem mapErr_ok {α : Type} (a : α) : mapErr (.ok a : Result α) = .ok a := rfl

@[simp] theorem mapErr_error {α : Type} (f : Fault) :
    mapErr (.error f : Result α) = .error f.toVfs := rfl

theorem mapErr_bind {α β : Type} (x : Result α) (f : α → Result β) :
    mapErr (x >>= f) = mapErr x >>= fun a => mapErr (f a) := by
  cases x with
  | error e => rfl
  | ok a => rfl

/-- `poisoned`. -/
def poisoned : VfsError :=
  .bootstrap "apfs reader lock" "interior reader mutex poisoned"

/-- `oid_of`. -/
def oidOf : FileId → VfsResult ℕ
  | .apfsOid oid _ => .ok oid
  | .foreign debug => .error (.error (.unsupported "apfs file-id" debug))

/-- `require_default_stream`. -/
def requireDefaultStream : StreamId → VfsResult Unit
  | .default => .ok ()
  | .named debug => .error (.error (.unsupported "apfs stream" debug))

/-! ### Attributes -/

/-- `dt_to_kind`. -/
def dtToKind (flags : ℕ) : NodeKind :=
  if flags &&& 0x0F = 4 then .dir
  else if flags &&& 0x0F = 8 then .file
  else if flags &&& 0x0F = 10 then .symlink
  else .other

/-- `mode_to_kind`. -/
def modeToKind (mode : ℕ) : NodeKind :=
  if mode &&& 0xF000 = 0x4000 then .dir
  else if mode &&& 0xF000 = 0x8000 then .file
  else if mode &&& 0xF000 = 0xA000 then .symlink
  else .other

/-- `build_meta`. -/
def buildMeta (inode : Inode) (size : ℕ) : FsMeta where
  ino := inode.oid
  kind := modeToKind inode.mode
  size
  nlink := (max inode.nlinkOrNchildren 0).toNat
  uid := some inode.uid
  gid := some inode.gid
  mode := some inode.mode
  times :=
    { born := some ⟨inode.createTime⟩
      modified := some ⟨inode.modTime⟩
      changed := some ⟨inode.changeTime⟩
      accessed := some ⟨inode.accessTime⟩ }
  streams := []
  linkTarget := none

/-- The run of an extent. -/
def runOf (blockSize : ℕ) (ext : FileExtent) : RunInfo where
  imageOffset := saturatingMul ext.physBlockNum blockSize
  len := ext.len
  sparse := ext.physBlockNum == 0

/-! ### The operations -/

namespace ApfsFs

variable (fs : ApfsFs) (host : Host) (img : Image)

/-- `root`. -/
def root : FileId :=
  .apfsOid rootDirInoNum fs.rootXid

/-- An entry of a directory, as the interface has it. -/
def entryOf (e : DirEntry) : VfsEntry where
  name := utf8Bytes e.name
  id := .apfsOid e.fileId fs.rootXid
  kind := dtToKind e.flags

/-- `read_dir`. -/
def readDir (ino : FileId) : VfsResult (List VfsEntry) := do
  let parent ← oidOf ino
  let entries ← mapErr (listDir img fs.volume parent fs.blockSize)
  .ok (entries.map fs.entryOf)

/-- `extents`. -/
def extents (ino : FileId) (stream : StreamId) : VfsResult (List RunInfo) := do
  let node ← oidOf ino
  requireDefaultStream stream
  let inode ← mapErr (loadInode img fs.volume node fs.blockSize)
  let exts ← mapErr (listExtents img fs.volume inode.privateId fs.blockSize)
  .ok (exts.map (runOf fs.blockSize))

/-- `lookup`. A name that is not UTF-8 is answered without a look at the volume. -/
def lookup (parent : FileId) (name : Bytes) : VfsResult (Option FileId) := do
  let parent ← oidOf parent
  match fromUtf8 name with
  | none => .ok none
  | some name => do
    let found ← mapErr (lookupChild img fs.volume parent name fs.blockSize)
    .ok (found.map fun oid => .apfsOid oid fs.rootXid)

/-- `meta`. -/
def nodeMeta (ino : FileId) : VfsResult FsMeta := do
  let node ← oidOf ino
  let inode ← mapErr (loadInode img fs.volume node fs.blockSize)
  let size ← mapErr (dataSize host img fs.volume inode fs.blockSize)
  .ok (buildMeta inode size)

/-- The window of `data` that `read_at` copies into `buf`: how many bytes, and the buffer
after. -/
def window (data : Bytes) (off : ℕ) (buf : Bytes) : ℕ × Bytes :=
  let start := if off < 2 ^ host.usizeBits then off else 2 ^ host.usizeBits - 1
  if start ≥ data.length then (0, buf)
  else
    let n := min buf.length (data.length - start)
    match slice data start (start + n) with
    | some src => (n, overwrite buf 0 src)
    | none => (0, buf)

/-- `read_at`: the number of bytes read, and the buffer after. -/
def readAt (ino : FileId) (stream : StreamId) (off : ℕ) (buf : Bytes) : VfsResult (ℕ × Bytes) := do
  let node ← oidOf ino
  requireDefaultStream stream
  let inode ← mapErr (loadInode img fs.volume node fs.blockSize)
  let data ← mapErr (readData host img fs.volume inode fs.blockSize)
  .ok (window host data off buf)

/-- `read_link`: every link reads as an empty target. -/
def readLink (_fs : ApfsFs) (_ino : FileId) (_cap : ℕ) : VfsResult Bytes :=
  .ok []

/-- `deleted`: no nodes. -/
def deleted (_fs : ApfsFs) : VfsResult (List FileId) :=
  .ok []

/-- `unallocated`: no runs. -/
def unallocated (_fs : ApfsFs) : VfsResult (List RunInfo) :=
  .ok []

end ApfsFs

end ApfsCore
