import ApfsCore.Vfs.Names
import ApfsCore.Vfs.Reading
import ApfsCore.Volume.Files

/-!
# A written volume, served through the interface

What a client of the interface sees of a volume that was written: the directories of its contents,
their names by walks from the root, and of each file that lies on the image (`FileOn`) its
attributes and its bytes. Nothing of the trees and blocks is left in these statements, so they say
of the whole crate, from the blocks up to `read_at`, that it undoes the writing of a volume
(`VolumeOn.serves`).
-/

namespace ApfsCore

/-- The interface serves the contents. -/
structure ServesContents (fs : ApfsFs) (host : Host) (img : Image) (c : Contents) : Prop where
  /-- Directories list what the contents have. -/
  read_dir : ∀ oid xid, fs.readDir img (.apfsOid oid xid) = .ok ((c.listing oid).map fs.entryOf)
  /-- A walk from the root ends at the node the names lead to, or at none. -/
  walk : ∀ path, fs.walkNames img (some fs.root) ((pathComponents path).map utf8Bytes) =
    .ok (((pathComponents path).foldlM c.step rootDirInoNum).toOption.map fun oid =>
      .apfsOid oid fs.rootXid)
  /-- The attributes of a file are those of its inode and the length of its data. -/
  node_meta : ∀ i data xid, FileOn host img fs.blockSize c i data →
    fs.nodeMeta host img (.apfsOid i.oid xid) = .ok (buildMeta i data.length)
  /-- A file reads back as its data. -/
  reads : ∀ i data xid, FileOn host img fs.blockSize c i data →
    ReadsBack fs host img (.apfsOid i.oid xid) data
  /-- The runs of a node are its extents. -/
  extents : ∀ oid i xid, c.inode oid = some i →
    fs.extents img (.apfsOid oid xid) .default =
      .ok ((c.extents i.privateId).map (runOf fs.blockSize))
  /-- An id without an inode is refused by every operation that needs one. -/
  missing : ∀ oid xid, c.inode oid = none →
    fs.nodeMeta host img (.apfsOid oid xid) =
        .error (Fault.apfs (.omapUnresolved oid fs.volume.xid)).toVfs ∧
      fs.extents img (.apfsOid oid xid) .default =
        .error (Fault.apfs (.omapUnresolved oid fs.volume.xid)).toVfs ∧
      ∀ off buf, fs.readAt host img (.apfsOid oid xid) .default off buf =
        .error (Fault.apfs (.omapUnresolved oid fs.volume.xid)).toVfs

section Served

variable {fs : ApfsFs} {host : Host} {img : Image} {mappings tree : Shape ℕ Entry} {c : Contents}

/-- A walk goes from directory to directory as the contents have them. -/
theorem walkNames_eq (h : VolumeOn img fs.volume fs.blockSize mappings tree c) (names : List Str)
    (oid : ℕ) :
    fs.walkNames img (some (.apfsOid oid fs.rootXid)) (names.map utf8Bytes) =
      .ok ((names.foldlM c.step oid).toOption.map fun oid => .apfsOid oid fs.rootXid) := by
  induction names generalizing oid with
  | nil => rfl
  | cons name names ih =>
    rw [List.map_cons, ApfsFs.walkNames, lookup_of_listDir (h.listDir_eq oid), ok_bind,
      List.foldlM_cons, Contents.step, Contents.child]
    cases entryNamed name (c.listing oid) with
    | none =>
      rw [Option.map_none, ApfsFs.walkNames]
      rfl
    | some e => exact ih e.fileId

/-- The inode of an id, as it is loaded. -/
theorem VolumeOn.loadInode_of_some (h : VolumeOn img fs.volume fs.blockSize mappings tree c)
    {oid : ℕ} {i : Inode} (hi : c.inode oid = some i) :
    loadInode img fs.volume oid fs.blockSize = .ok i := by
  rw [h.loadInode_eq, Contents.inodeOrId, hi]
  rfl

theorem VolumeOn.loadInode_of_none (h : VolumeOn img fs.volume fs.blockSize mappings tree c)
    {oid : ℕ} (hi : c.inode oid = none) :
    loadInode img fs.volume oid fs.blockSize = fail (.omapUnresolved oid fs.volume.xid) := by
  rw [h.loadInode_eq, Contents.inodeOrId, hi]
  rfl

/-- The data of a file is its content. -/
theorem FileOn.content_eq {i : Inode} {data : Bytes}
    (h : VolumeOn img fs.volume fs.blockSize mappings tree c)
    (hfile : FileOn host img fs.blockSize c i data) (hbits : host.usizeBits = 64) :
    fs.content host img i.oid = .ok data := by
  rw [ApfsFs.content, h.loadInode_of_some hfile.inode, ok_bind, hfile.readData_eq h hbits]

end Served

/-- **A written volume is served as it was written.** From the blocks up to the interface, the
directories, names, attributes, extents and bytes of a written volume come out as they went in. -/
theorem VolumeOn.serves {fs : ApfsFs} {host : Host} {img : Image} {mappings tree : Shape ℕ Entry}
    {c : Contents} (h : VolumeOn img fs.volume fs.blockSize mappings tree c)
    (hbits : host.usizeBits = 64) : ServesContents fs host img c where
  read_dir oid xid := by
    rw [readDir_eq, h.listDir_eq, mapErr_ok, map_ok]
  walk path := walkNames_eq h (pathComponents path) rootDirInoNum
  node_meta i data xid hfile := by
    have hcontent := hfile.content_eq h hbits
    obtain ⟨inode, hinode, hread⟩ := bind_eq_ok.mp hcontent
    rw [h.loadInode_of_some hfile.inode, Except.ok.injEq] at hinode
    subst hinode
    rw [ApfsFs.nodeMeta, oidOf, ok_bind, h.loadInode_of_some hfile.inode, mapErr_ok, ok_bind,
      (size_of_readData hbits hread).1, mapErr_ok, ok_bind]
  reads i data xid hfile := fs.readsBack hbits xid (hfile.content_eq h hbits)
  extents oid i xid hi := by
    rw [ApfsFs.extents, oidOf, ok_bind, requireDefaultStream, ok_bind, h.loadInode_of_some hi,
      mapErr_ok, ok_bind, h.listExtents_eq, mapErr_ok, ok_bind]
  missing oid xid hi := by
    have hload := h.loadInode_of_none hi
    refine ⟨?_, ?_, fun off buf => ?_⟩
    · rw [ApfsFs.nodeMeta, oidOf, ok_bind, hload, fail, mapErr_error, error_bind]
    · rw [ApfsFs.extents, oidOf, ok_bind, requireDefaultStream, ok_bind, hload, fail, mapErr_error,
        error_bind]
    · rw [readAt_eq, ApfsFs.content, hload, fail_bind, fail, mapErr_error, map_error]

end ApfsCore
