import ApfsCore.Vfs.FileSystem
import ApfsCore.Volume.Paths

/-!
# Names and paths through the interface

The interface has names as bytes and knows no paths. `lookup` decodes a name and leaves the rest to
`lookup_child`; `read_dir` encodes the names of a listing. The two agree: `lookup` finds the first
entry of the listing that has the bytes asked for, and a name that is not UTF-8 is that of no entry.
A client that walks a path from the root, one `lookup` a component, therefore ends where
`open_path` ends, and fails where it fails (`walk_agrees_with_open_path`).
-/

namespace ApfsCore

/-- The first entry of a directory whose name has the given bytes. -/
def vfsEntryNamed (name : Bytes) (entries : List VfsEntry) : Option VfsEntry :=
  entries.find? fun entry => entry.name = name

namespace ApfsFs

variable (fs : ApfsFs) (img : Image)

/-- Walk a path from a node, one `lookup` a component, as a client does. The walk ends without an
answer at the first name that is not there. -/
def walkNames : Option FileId → List Bytes → VfsResult (Option FileId)
  | none, _ => .ok none
  | some ino, [] => .ok (some ino)
  | some ino, name :: names => do
    let found ← fs.lookup img ino name
    walkNames found names

end ApfsFs

section Names

variable {fs : ApfsFs} {img : Image}

/-- Encoding keeps names apart. -/
theorem utf8Bytes_injective : Function.Injective utf8Bytes := by
  intro a b h
  rw [← fromUtf8Lossy_utf8Bytes a, h, fromUtf8Lossy_utf8Bytes]

/-- The first entry of that name, before and after the encoding of names. -/
theorem vfsEntryNamed_map_entryOf (name : Str) (entries : List DirEntry) :
    vfsEntryNamed (utf8Bytes name) (entries.map fs.entryOf) =
      (entryNamed name entries).map fs.entryOf := by
  rw [vfsEntryNamed, List.find?_map, entryNamed]
  congr 2
  funext e
  exact decide_eq_decide.mpr utf8Bytes_injective.eq_iff

/-- No entry has a name that is not UTF-8. -/
theorem vfsEntryNamed_of_invalid {name : Bytes} (h : fromUtf8 name = none)
    (entries : List DirEntry) : vfsEntryNamed name (entries.map fs.entryOf) = none := by
  rw [vfsEntryNamed, List.find?_eq_none]
  intro entry hentry heq
  obtain ⟨e, -, rfl⟩ := List.mem_map.mp hentry
  rw [fromUtf8_eq_some_iff.mpr (of_decide_eq_true heq)] at h
  cases h

theorem readDir_eq (oid xid : ℕ) :
    fs.readDir img (.apfsOid oid xid) =
      (fun entries => entries.map fs.entryOf) <$>
        mapErr (listDir img fs.volume oid fs.blockSize) := by
  rw [ApfsFs.readDir, oidOf, ok_bind]
  cases mapErr (listDir img fs.volume oid fs.blockSize) <;> rfl

/-- `lookup` of a name, by the listing of the directory. -/
theorem lookup_eq (oid xid : ℕ) (name : Str) :
    fs.lookup img (.apfsOid oid xid) (utf8Bytes name) =
      (fun entries => (entryNamed name entries).map fun e => .apfsOid e.fileId fs.rootXid) <$>
        mapErr (listDir img fs.volume oid fs.blockSize) := by
  have hname : fromUtf8 (utf8Bytes name) = some name := fromUtf8_eq_some_iff.mpr rfl
  rw [ApfsFs.lookup, oidOf, ok_bind, hname]
  dsimp only
  rw [lookupChild_eq_listDir]
  cases listDir img fs.volume oid fs.blockSize with
  | error f => rfl
  | ok entries =>
    show Except.ok (Option.map _ (Option.map _ (entryNamed name entries))) = _
    rw [Option.map_map]
    rfl

end Names

/-- What `lookup` and `read_dir` say of one directory. -/
structure LooksUpListed (fs : ApfsFs) (img : Image) (parent : FileId) : Prop where
  /-- Where the listing succeeds, `lookup` answers with its first entry of those bytes. -/
  listed : ∀ entries, fs.readDir img parent = .ok entries → ∀ name,
    fs.lookup img parent name = .ok ((vfsEntryNamed name entries).map VfsEntry.id)
  /-- Where the listing fails, so does the lookup, unless the name could not be that of any
  entry. -/
  failed : ∀ e, fs.readDir img parent = .error e → ∀ name,
    fs.lookup img parent name = .error e ∨
      (fs.lookup img parent name = .ok none ∧ fromUtf8 name = none)

/-- **Lookup finds what the listing has.** On every image, of every directory and for every string
of bytes, `lookup` answers with the first entry of `read_dir` whose name is those bytes. -/
theorem lookup_finds_listed (fs : ApfsFs) (img : Image) (parent : FileId) :
    LooksUpListed fs img parent := by
  cases parent with
  | foreign debug =>
    constructor
    · intro entries h
      cases h
    · intro e h name
      rw [ApfsFs.readDir, oidOf, error_bind] at h
      rw [ApfsFs.lookup, oidOf, error_bind]
      cases h
      exact .inl rfl
  | apfsOid oid xid =>
    -- a name that is not UTF-8 is that of no entry, and of any other the listing decides
    have hinvalid : ∀ name, fromUtf8 name = none →
        fs.lookup img (.apfsOid oid xid) name = .ok none := by
      intro name hname
      rw [ApfsFs.lookup, oidOf, ok_bind, hname]
    constructor
    · intro entries h name
      rw [readDir_eq] at h
      obtain ⟨listed, hlisted, rfl⟩ := map_eq_ok.mp h
      cases hname : fromUtf8 name with
      | none => rw [hinvalid name hname, vfsEntryNamed_of_invalid hname, Option.map_none]
      | some text =>
        obtain rfl := fromUtf8_eq_some_iff.mp hname
        rw [lookup_eq, hlisted, map_ok, vfsEntryNamed_map_entryOf, Option.map_map]
        rfl
    · intro e h name
      cases hname : fromUtf8 name with
      | none => exact .inr ⟨hinvalid name hname, rfl⟩
      | some text =>
        obtain rfl := fromUtf8_eq_some_iff.mp hname
        rw [readDir_eq] at h
        rw [lookup_eq]
        cases hlist : mapErr (listDir img fs.volume oid fs.blockSize) with
        | ok entries =>
          rw [hlist, map_ok] at h
          cases h
        | error f =>
          rw [hlist, map_error] at h
          cases h
          exact .inl rfl

/-! ### Paths -/

section Paths

variable {fs : ApfsFs} {img : Image}

/-- What a step of a walk answers, by the listing. -/
theorem lookup_of_listDir {oid : ℕ} {entries : List DirEntry}
    (h : listDir img fs.volume oid fs.blockSize = .ok entries) (xid : ℕ) (name : Str) :
    fs.lookup img (.apfsOid oid xid) (utf8Bytes name) =
      .ok ((entryNamed name entries).map fun e => .apfsOid e.fileId fs.rootXid) := by
  rw [lookup_eq, h, mapErr_ok, map_ok]

/-- A walk along components that lead to a node ends at that node, whatever follows. -/
theorem walkNames_of_listedPath {p q : ℕ} {cs : List Str}
    (h : ListedPath img fs.volume fs.blockSize p cs q) (rest : List Bytes) :
    fs.walkNames img (some (.apfsOid p fs.rootXid)) (cs.map utf8Bytes ++ rest) =
      fs.walkNames img (some (.apfsOid q fs.rootXid)) rest := by
  induction h with
  | refl p => rfl
  | step hlist hentry _ ih =>
    rw [List.map_cons, List.cons_append, ApfsFs.walkNames, lookup_of_listDir hlist, ok_bind,
      hentry, Option.map_some, ih]

end Paths

/-- What a walk of a path and `open_path` say of it. -/
structure WalksAlike (fs : ApfsFs) (img : Image) (path : Str) : Prop where
  /-- A path that leads to an inode is walked to it, and opened as it. -/
  found : ∀ oid, LeadsTo img fs.volume fs.blockSize path oid →
    fs.walkNames img (some fs.root) ((pathComponents path).map utf8Bytes) =
        .ok (some (.apfsOid oid fs.rootXid)) ∧
      openPath img fs.volume path fs.blockSize = loadInode img fs.volume oid fs.blockSize
  /-- A path on which a name is missing is walked to no node, and reported with the directory that
  lacks the name. -/
  missing : ∀ oid, EntryMissing img fs.volume fs.blockSize path oid →
    fs.walkNames img (some fs.root) ((pathComponents path).map utf8Bytes) = .ok none ∧
      openPath img fs.volume path fs.blockSize = fail (.omapUnresolved oid fs.volume.xid)
  /-- A path on which a listing fails fails in the same way for both. -/
  failed : ∀ oid e, ListingFails img fs.volume fs.blockSize path oid e →
    fs.walkNames img (some fs.root) ((pathComponents path).map utf8Bytes) =
        .error (Fault.apfs e).toVfs ∧
      openPath img fs.volume path fs.blockSize = fail e
  /-- One of the three is the case. -/
  exhaustive : (∃ oid, LeadsTo img fs.volume fs.blockSize path oid) ∨
    (∃ oid, EntryMissing img fs.volume fs.blockSize path oid) ∨
      ∃ oid e, ListingFails img fs.volume fs.blockSize path oid e

/-- **A walk by names ends where `open_path` does.** -/
theorem walk_agrees_with_open_path (fs : ApfsFs) (img : Image) (path : Str) :
    WalksAlike fs img path where
  found oid h := by
    have hwalk := walkNames_of_listedPath h []
    rw [List.append_nil] at hwalk
    refine ⟨hwalk, ?_⟩
    rw [openPath_eq_foldlM, h.foldlM_eq_ok, ok_bind]
  missing oid h := by
    obtain ⟨done, c, rest, entries, hpath, hdone, hlist, hmissing⟩ := h
    constructor
    · rw [hpath, List.map_append, List.map_cons, ApfsFs.root,
        walkNames_of_listedPath hdone, ApfsFs.walkNames, lookup_of_listDir hlist, ok_bind,
        entryNamed_eq_none.mpr hmissing, Option.map_none, ApfsFs.walkNames]
    · refine openPath_of_stop hpath hdone ?_
      rw [openComponent_eq_listDir, hlist, ok_bind, entryNamed_eq_none.mpr hmissing]
  failed oid e h := by
    obtain ⟨done, c, rest, hpath, hdone, hlist⟩ := h
    constructor
    · rw [hpath, List.map_append, List.map_cons, ApfsFs.root,
        walkNames_of_listedPath hdone, ApfsFs.walkNames, lookup_eq, hlist]
      rfl
    · refine openPath_of_stop hpath hdone ?_
      rw [openComponent_eq_listDir, hlist, fail_bind]
  exhaustive := by
    rcases listedPath_or_stop (pathComponents path) rootDirInoNum with
      hq | ⟨done, c, rest, p, hpath, hdone, ⟨e, hlist⟩ | ⟨entries, hlist, hmissing⟩⟩
    · exact .inl hq
    · exact .inr (.inr ⟨p, e, done, c, rest, hpath, hdone, hlist⟩)
    · exact .inr (.inl ⟨p, done, c, rest, entries, hpath, hdone, hlist, hmissing⟩)

end ApfsCore
